import Cyanide.Services.Requests
import Cyanide.Shell.History
import Cyanide.Shell.PermStrings
import Cyanide.Vfs.Fresh

/-!
# Permission strings of a run

A node shows the permission string of its entry, or a default for its kind.  What the filesystem writes has the form of
a permission string, and `chmod` keeps it (`permed_apply`), so that in every run of requests all nodes have it just when
the entries of the start do (`modesKept_iff`).  A compiled profile does not see to this: a directory without a
permission string gets that of a file (`permed_compileRow_iff`).
-/

namespace Cyanide

open PosixPath PyText Transition

/-! ### Entries -/

/-- The permission string, if there is one, has the form of the kind. -/
def Config.Permed (dir : Bool) (config : Config) : Prop := ∀ perm ∈ config.perm, PermFormat dir perm

namespace Layer

def Permed : Layer → Prop
  | overlay config | row config => config.Permed (config.type = some typeDir)
  | dynamic config => config.Permed false
  | deleted | implicit | missing => True

theorem permFormat_file : PermFormat false "-rw-r--r--".toList := permFormat_permString false 0o644

theorem permFormat_dir : PermFormat true "drwxr-xr-x".toList := permFormat_permString true 0o755

private theorem permed_virtualFile (now : ℕ) (name : Str) (config : Config) :
    config.Permed false ↔ PermFormat false (virtualFile now name config).perm := by
  unfold Config.Permed virtualFile
  cases config.perm with
  | none => exact iff_of_true (fun _ h => absurd h (Option.not_mem_none _)) permFormat_file
  | some perm => simp

private theorem permed_virtualDirectory (now : ℕ) (name : Str) (config : Config) :
    config.Permed true ↔ PermFormat true (virtualDirectory now name config).perm := by
  unfold Config.Permed virtualDirectory
  cases config.perm with
  | none => exact iff_of_true (fun _ h => absurd h (Option.not_mem_none _)) permFormat_dir
  | some perm => simp

/-- The entry in force has the form when the node shows it. -/
theorem permed_iff_of_node {now : ℕ} {path : Str} {l : Layer} {node : Node} (hnode : l.node now path = some node) :
    l.Permed ↔ PermFormat node.isDir node.perm := by
  cases l with
  | deleted => cases hnode
  | missing =>
    rw [Layer.node] at hnode
    split at hnode <;> cases hnode
    exact iff_of_true trivial permFormat_dir
  | implicit =>
    cases hnode
    exact iff_of_true trivial permFormat_dir
  | dynamic config =>
    cases hnode
    exact permed_virtualFile _ _ config
  | overlay config =>
    cases hnode
    by_cases htype : config.type = some typeDir
    · rw [Permed, if_pos htype, decide_eq_true htype]
      exact permed_virtualDirectory _ _ config
    · rw [Permed, if_neg htype, decide_eq_false htype]
      exact permed_virtualFile _ _ config
  | row config =>
    cases hnode
    by_cases htype : config.type = some typeDir
    · rw [Permed, if_pos htype, decide_eq_true htype]
      exact permed_virtualDirectory _ _ config
    · rw [Permed, if_neg htype, decide_eq_false htype]
      exact permed_virtualFile _ _ config

theorem permed_of_no_node {now : ℕ} {path : Str} {l : Layer} (hnode : l.node now path = none) : l.Permed := by
  cases l with
  | deleted => trivial
  | missing => trivial
  | implicit => trivial
  | overlay config | row config | dynamic config => cases hnode

end Layer

/-- The row that a manifest entry is compiled to has the form just when its permission string has, or the one of a file
that it gets by default. -/
theorem permed_compileRow_iff (now : ℕ) (path : Str) (config : Config) :
    (Layer.row (compileRow now path config).toConfig).Permed ↔
      PermFormat (config.type = some typeDir) (config.perm.getD "-rw-r--r--".toList) := by
  have htype : decide ((compileRow now path config).toConfig.type = some typeDir) =
      decide (config.type = some typeDir) := by
    cases ht : config.type with
    | none => simp [compileRow, Row.toConfig, ht]
    | some t => simp [compileRow, Row.toConfig, ht]
  rw [Layer.Permed, htype]
  constructor
  · exact fun h => h _ rfl
  · intro h perm hperm
    obtain rfl := Option.some.inj hperm
    exact h

namespace FakeFilesystem

variable {s : FakeFilesystem}

/-- All entries in force have permission strings of the form. -/
def Permed (s : FakeFilesystem) : Prop := ∀ q, resolve q = q → (s.layer q).Permed

theorem permed_iff : s.Permed ↔ ∀ path node, s.getNode path = some node → PermFormat node.isDir node.perm := by
  constructor
  · intro h path node hnode
    rw [getNode_eq] at hnode
    exact (Layer.permed_iff_of_node hnode).1 (h _ (resolve_resolve path))
  · intro h q hq
    cases hnode : s.getNode q with
    | none =>
      rw [getNode_eq, hq] at hnode
      exact Layer.permed_of_no_node hnode
    | some node =>
      have hformat := h q node hnode
      rw [getNode_eq, hq] at hnode
      exact (Layer.permed_iff_of_node hnode).2 hformat

/-! ### One operation -/

/-- What the operation writes has the form, for the kind of node that it writes. -/
def WritesPerm (s : FakeFilesystem) : Op → Prop
  | .mkfile _ _ _ _ perm => PermFormat false perm
  | .mkdirP _ _ _ perm => PermFormat true perm
  | .chmod path perm => ∀ node, s.getNode path = some node → PermFormat node.isDir perm
  | .getContent .. | .chown .. | .remove _ | .tick _ => True

private theorem permed_overlay {path : Str} {s' : FakeFilesystem} {config : Config} (h : s.Permed)
    (hconfig : (Layer.overlay config).Permed)
    (hlayer : ∀ x, s'.layer x = if x = resolve path then .overlay config else s.layer x) : s'.Permed := by
  intro q hq
  rw [hlayer]
  split_ifs
  · exact hconfig
  · exact h q hq

/-- The entry that `chmod` and `chown` start from is of the kind of the node. -/
private theorem type_entry {path : Str} {node : Node} (hnode : s.getNode path = some node) {entry : Config}
    (hentry : s.layer (resolve path) = .overlay entry ∨ entry.type = (s.materialize (resolve path) node).1.type) :
    decide (entry.type = some typeDir) = node.isDir := by
  rcases hentry with hl | htype
  · have hdir := s.getNode_dir_eq path
    rw [hnode, hl] at hdir
    exact (Option.some.inj hdir).symm
  · rw [htype]
    unfold materialize
    cases node.isDir <;> rfl

private theorem permed_chmod (h : s.Permed) {path perm : Str} (hwrites : s.WritesPerm (.chmod path perm)) :
    (s.chmod path perm).2.Permed := by
  cases hnode : s.getNode path with
  | none =>
    simp only [chmod, getNode_resolve, hnode]
    exact h
  | some node =>
    obtain ⟨entry, hentry, hlayer⟩ := chmod_entry hnode perm
    refine permed_overlay h ?_ hlayer
    intro perm' hperm
    obtain rfl := Option.some.inj hperm
    have htype := type_entry hnode (hentry.imp id fun h => congrArg Config.type h)
    rw [htype]
    exact hwrites node hnode

private theorem permed_chown (h : s.Permed) (path : Str) (owner group : Option Str) :
    (s.chown path owner group).2.Permed := by
  cases hnode : s.getNode path with
  | none =>
    simp only [chown, getNode_resolve, hnode]
    exact h
  | some node =>
    obtain ⟨entry, hentry, hlayer⟩ := chown_entry hnode owner group
    refine permed_overlay h ?_ hlayer
    rcases hentry with hl | rfl
    -- an entry keeps its permission string, and a new one has that of the node
    · have hold := h _ (resolve_resolve path)
      rw [hl] at hold
      exact hold
    · intro perm' hperm
      obtain rfl := Option.some.inj hperm
      have htype := type_entry hnode (.inr (rfl : (s.materialize (resolve path) node).1.type = _))
      have hformat := permed_iff.1 h path node hnode
      rw [← htype] at hformat
      exact hformat

/-- An operation that writes permission strings of the form keeps them in all entries. -/
theorem permed_apply (h : s.Permed) {op : Op} (hwrites : s.WritesPerm op) : (op.apply s).Permed := by
  cases op with
  | getContent path args =>
    intro q hq
    rw [Op.apply, layer_getContent]
    exact h q hq
  | mkfile path content owner group perm =>
    intro q hq
    rw [Op.apply, layer_mkfile]
    split_ifs
    · intro perm' hperm
      obtain rfl := Option.some.inj hperm
      exact hwrites
    · exact h q hq
  | mkdirP path owner group perm =>
    intro q hq
    rw [Op.apply, layer_mkdirP path owner group perm hq]
    split_ifs
    · intro perm' hperm
      obtain rfl := Option.some.inj hperm
      exact hwrites
    · exact h q hq
  | chmod path perm => exact permed_chmod h hwrites
  | chown path owner group => exact permed_chown h path owner group
  | remove path =>
    intro q hq
    rw [Op.apply, layer_remove]
    split_ifs
    · trivial
    · exact h q hq
  | tick now => exact h

end FakeFilesystem

/-! ### `chmod` of the shell -/

namespace FakeFilesystem

/-- One target of `chmod`. -/
def chmodTarget (W : World) (s : FakeFilesystem) (cwd mode target : Str) : FakeFilesystem :=
  match s.getNode (resolvePath cwd target) with
  | none => s
  | some node =>
    match chmodPerms W mode node.perm.tail, node.perm with
    | some perms, kind :: _ => (s.chmod (resolvePath cwd target) (kind :: perms)).2
    | some _, [] => s
    | none, _ => s

def chmodTargetOps (W : World) (s : FakeFilesystem) (cwd mode target : Str) : List Op :=
  match s.getNode (resolvePath cwd target) with
  | none => []
  | some node =>
    match chmodPerms W mode node.perm.tail, node.perm with
    | some perms, kind :: _ => [.chmod (resolvePath cwd target) (kind :: perms)]
    | some _, [] => []
    | none, _ => []

theorem chmodTarget_eq_run (W : World) (s : FakeFilesystem) (cwd mode target : Str) :
    s.chmodTarget W cwd mode target = run Op.apply s (s.chmodTargetOps W cwd mode target) := by
  unfold chmodTarget chmodTargetOps
  cases s.getNode (resolvePath cwd target) with
  | none => rfl
  | some node =>
    dsimp only
    cases chmodPerms W mode node.perm.tail with
    | none => rfl
    | some perms => cases node.perm <;> rfl

/-- On a node with a permission string of the form, `chmod` writes one of the form. -/
theorem chmodTargetOps_of_permed (W : World) {s : FakeFilesystem} (h : s.Permed) (cwd mode target : Str) {node : Node}
    (hnode : s.getNode (resolvePath cwd target) = some node) :
    ∃ perms, chmodPerms W mode node.perm.tail = some perms ∧ PermLetters perms ∧
      s.chmodTargetOps W cwd mode target = [.chmod (resolvePath cwd target) (kindLetter node.isDir :: perms)] := by
  have hformat := permed_iff.1 h _ node hnode
  obtain ⟨m, -, hperm⟩ := permFormat_iff.1 hformat
  have htail : node.perm.tail = octalToStr m := by rw [hperm]; rfl
  obtain ⟨perms, hmode, hletters⟩ := chmodPerms_keeps W mode (permLetters_octalToStr m)
  refine ⟨perms, by rw [htail]; exact hmode, hletters, ?_⟩
  unfold chmodTargetOps
  rw [hnode]
  dsimp only
  rw [hperm, permString, List.tail_cons, hmode]

end FakeFilesystem

/-- The command `chmod` changes its targets one after the other, up to the first failure. -/
theorem chmodLoop_fs (W : World) (v : View) (mode : Str) (targets : List Str) (M : Machine) : ∃ ts, ts <+: targets ∧
    (chmodLoop W v mode targets M).state.fs = ts.foldl (fun s target => s.chmodTarget W v.cwd mode target) M.fs := by
  induction targets generalizing M with
  | nil => exact ⟨[], List.nil_prefix, rfl⟩
  | cons target targets ih =>
    cases hnode : M.fs.getNode (resolvePath v.cwd target) with
    | none =>
      refine ⟨[], List.nil_prefix, ?_⟩
      simp only [chmodLoop, Leaf.fs, Traced.get, bind, Traced.bind, pure, Traced.pure, hnode, List.foldl_nil]
    | some node =>
      cases hperms : chmodPerms W mode node.perm.tail with
      | none =>
        -- an assignment out of range, which raises
        refine ⟨[], List.nil_prefix, ?_⟩
        simp only [chmodLoop, Leaf.fs, Traced.get, bind, Traced.bind, pure, Traced.pure, hnode, hperms, List.foldl_nil]
        rfl
      | some perms =>
        cases hperm : node.perm with
        | nil =>
          refine ⟨[], List.nil_prefix, ?_⟩
          rw [hperm] at hperms
          simp only [chmodLoop, Leaf.fs, Traced.get, bind, Traced.bind, pure, Traced.pure, hnode, hperm, hperms,
            List.foldl_nil]
          rfl
        | cons kind rest =>
          let s := (M.fs.chmod (resolvePath v.cwd target) (kind :: perms)).2
          obtain ⟨ts, hts, h⟩ := ih { M with fs := s }
          refine ⟨target :: ts, List.cons_prefix_cons.2 ⟨rfl, hts⟩, ?_⟩
          have htarget : M.fs.chmodTarget W v.cwd mode target = s := by
            unfold FakeFilesystem.chmodTarget
            rw [hnode]
            dsimp only
            rw [hperms, hperm]
          rw [List.foldl_cons, htarget, ← h]
          rw [hperm] at hperms
          simp only [chmodLoop, Leaf.fs, Leaf.onFs, Traced.get, Traced.modify, bind, Traced.bind, pure, Traced.pure,
            hnode, hperm, hperms]
          rfl

/-! ### Requests -/

/-- What the sessions of a client do with files: `mkdir`, `touch` and `chmod` of one argument, a redirection, the copies
and moves of `cp` and `mv`, an SFTP request, or an SCP record. -/
inductive FileRequest where
  | mkdir (cwd username arg : Str) (parents : Bool)
  | touch (cwd username arg : Str)
  | redirect (cwd username target : Str) (append : Bool) (stdout : Content)
  | cp (depth : ℕ) (src dst : Str) (recursive : Bool)
  | mv (depth : ℕ) (src dst : Str)
  | chmod (cwd mode target : Str)
  | sftp (session : ℕ) (r : SftpRequest)
  | scpStart (session : ℕ) (username path : Str)
  | scp (session : ℕ) (r : ScpRecord)

namespace FileRequest

variable (W : World) (σ : Site)

def apply : FileRequest → Site
  | mkdir cwd username arg parents => Request.apply W.unicode σ (.mkdir cwd username arg parents)
  | touch cwd username arg => Request.apply W.unicode σ (.touch cwd username arg)
  | redirect cwd username target append stdout =>
    Request.apply W.unicode σ (.redirect cwd username target append stdout)
  | cp depth src dst recursive => Request.apply W.unicode σ (.call (.copy depth src dst recursive))
  | mv depth src dst => Request.apply W.unicode σ (.call (.move depth src dst))
  | chmod cwd mode target => σ.setFs (σ.fs.chmodTarget W cwd mode target)
  | sftp session r => Request.apply W.unicode σ (.sftp session r)
  | scpStart session username path => Request.apply W.unicode σ (.scpStart session username path)
  | scp session r => Request.apply W.unicode σ (.scp session r)

/-- The operations that a request makes. -/
def ops : FileRequest → List Op
  | mkdir cwd username arg parents => σ.fs.mkdirOps cwd username arg parents
  | touch cwd username arg => FakeFilesystem.touchOps cwd username arg
  | redirect cwd username target append stdout => σ.fs.redirectOps cwd username target append stdout
  | cp depth src dst recursive => σ.fs.copyOps depth src dst recursive
  | mv depth src dst => σ.fs.moveOps depth src dst
  | chmod cwd mode target => σ.fs.chmodTargetOps W cwd mode target
  | sftp session r => (σ.sftp session).ops σ.honeypot r
  | scpStart .. => []
  | scp session r => ScpHandler.sinkOps W.unicode (σ.scp session) σ.honeypot r

/-- A request leaves the filesystem that its operations leave. -/
theorem fs_apply (r : FileRequest) : (r.apply W σ).fs = run Op.apply σ.fs (r.ops W σ) := by
  cases r with
  | mkdir cwd username arg parents => exact Request.fs_apply W.unicode σ (.mkdir cwd username arg parents)
  | touch cwd username arg => exact Request.fs_apply W.unicode σ (.touch cwd username arg)
  | redirect cwd username target append stdout =>
    exact Request.fs_apply W.unicode σ (.redirect cwd username target append stdout)
  | cp depth src dst recursive => exact Request.fs_apply W.unicode σ (.call (.copy depth src dst recursive))
  | mv depth src dst => exact Request.fs_apply W.unicode σ (.call (.move depth src dst))
  | chmod cwd mode target => exact σ.fs.chmodTarget_eq_run W cwd mode target
  | sftp session r => exact Request.fs_apply W.unicode σ (.sftp session r)
  | scpStart session username path => rfl
  | scp session r => exact Request.fs_apply W.unicode σ (.scp session r)

/-! ### What requests write -/

/-- Whatever the filesystem, the operation writes the form. -/
private def Writes (o : Op) : Prop := ∀ s : FakeFilesystem, s.WritesPerm o

private theorem writes_mkfile (path : Str) (content : Content) (owner group : Str) :
    Writes (.mkfile path content owner group "-rw-r--r--".toList) := fun _ => Layer.permFormat_file

private theorem writes_mkdirP (path owner group : Str) : Writes (.mkdirP path owner group "drwxr-xr-x".toList) :=
  fun _ => Layer.permFormat_dir

private theorem writes_moveOps {s : FakeFilesystem} {depth : ℕ} {src dst : Str} :
    ∀ o ∈ s.moveOps depth src dst, Writes o := by
  intro o ho
  unfold FakeFilesystem.moveOps at ho
  dsimp only at ho
  split at ho
  · cases ho
  rcases List.mem_append.1 ho with ho | ho
  · exact FakeFilesystem.forall_copyOps (fun _ _ => trivial) (fun _ _ => writes_mkfile _ _ _ _)
      (fun _ => writes_mkdirP _ _ _) ho
  · split at ho
    · rw [List.mem_singleton.1 ho]
      exact fun _ => trivial
    · cases ho

private theorem writes_sftp (h : CyanideSFTPHandler) (P : Honeypot) (r : SftpRequest) : ∀ o ∈ h.ops P r, Writes o := by
  intro o ho
  cases r with
  | «open» path flags =>
    rw [CyanideSFTPHandler.ops, CyanideSFTPHandler.openOps] at ho
    split at ho
    · rw [List.mem_singleton.1 ho]
      exact fun _ => trivial
    · cases ho
  | read handle offset size => cases ho
  | write handle offset data => cases ho
  | close handle =>
    rw [CyanideSFTPHandler.ops, CyanideSFTPHandler.closeOps] at ho
    split at ho
    · cases ho
    · split at ho
      · rw [List.mem_singleton.1 ho]
        exact writes_mkfile _ _ _ _
      · cases ho
  | mkdir path =>
    rw [List.mem_singleton.1 ho]
    exact writes_mkdirP _ _ _
  | remove path =>
    rw [List.mem_singleton.1 ho]
    exact fun _ => trivial
  | rmdir path =>
    rw [List.mem_singleton.1 ho]
    exact fun _ => trivial
  | rename depth oldpath newpath => exact writes_moveOps o ho

private theorem writes_scp (U : Unicode) (t : ScpSink) (P : Honeypot) (r : ScpRecord) :
    ∀ o ∈ ScpHandler.sinkOps U t P r, Writes o := by
  intro o ho
  unfold ScpHandler.sinkOps at ho
  split at ho
  · cases ho
  split at ho
  · split at ho
    · cases ho
    · rw [List.mem_singleton.1 ho]
      exact writes_mkfile _ _ _ _
  · split at ho
    · cases ho
    · rw [List.mem_singleton.1 ho]
      exact writes_mkdirP _ _ _
  · cases ho

/-- All operations of a request write permission strings of the form. -/
theorem ops_writesPerm (h : σ.fs.Permed) (r : FileRequest) :
    Meets Op.apply FakeFilesystem.WritesPerm σ.fs (r.ops W σ) := by
  have hall : ∀ {os : List Op}, (∀ o ∈ os, Writes o) → Meets Op.apply FakeFilesystem.WritesPerm σ.fs os :=
    fun h => meets_of_forall fun s o ho => h o ho s
  cases r with
  | mkdir cwd username arg parents =>
    refine hall fun o ho => ?_
    rw [ops, FakeFilesystem.mkdirOps] at ho
    split at ho
    · rw [List.mem_singleton.1 ho]
      exact writes_mkdirP _ _ _
    · cases ho
  | touch cwd username arg =>
    refine hall fun o ho => ?_
    rw [ops, FakeFilesystem.touchOps] at ho
    split at ho
    · cases ho
    · rw [List.mem_singleton.1 ho]
      exact writes_mkfile _ _ _ _
  | redirect cwd username target append stdout =>
    refine hall fun o ho => ?_
    rw [ops, FakeFilesystem.redirectOps] at ho
    rcases List.mem_append.1 ho with ho | ho
    · split at ho
      · rw [List.mem_singleton.1 ho]
        exact fun _ => trivial
      · cases ho
    · split at ho
      · cases ho
      · rw [List.mem_singleton.1 ho]
        exact writes_mkfile _ _ _ _
  | cp depth src dst recursive =>
    refine hall fun o ho => ?_
    exact FakeFilesystem.forall_copyOps (fun _ _ => trivial) (fun _ _ => writes_mkfile _ _ _ _)
      (fun _ => writes_mkdirP _ _ _) ho
  | mv depth src dst => exact hall writes_moveOps
  | chmod cwd mode target =>
    cases hnode : σ.fs.getNode (resolvePath cwd target) with
    | none =>
      rw [ops, FakeFilesystem.chmodTargetOps, hnode]
      trivial
    | some node =>
      obtain ⟨perms, -, hletters, hops⟩ := FakeFilesystem.chmodTargetOps_of_permed W h cwd mode target hnode
      rw [ops, hops]
      refine ⟨fun node' hnode' => ?_, trivial⟩
      obtain rfl := Option.some.inj (hnode.symm.trans hnode')
      exact permFormat_cons_iff.2 hletters
  | sftp session r => exact hall (writes_sftp _ _ r)
  | scpStart session username path => trivial
  | scp session r => exact hall (writes_scp _ _ _ r)

theorem permed_request {σ : Site} (h : σ.fs.Permed) (r : FileRequest) : (r.apply W σ).fs.Permed := by
  rw [fs_apply]
  exact invariant_of_steps (I := FakeFilesystem.Permed) (fun _ _ h hwrites => FakeFilesystem.permed_apply h hwrites) h
    (ops_writesPerm W σ h r)

/-- After `chmod` with an octal mode, a node has the permission string of that mode. -/
theorem perm_chmod {W : World} {σ : Site} (hU : AsciiTables W.unicode) (h : σ.fs.Permed) {cwd mode target : Str}
    (hmode : IsOctal mode) {node : Node}
    (hnode : (apply W σ (.chmod cwd mode target)).fs.getNode (resolvePath cwd target) = some node) :
    ∃ dir, node.perm = permString dir (octalValue mode) := by
  rw [fs_apply] at hnode
  cases hold : σ.fs.getNode (resolvePath cwd target) with
  | none =>
    rw [ops, FakeFilesystem.chmodTargetOps, hold, run_nil, hold] at hnode
    cases hnode
  | some old =>
    obtain ⟨perms, hperms, -, hops⟩ := FakeFilesystem.chmodTargetOps_of_permed W h cwd mode target hold
    rw [chmodPerms_octal hU hmode] at hperms
    obtain rfl := Option.some.inj hperms
    obtain ⟨entry, -, hlayer⟩ := FakeFilesystem.chmod_entry hold (kindLetter old.isDir :: octalToStr (octalValue mode))
    rw [ops, hops, run_cons, run_nil, Op.apply, FakeFilesystem.getNode_eq, hlayer, if_pos rfl, Layer.node,
      Option.some.injEq] at hnode
    refine ⟨old.isDir, ?_⟩
    rw [← hnode]
    split_ifs <;> rfl

end FileRequest

/-! ### Runs -/

/-- The states that a run of requests goes through. -/
def FileRequest.after (W : World) (σ : Site) (rs : List FileRequest) : Site :=
  run (fun σ r => FileRequest.apply W σ r) σ rs

/-- In every state of the run the permission string of every node has the form of its kind, and its readers see the same
nine bits; and these are, after `chmod` with an octal mode, the last nine bits of the mode. -/
structure ModesKept (W : World) (σ : Site) (rs : List FileRequest) : Prop where
  format : ∀ bs, bs <+: rs → ∀ path node, (FileRequest.after W σ bs).fs.getNode path = some node →
    PermFormat node.isDir node.perm ∧ ∃ m, ReadAs W.unicode node m
  chmod : ∀ bs cwd mode target, bs ++ [.chmod cwd mode target] <+: rs → IsOctal mode →
    ∀ node, (FileRequest.after W σ (bs ++ [.chmod cwd mode target])).fs.getNode (resolvePath cwd target) = some node →
      ReadAs W.unicode node (octalValue mode % 0o1000)

/-- All runs keep to it just when the permission strings of the entries in force at the start have the form. -/
theorem modesKept_iff {W : World} (hU : AsciiTables W.unicode) (σ : Site) (rs : List FileRequest) :
    ModesKept W σ rs ↔ σ.fs.Permed := by
  constructor
  · intro h
    exact FakeFilesystem.permed_iff.2 fun path node hnode => (h.format [] List.nil_prefix path node hnode).1
  · intro h
    have hrun : ∀ bs, (FileRequest.after W σ bs).fs.Permed := fun bs =>
      invariant_of_steps (I := fun τ : Site => τ.fs.Permed) (G := fun _ _ => True)
        (fun _ r hτ _ => FileRequest.permed_request W hτ r) h (meets_of_forall fun _ _ _ => trivial)
    refine ⟨fun bs _ path node hnode => ?_, fun bs cwd mode target _ hmode node hnode => ?_⟩
    · have hformat := FakeFilesystem.permed_iff.1 (hrun bs) path node hnode
      obtain ⟨m, hm, hperm⟩ := permFormat_iff.1 hformat
      exact ⟨hformat, m, readAs_permString hU hm hperm⟩
    · -- digits in front of the last three have no effect
      rw [FileRequest.after, run_append] at hnode
      obtain ⟨dir, hperm⟩ := FileRequest.perm_chmod hU (hrun bs) hmode hnode
      rw [permString_mod] at hperm
      exact readAs_permString hU (Nat.mod_lt _ (by decide)) hperm

private theorem permed_bare : bareSite.fs.Permed := by
  intro q _
  rw [show bareSite.fs.layer q = .missing from bare_layer q]
  trivial

theorem modesKept_chmod : ModesKept plainWorld bareSite
    [.mkdir ['/'] root ['a'] false, .chmod ['/'] "1750".toList ['a'], .chmod ['/'] "go=w".toList ['a']] :=
  (modesKept_iff asciiTables_ascii bareSite _).2 permed_bare

/-- The manifest of a profile that lists the directory `/opt` among its folders. -/
def listedFolder : Manifest where
  static := (∅ : Dict Config).insert "/opt".toList { type := some typeDir, content := some (.text []) }
  dynamicFiles := ∅
  honeytokens := []
  render := id
  providers := fun _ => none

/-- In a new filesystem of the compiled profile the directory has the permission string of a file. -/
theorem not_modesKept_listedFolder : ¬ModesKept plainWorld
    { bareSite with
      honeypot := ⟨FakeFilesystem.init (listedFolder.compiled 0) [] "unknown".toList none 0, []⟩ } [] := by
  intro h
  have hnode : ((FakeFilesystem.init (listedFolder.compiled 0) [] "unknown".toList none 0).getNode
      "/opt".toList).map (fun node => (node.isDir, node.perm)) = some (true, "-rw-r--r--".toList) := by
    decide +kernel
  obtain ⟨node, hopt, hfields⟩ := Option.map_eq_some_iff.1 hnode
  obtain ⟨hdir, hperm⟩ := Prod.mk.inj hfields
  have hkind := (h.format [] List.nil_prefix _ node hopt).1.kind
  rw [hdir, hperm] at hkind
  cases hkind

end Cyanide
