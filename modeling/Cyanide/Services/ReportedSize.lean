import Cyanide.Services.Requests
import Cyanide.Vfs.Fresh
import Cyanide.Vfs.ScpChannel
import Cyanide.Vfs.SftpAttrs

/-!
# Reported sizes

The size of a file is a number in its entry, beside the content: `mkfile` puts the length of the text there, and not
that of its encoding, the generated `/etc/passwd` and `/etc/group` have none, and a dynamic file has the one that the
profile gives it.  `sizeAgrees_run_iff` says for each path and each run of operations when the size that is reported of
it is always the number of bytes that are served.
-/

namespace Cyanide

open PosixPath PyText Transition

namespace Layer

/-- The size that is reported of a file. -/
def fileSize : Layer → Option ℕ
  | overlay config | row config => if config.type = some typeDir then none else some (config.size.getD 0)
  | dynamic config => some (config.size.getD 0)
  | deleted | implicit | missing => none

/-- The entry of a file states the number of bytes of its content. -/
def Sized (profile : Profile) (l : Layer) : Prop := ∀ n ∈ l.fileSize, n = (l.content profile).encode.length

instance (profile : Profile) (l : Layer) : Decidable (l.Sized profile) :=
  inferInstanceAs (Decidable (∀ n ∈ l.fileSize, n = (l.content profile).encode.length))

end Layer

/-- One byte a character: bytes, and texts in ASCII. -/
def Content.OneByte : Content → Prop
  | .text t => ∀ c ∈ t, c.toNat < 0x80
  | .bytes _ => True

/-- The operation writes nothing at `q` whose length is not its number of bytes. -/
def Measured (q : Str) (s : FakeFilesystem) : Op → Prop
  | .mkfile path content .. => resolve path = q → s.HasParent q → content.OneByte
  | .getContent .. | .mkdirP .. | .chmod .. | .chown .. | .remove _ | .tick _ => True

/-- Of a file, `stat`, `scandir` and `ls -l` report the number of bytes that SFTP and SCP serve. -/
def SizeAgrees (U : Unicode) (s : FakeFilesystem) (path : Str) : Prop :=
  ∀ node, s.getNode path = some node → node.isDir = false →
    ∀ b, SftpServes s path b ∨ ScpServes s path node b →
      (CyanideSFTPHandler.getAttrs U node).size = b.length ∧ node.size = b.length

theorem Content.len_eq_iff (content : Content) : content.len = content.encode.length ↔ content.OneByte := by
  cases content with
  | text t =>
    rw [eq_comm]
    exact ScpHandler.length_eq_length_encode_iff t
  | bytes b => exact iff_of_true rfl trivial

namespace FakeFilesystem

variable {s : FakeFilesystem}

/-! ### Sizes by layer -/

theorem fileSize_of_getNode {path : Str} {node : Node} (hnode : s.getNode path = some node) :
    (s.layer (resolve path)).fileSize = if node.isDir then none else some node.size := by
  rw [getNode_eq] at hnode
  cases hl : s.layer (resolve path) with
  | deleted =>
    rw [hl] at hnode
    cases hnode
  | missing =>
    rw [hl, Layer.node] at hnode
    split at hnode <;> cases hnode
    rfl
  | overlay config =>
    rw [hl] at hnode
    cases hnode
    by_cases ht : config.type = some typeDir <;>
      simp [Layer.fileSize, ht, Node.isDir, virtualDirectory, virtualFile]
  | row config =>
    rw [hl] at hnode
    cases hnode
    by_cases ht : config.type = some typeDir <;>
      simp [Layer.fileSize, ht, Node.isDir, virtualDirectory, virtualFile]
  | dynamic config =>
    rw [hl] at hnode
    cases hnode
    rfl
  | implicit =>
    rw [hl] at hnode
    cases hnode
    rfl

theorem fileSize_of_no_node {path : Str} (hnode : s.getNode path = none) : (s.layer (resolve path)).fileSize = none := by
  rw [getNode_eq] at hnode
  cases hl : s.layer (resolve path) with
  | deleted => rfl
  | missing => rfl
  | implicit => rfl
  | overlay config | row config | dynamic config =>
    rw [hl] at hnode
    cases hnode

theorem pathExists_of_getNode {path : Str} {node : Node} (hnode : s.getNode path = some node) :
    s.pathExists path = true := by
  rw [getNode_eq] at hnode
  rw [pathExists_eq]
  cases hl : s.layer (resolve path) with
  | deleted =>
    rw [hl] at hnode
    cases hnode
  | missing =>
    rw [hl, Layer.node] at hnode
    split at hnode
    · rename_i hroot
      exact decide_eq_true hroot
    · cases hnode
  | overlay config | row config | dynamic config | implicit => rfl

/-- The sizes agree when the entry in force states the number of its bytes. -/
theorem sizeAgrees_iff (U : Unicode) (path : Str) :
    SizeAgrees U s path ↔ (s.layer (resolve path)).Sized s.profile := by
  constructor
  · intro h n hn
    cases hnode : s.getNode path with
    | none =>
      rw [fileSize_of_no_node hnode] at hn
      cases hn
    | some node =>
      rw [fileSize_of_getNode hnode] at hn
      by_cases hdir : node.isDir = true
      · rw [if_pos hdir] at hn
        cases hn
      · rw [if_neg hdir] at hn
        obtain rfl := Option.some.inj hn
        rw [← content_eq]
        exact (h node hnode (Bool.not_eq_true _ ▸ hdir) _ (.inr (scpServes_iff.2 rfl))).2
  · intro h node hnode hdir b hb
    have hbytes : b = (s.getContent path).1.encode := by
      rcases hb with hb | hb
      · exact (sftpServes_iff (pathExists_of_getNode hnode)).1 hb
      · exact scpServes_iff.1 hb
    have hsize := fileSize_of_getNode hnode
    rw [hdir, if_neg Bool.false_ne_true] at hsize
    have hlength : node.size = b.length := by
      rw [hbytes, content_eq]
      exact h node.size hsize
    exact ⟨hlength, hlength⟩

/-! ### One operation -/

/-- The entry states the size, and has the content, of the file that is in force at a path. -/
private def Overlays (config : Config) (profile : Profile) (l : Layer) : Prop :=
  (Layer.overlay config).fileSize = l.fileSize ∧
    (l.fileSize ≠ none → (Layer.overlay config).content profile = l.content profile)

private theorem Overlays.sized {config : Config} {profile : Profile} {l : Layer} (h : Overlays config profile l) :
    (Layer.overlay config).Sized profile ↔ l.Sized profile := by
  unfold Layer.Sized
  rw [h.1]
  refine forall₂_congr fun n hn => ?_
  rw [h.2 (by rw [hn]; exact Option.some_ne_none n)]

/-- An entry with the type, size and content of the one that `chmod` and `chown` start from states the size of the node
and has its content. -/
private theorem overlays_entry {path : Str} {node : Node} (hnode : s.getNode path = some node) {entry config : Config}
    (hentry : s.layer (resolve path) = .overlay entry ∨
      entry.type = (s.materialize (resolve path) node).1.type ∧
        entry.size = (s.materialize (resolve path) node).1.size ∧
          entry.content = (s.materialize (resolve path) node).1.content)
    (htype : config.type = entry.type) (hsize : config.size = entry.size) (hcontent : config.content = entry.content) :
    Overlays config s.profile (s.layer (resolve path)) := by
  have hfile := fileSize_of_getNode hnode
  rcases hentry with hl | ⟨htype', hsize', hcontent'⟩
  · rw [Overlays, hl, Layer.fileSize, Layer.fileSize, htype, hsize, Layer.content, Layer.content, hcontent]
    exact ⟨rfl, fun _ => rfl⟩
  · rw [htype'] at htype
    rw [hsize'] at hsize
    rw [hcontent'] at hcontent
    unfold materialize at htype hsize hcontent
    cases hdir : node.isDir with
    | true =>
      -- a directory gets an empty content, and none is reported of it
      rw [hdir, if_pos rfl] at hfile htype
      rw [Overlays, hfile, Layer.fileSize, if_pos htype]
      exact ⟨rfl, fun h => absurd rfl h⟩
    | false =>
      have hisFile : node.isFile = true := by simpa [Node.isFile, Node.isDir] using hdir
      rw [hdir, if_neg Bool.false_ne_true] at hfile htype
      rw [hisFile, if_pos rfl] at hcontent
      have hne : config.type ≠ some typeDir := by
        rw [htype]
        simp
      rw [Overlays, hfile, Layer.fileSize, if_neg hne, hsize, Layer.content, hcontent]
      refine ⟨rfl, fun _ => ?_⟩
      rw [Option.getD_some, content_eq, resolve_resolve]

private theorem sized_chmod (path perm x : Str) :
    ((s.chmod path perm).2.layer x).Sized s.profile ↔ (s.layer x).Sized s.profile := by
  cases hnode : s.getNode path with
  | none => simp only [chmod, getNode_resolve, hnode]
  | some node =>
    obtain ⟨entry, hentry, hlayer⟩ := chmod_entry hnode perm
    rw [hlayer]
    by_cases hx : x = resolve path
    · rw [if_pos hx, hx]
      refine (overlays_entry hnode (hentry.imp id fun h => ?_) rfl rfl rfl).sized
      rw [h]
      exact ⟨rfl, rfl, rfl⟩
    · rw [if_neg hx]

private theorem sized_chown (path : Str) (owner group : Option Str) (x : Str) :
    ((s.chown path owner group).2.layer x).Sized s.profile ↔ (s.layer x).Sized s.profile := by
  cases hnode : s.getNode path with
  | none => simp only [chown, getNode_resolve, hnode]
  | some node =>
    obtain ⟨entry, hentry, hlayer⟩ := chown_entry hnode owner group
    rw [hlayer]
    by_cases hx : x = resolve path
    · rw [if_pos hx, hx]
      refine (overlays_entry hnode (hentry.imp id fun h => ?_) rfl rfl rfl).sized
      rw [h]
      exact ⟨rfl, rfl, rfl⟩
    · rw [if_neg hx]

private theorem sized_mkdirP {q : Str} (hq : resolve q = q) (path owner group perm : Str)
    (hsized : (s.layer q).Sized s.profile) : ((s.mkdirP path owner group perm).layer q).Sized s.profile := by
  rw [layer_mkdirP path owner group perm hq]
  split_ifs
  · have hnone : (Layer.overlay (s.dirConfig owner group perm)).fileSize = none := by
      rw [Layer.fileSize, if_pos]
      rfl
    intro n hn
    rw [hnone] at hn
    cases hn
  · exact hsized

private theorem sized_remove {q : Str} (path : Str) (hsized : (s.layer q).Sized s.profile) :
    ((s.remove path).2.layer q).Sized s.profile := by
  rw [layer_remove]
  split_ifs
  · intro n hn
    cases hn
  · exact hsized

/-- What `mkfile` writes is sized when its length is its number of bytes. -/
private theorem sized_mkfile {q : Str} (path : Str) (content : Content) (owner group perm : Str)
    (hsized : (s.layer q).Sized s.profile) :
    ((s.mkfile path content owner group perm).2.layer q).Sized s.profile ↔
      Measured q s (.mkfile path content owner group perm) := by
  rw [layer_mkfile, Measured]
  by_cases hnew : q = resolve path ∧ s.HasParent (resolve path)
  · obtain ⟨rfl, hparent⟩ := hnew
    rw [if_pos ⟨rfl, hparent⟩, ← content.len_eq_iff]
    have hsize : (Layer.overlay (s.fileConfig content owner group perm)).fileSize = some content.len := rfl
    -- the entry states the length of the content, whatever that is
    constructor
    · exact fun h _ _ => h _ hsize
    · intro h n hn
      obtain rfl : content.len = n := Option.some.inj (hsize.symm.trans hn)
      exact h rfl hparent
  · rw [if_neg hnew]
    refine iff_of_true hsized fun hpath hparent => absurd ⟨hpath.symm, ?_⟩ hnew
    rw [hpath]
    exact hparent

theorem profile_apply (op : Op) : (op.apply s).profile = s.profile := by
  cases op with
  | getContent path args =>
    rcases s.getContent_snd path args with h | ⟨_, h⟩
    · rw [Op.apply, h]
    · rw [Op.apply, h, profile_record]
  | mkfile path content owner group perm => exact profile_mkfile path content owner group perm
  | mkdirP path owner group perm => exact profile_mkdirP path owner group perm
  | chmod path perm =>
    rcases s.chmod_touched path perm with ⟨-, h⟩ | h
    · rw [Op.apply, h]
    · exact h.profile
  | chown path owner group =>
    rcases s.chown_touched path owner group with ⟨-, h⟩ | h
    · rw [Op.apply, h]
    · exact h.profile
  | remove path => exact profile_remove path
  | tick now => rfl

theorem sized_apply_iff {q : Str} (hq : resolve q = q) (op : Op) (hsized : (s.layer q).Sized s.profile) :
    ((op.apply s).layer q).Sized s.profile ↔ Measured q s op := by
  cases op with
  | getContent path args =>
    refine iff_of_true ?_ trivial
    rw [Op.apply, layer_getContent]
    exact hsized
  | mkfile path content owner group perm => exact sized_mkfile path content owner group perm hsized
  | mkdirP path owner group perm => exact iff_of_true (sized_mkdirP hq path owner group perm hsized) trivial
  | chmod path perm => exact iff_of_true ((sized_chmod path perm q).2 hsized) trivial
  | chown path owner group => exact iff_of_true ((sized_chown path owner group q).2 hsized) trivial
  | remove path => exact iff_of_true (sized_remove path hsized) trivial
  | tick now => exact iff_of_true hsized trivial

end FakeFilesystem

/-! ### Runs -/

/-- The sizes agree in all states of a run just when the first entry states the number of its bytes, and what is written
over it is in ASCII or bytes. -/
theorem sizeAgrees_run_iff (U : Unicode) (s : FakeFilesystem) (path : Str) (ops : List Op) :
    (∀ bs, bs <+: ops → SizeAgrees U (run Op.apply s bs) path) ↔
      (s.layer (resolve path)).Sized s.profile ∧ Meets Op.apply (Measured (resolve path)) s ops := by
  refine forall_reached_iff (I := fun s => SizeAgrees U s path) (J := fun _ => True) (fun _ _ h => h)
    (fun s op _ hagrees => ?_) trivial |>.trans (and_congr_left' (s.sizeAgrees_iff U path))
  rw [FakeFilesystem.sizeAgrees_iff] at hagrees ⊢
  rw [FakeFilesystem.profile_apply]
  exact FakeFilesystem.sized_apply_iff (resolve_resolve path) op hagrees

/-- In runs of requests, of any sessions in any order. -/
theorem sizeAgrees_requests {U : Unicode} {σ : Site} {path : Str} {rs : List Request}
    (hstart : (σ.fs.layer (resolve path)).Sized σ.fs.profile)
    (hops : OpsMeet U (Measured (resolve path)) σ rs) :
    SizeAgrees U (run (fun σ r => Request.apply U σ r) σ rs).fs path := by
  have hstep : ∀ (τ : Site) (r : Request), SizeAgrees U τ.fs path →
      Meets Op.apply (Measured (resolve path)) τ.fs (r.ops U τ) → SizeAgrees U (r.apply U τ).fs path := by
    intro τ r hagrees hmeets
    rw [Request.fs_apply]
    exact (sizeAgrees_run_iff U τ.fs path (r.ops U τ)).2 ⟨(τ.fs.sizeAgrees_iff U path).1 hagrees, hmeets⟩ _
      List.prefix_rfl
  exact invariant_of_steps (I := fun τ => SizeAgrees U τ.fs path) hstep ((σ.fs.sizeAgrees_iff U path).2 hstart) hops

/-! ### New filesystems -/

namespace FakeFilesystem

/-- Every new filesystem starts with an `/etc/passwd` that has text and no size. -/
theorem not_sized_passwd (s : FakeFilesystem) (hkept : "/etc/passwd".toList ∉ s.deletedPaths) :
    ¬(s.generateSystemFiles.layer "/etc/passwd".toList).Sized s.profile := by
  have hlayer : s.generateSystemFiles.layer "/etc/passwd".toList = .overlay
      { type := some typeFile, content := some (.text (passwdText s.users)), owner := some root, group := some root,
        perm := some "-rw-r--r--".toList } := by
    rw [layer_eq_overlay]
    refine ⟨hkept, ?_⟩
    unfold generateSystemFiles setOverlay
    rw [AList.lookup_insert_ne (by decide), AList.lookup_insert]
  intro hsized
  have hempty : 0 = (Content.text (passwdText s.users)).encode.length := by
    rw [hlayer] at hsized
    exact hsized 0 rfl
  have hle := ScpHandler.length_le_length_encode (passwdText s.users)
  have hline : 1 ≤ (passwdText s.users).length := by
    rw [passwdText, textOfLines, List.length_append, List.length_singleton]
    omega
  omega

end FakeFilesystem

/-- A new filesystem reports the size 0 of `/etc/passwd`. -/
theorem not_sizeAgrees_passwd :
    ¬SizeAgrees ascii (FakeFilesystem.init bare.profile [] "unknown".toList none 0) "/etc/passwd".toList := by
  rw [FakeFilesystem.sizeAgrees_iff]
  decide +kernel

end Cyanide
