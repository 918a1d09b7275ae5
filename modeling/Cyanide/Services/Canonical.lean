import Cyanide.Services.Requests
import Cyanide.Vfs.Listing

/-!
# Canonical keys

The overlay and the deleted paths are keyed by absolute paths that `resolve` leaves alone as long as the paths that the
methods get are absolute.  `resolve` keeps a relative path relative, `mkfile` takes `/` for the parent of a single
name, and `mkdir_p` joins what is left of a path with `..` to `/` without resolving it again, so that SFTP and SCP
clients, whose paths go to the methods as they are, can store under other keys (`canonicalKeys_apply_iff`).  A file
that a client is told was stored is there and is listed in its parent, when its path is absolute and has a parent
(`canonical_run`).
-/

namespace Cyanide

open PosixPath PyText Transition

/-- An absolute path that `resolve` leaves alone. -/
def IsCanonical (q : Str) : Prop := q.head? = some '/' ∧ resolve q = q

instance (q : Str) : Decidable (IsCanonical q) := inferInstanceAs (Decidable (_ ∧ _))

theorem isCanonical_iff {q : Str} : IsCanonical q ↔ ∃ p, q = str p := by
  constructor
  · rintro ⟨hhead, hq⟩
    obtain ⟨p, hp⟩ := resolve_rooted hhead
    exact ⟨p, by rw [← hq, hp]⟩
  · rintro ⟨p, rfl⟩
    exact ⟨head?_str p, resolve_str p⟩

theorem isCanonical_resolve {path : Str} (h : path.head? = some '/') : IsCanonical (resolve path) := by
  rw [isCanonical_iff]
  exact resolve_rooted h

/-- The paths that the shell resolves are canonical. -/
theorem isCanonical_resolvePath {cwd : Str} (h : cwd.head? = some '/') (path : Str) :
    IsCanonical (resolvePath cwd path) := by
  unfold resolvePath
  split
  · exact isCanonical_resolve (by assumption)
  · refine isCanonical_resolve ?_
    cases cwd with
    | nil => cases h
    | cons c cwd => exact h

namespace FakeFilesystem

variable {s : FakeFilesystem}

structure CanonicalKeys (s : FakeFilesystem) : Prop where
  overlay : ∀ key ∈ s.memoryOverlay, IsCanonical key
  deleted : ∀ path ∈ s.deletedPaths, IsCanonical path

/-- The operations that write under canonical keys only. -/
def KeepsCanonical (s : FakeFilesystem) : Op → Prop
  | .mkfile path .. => s.HasParent (resolve path) → IsCanonical (resolve path)
  | .mkdirP path .. => ∀ q ∈ walkFrom ['/'] (mkdirParts path), resolve q ≠ q →
      s.pathExists q = true ∧ s.isFile q = false
  | .chmod path _ => s.getNode path ≠ none → IsCanonical (resolve path)
  | .chown path .. => s.getNode path ≠ none → IsCanonical (resolve path)
  | .remove path => s.pathExists path = true → IsCanonical (resolve path)
  | .getContent .. => True
  | .tick _ => True

/-- A file is found under its canonical path, with its content, and is listed in the parent directory. -/
structure Stored (s : FakeFilesystem) (path : Str) (content : Content) : Prop where
  canonical : IsCanonical (resolve path)
  isFile : s.isFile (resolve path) = true
  content : (s.getContent (resolve path)).1 = content
  listed : basename (resolve path) ∈ s.listDir (dirname (resolve path))

/-! ### One operation -/

private theorem mem_deleted_mkdirStep {owner group perm : Str} {st : Str × FakeFilesystem} {part x : Str}
    (h : x ∈ (mkdirStep owner group perm st part).2.deletedPaths) : x ∈ st.2.deletedPaths := by
  unfold mkdirStep at h
  dsimp only at h
  split at h
  · exact (Finset.mem_erase.1 h).2
  · exact h

private theorem mem_deleted_foldl_mkdirStep {owner group perm : Str} {parts : List Str} {st : Str × FakeFilesystem}
    {x : Str} (h : x ∈ (parts.foldl (mkdirStep owner group perm) st).2.deletedPaths) : x ∈ st.2.deletedPaths := by
  induction parts generalizing st with
  | nil => exact h
  | cons part parts ih => exact mem_deleted_mkdirStep (ih h)

private theorem mem_overlay_mkdirStep (owner group perm : Str) (st : Str × FakeFilesystem) (part x : Str) :
    x ∈ (mkdirStep owner group perm st part).2.memoryOverlay ↔ x ∈ st.2.memoryOverlay ∨
      (x = join st.1 part ∧ (st.2.pathExists (join st.1 part) = false ∨ st.2.isFile (join st.1 part) = true)) := by
  unfold mkdirStep
  dsimp only
  split
  · rename_i hnew
    have hnew : st.2.pathExists (join st.1 part) = false ∨ st.2.isFile (join st.1 part) = true := by simpa using hnew
    simp only [revive, setOverlay, AList.mem_insert, hnew, and_true]
    exact or_comm
  · rename_i hold
    have hold : ¬(st.2.pathExists (join st.1 part) = false ∨ st.2.isFile (join st.1 part) = true) := by
      simpa using hold
    simp [hold]

/-- A walk through no resolved path writes a key for each path on it that is missing or a file. -/
private theorem mem_overlay_foldl_mkdirStep (owner group perm : Str) {parts : List Str} (st : Str × FakeFilesystem)
    (hno : ∀ q ∈ walkFrom st.1 parts, resolve q ≠ q) (x : Str) :
    x ∈ (parts.foldl (mkdirStep owner group perm) st).2.memoryOverlay ↔ x ∈ st.2.memoryOverlay ∨
      (x ∈ walkFrom st.1 parts ∧ (st.2.pathExists x = false ∨ st.2.isFile x = true)) := by
  induction parts generalizing st with
  | nil => simp [walkFrom]
  | cons part parts ih =>
    simp only [walkFrom, List.mem_cons, forall_eq_or_imp] at hno ⊢
    -- what the first step writes answers for no resolved path
    have hlayer : ∀ y, (mkdirStep owner group perm st part).2.layer (resolve y) = st.2.layer (resolve y) := by
      intro y
      refine (layer_mkdirStep (s := st.2) owner group perm st.1 part (resolve y)).trans (if_neg ?_)
      rintro ⟨heq, -⟩
      exact hno.1 (by rw [← heq, resolve_resolve])
    rw [List.foldl_cons, ih _ (by rw [mkdirStep_fst]; exact hno.2), mkdirStep_fst, mem_overlay_mkdirStep]
    simp only [pathExists_eq, isFile_eq, hlayer]
    constructor
    · rintro ((h | ⟨rfl, h⟩) | ⟨hw, h⟩)
      · exact .inl h
      · exact .inr ⟨.inl rfl, h⟩
      · exact .inr ⟨.inr hw, h⟩
    · rintro (h | ⟨rfl | hw, h⟩)
      · exact .inl (.inl h)
      · exact .inl (.inr ⟨rfl, h⟩)
      · exact .inr ⟨hw, h⟩

private theorem canonicalKeys_mkdirP (hI : s.CanonicalKeys) (path owner group perm : Str) :
    (s.mkdirP path owner group perm).CanonicalKeys ↔ s.KeepsCanonical (.mkdirP path owner group perm) := by
  have hdel : ∀ x ∈ (s.mkdirP path owner group perm).deletedPaths, IsCanonical x :=
    fun x hx => hI.deleted x (mem_deleted_foldl_mkdirStep hx)
  rcases mkdirParts_cases path with ⟨p, hp⟩ | hno
  · have hwalk : ∀ q ∈ walkFrom ['/'] (mkdirParts path), IsCanonical q := by
      intro q hq
      rw [hp] at hq
      obtain ⟨d, -, -, rfl⟩ := (mem_walkFrom_names (p := [])).1 hq
      exact isCanonical_iff.2 ⟨d, rfl⟩
    refine iff_of_true ⟨fun key hkey => ?_, hdel⟩ fun q hq hne => absurd (hwalk q hq).2 hne
    by_cases hw : key ∈ walkFrom ['/'] (mkdirParts path)
    · exact hwalk key hw
    · exact hI.overlay key ((mem_foldl_mkdirStep_of_notMem _ _ _ _ _ hw).1.1 hkey)
  · have hmem := mem_overlay_foldl_mkdirStep owner group perm (['/'], s) hno
    constructor
    · intro h q hq hne
      by_contra hnew
      rw [not_and_or, Bool.not_eq_true, Bool.not_eq_false] at hnew
      exact hne (h.overlay q ((hmem q).2 (.inr ⟨hq, hnew⟩))).2
    · intro h
      refine ⟨fun key hkey => ?_, hdel⟩
      rcases (hmem key).1 hkey with hkey | ⟨hw, hnew⟩
      · exact hI.overlay key hkey
      · obtain ⟨hx, hf⟩ := h key hw (hno key hw)
        simp [hx, hf] at hnew

private theorem canonicalKeys_touched {s' : FakeFilesystem} {path : Str} (hI : s.CanonicalKeys)
    (h : (s.getNode path = none ∧ s' = s) ∨ Touched s s' (resolve path)) :
    s'.CanonicalKeys ↔ (s.getNode path ≠ none → IsCanonical (resolve path)) := by
  rcases h with ⟨hn, rfl⟩ | ht
  · exact iff_of_true hI fun hne => absurd hn hne
  · have hn : s.getNode path ≠ none := by
      intro hn
      have := ht.node
      rw [← getNode_dir_eq, hn] at this
      exact this rfl
    constructor
    · exact fun h _ => h.overlay _ ((ht.overlay _).2 (.inl rfl))
    · intro h
      refine ⟨fun key hkey => ?_, by rw [ht.deleted]; exact hI.deleted⟩
      rcases (ht.overlay key).1 hkey with rfl | hkey
      · exact h hn
      · exact hI.overlay key hkey

/-- From canonical keys, an operation leads to canonical keys if and only if it writes under canonical keys only. -/
theorem canonicalKeys_apply_iff (hI : s.CanonicalKeys) (o : Op) : (o.apply s).CanonicalKeys ↔ s.KeepsCanonical o := by
  cases o with
  | getContent path args =>
    refine iff_of_true ?_ trivial
    rcases s.getContent_snd path args with h | ⟨op, h⟩ <;> rw [Op.apply, h]
    · exact hI
    · exact ⟨hI.overlay, hI.deleted⟩
  | mkfile path content owner group perm =>
    rw [Op.apply]
    by_cases hp : s.HasParent (resolve path)
    · rw [(mkfile_of_parent hp content owner group perm).2]
      constructor
      · exact fun h _ => h.overlay _ ((AList.mem_insert _).2 (.inl rfl))
      · intro h
        refine ⟨fun key hkey => ?_, fun x hx => hI.deleted x (Finset.mem_erase.1 hx).2⟩
        rcases (AList.mem_insert _).1 hkey with rfl | hkey
        · exact h hp
        · exact hI.overlay key hkey
    · rw [mkfile_of_not_parent hp]
      exact iff_of_true hI fun h => absurd h hp
  | mkdirP path owner group perm => exact canonicalKeys_mkdirP hI path owner group perm
  | chmod path perm => exact canonicalKeys_touched hI (s.chmod_touched path perm)
  | chown path owner group => exact canonicalKeys_touched hI (s.chown_touched path owner group)
  | remove path =>
    have hov : ∀ key ∈ (s.remove path).2.memoryOverlay, IsCanonical key :=
      fun key hkey => hI.overlay key (mem_overlay_remove hkey)
    constructor
    · intro h hx
      by_cases hroot : resolve path = ['/']
      · exact isCanonical_iff.2 ⟨[], hroot⟩
      · refine h.deleted _ ?_
        rw [Op.apply, ← layer_eq_deleted, layer_remove, if_pos ⟨rfl, hroot, hx⟩]
    · refine fun h => ⟨hov, fun x hx => ?_⟩
      rw [Op.apply, ← layer_eq_deleted, layer_remove] at hx
      split at hx
      · rename_i hrm
        rw [hrm.1]
        exact h hrm.2.2
      · exact hI.deleted x (layer_eq_deleted.1 hx)
  | tick now => exact iff_of_true ⟨hI.overlay, hI.deleted⟩ trivial

/-- The keys are canonical all along a run, inside `copy` and `move` too, just when they are at the start and every
operation writes under canonical keys only. -/
theorem canonicalKeys_run_iff (ops : List Op) :
    (∀ os, os <+: ops → (run Op.apply s os).CanonicalKeys) ↔
      s.CanonicalKeys ∧ Meets Op.apply KeepsCanonical s ops :=
  forall_reached_iff (I := CanonicalKeys) (J := fun _ => True) (fun _ _ _ => trivial)
    (fun _ o _ h => canonicalKeys_apply_iff h o) trivial

/-! ### A file that was stored -/

private theorem childOf_basename {q : Str} (hq : IsCanonical q) :
    childOf (rstripSlash (dirname q) ++ ['/']) q = some (basename q) ∧ join (dirname q) (basename q) = q := by
  obtain ⟨p, rfl⟩ := isCanonical_iff.1 hq
  rcases List.eq_nil_or_concat p with rfl | ⟨r, n, rfl⟩
  · decide
  · rw [List.concat_eq_append, dirname_str_concat, basename_str_concat, rstripSlash_str, join_str]
    exact ⟨(childOf_str (by simp)).2 ⟨n, [], by simp, rfl⟩, rfl⟩

private theorem resolve_dirname_canonical {q : Str} (hq : IsCanonical q) : resolve (dirname q) = dirname q := by
  obtain ⟨p, rfl⟩ := isCanonical_iff.1 hq
  rcases List.eq_nil_or_concat p with rfl | ⟨r, n, rfl⟩
  · rfl
  · rw [List.concat_eq_append, dirname_str_concat, resolve_str]

/-- What `mkfile` stores under a canonical path is found and listed. -/
theorem stored_mkfile {path : Str} (hq : IsCanonical (resolve path)) (hp : s.HasParent (resolve path))
    (content : Content) (owner group perm : Str) :
    Stored (s.mkfile path content owner group perm).2 path content := by
  have hl : ∀ q, (s.mkfile path content owner group perm).2.layer q =
      if q = resolve path then .overlay (s.fileConfig content owner group perm) else s.layer q := by
    intro q
    rw [layer_mkfile]
    simp [hp]
  have hdir : (s.mkfile path content owner group perm).2.isDir (dirname (resolve path)) = true := by
    rw [isDir_eq, hl, resolve_dirname_canonical hq]
    split
    · rename_i heq
      obtain ⟨p, hpath⟩ := isCanonical_iff.1 hq
      have hroot : resolve path = ['/'] := by
        by_contra hne
        refine parent_ne_self (resolve_resolve path) hne ?_
        rw [parent, heq, resolve_resolve]
      simp [Layer.dir, hroot]
    · rename_i hne
      rw [← resolve_dirname_canonical hq, ← isDir_eq]
      exact (hp.resolve_left hne).2
  obtain ⟨hchild, hjoin⟩ := childOf_basename hq
  refine ⟨hq, ?_, ?_, ?_⟩
  · rw [isFile_eq, resolve_resolve, hl, if_pos rfl]
    rfl
  · rw [content_eq, resolve_resolve, hl, if_pos rfl]
    rfl
  · rw [listDir_eq, if_pos hdir, resolve_dirname_canonical hq, mem_listing, hjoin]
    refine ⟨.inr ⟨_, .inr ?_, hchild⟩, ?_⟩
    · rw [(mkfile_of_parent hp content owner group perm).2]
      exact (AList.mem_insert _).2 (.inl rfl)
    · rw [← layer_eq_deleted, hl, if_pos rfl]
      simp

end FakeFilesystem

/-! ### Requests -/

namespace Request

open FakeFilesystem

variable (U : Unicode) (σ : Site)

/-- The file that the client is told was stored: no front end but `touch` looks at what `mkfile` returns. -/
def told : Request → Option (Str × Content)
  | redirect cwd _ target append stdout =>
    (σ.fs.redirectContent (resolvePath cwd target) append stdout).map fun content => (resolvePath cwd target, content)
  | touch cwd username arg =>
    if arg.head? = some '-' then none
    else (σ.fs.mkfile (resolvePath cwd arg) (.text []) username).1.map fun _ => (resolvePath cwd arg, .text [])
  | sftp session (.close handle) =>
    match (σ.sftp session).fileHandles.lookup handle with
    | none => none
    | some file => if file.isWrite then some (file.path, .bytes file.buffer) else none
  | scp session r =>
    if (σ.scp session).exit.isSome ∨ r.header.head? ≠ some 'C' then none
    else (ScpHandler.copyHeader U r.header).map fun (_, _, filename) =>
      (ScpHandler.targetPath σ.fs (σ.scp session).currentBase filename, .bytes r.content)
  | _ => none

/-- The operations write under canonical keys, and a file that the client is told of is given by an absolute path with a
parent directory. -/
def StoresCanonically (r : Request) : Prop :=
  Meets Op.apply KeepsCanonical σ.fs (r.ops U σ) ∧
    ∀ f ∈ r.told U σ, IsCanonical (resolve f.1) ∧ σ.fs.HasParent (resolve f.1)

/-- The last operation of a request that tells of a file is its `mkfile`. -/
private theorem ops_of_told {r : Request} {f : Str × Content} (h : f ∈ r.told U σ) :
    ∃ os owner group perm, r.ops U σ = os ++ [.mkfile f.1 f.2 owner group perm] ∧
      ∀ o ∈ os, ∃ path args, o = .getContent path args := by
  cases r with
  | redirect cwd username target append stdout =>
    obtain ⟨content, hc, rfl⟩ := Option.map_eq_some_iff.1 h
    refine ⟨if append && σ.fs.pathExists (resolvePath cwd target) then [.getContent (resolvePath cwd target) ∅] else [],
      username, username, "-rw-r--r--".toList, by simp only [ops, redirectOps, hc], fun o ho => ?_⟩
    split at ho
    · exact ⟨_, _, List.mem_singleton.1 ho⟩
    · cases ho
  | touch cwd username arg =>
    simp only [told] at h
    split at h
    · cases h
    · rename_i hdash
      obtain ⟨node, -, rfl⟩ := Option.map_eq_some_iff.1 h
      exact ⟨[], username, root, "-rw-r--r--".toList, by simp only [ops, touchOps, if_neg hdash]; rfl, by simp⟩
  | sftp session r =>
    cases r with
    | close handle =>
      simp only [told] at h
      split at h
      · cases h
      · rename_i file hfile
        split at h
        · rename_i hw
          obtain rfl := Option.some.inj h
          refine ⟨[], root, root, "-rw-r--r--".toList, ?_, by simp⟩
          simp only [ops, CyanideSFTPHandler.ops, CyanideSFTPHandler.closeOps, hfile, hw, if_true]
          rfl
        · cases h
    | _ => cases h
  | scp session r =>
    simp only [told] at h
    split at h
    · cases h
    · rename_i hopen
      simp only [not_or, not_not, Bool.not_eq_true] at hopen
      obtain ⟨⟨mode, size, filename⟩, hc, rfl⟩ := Option.map_eq_some_iff.1 h
      refine ⟨[], (σ.scp session).username, (σ.scp session).username, "-rw-r--r--".toList, ?_, by simp⟩
      simp only [ops, ScpHandler.sinkOps, hopen.1, hopen.2, hc, Bool.false_eq_true, if_false]
      rfl
  | _ => cases h

private theorem run_reads {s : FakeFilesystem} {os : List Op} (h : ∀ o ∈ os, ∃ path args, o = Op.getContent path args)
    (q : Str) : (run Op.apply s os).layer q = s.layer q := by
  induction os generalizing s with
  | nil => rfl
  | cons o os ih =>
    obtain ⟨path, args, rfl⟩ := h o (by simp)
    rw [run_cons, ih fun o ho => h o (by simp [ho])]
    exact layer_getContent path args q

private theorem hasParent_of_layer {s s' : FakeFilesystem} (h : ∀ q, s'.layer q = s.layer q) (q : Str) :
    s'.HasParent q ↔ s.HasParent q := by
  simp only [HasParent, pathExists_eq, isDir_eq, h]

/-- What a request tells of, it has stored, if the path is absolute and has a parent directory. -/
theorem stored_of_told {r : Request} {f : Str × Content} (h : f ∈ r.told U σ) (hq : IsCanonical (resolve f.1))
    (hp : σ.fs.HasParent (resolve f.1)) : Stored (r.apply U σ).fs f.1 f.2 := by
  obtain ⟨os, owner, group, perm, hops, hreads⟩ := ops_of_told U σ h
  rw [fs_apply, hops, run_append]
  refine stored_mkfile hq ?_ f.2 owner group perm
  rwa [hasParent_of_layer (run_reads hreads)]

/-! ### Runs -/

/-- Over every run whose requests write under canonical keys, and tell only of files with an absolute path and a parent
directory, the keys are canonical and what a client is told was stored is found under its canonical path and listed in
its parent directory. -/
theorem canonical_run (hI : σ.fs.CanonicalKeys) (rs : List Request)
    (hG : Meets (apply U) (fun σ r => r.StoresCanonically U σ) σ rs) :
    (∀ rs', rs' <+: rs → (run (apply U) σ rs').fs.CanonicalKeys) ∧
    ∀ rs' r, rs' ++ [r] <+: rs → ∀ f ∈ r.told U (run (apply U) σ rs'),
      Stored (run (apply U) σ (rs' ++ [r])).fs f.1 f.2 := by
  constructor
  · intro rs' hrs
    refine invariant_of_steps (I := fun σ : Site => σ.fs.CanonicalKeys) (fun σ r hI hG => ?_) hI (hG.initial hrs)
    rw [fs_apply]
    exact invariant_of_steps (I := CanonicalKeys) (fun _ o h hG => (canonicalKeys_apply_iff h o).2 hG) hI hG.1
  · intro rs' r hrs f hf
    obtain ⟨hq, hp⟩ := (meets_iff.1 hG rs' r hrs).2 f hf
    rw [run_append]
    exact stored_of_told U _ hf hq hp

theorem canonicalKeys_bare : bare.CanonicalKeys where
  overlay := by
    intro key hkey
    simp [bare] at hkey
  deleted := by
    intro path hpath
    simp [bare] at hpath

/-- An upload of an empty file by SFTP. -/
def upload (path : Str) : List Request :=
  [sftp 0 (.open path (fxfWrite ||| fxfCreat)), sftp 0 (.close (handleName 0))]

theorem canonical_run_upload :
    (run (apply ascii) bareSite (upload "/u".toList)).fs.CanonicalKeys ∧
      Stored (run (apply ascii) bareSite (upload "/u".toList)).fs "/u".toList (.bytes []) := by
  have h := canonical_run ascii bareSite canonicalKeys_bare (upload "/u".toList)
    ⟨⟨trivial, fun f hf => by cases hf⟩, ⟨⟨fun _ => by decide, trivial⟩, fun f hf => ?_⟩, trivial⟩
  · exact ⟨h.1 _ (List.prefix_refl _), h.2 [sftp 0 (.open "/u".toList (fxfWrite ||| fxfCreat))] _ ⟨[], rfl⟩
      ("/u".toList, .bytes []) rfl⟩
  · obtain rfl : ("/u".toList, Content.bytes []) = f := Option.some.inj hf
    decide

/-- A client that uploads under a relative path is told that the file was stored; its key is not canonical, and the file
is not listed. -/
theorem not_canonical_upload :
    ¬(run (apply ascii) bareSite (upload "u".toList)).fs.CanonicalKeys ∧
      (sftp 0 (.close (handleName 0))).told ascii (run (apply ascii) bareSite ((upload "u".toList).take 1)) =
        some ("u".toList, .bytes []) ∧
      ¬Stored (run (apply ascii) bareSite (upload "u".toList)).fs "u".toList (.bytes []) := by
  refine ⟨fun h => ?_, rfl, fun h => ?_⟩
  · exact absurd (h.overlay "u".toList (by decide)) (by decide)
  · exact absurd h.canonical (by decide)

end Request

end Cyanide
