import Cyanide.Services.Requests
import Cyanide.Vfs.ParentClosed

/-!
# Directories stay directories

No check keeps `mkfile` from an existing directory, `mkdir_p` makes a directory of each file on its walk, and `chmod`
and `chown` write the type of the node, which is not the type of the entry when that is neither of the two.
`sameKinds_apply_iff` says for each operation when it leaves the existing paths what they are, and `preserves_run_iff`
for each run of requests, with the contents that `touch` and `mkdir_p` must not change.
-/

namespace Cyanide

open PosixPath PyText Transition

namespace FakeFilesystem

variable {s : FakeFilesystem}

/-- What exists in both is a directory in both or in none, and a file in both or in none. -/
def SameKinds (s s' : FakeFilesystem) : Prop :=
  ∀ path, s.pathExists path = true → s'.pathExists path = true →
    s'.isDir path = s.isDir path ∧ s'.isFile path = s.isFile path

/-- The files of the first have the same bytes in the second. -/
def SameContents (s s' : FakeFilesystem) : Prop :=
  ∀ path, s.isFile path = true → (s'.getContent path).1.encode = (s.getContent path).1.encode

/-- The entry is of the profile, and its type is not that of its node. -/
def OddType (s : FakeFilesystem) (q : Str) : Prop :=
  match s.layer q with
  | .dynamic config => config.type.getD typeFile ≠ typeFile
  | .row config => config.type ≠ some typeDir ∧ config.type ≠ some typeFile
  | .deleted | .overlay _ | .implicit | .missing => False

/-- The operations after which each existing path is what it was. -/
def KeepsKinds (s : FakeFilesystem) : Op → Prop
  | .mkfile path .. => s.HasParent (resolve path) → s.pathExists path = true → s.isFile path = true
  | .mkdirP path .. => ∀ q ∈ walkFrom ['/'] (mkdirParts path), resolve q = q → s.isFile q = false
  | .chmod path _ => ¬s.OddType (resolve path)
  | .chown path .. => ¬s.OddType (resolve path)
  | .getContent .. => True
  | .remove _ => True
  | .tick _ => True

/-! ### One operation -/

theorem sameKinds_iff {s' : FakeFilesystem} : SameKinds s s' ↔
    ∀ q, resolve q = q → (s.layer q).present q = true → (s'.layer q).present q = true →
      (s'.layer q).dir q = (s.layer q).dir q ∧ (s'.layer q).file = (s.layer q).file := by
  simp only [SameKinds, pathExists_eq, isDir_eq, isFile_eq]
  constructor
  · intro h q hq
    simpa only [hq] using h q
  · exact fun h path => h (resolve path) (resolve_resolve path)

theorem SameKinds.refl (s : FakeFilesystem) : SameKinds s s := fun _ _ _ => ⟨rfl, rfl⟩

theorem sameKinds_of_layer {s' : FakeFilesystem} (h : ∀ q, s'.layer q = s.layer q) : SameKinds s s' := by
  rw [sameKinds_iff]
  intro q _ _ _
  rw [h]
  exact ⟨rfl, rfl⟩

private theorem dir_of_file {q : Str} {l : Layer} (h : l.file = true) : l.dir q = decide (q = ['/']) := by
  cases l with
  | overlay config =>
    rw [Layer.file, decide_eq_true_eq] at h
    simp [Layer.dir, h]
  | dynamic config =>
    rw [Layer.file, decide_eq_true_eq] at h
    cases ht : config.type with
    | none => simp [Layer.dir, ht]
    | some t =>
      rw [ht, Option.getD_some] at h
      simp [Layer.dir, ht, h]
  | row config =>
    rw [Layer.file, decide_eq_true_eq] at h
    cases ht : config.type with
    | none => simp [Layer.dir, ht]
    | some t =>
      rw [ht, Option.getD_some] at h
      simp [Layer.dir, ht, h]
  | deleted => cases h
  | implicit => cases h
  | missing => cases h

private theorem sameKinds_mkfile (path : Str) (content : Content) (owner group perm : Str) :
    SameKinds s (s.mkfile path content owner group perm).2 ↔ s.KeepsKinds (.mkfile path content owner group perm) := by
  rw [sameKinds_iff]
  simp only [KeepsKinds, pathExists_eq, isFile_eq, layer_mkfile]
  have hq := resolve_resolve path
  generalize resolve path = q at hq
  constructor
  · intro h hp hx
    have := (h q hq hx (by rw [if_pos ⟨rfl, hp⟩]; rfl)).2
    rw [if_pos ⟨rfl, hp⟩] at this
    rw [← this]
    rfl
  · intro h x _ hx _
    split
    · rename_i hnew
      obtain ⟨rfl, hp⟩ := hnew
      have hf := h hp hx
      rw [dir_of_file hf, hf]
      simp [Layer.dir, Layer.file, fileConfig]
    · exact ⟨rfl, rfl⟩

private theorem sameKinds_mkdirP (path owner group perm : Str) :
    SameKinds s (s.mkdirP path owner group perm) ↔ s.KeepsKinds (.mkdirP path owner group perm) := by
  rw [sameKinds_iff]
  constructor
  · intro h q hw hq
    by_contra hf
    rw [Bool.not_eq_false] at hf
    have hx := pathExists_of_isFile hf
    rw [pathExists_eq, hq] at hx
    have hl := layer_mkdirP (s := s) path owner group perm hq
    rw [if_pos ⟨hw, .inr hf⟩] at hl
    have := (h q hq hx (by rw [hl]; rfl)).2
    rw [isFile_eq, hq] at hf
    rw [hl, hf] at this
    simp [Layer.file, dirConfig] at this
  · intro h q hq hx _
    rw [layer_mkdirP _ _ _ _ hq, if_neg]
    · exact ⟨rfl, rfl⟩
    · rintro ⟨hw, hno | hf⟩
      · rw [pathExists_eq, hq, hx] at hno
        cases hno
      · rw [h q hw hq] at hf
        cases hf

/-- The entry that `chmod` and `chown` write is of the kind of the old one, unless that has an odd type. -/
private theorem kind_nodeType {q : Str} {config : Config} (hnode : (s.layer q).nodeDir q ≠ none)
    (htype : config.type = s.nodeType q) :
    ((Layer.overlay config).dir q = (s.layer q).dir q ∧ (Layer.overlay config).file = (s.layer q).file) ↔
      ¬s.OddType q := by
  simp only [Layer.dir, Layer.file, htype, nodeType, OddType]
  cases hl : s.layer q with
  | deleted => simp [hl, Layer.nodeDir] at hnode
  | overlay c => simp
  | dynamic c =>
    have hfile : (Layer.dynamic c).file = decide (c.type.getD typeFile = typeFile) := rfl
    by_cases ht : c.type.getD typeFile = typeFile
    · have := dir_of_file (q := q) (hfile.trans (decide_eq_true ht))
      rw [Layer.dir] at this
      simp [Layer.nodeDir, ht, this]
    · simp [Layer.nodeDir, ht]
  | row c =>
    obtain ⟨t, ht⟩ := Option.isSome_iff_exists.1 (type_of_layer_row hl)
    by_cases hd : t = typeDir
    · simp [Layer.nodeDir, ht, hd]
    · by_cases hf : t = typeFile <;> simp [Layer.nodeDir, ht, hd, hf]
  | implicit => simp [Layer.nodeDir]
  | missing =>
    by_cases hroot : q = ['/']
    · simp [Layer.nodeDir, hroot]
    · simp [hl, Layer.nodeDir, hroot] at hnode

private theorem not_oddType_of_no_node {q : Str} (hnode : (s.layer q).nodeDir q = none) : ¬s.OddType q := by
  unfold OddType
  revert hnode
  cases s.layer q <;> simp [Layer.nodeDir]

private theorem sameKinds_touched {s' : FakeFilesystem} {path : Str}
    (h : (s.getNode path = none ∧ s' = s) ∨ Touched s s' (resolve path)) :
    SameKinds s s' ↔ ¬s.OddType (resolve path) := by
  rcases h with ⟨hn, rfl⟩ | ht
  · refine iff_of_true (SameKinds.refl _) (not_oddType_of_no_node ?_)
    rw [← getNode_dir_eq, hn]
    rfl
  · obtain ⟨config, htype, hl⟩ := ht.layer
    have hx := present_of_nodeDir ht.node
    rw [← kind_nodeType ht.node htype, sameKinds_iff]
    constructor
    · intro h
      have := h _ (resolve_resolve path) hx (by rw [hl, if_pos rfl]; rfl)
      rwa [hl, if_pos rfl] at this
    · intro h x _ _ _
      rw [hl]
      split
      · rename_i heq
        rw [heq]
        exact h
      · exact ⟨rfl, rfl⟩

/-- An operation leaves the existing paths directories and files as they were if and only if it keeps the kinds. -/
theorem sameKinds_apply_iff (o : Op) : SameKinds s (o.apply s) ↔ s.KeepsKinds o := by
  cases o with
  | getContent path args => exact iff_of_true (sameKinds_of_layer fun q => layer_getContent path args q) trivial
  | mkfile path content owner group perm => exact sameKinds_mkfile path content owner group perm
  | mkdirP path owner group perm => exact sameKinds_mkdirP path owner group perm
  | chmod path perm => exact sameKinds_touched (s.chmod_touched path perm)
  | chown path owner group => exact sameKinds_touched (s.chown_touched path owner group)
  | remove path =>
    refine iff_of_true (sameKinds_iff.2 fun q _ _ hx => ?_) trivial
    rw [Op.apply, layer_remove] at hx ⊢
    split at hx
    · cases hx
    · rename_i hne
      rw [if_neg hne]
      exact ⟨rfl, rfl⟩
  | tick now => exact iff_of_true (SameKinds.refl s) trivial

/-! ### Contents -/

theorem sameContents_mkdirP {path owner group perm : Str} (h : s.KeepsKinds (.mkdirP path owner group perm)) :
    SameContents s (s.mkdirP path owner group perm) := by
  intro x hf
  have hx := pathExists_of_isFile hf
  rw [← pathExists_resolve] at hx
  have hf' : s.isFile (resolve x) = true := by rwa [isFile_eq, resolve_resolve, ← isFile_eq]
  rw [content_eq, content_eq, profile_mkdirP, layer_mkdirP _ _ _ _ (resolve_resolve x), if_neg]
  rintro ⟨hw, hno | -⟩
  · rw [hx] at hno
    cases hno
  · rw [h _ hw (resolve_resolve x)] at hf'
    cases hf'

/-- `touch` spares the contents just when what it touches is missing or empty. -/
theorem sameContents_mkfile_nil (path owner group perm : Str) :
    SameContents s (s.mkfile path (.text []) owner group perm).2 ↔
      (s.HasParent (resolve path) → s.isFile path = true → (s.getContent path).1.encode = []) := by
  simp only [SameContents, content_eq, profile_mkfile, layer_mkfile]
  constructor
  · intro h hp hf
    have := h path hf
    rw [if_pos ⟨rfl, hp⟩] at this
    rw [← this]
    rfl
  · intro h x hf
    split
    · rename_i hnew
      obtain ⟨heq, hp⟩ := hnew
      rw [heq, h hp (by rwa [isFile_eq, ← heq, ← isFile_eq])]
      rfl
    · rfl

end FakeFilesystem

/-! ### Requests -/

namespace Request

open FakeFilesystem

variable (U : Unicode) (σ : Site)

/-- The requests that move nothing. -/
def Stays : Request → Prop
  | call (.op _) => True
  | call (.copy ..) => False
  | call (.move ..) => False
  | sftp _ (.rename ..) => False
  | _ => True

/-- `touch`, and what is nothing but a `mkdir_p`. -/
def SparesContents (r : Request) : Prop :=
  (∃ cwd username arg, r = touch cwd username arg) ∨
    ∀ o ∈ r.ops U σ, ∃ path owner group perm, o = .mkdirP path owner group perm

/-- No existing path becomes a directory or a file, and `touch` and `mkdir_p` change the content of no file. -/
def Preserves (r : Request) : Prop :=
  r.Stays → SameKinds σ.fs (r.apply U σ).fs ∧ (r.SparesContents U σ → SameContents σ.fs (r.apply U σ).fs)

/-- What `touch` is given is no file with a content. -/
def TouchesEmpty : Request → Prop
  | touch cwd _ arg => arg.head? ≠ some '-' → σ.fs.HasParent (resolve (resolvePath cwd arg)) →
      σ.fs.isFile (resolvePath cwd arg) = true → (σ.fs.getContent (resolvePath cwd arg)).1.encode = []
  | _ => True

/-- The requests that preserve kinds and contents. -/
def Keeps (r : Request) : Prop :=
  r.Stays → Meets Op.apply KeepsKinds σ.fs (r.ops U σ) ∧ r.TouchesEmpty σ

/-- At most one operation, but for a read in front of it. -/
private def Single (os : List Op) : Prop :=
  os = [] ∨ (∃ o, os = [o]) ∨ ∃ path args o, os = [.getContent path args, o]

private theorem single_ops {r : Request} (h : r.Stays) : Single (r.ops U σ) := by
  cases r with
  | call c =>
    cases c with
    | op o => exact .inr (.inl ⟨o, rfl⟩)
    | copy depth src dst recursive => exact h.elim
    | move depth src dst => exact h.elim
  | redirect cwd username target append stdout =>
    simp only [ops, redirectOps]
    generalize σ.fs.redirectContent _ _ _ = content
    split <;> cases content
    · exact .inr (.inl ⟨_, rfl⟩)
    · exact .inr (.inr ⟨_, _, _, rfl⟩)
    · exact .inl rfl
    · exact .inr (.inl ⟨_, rfl⟩)
  | touch cwd username arg =>
    simp only [ops, touchOps]
    split
    · exact .inl rfl
    · exact .inr (.inl ⟨_, rfl⟩)
  | mkdir cwd username arg parents =>
    simp only [ops, mkdirOps]
    split
    · exact .inr (.inl ⟨_, rfl⟩)
    · exact .inl rfl
  | sftp session r =>
    cases r with
    | «open» path flags =>
      simp only [ops, CyanideSFTPHandler.ops, CyanideSFTPHandler.openOps]
      split
      · exact .inr (.inl ⟨_, rfl⟩)
      · exact .inl rfl
    | close handle =>
      simp only [ops, CyanideSFTPHandler.ops, CyanideSFTPHandler.closeOps]
      split
      · exact .inl rfl
      · split
        · exact .inr (.inl ⟨_, rfl⟩)
        · exact .inl rfl
    | read handle offset size => exact .inl rfl
    | write handle offset data => exact .inl rfl
    | mkdir path => exact .inr (.inl ⟨_, rfl⟩)
    | remove path => exact .inr (.inl ⟨_, rfl⟩)
    | rmdir path => exact .inr (.inl ⟨_, rfl⟩)
    | rename depth oldpath newpath => exact h.elim
  | scpStart session username path => exact .inl rfl
  | scp session r =>
    simp only [ops, ScpHandler.sinkOps]
    split
    · exact .inl rfl
    · split
      · split
        · exact .inl rfl
        · exact .inr (.inl ⟨_, rfl⟩)
      · split
        · exact .inl rfl
        · exact .inr (.inl ⟨_, rfl⟩)
      · exact .inl rfl

private theorem sameKinds_run_iff {s : FakeFilesystem} {os : List Op} (h : Single os) :
    SameKinds s (run Op.apply s os) ↔ Meets Op.apply KeepsKinds s os := by
  rcases h with rfl | ⟨o, rfl⟩ | ⟨path, args, o, rfl⟩
  · exact iff_of_true (SameKinds.refl s) trivial
  · exact (sameKinds_apply_iff o).trans (by simp)
  · have hread : SameKinds s (run Op.apply s [.getContent path args, o]) ↔
        SameKinds (s.getContent path args).2 (o.apply (s.getContent path args).2) := by
      simp only [sameKinds_iff, layer_getContent]
      rfl
    rw [hread, sameKinds_apply_iff]
    simp [KeepsKinds, Op.apply]

/-- A request preserves kinds and contents if and only if its operations keep the kinds and `touch` gets no file with
a content. -/
theorem preserves_iff (r : Request) : r.Preserves U σ ↔ r.Keeps U σ := by
  refine forall_congr' fun hstays => ?_
  rw [fs_apply, sameKinds_run_iff (single_ops U σ hstays)]
  refine and_congr_right fun hkinds => ?_
  by_cases htouch : ∃ cwd username arg, r = touch cwd username arg
  · obtain ⟨cwd, username, arg, rfl⟩ := htouch
    have hspares : (touch cwd username arg).SparesContents U σ := .inl ⟨cwd, username, arg, rfl⟩
    simp only [hspares, true_implies, ops, touchOps, TouchesEmpty]
    by_cases hdash : arg.head? = some '-'
    · simp only [hdash, if_true, run_nil, ne_eq, not_true_eq_false, false_implies, iff_true]
      exact fun _ _ => rfl
    · simp only [hdash, if_false, ne_eq, not_false_eq_true, true_implies]
      exact sameContents_mkfile_nil (resolvePath cwd arg) username root "-rw-r--r--".toList
  · refine iff_of_true ?_ ?_
    · rintro (h | hall)
      · exact absurd h htouch
      · rcases single_ops U σ hstays with h | ⟨o, h⟩ | ⟨path, args, o, h⟩ <;> rw [h] at hkinds hall ⊢
        · exact fun _ _ => rfl
        · obtain ⟨path, owner, group, perm, rfl⟩ := hall o (by simp)
          exact sameContents_mkdirP hkinds.1
        · obtain ⟨_, _, _, _, hne⟩ := hall (.getContent path args) (by simp)
          cases hne
    · cases r with
      | touch cwd username arg => exact absurd ⟨cwd, username, arg, rfl⟩ htouch
      | _ => trivial

/-! ### Runs -/

/-- Every request of a run preserves kinds and contents, just when each of them meets the condition in the state it
is made in. -/
theorem preserves_run_iff (rs : List Request) :
    (∀ rs' r, rs' ++ [r] <+: rs → r.Preserves U (run (apply U) σ rs')) ↔
      Meets (apply U) (fun σ r => r.Keeps U σ) σ rs := by
  rw [meets_iff]
  simp only [preserves_iff]

/-- `touch` makes a file of a directory, and empties a file. -/
theorem not_preserves_touch :
    ¬(touch ['/'] root "a".toList).Preserves ascii
      (run (apply ascii) bareSite [mkdir ['/'] root "a".toList false]) ∧
    ¬(touch ['/'] root "a".toList).Preserves ascii
      (run (apply ascii) bareSite [redirect ['/'] root "a".toList false (.text "x".toList)]) := by
  refine ⟨fun h => ?_, fun h => ?_⟩
  · have := ((h trivial).1 "/a".toList (by decide) (by decide)).1
    exact absurd this (by decide)
  · have := (h trivial).2 (.inl ⟨_, _, _, rfl⟩) "/a".toList (by decide)
    exact absurd this (by decide)

end Request

end Cyanide
