import Cyanide.Vfs.Runs

/-!
# Agreement of the queries

`exists`, `is_dir`, `is_file` and `get_node` agree on a path when the entry that answers for it has one of the two
types: `dir` or `file`, where a dynamic file may leave the type out but is never a directory, and where `/` is nothing
but a directory (`agree_iff`).  The only step that breaks the agreement is a `mkfile` on `/`.
-/

namespace Cyanide

open PosixPath Transition

/-- The entry has a type that all queries read in the same way. -/
def Layer.Regular (path : Str) : Layer → Prop
  | overlay config | row config => config.type = some typeDir ∨ (path ≠ ['/'] ∧ config.type = some typeFile)
  | dynamic config => path ≠ ['/'] ∧ config.type.getD typeFile = typeFile
  | deleted | implicit | missing => True

namespace FakeFilesystem

variable {s : FakeFilesystem}

def Agree (s : FakeFilesystem) (path : Str) : Prop :=
  (s.pathExists path = true ↔ Xor (s.isDir path = true) (s.isFile path = true)) ∧
    (s.getNode path = none ↔ s.pathExists path = false) ∧
    ∀ node, s.getNode path = some node → node.isDir = s.isDir path

def Regular (s : FakeFilesystem) : Prop := ∀ path, (s.layer (resolve path)).Regular (resolve path)

/-- The steps that write no file entry for `/`. -/
def KeepsTypes (_ : FakeFilesystem) : Op → Prop
  | .mkfile path .. => resolve path ≠ ['/']
  | _ => True

private theorem agree_iff_of_present {q path : Str} (hq : resolve path = q) {d : Bool}
    (hx : (s.layer q).present q = true) (hn : (s.layer q).nodeDir q = some d) :
    s.Agree path ↔ Xor ((s.layer q).dir q = true) ((s.layer q).file = true) ∧ d = (s.layer q).dir q := by
  have hnode := s.getNode_dir_eq path
  rw [hq, hn] at hnode
  obtain ⟨node, hnode', rfl⟩ := Option.map_eq_some_iff.1 hnode
  simp [Agree, pathExists_eq, isDir_eq, isFile_eq, hq, hx, hnode']

private theorem agree_of_absent {q path : Str} (hq : resolve path = q) (hx : (s.layer q).present q = false)
    (hd : (s.layer q).dir q = false) (hf : (s.layer q).file = false) (hn : (s.layer q).nodeDir q = none) :
    s.Agree path := by
  have hnode := s.getNode_dir_eq path
  rw [hq, hn, Option.map_eq_none_iff] at hnode
  simp [Agree, pathExists_eq, isDir_eq, isFile_eq, hq, hx, hd, hf, hnode, Xor]

/-- The queries agree on a path if and only if the type of the entry that answers for it is regular. -/
theorem agree_iff (s : FakeFilesystem) (path : Str) :
    s.Agree path ↔ (s.layer (resolve path)).Regular (resolve path) := by
  generalize hq : resolve path = q
  cases hl : s.layer q with
  | deleted => exact iff_of_true (agree_of_absent hq (by rw [hl]; rfl) (by rw [hl]; rfl) (by rw [hl]; rfl)
      (by rw [hl]; rfl)) trivial
  | overlay config =>
    rw [agree_iff_of_present hq (by rw [hl]; rfl) (by rw [hl]; rfl), hl]
    simp only [Layer.dir, Layer.file, Layer.Regular, Bool.or_eq_true, decide_eq_true_eq]
    by_cases hd : config.type = some typeDir
    · simp [hd, Xor]
    · by_cases hroot : q = ['/'] <;> simp [hd, hroot, Xor]
  | dynamic config =>
    rw [agree_iff_of_present hq (by rw [hl]; rfl) (by rw [hl]; rfl), hl]
    simp only [Layer.dir, Layer.file, Layer.Regular, Bool.or_eq_true, decide_eq_true_eq]
    by_cases hd : config.type = some typeDir
    · simp [hd]
    · by_cases hroot : q = ['/'] <;> simp [hd, hroot, Xor]
  | row config =>
    obtain ⟨t, ht⟩ := Option.isSome_iff_exists.1 (type_of_layer_row hl)
    rw [agree_iff_of_present hq (by rw [hl]; rfl) (by rw [hl]; rfl), hl]
    simp only [Layer.dir, Layer.file, Layer.Regular, Bool.or_eq_true, decide_eq_true_eq, ht, Option.some.injEq,
      Option.getD_some]
    by_cases hd : t = typeDir
    · simp [hd, Xor]
    · by_cases hroot : q = ['/'] <;> simp [hd, hroot, Xor]
  | implicit =>
    rw [agree_iff_of_present hq (by rw [hl]; rfl) (by rw [hl]; rfl), hl]
    simp [Layer.dir, Layer.file, Layer.Regular, Xor]
  | missing =>
    refine iff_of_true ?_ trivial
    by_cases hroot : q = ['/']
    · rw [agree_iff_of_present hq (by rw [hl]; simp [Layer.present, hroot])
        (by rw [hl, Layer.nodeDir, if_pos hroot]), hl]
      simp [Layer.dir, Layer.file, hroot, Xor]
    · exact agree_of_absent hq (by simp [hl, Layer.present, hroot]) (by simp [hl, Layer.dir, hroot])
        (by simp [hl, Layer.file]) (by simp [hl, Layer.nodeDir, hroot])

/-! ### Runs -/

/-- The type that `chmod` and `chown` write is that of the node, and at `/` the node is a directory. -/
private theorem regular_nodeType {q : Str} {config : Config} (hx : (s.layer q).Regular q)
    (hnode : (s.layer q).nodeDir q ≠ none) (htype : config.type = s.nodeType q) :
    (Layer.overlay config).Regular q := by
  simp only [Layer.Regular, htype, nodeType]
  cases hl : s.layer q with
  | deleted => simp [hl, Layer.nodeDir] at hnode
  | overlay c => simpa [hl, Layer.Regular] using hx
  | dynamic c =>
    rw [hl] at hx
    exact .inr ⟨hx.1, rfl⟩
  | row c =>
    rw [hl] at hx
    rcases hx with hd | ⟨hroot, hf⟩
    · exact .inl (by simp [Layer.nodeDir, hd])
    · exact .inr ⟨hroot, by simp [Layer.nodeDir, hf]⟩
  | implicit => exact .inl rfl
  | missing =>
    by_cases hroot : q = ['/']
    · exact .inl (by simp [Layer.nodeDir, hroot])
    · simp [hl, Layer.nodeDir, hroot] at hnode

private theorem regular_touched {s' : FakeFilesystem} {path : Str} (h : s.Regular)
    (ht : (s.getNode path = none ∧ s' = s) ∨ Touched s s' (resolve path)) : s'.Regular := by
  rcases ht with ⟨-, rfl⟩ | ht
  · exact h
  obtain ⟨config, htype, hl⟩ := ht.layer
  intro x
  rw [hl]
  split
  · rename_i heq
    rw [heq]
    exact regular_nodeType (h path) ht.node htype
  · exact h x

theorem regular_apply_iff (h : s.Regular) (o : Op) : (o.apply s).Regular ↔ s.KeepsTypes o := by
  cases o with
  | getContent path args =>
    refine iff_of_true (fun x => ?_) trivial
    rw [Op.apply, layer_getContent]
    exact h x
  | mkfile path content owner group perm =>
    constructor
    · intro h' (hroot : resolve path = ['/'])
      have hr := h' path
      rw [Op.apply, layer_mkfile, if_pos ⟨rfl, .inl (by rw [hroot]; rfl)⟩, hroot] at hr
      exact hr.elim (fun hr => by simp [fileConfig] at hr) (fun hr => hr.1 rfl)
    · intro (hne : resolve path ≠ ['/']) x
      rw [Op.apply, layer_mkfile]
      split
      · rename_i hx
        exact .inr ⟨by rw [hx.1]; exact hne, rfl⟩
      · exact h x
  | mkdirP path owner group perm =>
    refine iff_of_true (fun x => ?_) trivial
    rw [Op.apply, layer_mkdirP _ _ _ _ (resolve_resolve x)]
    split
    · exact .inl rfl
    · exact h x
  | chmod path perm => exact iff_of_true (regular_touched h (s.chmod_touched path perm)) trivial
  | chown path owner group => exact iff_of_true (regular_touched h (s.chown_touched path owner group)) trivial
  | remove path =>
    refine iff_of_true (fun x => ?_) trivial
    rw [Op.apply, layer_remove]
    split
    · trivial
    · exact h x
  | tick now => exact iff_of_true h trivial

/-- From entries of regular types, the queries agree on every path all along a run without a `mkfile` on `/`. -/
theorem agree_run (calls : List Call) (h : s.Regular) (hG : StepsMeet KeepsTypes s calls) :
    ∀ cs, cs <+: calls → ∀ path, (run Call.apply s cs).Agree path := by
  intro cs hcs path
  rw [agree_iff]
  exact invariant_of_ops (I := Regular) (fun s o h hG => (regular_apply_iff h o).2 hG) h (hG.initial hcs) path

/-- The queries agree on every path all along a run, inside `copy` and `move` too, just when they do at the start and no
`mkfile` writes an entry for `/`. -/
theorem agree_run_iff (ops : List Op) :
    (∀ os, os <+: ops → ∀ path, (run Op.apply s os).Agree path) ↔ s.Regular ∧ Meets Op.apply KeepsTypes s ops := by
  simp only [agree_iff]
  exact forall_reached_iff (I := Regular) (J := fun _ => True) (fun _ _ _ => trivial)
    (fun _ o _ h => regular_apply_iff h o) trivial

theorem regular_bare : bare.Regular := by
  intro path
  rw [bare_layer]
  trivial

theorem agree_run_mkfile :
    (run Call.apply bare [.op (.mkfile "/a".toList (.text []) root root "-rw-r--r--".toList)]).Agree "/a".toList := by
  refine agree_run (s := bare) [.op (.mkfile "/a".toList (.text []) root root "-rw-r--r--".toList)] regular_bare
    ⟨⟨?_, trivial⟩, trivial⟩ _ (List.prefix_refl _) _
  show resolve "/a".toList ≠ ['/']
  decide

/-- A profile with the dynamic file `/proc/uptime` of type `generated`. -/
def generatedUptime : FakeFilesystem :=
  { bare with profile := { bare.profile with
      dynamicFiles := AList.singleton "/proc/uptime".toList
        { type := some "generated".toList, provider := some "uptime_provider".toList } } }

/-- A generated file exists and is neither a directory nor a file. -/
theorem not_agree_generatedUptime :
    Reachable generatedUptime ∧ ¬generatedUptime.Agree "/proc/uptime".toList := by
  refine ⟨⟨generatedUptime, [], rfl, rfl⟩, ?_⟩
  rintro ⟨h, -⟩
  have hx := h.1 (by decide)
  exact absurd (hx.elim And.left fun h => absurd h.1 (by decide)) (by decide)

end FakeFilesystem

end Cyanide
