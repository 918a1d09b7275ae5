import Cyanide.Vfs.Runs

/-!
# Parent directories

A filesystem is parent-closed when every existing path other than `/` has an existing parent directory.  Four kinds of
step break this: `remove` of a directory that is not empty, `mkfile` over one, a `chmod` or `chown` that turns a
dynamic directory into a file, and `mkdir_p` below an existing path that is neither a directory nor a file.
`KeepsParents` is their absence, and `parentClosed_apply_iff` says that nothing else breaks it.
-/

namespace Cyanide

open PosixPath Transition

namespace FakeFilesystem

variable {s : FakeFilesystem}

def ParentClosed (s : FakeFilesystem) : Prop :=
  ∀ path, s.pathExists path = true → resolve path ≠ ['/'] →
    s.pathExists (dirname (resolve path)) = true ∧ s.isDir (dirname (resolve path)) = true

/-- No existing path has `q` as its parent directory. -/
def Childless (s : FakeFilesystem) (q : Str) : Prop :=
  ∀ path, s.pathExists path = true → resolve path ≠ ['/'] → parent (resolve path) ≠ q

/-- `chmod` and `chown` leave a directory with entries what it is. -/
def KeepsDir (s : FakeFilesystem) (path : Str) : Prop :=
  s.getNode path ≠ none → s.isDir path = true → resolve path = ['/'] ∨ s.nodeType (resolve path) = some typeDir ∨
    s.Childless (resolve path)

/-- The steps after which a parent-closed filesystem is parent-closed. -/
def KeepsParents (s : FakeFilesystem) : Op → Prop
  | .mkfile path .. => s.HasParent (resolve path) → resolve path = ['/'] ∨ s.Childless (resolve path)
  | .mkdirP path .. => ∀ q ∈ walkFrom ['/'] (mkdirParts path), resolve q = q → s.pathExists q = false →
      s.pathExists (parent q) = true → s.isDir (parent q) = true ∨ s.isFile (parent q) = true
  | .chmod path _ => s.KeepsDir path
  | .chown path .. => s.KeepsDir path
  | .remove path => s.pathExists path = true → resolve path = ['/'] ∨ s.Childless (resolve path)
  | .getContent .. => True
  | .tick _ => True

/-! ### Parent-closure by layers -/

private theorem isDir_dirname (s : FakeFilesystem) (q : Str) :
    s.isDir (dirname q) = (s.layer (parent q)).dir (parent q) := s.isDir_eq (dirname q)

theorem parentClosed_iff : s.ParentClosed ↔
    ∀ q, resolve q = q → q ≠ ['/'] → (s.layer q).present q = true → (s.layer (parent q)).dir (parent q) = true := by
  constructor
  · intro h q hq hne hx
    rw [← isDir_dirname]
    have := (h q (by rw [pathExists_eq, hq]; exact hx) (by rwa [hq])).2
    rwa [hq] at this
  · intro h path hx hne
    have hdir : s.isDir (dirname (resolve path)) = true := by
      rw [isDir_dirname]
      exact h _ (resolve_resolve path) hne (by rwa [← pathExists_eq])
    exact ⟨pathExists_of_isDir hdir, hdir⟩

theorem childless_iff {q : Str} : s.Childless q ↔
    ∀ c, resolve c = c → c ≠ ['/'] → (s.layer c).present c = true → parent c ≠ q := by
  constructor
  · intro h c hc hne hx
    have := h c (by rw [pathExists_eq, hc]; exact hx) (by rwa [hc])
    rwa [hc] at this
  · intro h path hx hne
    exact h _ (resolve_resolve path) hne (by rwa [← pathExists_eq])

theorem root_dir (h : ['/'] ∉ s.deletedPaths) : (s.layer ['/']).dir ['/'] = true := by
  rw [← layer_eq_deleted] at h
  revert h
  cases s.layer ['/'] <;> simp [Layer.dir]

theorem present_of_nodeDir {q : Str} (h : (s.layer q).nodeDir q ≠ none) : (s.layer q).present q = true := by
  revert h
  cases s.layer q <;> simp [Layer.nodeDir, Layer.present]

/-! ### One step -/

private theorem hasParent_dir {q : Str} (hq : resolve q = q) (hne : q ≠ ['/']) (h : s.HasParent q) :
    (s.layer (parent q)).dir (parent q) = true := by
  rcases h with h | ⟨-, h⟩
  · exact absurd (by rw [parent, h, hq]) (parent_ne_self hq hne)
  · rwa [← isDir_dirname]

private theorem parentClosed_mkfile (hI : s.ParentClosed) (path : Str) (content : Content) (owner group perm : Str) :
    (s.mkfile path content owner group perm).2.ParentClosed ↔ s.KeepsParents (.mkfile path content owner group perm) := by
  rw [parentClosed_iff] at hI ⊢
  simp only [layer_mkfile, KeepsParents]
  have hq := resolve_resolve path
  generalize resolve path = q at hq
  constructor
  · intro h hp
    by_contra hno
    simp only [not_or, childless_iff, not_forall, not_not] at hno
    obtain ⟨hroot, c, hc, hne, hx, rfl⟩ := hno
    have := h c hc hne (by rwa [if_neg (fun h => parent_ne_self hc hne h.1.symm)])
    simp [hp, Layer.dir, hroot, fileConfig] at this
  · intro h c hc hne hx
    by_cases hp : s.HasParent q
    · by_cases hcq : parent c = q
      · subst hcq
        have hne' : c ≠ parent c := fun h => parent_ne_self hc hne h.symm
        rw [if_neg (fun h => hne' h.1)] at hx
        rcases h hp with hroot | hch
        · rw [if_pos ⟨rfl, hp⟩]
          simp [Layer.dir, hroot]
        · exact absurd rfl (childless_iff.1 hch c hc hne hx)
      · rw [if_neg (fun h => hcq h.1)]
        by_cases hcq' : c = q
        · subst hcq'
          exact hasParent_dir hc hne hp
        · rw [if_neg (fun h => hcq' h.1)] at hx
          exact hI c hc hne hx
    · rw [if_neg (fun h => hp h.2)] at hx ⊢
      exact hI c hc hne hx

private theorem parentClosed_remove (hI : s.ParentClosed) (path : Str) :
    (s.remove path).2.ParentClosed ↔ s.KeepsParents (.remove path) := by
  rw [parentClosed_iff] at hI ⊢
  simp only [layer_remove, KeepsParents]
  generalize hq : resolve path = q
  constructor
  · intro h hp
    by_contra hno
    simp only [not_or, childless_iff, not_forall, not_not] at hno
    obtain ⟨hroot, c, hc, hne, hx, rfl⟩ := hno
    have := h c hc hne (by rwa [if_neg (fun h => parent_ne_self hc hne h.1.symm)])
    simp [hp, hroot, Layer.dir] at this
  · intro h c hc hne hx
    by_cases hp : q ≠ ['/'] ∧ s.pathExists path = true
    · have hch := childless_iff.1 ((h hp.2).resolve_left hp.1)
      by_cases hcq : c = q
      · simp [hcq, hp, Layer.present] at hx
      · rw [if_neg (fun h => hcq h.1)] at hx
        rw [if_neg (fun h => hch c hc hne hx h.1)]
        exact hI c hc hne hx
    · rw [if_neg (fun h => hp h.2)] at hx ⊢
      exact hI c hc hne hx

private theorem parentClosed_touched {s' : FakeFilesystem} {path : Str} (hI : s.ParentClosed)
    (ht : Touched s s' (resolve path)) : s'.ParentClosed ↔
      (s.isDir path = true → resolve path = ['/'] ∨ s.nodeType (resolve path) = some typeDir ∨
        s.Childless (resolve path)) := by
  obtain ⟨config, htype, hl⟩ := ht.layer
  have hnode := present_of_nodeDir ht.node
  rw [parentClosed_iff] at hI ⊢
  rw [isDir_eq]
  generalize resolve path = q at htype hl hnode
  simp only [hl, ← htype]
  constructor
  · intro h _
    by_contra hno
    simp only [not_or, childless_iff, not_forall, not_not] at hno
    obtain ⟨hroot, hty, c, hc, hne, hx, rfl⟩ := hno
    have := h c hc hne (by rwa [if_neg (fun h => parent_ne_self hc hne h.symm)])
    simp [hroot, hty, Layer.dir] at this
  · intro h c hc hne hx
    have hx' : (s.layer c).present c = true := by
      by_cases hcq : c = q
      · rwa [hcq]
      · rwa [if_neg hcq] at hx
    have hdir := hI c hc hne hx'
    by_cases hcq : parent c = q
    · rw [if_pos hcq]
      rcases h (hcq ▸ hdir) with h | h | h
      · simp [Layer.dir, hcq, h]
      · simp [Layer.dir, h]
      · exact absurd hcq (childless_iff.1 h c hc hne hx')
    · rwa [if_neg hcq]

/-- The parent of a path on a walk of `mkdir_p` is `/` or on the walk too. -/
theorem parent_mem_walk {path c : Str} (hc : resolve c = c) (h : c ∈ walkFrom ['/'] (mkdirParts path)) :
    parent c = ['/'] ∨ parent c ∈ walkFrom ['/'] (mkdirParts path) := by
  obtain ⟨p, d, hp, hd, hpre, rfl⟩ := mem_walk hc h
  rcases List.eq_nil_or_concat d with rfl | ⟨e, n, rfl⟩
  · exact absurd rfl hd
  · rw [List.concat_eq_append] at hpre ⊢
    rw [parent_str_concat]
    by_cases he : e = []
    · exact .inl (by rw [he]; rfl)
    · refine .inr ?_
      rw [hp]
      exact (mem_walkFrom_names (p := [])).2 ⟨e, he, (List.prefix_append e [n]).trans hpre, rfl⟩

private theorem parentClosed_mkdirP (hI : s.ParentClosed) (hroot : ['/'] ∉ s.deletedPaths)
    (path owner group perm : Str) :
    (s.mkdirP path owner group perm).ParentClosed ↔ s.KeepsParents (.mkdirP path owner group perm) := by
  rw [parentClosed_iff] at hI ⊢
  simp only [KeepsParents]
  have hpar : ∀ c, resolve (parent c) = parent c := fun c => resolve_resolve _
  constructor
  · intro h c hw hc hno hpx
    by_contra hodd
    simp only [not_or, Bool.not_eq_true] at hodd
    have hne : c ≠ ['/'] := by
      rintro rfl
      rw [pathExists_eq, resolve_slash] at hno
      have := root_dir hroot
      revert hno this
      cases s.layer ['/'] <;> simp [Layer.present, Layer.dir]
    have := h c hc hne (by rw [layer_mkdirP _ _ _ _ hc, if_pos ⟨hw, .inl hno⟩]; rfl)
    rw [layer_mkdirP _ _ _ _ (hpar c), if_neg (by simp [hpx, hodd.2])] at this
    rw [isDir_eq, hpar] at hodd
    simp [this] at hodd
  · intro h c hc hne hx
    rw [layer_mkdirP _ _ _ _ hc] at hx
    rw [layer_mkdirP _ _ _ _ (hpar c)]
    -- a path that was there had a directory above it, and a new one has the walk above it
    by_cases hold : s.pathExists c = true
    · have hdir := hI c hc hne (by rwa [pathExists_eq, hc] at hold)
      split
      · simp [Layer.dir, dirConfig]
      · exact hdir
    · have hw : c ∈ walkFrom ['/'] (mkdirParts path) := by
        by_contra hw
        rw [if_neg (fun h => hw h.1)] at hx
        rw [pathExists_eq, hc] at hold
        exact hold hx
      rw [Bool.not_eq_true] at hold
      rcases parent_mem_walk hc hw with hp | hp
      · split
        · simp [Layer.dir, dirConfig]
        · rw [hp]; exact root_dir hroot
      · split
        · simp [Layer.dir, dirConfig]
        · rename_i hold'
          simp only [hp, true_and, not_or, Bool.not_eq_true, Bool.not_eq_false] at hold'
          have := (h c hw hc hold hold'.1).resolve_right (by simp [hold'.2])
          rwa [isDir_eq, hpar] at this

/-- From a parent-closed filesystem, a step leads to a parent-closed one if and only if it keeps the parents. -/
theorem parentClosed_apply_iff (hI : s.ParentClosed) (hroot : ['/'] ∉ s.deletedPaths) (o : Op) :
    (o.apply s).ParentClosed ↔ s.KeepsParents o := by
  have htouch : ∀ {s' : FakeFilesystem} {path : Str},
      (s.getNode path = none ∧ s' = s) ∨ Touched s s' (resolve path) → (s'.ParentClosed ↔ s.KeepsDir path) := by
    intro s' path h
    rcases h with ⟨hn, rfl⟩ | ht
    · exact ⟨fun _ hne => absurd hn hne, fun _ => hI⟩
    · have hn : s.getNode path ≠ none := by
        intro hn
        have := ht.node
        rw [← getNode_dir_eq, hn] at this
        exact this rfl
      rw [parentClosed_touched hI ht]
      exact ⟨fun h _ => h, fun h => h hn⟩
  cases o with
  | getContent path args =>
    refine iff_of_true ?_ trivial
    rcases s.getContent_snd path args with h | ⟨op, h⟩ <;> rw [Op.apply, h]
    · exact hI
    · exact hI
  | mkfile path content owner group perm => exact parentClosed_mkfile hI path content owner group perm
  | mkdirP path owner group perm => exact parentClosed_mkdirP hI hroot path owner group perm
  | chmod path perm => exact htouch (s.chmod_touched path perm)
  | chown path owner group => exact htouch (s.chown_touched path owner group)
  | remove path => exact parentClosed_remove hI path
  | tick now => exact iff_of_true hI trivial

/-! ### Runs -/

/-- No step deletes `/`. -/
theorem root_notMem_deleted_apply (hroot : ['/'] ∉ s.deletedPaths) (o : Op) : ['/'] ∉ (o.apply s).deletedPaths := by
  rw [← layer_eq_deleted] at hroot ⊢
  have htouch : ∀ {s' : FakeFilesystem} {path : Str},
      (s.getNode path = none ∧ s' = s) ∨ Touched s s' (resolve path) → s'.layer ['/'] ≠ .deleted := by
    intro s' path h
    rcases h with ⟨-, rfl⟩ | ht
    · exact hroot
    · obtain ⟨config, -, hl⟩ := ht.layer
      rw [hl]
      split
      · simp
      · exact hroot
  cases o with
  | getContent path args =>
    rw [Op.apply, layer_getContent]
    exact hroot
  | mkfile path content owner group perm =>
    rw [Op.apply, layer_mkfile]
    split
    · simp
    · exact hroot
  | mkdirP path owner group perm =>
    rw [Op.apply, layer_mkdirP _ _ _ _ resolve_slash]
    split
    · simp
    · exact hroot
  | chmod path perm => exact htouch (s.chmod_touched path perm)
  | chown path owner group => exact htouch (s.chown_touched path owner group)
  | remove path =>
    rw [Op.apply, layer_remove, if_neg (fun h => h.2.1 h.1.symm)]
    exact hroot
  | tick now => exact hroot

/-- A parent-closed filesystem stays parent-closed over every run whose steps keep the parents. -/
theorem parentClosed_run (calls : List Call) (hd : s.deletedPaths = ∅) (hI : s.ParentClosed)
    (hG : StepsMeet KeepsParents s calls) : ∀ cs, cs <+: calls → (run Call.apply s cs).ParentClosed := by
  intro cs hcs
  have hstep : ∀ (s : FakeFilesystem) (o : Op), s.ParentClosed ∧ ['/'] ∉ s.deletedPaths → s.KeepsParents o →
      (o.apply s).ParentClosed ∧ ['/'] ∉ (o.apply s).deletedPaths := by
    rintro s o ⟨hI, hroot⟩ hG
    exact ⟨(parentClosed_apply_iff hI hroot o).2 hG, root_notMem_deleted_apply hroot o⟩
  exact (invariant_of_ops (I := fun s => s.ParentClosed ∧ ['/'] ∉ s.deletedPaths) hstep ⟨hI, by simp [hd]⟩
    (hG.initial hcs)).1

/-- Nothing but `/` exists in the filesystem of an empty profile. -/
theorem resolve_of_exists_bare {path : Str} (hx : bare.pathExists path = true) : resolve path = ['/'] := by
  rw [pathExists_eq, bare_layer] at hx
  simpa [Layer.present] using hx

theorem parentClosed_bare : bare.ParentClosed :=
  fun _ hx hne => absurd (resolve_of_exists_bare hx) hne

theorem childless_bare (q : Str) : bare.Childless q :=
  fun _ hx hne => absurd (resolve_of_exists_bare hx) hne

/-- `mkdir_p /a/b` and `chmod` keep the parents. -/
theorem parentClosed_run_mkdirP_chmod :
    (run Call.apply bare [.op (.mkdirP "/a/b".toList root root "drwxr-xr-x".toList),
      .op (.chmod "/a".toList "drwx------".toList)]).ParentClosed := by
  refine parentClosed_run (s := bare) [.op (.mkdirP "/a/b".toList root root "drwxr-xr-x".toList),
    .op (.chmod "/a".toList "drwx------".toList)] rfl parentClosed_bare ⟨⟨?_, trivial⟩, ⟨?_, trivial⟩, trivial⟩ _
    (List.prefix_refl _)
  · show ∀ q ∈ walkFrom ['/'] (mkdirParts "/a/b".toList), resolve q = q → bare.pathExists q = false →
      bare.pathExists (parent q) = true → bare.isDir (parent q) = true ∨ bare.isFile (parent q) = true
    decide
  · exact fun _ _ => .inr (.inl (by decide))

/-- Removing a directory that is not empty leaves its entries without a parent. -/
theorem not_parentClosed_remove : bare.ParentClosed ∧
    ¬(run Call.apply bare [.op (.mkdirP "/a/b".toList root root "drwxr-xr-x".toList),
      .op (.remove "/a".toList)]).ParentClosed := by
  refine ⟨parentClosed_bare, fun h => ?_⟩
  exact absurd (h "/a/b".toList (by decide) (by decide)).1 (by decide)

/-- The filesystem is parent-closed all along a run, inside `copy` and `move` too, just when it starts so and every step
keeps the parents. -/
theorem parentClosed_run_iff (hroot : ['/'] ∉ s.deletedPaths) (ops : List Op) :
    (∀ os, os <+: ops → (run Op.apply s os).ParentClosed) ↔ s.ParentClosed ∧ Meets Op.apply KeepsParents s ops :=
  forall_reached_iff (I := ParentClosed) (J := fun s : FakeFilesystem => ['/'] ∉ s.deletedPaths)
    (fun _ o h => root_notMem_deleted_apply h o) (fun _ o hroot hI => parentClosed_apply_iff hI hroot o) hroot

end FakeFilesystem

end Cyanide
