import Cyanide.Lib.PathTree
import Cyanide.Vfs.Listing

/-!
# The tree of a filesystem

What a user sees of a filesystem is, for each path, whether something exists there, whether it is a directory or a
file, and the content of a file: its `entry`.  The absolute paths make a `PathTree` of entries.  A filesystem is tidy
when it is parent-closed and listable.  `Rooted` is what is left of this when `mkdir_p` has gone through an entry that
is neither a directory nor a file: the listings are still the children in the tree, and nothing is below a file.
-/

namespace Cyanide

open PosixPath Transition

inductive Entry where
  | dir
  | file (content : Content)
  /-- Something of another type. -/
  | other
  deriving DecidableEq

/-- The path with the names `r` below a resolved path. -/
def below (q : Str) (r : List Name) : Str := if r = [] then q else rstripSlash q ++ flat r

namespace FakeFilesystem

variable {s : FakeFilesystem}

def entry (s : FakeFilesystem) (path : Str) : Option Entry :=
  if s.pathExists path = false then none
  else if s.isDir path then some .dir
  else if s.isFile path then some (.file (s.getContent path).1)
  else some .other

/-- The entries at a resolved path and below it. -/
def subtree (s : FakeFilesystem) (q : Str) : PathTree Name Entry :=
  fun r => if resolve (below q r) = below q r then s.entry (below q r) else none

/-- The entries of the absolute paths. -/
def tree (s : FakeFilesystem) : PathTree Name Entry := fun p => s.entry (str p)

structure Tidy (s : FakeFilesystem) : Prop where
  root : ['/'] ∉ s.deletedPaths
  closed : s.ParentClosed
  listable : Listable s

/-- The steps that keep a tidy filesystem tidy. -/
def KeepsTidy (s : FakeFilesystem) (o : Op) : Prop := s.KeepsParents o ∧ s.KeepsListing o

theorem Tidy.apply (h : Tidy s) {o : Op} (hG : s.KeepsTidy o) : Tidy (o.apply s) where
  root := root_notMem_deleted_apply h.root o
  closed := (parentClosed_apply_iff h.closed h.root o).2 hG.1
  listable := listable_apply h.listable hG.2

/-- A parent-closed filesystem with nothing but a well-formed profile is tidy. -/
theorem tidy_of_profile (hd : s.deletedPaths = ∅) (ho : s.memoryOverlay = ∅) (hp : s.ParentClosed)
    (hw : s.profile.WellFormed) : Tidy s :=
  ⟨by simp [hd], hp, listable_of_profile hd ho hp hw⟩

/-- Every filesystem on a run of such steps is tidy. -/
theorem tidy_run {calls : List Call} (h : Tidy s) (hG : StepsMeet KeepsTidy s calls) :
    Tidy (run Call.apply s calls) :=
  invariant_of_ops (I := Tidy) (fun _ _ h hG => h.apply hG) h hG

theorem tidy_bare : Tidy bare := tidy_of_profile rfl rfl parentClosed_bare wellFormed_bare

/-! ### Entries by layers -/

theorem entry_resolve (s : FakeFilesystem) (path : Str) : s.entry (resolve path) = s.entry path := by
  simp only [entry, pathExists_eq, isDir_eq, isFile_eq, content_eq, resolve_resolve]

theorem entry_of_layer {s' : FakeFilesystem} {path : Str} (hp : s'.profile = s.profile)
    (hl : s'.layer (resolve path) = s.layer (resolve path)) : s'.entry path = s.entry path := by
  simp only [entry, pathExists_eq, isDir_eq, isFile_eq, content_eq, hl, hp]

@[simp] theorem tree_record (op : FileOp) : (s.record op).tree = s.tree :=
  funext fun _ => entry_of_layer rfl rfl

theorem entry_eq_none {path : Str} : s.entry path = none ↔ s.pathExists path = false := by
  unfold entry
  split
  · simp [*]
  · split
    · simp [*]
    · split <;> simp [*]

theorem entry_eq_dir {path : Str} : s.entry path = some .dir ↔ s.isDir path = true := by
  unfold entry
  by_cases hd : s.isDir path = true
  · simp [hd, pathExists_of_isDir hd]
  · rw [if_neg hd]
    split
    · simp [hd]
    · split <;> simp [hd]

theorem entry_eq_file {path : Str} {content : Content} : s.entry path = some (.file content) ↔
    s.isDir path = false ∧ s.isFile path = true ∧ (s.getContent path).1 = content := by
  unfold entry
  by_cases hd : s.isDir path = true
  · simp [hd, pathExists_of_isDir hd]
  · by_cases hf : s.isFile path = true
    · simp [hd, hf, pathExists_of_isFile hf]
    · split <;> simp [hd, hf]

/-- What exists and is neither a directory nor of another type is a file. -/
theorem entry_file_of {path : Str} (hx : s.pathExists path = true) (hd : s.isDir path = false)
    (ho : s.entry path ≠ some .other) : s.entry path = some (.file (s.getContent path).1) := by
  unfold entry at ho ⊢
  simp only [hx, hd, Bool.true_eq_false, Bool.false_eq_true, if_false] at ho ⊢
  split at ho
  · rename_i hf
    rw [if_pos hf]
  · exact absurd rfl ho

/-! ### Below a path -/

@[simp] theorem below_nil (q : Str) : below q [] = q := rfl

@[simp] theorem below_str (p r : List Name) : below (str p) r = str (p ++ r) := by
  unfold below
  split
  · simp [*]
  · rename_i hr
    rw [rstripSlash_str, str_of_ne_nil (by simp [hr]), flat_append]

theorem subtree_str (s : FakeFilesystem) (p : List Name) : s.subtree (str p) = s.tree.sub p := by
  funext r
  simp [subtree, PathTree.sub, tree]

theorem root_isDir (h : ['/'] ∉ s.deletedPaths) : s.isDir ['/'] = true := by
  rw [isDir_eq, resolve_slash]
  exact root_dir h

private theorem getLast?_resolved {q : Str} (hq : resolve q = q) (hne : q ≠ ['/']) : q.getLast? ≠ some '/' := by
  rcases resolve_cases q with ⟨p, h⟩ | ⟨k, p, h⟩ <;> rw [hq] at h <;> subst h
  · have hp : p ≠ [] := fun h => hne (str_eq_slash.2 h)
    rw [str_of_ne_nil hp]
    exact flat_getLast? p hp
  · exact relStr_getLast? k p

private theorem below_eq {q : Str} (hq : resolve q = q) (hne : q ≠ ['/']) (r : List Name) : below q r = q ++ flat r := by
  unfold below
  split
  · simp [*]
  · rw [rstripSlash_of_getLast? (getLast?_resolved hq hne)]

theorem dirname_below {q : Str} (hq : resolve q = q) (hne : q ≠ ['/']) (r : List Name) (n : Name) :
    dirname (below q (r ++ [n])) = below q r := by
  have hlast := getLast?_resolved hq hne
  have hqne : q ≠ [] := hq ▸ resolve_ne_nil q
  rw [below_eq hq hne, below_eq hq hne, flat_append, ← List.append_assoc]
  refine dirname_append_slash (by simp [hqne]) ?_ (by simpa using n.slash_notMem)
  by_cases hr : r = []
  · simpa [hr] using hlast
  · rw [List.getLast?_append_of_ne_nil _ (flat_injective.ne hr)]
    exact flat_getLast? r hr

/-! ### Tidy filesystems -/

private theorem resolve_dirname {x : Str} (hx : resolve x = x) (hne : dirname x ≠ []) :
    resolve (dirname x) = dirname x := by
  rcases resolve_cases x with ⟨p, h⟩ | ⟨k, p, h⟩ <;> rw [hx] at h <;> subst h
  · rcases List.eq_nil_or_concat p with rfl | ⟨r, n, rfl⟩
    · rfl
    · rw [List.concat_eq_append, dirname_str_concat, resolve_str]
  · rcases dirname_relStr k p with h | ⟨k', p', c, h, -⟩
    · exact absurd h hne
    · rw [h, resolve_relStr]

/-- Nothing is below a path that is not a directory. -/
theorem Tidy.subtree_of_not_dir (h : Tidy s) {q : Str} (hq : resolve q = q) (hd : s.isDir q = false) {r : List Name}
    (hr : r ≠ []) : s.subtree q r = none := by
  have hne : q ≠ ['/'] := by
    rintro rfl
    simp [root_isDir h.root] at hd
  induction r using List.reverseRecOn with
  | nil => exact absurd rfl hr
  | append_singleton r n ih =>
    by_contra hx
    unfold subtree at hx
    split at hx
    · rename_i hres
      rw [entry_eq_none, Bool.not_eq_false] at hx
      have hroot : resolve (below q (r ++ [n])) ≠ ['/'] := by
        rw [hres, below_eq hq hne, flat_append]
        obtain ⟨a, q', rfl⟩ := List.exists_cons_of_ne_nil (hq ▸ resolve_ne_nil q)
        simp
      have hdir := (h.closed _ hx hroot).2
      rw [hres, dirname_below hq hne] at hdir
      by_cases hr' : r = []
      · simp [hr', hd] at hdir
      · have hbelow : below q r ≠ [] := by
          have := flat_injective.ne hr'
          rw [below_eq hq hne]
          exact fun h => this (List.append_eq_nil_iff.1 h).2
        have hres' : resolve (below q r) = below q r := by
          rw [← dirname_below hq hne r n]
          exact resolve_dirname hres (by rwa [dirname_below hq hne])
        have := ih hr'
        rw [subtree, if_pos hres', entry_eq_none] at this
        rw [pathExists_of_isDir hdir] at this
        cases this
    · exact hx rfl

/-- A path with an existing parent directory is not below a path that is no directory. -/
theorem Tidy.below_ne (h : Tidy s) {q x : Str} (hq : resolve q = q) (hd : s.isDir q = false) (hx : resolve x = x)
    (hp : s.HasParent x) {r : List Name} (hr : r ≠ []) : below q r ≠ x := by
  rintro rfl
  have hne : q ≠ ['/'] := by
    rintro rfl
    simp [root_isDir h.root] at hd
  rcases List.eq_nil_or_concat r with rfl | ⟨r', n, rfl⟩
  · exact hr rfl
  rw [List.concat_eq_append] at hp hx
  rw [HasParent, dirname_below hq hne] at hp
  rcases hp with heq | ⟨hpx, hdir⟩
  · rw [below_eq hq hne, below_eq hq hne] at heq
    simpa using congrArg List.length heq
  · by_cases hr' : r' = []
    · simp [hr', hd] at hdir
    · have hres : resolve (below q r') = below q r' := by
        rw [← dirname_below hq hne r' n]
        refine resolve_dirname hx ?_
        rw [dirname_below hq hne, below_eq hq hne]
        exact fun h => flat_injective.ne hr' (List.append_eq_nil_iff.1 h).2
      have := h.subtree_of_not_dir hq hd hr'
      rw [subtree, if_pos hres, entry_eq_none, hpx] at this
      cases this

/-! ### Rooted filesystems -/

structure Rooted (s : FakeFilesystem) : Prop where
  root : ['/'] ∉ s.deletedPaths
  above : ∀ p n, s.tree (p ++ [n]) ≠ none → s.tree p = some .dir ∨ s.tree p = some .other
  listable : Listable s

theorem Tidy.rooted (h : Tidy s) : Rooted s where
  root := h.root
  above := by
    intro p n hx
    rw [tree, ne_eq, entry_eq_none, Bool.not_eq_false] at hx
    have := (h.closed _ hx (by simp)).2
    rw [resolve_str, dirname_str_concat] at this
    exact .inl (entry_eq_dir.2 this)
  listable := h.listable

theorem Rooted.record (h : Rooted s) (op : FileOp) : Rooted (s.record op) :=
  ⟨h.root, by simpa only [tree_record] using h.above,
    ⟨h.listable.profile, h.listable.overlay, h.listable.known, h.listable.relative⟩⟩

theorem Rooted.tree_closed (h : Rooted s) : s.tree.Closed := by
  intro p n hx
  rcases h.above p n hx with hp | hp <;> simp [hp]

/-- The paths above an existing one are no files. -/
theorem Rooted.above_append (h : Rooted s) {p r : List Name} (hx : s.tree (p ++ r) ≠ none) (hr : r ≠ []) :
    s.tree p = some .dir ∨ s.tree p = some .other := by
  cases r with
  | nil => exact absurd rfl hr
  | cons n r => exact h.above p n (h.tree_closed.append (by rwa [List.append_assoc]))

/-- The names listed in a directory are those of its children. -/
theorem Rooted.listDir_children (h : Rooted s) {p : List Name} (hd : s.tree p = some .dir) :
    ∃ ns : List Name, s.listDir (str p) = ns.map Name.val ∧ ns.Nodup ∧ ∀ n, n ∈ ns ↔ s.tree (p ++ [n]) ≠ none := by
  obtain ⟨hsorted, hmem⟩ := h.listable.listsChildren (str p) (entry_eq_dir.1 hd)
  have hnames : ∀ c ∈ s.listDir (str p), IsName c := fun c hc => ((hmem c).1 hc).1
  refine ⟨(s.listDir (str p)).pmap Name.mk hnames, ?_, ?_, ?_⟩
  · rw [List.map_pmap]
    simp
  · refine List.Nodup.pmap (fun _ _ _ _ heq => (Name.mk.injEq ..).mp heq) ?_
    exact hsorted.imp fun hlt heq => by
      subst heq
      exact List.lt_irrefl _ hlt
  · intro n
    rw [List.mem_pmap, tree, ne_eq, entry_eq_none, Bool.not_eq_false]
    constructor
    · rintro ⟨c, hc, rfl⟩
      have := ((hmem c).1 hc).2
      rwa [resolve_str, show c = (⟨c, hnames c hc⟩ : Name).val from rfl, join_str] at this
    · intro hx
      refine ⟨n.1, (hmem n.1).2 ⟨n.isName, ?_⟩, rfl⟩
      rwa [resolve_str, join_str]

/-! ### The height of a tree -/

private theorem exists_length_bound (l : List Str) : ∃ N, ∀ x ∈ l, x.length ≤ N := by
  induction l with
  | nil => exact ⟨0, by simp⟩
  | cons a l ih =>
    obtain ⟨N, hN⟩ := ih
    refine ⟨a.length + N, fun x hx => ?_⟩
    rcases List.mem_cons.1 hx with rfl | hx
    · omega
    · have := hN x hx
      omega

private theorem length_le_flat (p : List Name) : p.length ≤ (flat p).length := by
  induction p with
  | nil => simp
  | cons n p ih =>
    simp only [flat_cons, List.length_cons, List.length_append]
    omega

/-- The paths of a filesystem have bounded length. -/
theorem exists_height (s : FakeFilesystem) : ∃ N, ∀ p, s.tree p ≠ none → p.length ≤ N := by
  obtain ⟨N, hN⟩ := exists_length_bound (s.memoryOverlay.keys ++ s.profile.dynamicFiles.keys ++
    s.profile.backend.elim [] fun b => b.rows.map Row.path ++ b.rows.map Row.parentPath)
  refine ⟨N, fun p hp => ?_⟩
  by_cases hpne : p = []
  · simp [hpne]
  refine (length_le_flat p).trans (hN _ ?_)
  rw [← str_of_ne_nil hpne]
  rw [tree, ne_eq, entry_eq_none, Bool.not_eq_false, pathExists_eq, resolve_str] at hp
  have hm : s.layer (str p) ≠ .missing := by
    intro hm
    simp [hm, Layer.present, hpne] at hp
  have hd : s.layer (str p) ≠ .deleted := by
    intro hd
    simp [hd, Layer.present] at hp
  by_contra hno
  simp only [List.mem_append, not_or] at hno
  refine hm (layer_eq_missing.2 ⟨fun h => hd (layer_eq_deleted.2 h), hno.1.1, hno.1.2, ?_⟩)
  cases hb : s.profile.backend with
  | none => simp [backendExists, hb]
  | some b =>
    rw [hb] at hno
    simp only [Option.elim_some, List.mem_append, List.mem_map, not_or, not_exists, not_and] at hno
    simp only [backendExists, hb, Option.any_some, Backend.pathExists, Bool.or_eq_false_iff, List.any_eq_false,
      decide_eq_true_eq]
    exact hno.2

end FakeFilesystem

end Cyanide
