import Cyanide.Vfs.Copy
import Cyanide.Vfs.Remove

/-!
# Moving

`move` is a recursive `copy` followed by a `remove` of the source.  The copy returns `True` also when its `mkfile` wrote
nothing, so a file moved to a path without a parent directory is lost, and so is a file moved onto itself; and the
`remove` takes away one path, so the entries of a moved directory stay where they were.  `movesTree_iff` gives the
moves that are done right.
-/

namespace Cyanide

open PosixPath Transition

namespace FakeFilesystem

variable {s : FakeFilesystem}

/-- What a move is to do: to return `True`, with the source tree at the destination and no longer at the source, or to
return `False` without a change, and in no case to lose a content of the source. -/
def MovesTree (s : FakeFilesystem) (src dst : Str) : Prop :=
  ∃ N, ∀ depth, N ≤ depth → ∃ b s', move depth s src dst = (.ok b, s') ∧
    (b = true → (∀ r e, s.subtree (resolve src) r = some e → s'.subtree (s.destination src dst) r = some e) ∧
      (s.destination src dst ≠ resolve src → ∀ r, s'.subtree (resolve src) r = none)) ∧
    (b = false → ∀ path, s'.entry path = s.entry path) ∧
    (∀ r content, s.subtree (resolve src) r = some (.file content) → ∃ path, s'.entry path = some (.file content))

/-! ### `move` by its copy -/

theorem copy_resolve (depth : Nat) (s : FakeFilesystem) (src dst : Str) (recursive : Bool) :
    copy depth s (resolve src) (resolve dst) recursive = copy depth s src dst recursive := by
  unfold copy
  rw [resolve_resolve, resolve_resolve]

theorem move_of_not_exists {src : Str} (hx : s.pathExists src = false) (depth : Nat) (dst : Str) :
    move depth s src dst = (.ok false, s) := by
  unfold move
  dsimp only
  rw [if_pos (by rwa [pathExists_resolve])]

theorem move_of_copy_false {src dst : Str} {depth : Nat} {s₁ : FakeFilesystem}
    (hc : copy depth s src dst true = (.ok false, s₁)) (hx : s.pathExists src = true) :
    move depth s src dst = (.ok false, s₁) := by
  unfold move
  dsimp only
  rw [if_neg (by simp [pathExists_resolve, hx]), copy_resolve, hc]

theorem move_of_copy_true {src dst : Str} {depth : Nat} {s₁ : FakeFilesystem}
    (hc : copy depth s src dst true = (.ok true, s₁)) (hx : s.pathExists src = true) (hne : resolve src ≠ ['/']) :
    move depth s src dst = (.ok true, (s₁.remove (resolve src)).2) := by
  have hx₁ : s₁.pathExists src = true := by
    have := pathExists_copy depth src dst true hx
    rwa [hc] at this
  unfold move
  dsimp only
  rw [if_neg (by simp [pathExists_resolve, hx]), copy_resolve, hc]
  simp [remove, hne, pathExists_resolve, hx₁]

theorem move_ok_of_dir {src dst : Str} {depth : Nat} {b : Bool} {s' : FakeFilesystem} (hx : s.pathExists src = true)
    (hm : move depth s src dst = (.ok b, s')) : ∃ b₁ s₁, copy depth s src dst true = (.ok b₁, s₁) := by
  unfold move at hm
  dsimp only at hm
  rw [if_neg (by simp [pathExists_resolve, hx]), copy_resolve] at hm
  cases hc : copy depth s src dst true with
  | mk r s₁ =>
    cases r with
    | ok b₁ => exact ⟨b₁, s₁, rfl⟩
    | error e => simp [hc] at hm

theorem entry_remove (path : Str) (hx : s.pathExists path = true) (hne : resolve path ≠ ['/']) (x : Str) :
    (s.remove path).2.entry x = if resolve x = resolve path then none else s.entry x := by
  have hl := layer_remove_of_exists hx hne (resolve x)
  split at hl
  · rename_i heq
    rw [if_pos heq, entry_eq_none, pathExists_eq, hl]
    rfl
  · rename_i heq
    rw [if_neg heq]
    exact entry_of_layer (profile_remove path) hl

/-! ### Moving a file -/

/-- What the move of something that is no directory leaves. -/
private theorem move_file (h : Tidy s) {src : Str} (dst : Str) (hne : resolve src ≠ ['/']) (hx : s.pathExists src = true)
    (hd : s.isDir src = false) (depth : Nat) : ∃ s', move depth s src dst = (.ok true, s') ∧ ∀ x, s'.entry x =
      if resolve x = resolve src then none
      else if resolve x = s.destination src dst ∧ s.destination src dst ≠ ['/'] ∧ s.HasParent (s.destination src dst)
        then some (.file (s.getContent src).1)
      else s.entry x := by
  obtain ⟨s₁, hc, hprof, hl⟩ := copy_file hx hd depth dst true
  have hx₁ : s₁.pathExists src = true := by
    have := pathExists_copy depth src dst true hx
    rwa [hc] at this
  refine ⟨_, move_of_copy_true hc hx hne, fun x => ?_⟩
  rw [entry_remove _ (by rwa [pathExists_resolve]) (by rwa [resolve_resolve]), resolve_resolve]
  refine if_congr Iff.rfl rfl ?_
  have hlx := hl (resolve x)
  by_cases hw : resolve x = s.destination src dst ∧ s.HasParent (s.destination src dst)
  · rw [if_pos hw] at hlx
    by_cases hroot : s.destination src dst = ['/']
    · -- an entry for `/` does not change that it is a directory
      rw [if_neg (fun h => h.2.1 hroot)]
      have hdir : ∀ t : FakeFilesystem, t.isDir ['/'] = true → t.entry x = some .dir := fun t ht => by
        rw [← entry_resolve, hw.1, hroot]
        exact entry_eq_dir.2 ht
      rw [hdir s (root_isDir h.root), hdir s₁ ?_]
      rw [isDir_eq, resolve_slash, ← hroot, ← hw.1, hlx, hw.1, hroot]
      simp [Layer.dir]
    · rw [if_pos ⟨hw.1, hroot, hw.2⟩]
      exact entry_of_overlay_file (by rwa [hw.1]) hlx rfl rfl
  · rw [if_neg hw] at hlx
    rw [if_neg (fun h => hw ⟨h.1, h.2.2⟩)]
    exact entry_of_layer hprof hlx

private theorem subtree_nil (s : FakeFilesystem) (path : Str) : s.subtree (resolve path) [] = s.entry path := by
  rw [subtree, below_nil, if_pos (resolve_resolve path), entry_resolve]

private theorem subtree_names {path : Str} {p : List Name} (hp : resolve path = str p) (s : FakeFilesystem)
    (r : List Name) : s.subtree (resolve path) r = s.entry (str (p ++ r)) := by
  rw [hp, subtree_str]
  rfl

private theorem movesTree_file_iff (h : Tidy s) {src dst : Str} (hne : resolve src ≠ ['/'])
    (hx : s.pathExists src = true) (hd : s.isDir src = false) :
    s.MovesTree src dst ↔ s.isFile src = true ∧ s.destination src dst ≠ resolve src ∧
      s.destination src dst ≠ ['/'] ∧ s.HasParent (s.destination src dst) := by
  have hD := s.resolve_destination src dst
  have hSd : s.isDir (resolve src) = false := by rwa [isDir_resolve]
  obtain ⟨e, he⟩ := Option.ne_none_iff_exists'.1 (show s.entry src ≠ none by rw [ne_eq, entry_eq_none, hx]; simp)
  have hedir : e ≠ .dir := by
    rintro rfl
    rw [entry_eq_dir, hd] at he
    cases he
  constructor
  · rintro ⟨N, hN⟩
    obtain ⟨b, s', hs', htrue, -⟩ := hN N le_rfl
    obtain ⟨s'', hs'', hentry⟩ := move_file h dst hne hx hd N
    rw [hs', Prod.mk.injEq, Except.ok.injEq] at hs''
    obtain ⟨rfl, rfl⟩ := hs''
    have hat := (htrue rfl).1 [] e (by rw [subtree_nil, he])
    rw [← hD, subtree_nil, hentry, hD] at hat
    split at hat
    · cases hat
    rename_i hself
    split at hat
    · rename_i hw
      rw [Option.some.injEq] at hat
      rw [← hat] at he
      exact ⟨(entry_eq_file.1 he).2.1, hself, hw.2⟩
    · rename_i hw
      simp only [true_and, not_and] at hw
      -- the destination is as before: it is `/`, or it is not there
      by_cases hroot : s.destination src dst = ['/']
      · rw [hroot, entry_eq_dir.2 (root_isDir h.root)] at hat
        exact absurd (Option.some.inj hat).symm hedir
      · refine absurd (h.hasParent_of_exists hD ?_) (hw hroot)
        by_contra hno
        rw [Bool.not_eq_true, ← entry_eq_none, hat] at hno
        cases hno
  · rintro ⟨hf, hself, hroot, hpar⟩
    have hfile := entry_eq_file.2 ⟨hd, hf, rfl⟩
    refine ⟨0, fun depth _ => ?_⟩
    obtain ⟨s', hs', hentry⟩ := move_file h dst hne hx hd depth
    have hdst : s'.entry (s.destination src dst) = some (.file (s.getContent src).1) := by
      rw [hentry, hD, if_neg hself, if_pos ⟨rfl, hroot, hpar⟩]
    -- the tree of the source is one entry
    have hleaf : ∀ r e, s.subtree (resolve src) r = some e → r = [] ∧ e = .file (s.getContent src).1 := by
      intro r e he
      cases r with
      | nil =>
        rw [subtree_nil, hfile, Option.some.injEq] at he
        exact ⟨rfl, he.symm⟩
      | cons n r =>
        rw [h.subtree_of_not_dir (resolve_resolve src) hSd (by simp)] at he
        cases he
    refine ⟨true, s', hs', fun _ => ⟨?_, fun _ r => ?_⟩, by simp, ?_⟩
    · intro r e he
      obtain ⟨rfl, rfl⟩ := hleaf r e he
      rw [← hD, subtree_nil, hdst]
    · cases r with
      | nil => rw [subtree_nil, hentry, if_pos rfl]
      | cons n r =>
        have hold := h.subtree_of_not_dir (resolve_resolve src) hSd (r := n :: r) (by simp)
        unfold subtree at hold ⊢
        split
        · rename_i hres
          rw [if_pos hres] at hold
          have hbelow := h.below_ne (resolve_resolve src) hSd hD hpar (r := n :: r) (by simp)
          rw [hentry, hres]
          split
          · rfl
          · rw [if_neg (fun h => hbelow h.1), hold]
        · rfl
    · intro r c hc
      obtain ⟨-, hc⟩ := hleaf r _ hc
      exact ⟨_, hdst.trans (congrArg some hc.symm)⟩

/-! ### Moving a directory -/

/-- A directory without entries is copied by making the destination. -/
private theorem copy_empty (h : Tidy s) {src dst : Str} {p q : List Name} (hp : resolve src = str p)
    (hq : s.destination src dst = str q) (hpq : ¬p <+: q) (hd : s.isDir src = true)
    (hempty : ∀ r, r ≠ [] → s.tree (p ++ r) = none)
    (hf : ¬(s.pathExists (s.destination src dst) = true ∧ s.isFile (s.destination src dst) = true)) (depth : Nat) :
    copy depth s src dst true = (.ok true, if s.pathExists (str q) = true then s else s.mkdirP (str q)) := by
  have hdir : s.tree p = some .dir := by rwa [tree, entry_eq_dir, ← hp, isDir_resolve]
  have hnil : ∀ t : FakeFilesystem, Rooted t → (∀ r, t.tree (p ++ r) = s.tree (p ++ r)) → t.listDir (str p) = [] := by
    intro t ht heq
    have hat := heq []
    rw [List.append_nil, hdir] at hat
    obtain ⟨ns, hns, -, hmem⟩ := ht.listDir_children hat
    rw [hns, List.map_eq_nil_iff, List.eq_nil_iff_forall_not_mem]
    intro n hn
    exact (hmem n).1 hn (by rw [heq, hempty [n] (by simp)])
  have hmk : ∀ r, (s.mkdirP (str q)).tree (p ++ r) = s.tree (p ++ r) := fun r =>
    (h.rooted.tree_mkdirP q ..).trans (if_neg fun hle => hpq ((List.prefix_append p r).trans hle.1))
  rw [copy_dir (pathExists_of_isDir hd) hd hf, copyTarget_str h hp hq hpq, hp]
  dsimp only
  split
  · rw [hnil s h.rooted fun _ => rfl, copyItems]
  · rw [hnil _ (h.rooted.mkdirP q ..) hmk, copyItems]

private theorem movesTree_of_empty (h : Tidy s) {src dst : Str} {p q : List Name} (hne : resolve src ≠ ['/'])
    (hp : resolve src = str p) (hq : s.destination src dst = str q) (hpq : ¬p <+: q) (hd : s.isDir src = true)
    (hempty : ∀ r, r ≠ [] → s.subtree (resolve src) r = none) (hother : s.entry (s.destination src dst) ≠ some .other)
    (hf : ¬(s.pathExists (s.destination src dst) = true ∧ s.isFile (s.destination src dst) = true)) :
    s.MovesTree src dst := by
  have hx := pathExists_of_isDir hd
  have hsub : ∀ (t : FakeFilesystem) r, t.subtree (resolve src) r = t.entry (str (p ++ r)) := subtree_names hp
  have hleaf : ∀ r, r ≠ [] → s.tree (p ++ r) = none := fun r hr => (hsub s r).symm.trans (hempty r hr)
  refine ⟨0, fun depth _ => ?_⟩
  have hc := copy_empty h hp hq hpq hd hleaf hf depth
  have hx₁ : (copy depth s src dst true).2.pathExists src = true := pathExists_copy depth src dst true hx
  rw [hc] at hx₁
  generalize hs₁ : (if s.pathExists (str q) = true then s else s.mkdirP (str q)) = s₁ at hc hx₁
  have hentry := entry_remove (s := s₁) (resolve src) (by rwa [pathExists_resolve])
    (by rwa [resolve_resolve])
  simp only [resolve_resolve] at hentry
  have hat : s₁.tree q = some .dir := by
    subst hs₁
    split
    · rename_i hxq
      rw [hq] at hother hf
      rw [tree, entry_eq_dir]
      by_contra hnd
      exact hf ⟨hxq, (entry_eq_file.1 (entry_file_of hxq (by simpa using hnd) hother)).2.1⟩
    · rw [h.rooted.tree_mkdirP, if_pos ⟨List.prefix_refl q, by rwa [tree, ← hq]⟩]
  have hsrc : ∀ r, r ≠ [] → s₁.tree (p ++ r) = none := by
    intro r hr
    subst hs₁
    split
    · exact hleaf r hr
    · rw [h.rooted.tree_mkdirP, if_neg (fun hle => hpq ((List.prefix_append p r).trans hle.1)), hleaf r hr]
  have hroot : ∀ r e, s.subtree (resolve src) r = some e → r = [] ∧ e = .dir := by
    intro r e he
    by_cases hr : r = []
    · rw [hr, subtree_nil, entry_eq_dir.2 hd, Option.some.injEq] at he
      exact ⟨hr, he.symm⟩
    · rw [hempty r hr] at he
      cases he
  refine ⟨true, _, move_of_copy_true hc hx hne, fun _ => ⟨?_, fun _ r => ?_⟩, by simp, ?_⟩
  · intro r e he
    obtain ⟨rfl, rfl⟩ := hroot r e he
    rw [← s.resolve_destination, subtree_nil, hentry, s.resolve_destination, hq, if_neg]
    · exact hat
    · rw [hp, str_inj]
      rintro rfl
      exact hpq (List.prefix_refl _)
  · rw [hsub, hentry, resolve_str, hp]
    split
    · rfl
    · rename_i hr
      exact hsrc r fun h => hr (by rw [h, List.append_nil])
  · intro r c hc
    cases (hroot r _ hc).2

private theorem of_movesTree_dir (h : Tidy s) {src dst : Str} (hne : resolve src ≠ ['/']) (hd : s.isDir src = true)
    (hf : ¬(s.pathExists (s.destination src dst) = true ∧ s.isFile (s.destination src dst) = true))
    (hm : s.MovesTree src dst) : (∀ r, r ≠ [] → s.subtree (resolve src) r = none) ∧
      s.entry (s.destination src dst) ≠ some .other ∧
      ∃ p q, resolve src = str p ∧ s.destination src dst = str q ∧ ¬p <+: q := by
  have hx := pathExists_of_isDir hd
  have hD := s.resolve_destination src dst
  obtain ⟨p, hp⟩ := resolve_of_isDir h.listable hd
  have hsub : ∀ (t : FakeFilesystem) r, t.subtree (resolve src) r = t.entry (str (p ++ r)) := subtree_names hp
  obtain ⟨N, hN⟩ := hm
  obtain ⟨b, s', hs', htrue, -⟩ := hN N le_rfl
  obtain ⟨b₁, s₁, hc⟩ := move_ok_of_dir hx hs'
  have hb₁ : b₁ = true := by
    rw [copy_dir hx hd hf] at hc
    exact copyItems_ok hc
  subst hb₁
  have hmove := move_of_copy_true hc hx hne
  rw [hs', Prod.mk.injEq, Except.ok.injEq] at hmove
  obtain ⟨rfl, rfl⟩ := hmove
  have hx₁ : ∀ {path}, s.pathExists path = true → s₁.pathExists path = true := fun hx => by
    have := pathExists_copy N src dst true hx
    rwa [hc] at this
  have hentry := entry_remove (s := s₁) (resolve src) (by rw [pathExists_resolve]; exact hx₁ hx)
    (by rwa [resolve_resolve])
  simp only [resolve_resolve] at hentry
  obtain ⟨hat, hgone⟩ := htrue rfl
  have hroot := hat [] .dir (by rw [subtree_nil, entry_eq_dir.2 hd])
  rw [← hD, subtree_nil, hentry, hD] at hroot
  split at hroot
  · cases hroot
  rename_i hself
  replace hgone := hgone hself
  have hempty : ∀ r, r ≠ [] → s.subtree (resolve src) r = none := by
    intro r hr
    have hr' := hgone r
    rw [hsub, hentry, resolve_str, hp, if_neg (by simpa using hr), entry_eq_none] at hr'
    rw [hsub, entry_eq_none]
    by_contra hno
    rw [hx₁ (by simpa using hno)] at hr'
    cases hr'
  have hwhere : ∃ q, s.destination src dst = str q ∧ ¬p <+: q := by
    rcases resolve_cases (s.destination src dst) with ⟨q, hq⟩ | ⟨k, q, hq⟩ <;> rw [hD] at hq
    · refine ⟨q, hq, ?_⟩
      -- below the source the destination would be gone
      rintro ⟨r, rfl⟩
      have hr' := hgone r
      rw [hsub, ← hq, hentry, hD, if_neg hself, hroot] at hr'
      cases hr'
    · have := h.relative_copy N src dst true k q
      rw [hc, ← hq, entry_eq_dir.1 hroot] at this
      cases this
  obtain ⟨q, hq, hpq⟩ := hwhere
  refine ⟨hempty, fun ho => ?_, p, q, hp, hq, hpq⟩
  -- an entry of another type stays what it is
  have hxq : s.pathExists (str q) = true := by
    by_contra hno
    rw [hq, entry_eq_none.2 (by simpa using hno)] at ho
    cases ho
  rw [copy_empty h hp hq hpq hd (fun r hr => (hsub s r).symm.trans (hempty r hr)) hf, if_pos hxq, Prod.mk.injEq] at hc
  rw [← hc.2, ho] at hroot
  cases hroot

end FakeFilesystem

end Cyanide
