import Mathlib.Data.List.Infix
import Mathlib.Logic.Basic

/-!
# Trees as partial maps on paths

A tree with labels in `ε` and edges named by `α` is a partial function on lists of names.  `sub t p` is the tree at
`p`, and `graft t p u` has `u` in its place.  `keep t as` has, of the children of the root, those named in the list
`as`: copying a tree child by child goes through `keep t as` for longer and longer lists (`keep_graft`), and ends in
`t` itself (`keep_eq`).
-/

/-- A partial map on lists of names. -/
def PathTree (α ε : Type*) := List α → Option ε

namespace PathTree

variable {α ε : Type*} {t u w : PathTree α ε} {p q : List α}

def sub (t : PathTree α ε) (p : List α) : PathTree α ε := fun r => t (p ++ r)

def leaf (e : ε) : PathTree α ε
  | [] => some e
  | _ :: _ => none

/-- Below an entry there is an entry only if there is one above. -/
def Closed (t : PathTree α ε) : Prop := ∀ p a, t (p ++ [a]) ≠ none → t p ≠ none

theorem Closed.append (h : Closed t) {p r : List α} (hr : t (p ++ r) ≠ none) : t p ≠ none := by
  induction r using List.reverseRecOn with
  | nil => simpa using hr
  | append_singleton r a ih => exact ih (h (p ++ r) a (by rwa [List.append_assoc]))

theorem Closed.sub (h : Closed t) (p : List α) : Closed (t.sub p) := by
  intro r a hr
  exact h (p ++ r) a (by rwa [List.append_assoc])

section

variable [DecidableEq α]

def graft (t : PathTree α ε) (p : List α) (u : PathTree α ε) : PathTree α ε :=
  fun x => if p <+: x then u (x.drop p.length) else t x

@[simp] theorem graft_append (t : PathTree α ε) (p : List α) (u : PathTree α ε) (r : List α) :
    graft t p u (p ++ r) = u r := by
  simp [graft]

theorem graft_of_not_le (t : PathTree α ε) (u : PathTree α ε) {x : List α} (h : ¬p <+: x) : graft t p u x = t x :=
  if_neg h

@[simp] theorem sub_graft (t : PathTree α ε) (p : List α) (u : PathTree α ε) : sub (graft t p u) p = u := by
  funext r
  exact graft_append t p u r

/-- The tree at `q` is not touched by a graft at a path neither above nor below. -/
theorem sub_graft_of_disjoint (t : PathTree α ε) (u : PathTree α ε) (hpq : ¬p <+: q) (hqp : ¬q <+: p) :
    sub (graft t p u) q = sub t q := by
  funext r
  refine graft_of_not_le t u fun h => ?_
  rcases List.prefix_or_prefix_of_prefix h (List.prefix_append q r) with h | h
  · exact hpq h
  · exact hqp h

theorem graft_graft (t : PathTree α ε) (p q : List α) (u w : PathTree α ε) :
    graft (graft t p u) (p ++ q) w = graft t p (graft u q w) := by
  funext x
  by_cases hp : p <+: x
  · obtain ⟨r, rfl⟩ := hp
    simp only [graft, List.prefix_append, if_true, List.prefix_append_right_inj, List.drop_left]
    refine if_congr Iff.rfl ?_ rfl
    rw [List.length_append, ← List.drop_drop, List.drop_left]
  · have hq : ¬p ++ q <+: x := fun h => hp ((List.prefix_append p q).trans h)
    simp [graft, hp, hq]

theorem graft_sub_self (t : PathTree α ε) (p : List α) : graft t p (sub t p) = t := by
  funext x
  by_cases hp : p <+: x
  · obtain ⟨r, rfl⟩ := hp
    simp [sub]
  · exact if_neg hp

/-- The tree without the children of the root that the list does not name. -/
def keep (t : PathTree α ε) (as : List α) : PathTree α ε
  | [] => t []
  | a :: r => if a ∈ as then t (a :: r) else none

theorem keep_nil {e : ε} (h : t [] = some e) : keep t [] = leaf e := by
  funext x
  cases x with
  | nil => exact h
  | cons a r => rfl

/-- Grafting the next child of `t`. -/
theorem keep_graft (t : PathTree α ε) (as : List α) (a : α) : graft (keep t as) [a] (sub t [a]) = keep t (as ++ [a]) := by
  funext x
  cases x with
  | nil => simp [graft, keep]
  | cons b r =>
    by_cases hb : a = b
    · subst hb
      simp [graft, keep, sub]
    · simp [graft, keep, hb, Ne.symm hb]

theorem keep_eq (h : Closed t) {as : List α} (has : ∀ a, t [a] ≠ none → a ∈ as) : keep t as = t := by
  funext x
  cases x with
  | nil => rfl
  | cons a r =>
    by_cases ha : a ∈ as
    · exact if_pos ha
    · have hr : t (a :: r) = none := by
        by_contra hr
        exact ha (has a (h.append (p := [a]) hr))
      rw [keep, if_neg ha, hr]

end

end PathTree
