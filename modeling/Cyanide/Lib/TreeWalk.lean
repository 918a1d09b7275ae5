import Mathlib.Data.List.Nodup
import Cyanide.Lib.PathTree

/-!
# Walks through a tree

A walker sees a tree through a function `kids` that lists the names of the children of a path.  `preorder` goes depth
first down to a number of levels, `levelOrder` works off a queue with a number of rounds.  In a tree of bounded height
both visit every path at and below the start once, if there are enough levels or rounds (`visits_preorder`,
`visits_levelOrder`), and so do the children of all the inner paths, with the start (`Visits.children`).
-/

namespace TreeWalk

open PathTree

variable {α ε : Type*} {t u : PathTree α ε} {kids : List α → List α} {p : List α} {n : ℕ}

/-- `kids` lists the children of each path, without repetition. -/
structure Lists (kids : List α → List α) (t : PathTree α ε) : Prop where
  nodup : ∀ p, t p ≠ none → (kids p).Nodup
  mem : ∀ p, t p ≠ none → ∀ a, a ∈ kids p ↔ t (p ++ [a]) ≠ none

def HeightLE (t : PathTree α ε) (n : ℕ) : Prop := ∀ p, t p ≠ none → p.length ≤ n

/-- The list has each path at or below `p` once. -/
def Visits (t : PathTree α ε) (p : List α) (l : List (List α)) : Prop := l.Nodup ∧ ∀ q, q ∈ l ↔ p <+: q ∧ t q ≠ none

/-- The tree without the names that are not to be seen, and what is below them. -/
def prune (keep : α → Bool) (t : PathTree α ε) : PathTree α ε := fun p => if p.all keep then t p else none

theorem prune_ne_none {keep : α → Bool} : prune keep t p ≠ none ↔ (∀ a ∈ p, keep a = true) ∧ t p ≠ none := by
  unfold prune
  split
  · rename_i h
    exact ⟨fun hp => ⟨List.all_eq_true.1 h, hp⟩, And.right⟩
  · rename_i h
    simp only [ne_eq, not_true_eq_false, false_iff, not_and]
    exact fun hall => absurd (List.all_eq_true.2 hall) h

theorem closed_prune (h : Closed t) (keep : α → Bool) : Closed (prune keep t) := by
  intro p a hp
  rw [prune_ne_none] at hp ⊢
  exact ⟨fun b hb => hp.1 b (List.mem_append_left _ hb), h p a hp.2⟩

theorem Lists.prune {f : List α → List α} (h : Lists f t) (keep : α → Bool) :
    Lists (fun p => (f p).filter keep) (prune keep t) where
  nodup p hp := (h.nodup p (prune_ne_none.1 hp).2).filter _
  mem p hp a := by
    rw [prune_ne_none] at hp
    rw [List.mem_filter, h.mem p hp.2, prune_ne_none]
    constructor
    · rintro ⟨hx, hk⟩
      refine ⟨fun b hb => ?_, hx⟩
      rcases List.mem_append.1 hb with hb | hb
      · exact hp.1 b hb
      · rw [List.mem_singleton.1 hb]
        exact hk
    · rintro ⟨hk, hx⟩
      exact ⟨hx, hk a (by simp)⟩

/-! ### Depth first -/

/-- The paths at and below `p`, down to a number of levels, each in front of those below it. -/
def preorder (kids : List α → List α) : (levels : ℕ) → List α → List (List α)
  | 0, _ => []
  | levels + 1, p => p :: (kids p).flatMap fun a => preorder kids levels (p ++ [a])

/-- Nothing is this many levels below the path. -/
def Shallow (t : PathTree α ε) (p : List α) (levels : ℕ) : Prop := ∀ r, t (p ++ r) ≠ none → r.length < levels

theorem Shallow.child {levels : ℕ} (h : Shallow t p (levels + 1)) (a : α) : Shallow t (p ++ [a]) levels := by
  intro r hr
  have := h (a :: r) (by simpa using hr)
  simpa using this

theorem Shallow.ne_zero (h : Shallow t p 0) (hp : t p ≠ none) : False := by
  have := h [] (by simpa using hp)
  omega

theorem visits_preorder (hc : Closed t) (hk : Lists kids t) {levels : ℕ} (hp : t p ≠ none) (hl : Shallow t p levels) :
    Visits t p (preorder kids levels p) := by
  induction levels generalizing p with
  | zero => exact (hl.ne_zero hp).elim
  | succ levels ih =>
    have hchild : ∀ a ∈ kids p, Visits t (p ++ [a]) (preorder kids levels (p ++ [a])) := by
      intro a ha
      exact ih ((hk.mem p hp a).1 ha) (hl.child a)
    constructor
    · rw [preorder, List.nodup_cons]
      constructor
      · intro hmem
        obtain ⟨a, ha, hq⟩ := List.mem_flatMap.1 hmem
        have := (((hchild a ha).2 p).1 hq).1.length_le
        rw [List.length_append, List.length_singleton] at this
        omega
      · rw [List.nodup_flatMap]
        refine ⟨fun a ha => (hchild a ha).1, ?_⟩
        refine (hk.nodup p hp).imp_of_mem fun {a b} ha hb hab => ?_
        intro q hqa hqb
        obtain ⟨r, hr⟩ := (((hchild a ha).2 q).1 hqa).1
        obtain ⟨r', hr'⟩ := (((hchild b hb).2 q).1 hqb).1
        rw [← hr', List.append_assoc, List.append_assoc] at hr
        simp only [List.append_cancel_left_eq, List.cons_append, List.nil_append, List.cons.injEq] at hr
        exact hab hr.1
    · intro q
      rw [preorder, List.mem_cons, List.mem_flatMap]
      constructor
      · rintro (rfl | ⟨a, ha, hq⟩)
        · exact ⟨List.prefix_refl q, hp⟩
        · obtain ⟨hpre, hq⟩ := ((hchild a ha).2 q).1 hq
          exact ⟨(List.prefix_append p [a]).trans hpre, hq⟩
      · rintro ⟨⟨r, rfl⟩, hq⟩
        cases r with
        | nil => exact .inl (by simp)
        | cons a r =>
          have ha : a ∈ kids p := (hk.mem p hp a).2 (hc.append (r := r) (by simpa using hq))
          exact .inr ⟨a, ha, ((hchild a ha).2 _).2 ⟨⟨r, by simp⟩, hq⟩⟩

/-- With one more level than the tree has, the walk goes on in the same way at each child. -/
theorem preorder_eq (kids : List α → List α) (h : p.length ≤ n) :
    preorder kids (n + 1 - p.length) p =
      p :: (kids p).flatMap fun a => preorder kids (n + 1 - (p ++ [a]).length) (p ++ [a]) := by
  have hlevels : n + 1 - p.length = n - p.length + 1 := by omega
  rw [hlevels, preorder]
  simp

/-! ### Level by level -/

/-- Take the first path of the queue and put its children behind the others; `none` after too many rounds. -/
def levelOrder (kids : List α → List α) : (rounds : ℕ) → List (List α) → Option (List (List α))
  | _, [] => some []
  | 0, _ :: _ => none
  | rounds + 1, p :: queue => (levelOrder kids rounds (queue ++ (kids p).map fun a => p ++ [a])).map (p :: ·)

private theorem levelOrder_perm (hk : Lists kids t) (hn : HeightLE t n) {rounds : ℕ} {q : List (List α)}
    (hq : ∀ p ∈ q, t p ≠ none)
    (hr : (q.flatMap fun p => preorder kids (n + 1 - p.length) p).length ≤ rounds) :
    ∃ l, levelOrder kids rounds q = some l ∧ l.Perm (q.flatMap fun p => preorder kids (n + 1 - p.length) p) := by
  induction rounds generalizing q with
  | zero =>
    cases q with
    | nil => exact ⟨[], rfl, List.Perm.refl _⟩
    | cons p q =>
      rw [List.flatMap_cons, preorder_eq kids (hn p (hq p (by simp)))] at hr
      simp at hr
  | succ rounds ih =>
    cases q with
    | nil => exact ⟨[], rfl, List.Perm.refl _⟩
    | cons p q =>
      have hp := hq p (by simp)
      rw [List.flatMap_cons, preorder_eq kids (hn p hp)] at hr ⊢
      have hrest : ((q ++ (kids p).map fun a => p ++ [a]).flatMap fun p => preorder kids (n + 1 - p.length) p).Perm
          (((kids p).flatMap fun a => preorder kids (n + 1 - (p ++ [a]).length) (p ++ [a])) ++
            q.flatMap fun p => preorder kids (n + 1 - p.length) p) := by
        rw [List.flatMap_append, List.flatMap_map]
        exact List.perm_append_comm
      obtain ⟨l, hl, hperm⟩ := ih (q := q ++ (kids p).map fun a => p ++ [a])
        (fun x hq' => by
          rcases List.mem_append.1 hq' with hq' | hq'
          · exact hq x (by simp [hq'])
          · obtain ⟨a, ha, rfl⟩ := List.mem_map.1 hq'
            exact (hk.mem p hp a).1 ha)
        (by
          rw [hrest.length_eq]
          simp only [List.cons_append, List.length_cons] at hr
          omega)
      refine ⟨p :: l, by rw [levelOrder, hl]; rfl, ?_⟩
      rw [List.cons_append]
      exact (hperm.trans hrest).cons p

private theorem levelOrder_add {rounds : ℕ} {queue l : List (List α)} (h : levelOrder kids rounds queue = some l)
    (more : ℕ) : levelOrder kids (rounds + more) queue = some l := by
  induction rounds generalizing queue l with
  | zero =>
    cases queue with
    | nil => cases more <;> exact h
    | cons p queue => cases h
  | succ rounds ih =>
    cases queue with
    | nil => rw [Nat.succ_add]; exact h
    | cons p queue =>
      rw [levelOrder] at h
      obtain ⟨l', hl', rfl⟩ := Option.map_eq_some_iff.1 h
      rw [Nat.succ_add, levelOrder, ih hl']
      rfl

/-- The queue runs empty. -/
theorem visits_levelOrder (hc : Closed t) (hk : Lists kids t) (hn : HeightLE t n) (hp : t p ≠ none) :
    ∃ l N, (∀ rounds, N ≤ rounds → levelOrder kids rounds [p] = some l) ∧ Visits t p l := by
  obtain ⟨l, hl, hperm⟩ := levelOrder_perm hk hn (q := [p])
    (fun q hq => by rwa [List.mem_singleton.1 hq]) le_rfl
  rw [List.flatMap_singleton] at hperm
  have hv : Visits t p (preorder kids (n + 1 - p.length) p) := by
    refine visits_preorder hc hk hp fun r hr => ?_
    have := hn (p ++ r) hr
    rw [List.length_append] at this
    omega
  refine ⟨l, ([p].flatMap fun p => preorder kids (n + 1 - p.length) p).length, fun rounds hr => ?_,
    hperm.nodup_iff.2 hv.1, fun q => hperm.mem_iff.trans (hv.2 q)⟩
  have := levelOrder_add hl (rounds - ([p].flatMap fun p => preorder kids (n + 1 - p.length) p).length)
  rwa [Nat.add_sub_cancel' hr] at this

/-- Where the list visits the paths of `u`, and `u` has every path that has children in `t`, the children of the listed
paths, with the start, visit the paths of `t`. -/
theorem Visits.children {l : List (List α)} (h : Visits u p l) (hk : Lists kids t) (hut : ∀ q, u q ≠ none → t q ≠ none)
    (htu : ∀ q a, t (q ++ [a]) ≠ none → u q ≠ none) (hp : t p ≠ none) :
    Visits t p (p :: l.flatMap fun q => (kids q).map fun a => q ++ [a]) := by
  have hlt : ∀ q ∈ l, t q ≠ none := fun q hq => hut q ((h.2 q).1 hq).2
  constructor
  · rw [List.nodup_cons, List.nodup_flatMap]
    refine ⟨fun hmem => ?_, fun q hq => ?_, ?_⟩
    · obtain ⟨q, hq, hmem⟩ := List.mem_flatMap.1 hmem
      obtain ⟨a, -, ha⟩ := List.mem_map.1 hmem
      have := ((h.2 q).1 hq).1.length_le
      rw [← ha, List.length_append, List.length_singleton] at this
      omega
    · exact (hk.nodup q (hlt q hq)).map fun a b hab => by simpa using hab
    · refine h.1.imp fun {q r} hqr => ?_
      intro x hx hx'
      obtain ⟨a, -, rfl⟩ := List.mem_map.1 hx
      obtain ⟨b, -, hb⟩ := List.mem_map.1 hx'
      exact hqr (List.append_inj' hb rfl).1.symm
  · intro q
    rw [List.mem_cons, List.mem_flatMap]
    constructor
    · rintro (rfl | ⟨r, hr, hq⟩)
      · exact ⟨List.prefix_refl q, hp⟩
      · obtain ⟨a, ha, rfl⟩ := List.mem_map.1 hq
        exact ⟨((h.2 r).1 hr).1.trans (List.prefix_append r [a]), (hk.mem r (hlt r hr) a).1 ha⟩
    · rintro ⟨⟨r, rfl⟩, hq⟩
      rcases List.eq_nil_or_concat r with rfl | ⟨r, a, rfl⟩
      · exact .inl (by simp)
      · rw [List.concat_eq_append, ← List.append_assoc] at hq ⊢
        have hu := htu (p ++ r) a hq
        exact .inr ⟨p ++ r, (h.2 _).2 ⟨List.prefix_append p r, hu⟩,
          List.mem_map.2 ⟨a, (hk.mem (p ++ r) (hut _ hu) a).2 hq, rfl⟩⟩

end TreeWalk
