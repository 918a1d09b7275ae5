import Mathlib.Data.List.Infix
import Mathlib.Order.Basic

/-!
# Feeds

A feed gives what is published increasing numbers and keeps each entry until it is confirmed: a reader asks for the
entries from a number on, and this confirms all those below.  A reader that goes through what it gets entry by entry,
and asks next from behind the last one (`readTo`), has at each moment gone through exactly the entries below its number,
in order (`before_readTo`), however often requests and answers are lost.
-/

structure Feed (α : Type*) where
  log : List (ℕ × α)
  increasing : (log.map Prod.fst).Pairwise (· < ·)
  /-- The entries below are confirmed. -/
  floor : ℕ

namespace Feed

variable {α : Type*} (f : Feed α)

def empty : Feed α := ⟨[], List.Pairwise.nil, 0⟩

/-- The least number that is larger than all those given so far. -/
def next : ℕ := (f.log.getLast?.map (·.1 + 1)).getD 0

/-- The entries that are kept for readers. -/
def kept : List (ℕ × α) := f.log.filter (f.floor ≤ ·.1)

/-- A request for the entries from the number on, or for all that are kept. -/
def confirm (n : Option ℕ) : Feed α := { f with floor := max f.floor (n.getD 0) }

/-- The entries below a number. -/
def before (n : ℕ) : List (ℕ × α) := f.log.filter (·.1 < n)

/-- The number behind the last of the entries. -/
def readTo (n : ℕ) (es : List (ℕ × α)) : ℕ := es.foldl (fun _ e => e.1 + 1) n

variable {f}

theorem lt_next {e : ℕ × α} (he : e ∈ f.log) : e.1 < f.next := by
  obtain ⟨l, x, hl⟩ := (List.eq_nil_or_concat f.log).resolve_left (List.ne_nil_of_mem he)
  rw [List.concat_eq_append] at hl
  have hinc := f.increasing
  rw [next, hl, List.getLast?_concat]
  rw [hl, List.map_append, List.pairwise_append] at hinc
  rw [hl, List.mem_append, List.mem_singleton] at he
  rcases he with he | rfl
  · have hlt : e.1 < x.1 := hinc.2.2 e.1 (List.mem_map_of_mem he) x.1 (by simp)
    exact Nat.lt_succ_of_lt hlt
  · exact Nat.lt_succ_self _

variable (f) in
/-- A new entry, with `gap` numbers left out. -/
def publish (gap : ℕ) (x : α) : Feed α where
  log := f.log ++ [(f.next + gap, x)]
  increasing := by
    rw [List.map_append, List.pairwise_append]
    refine ⟨f.increasing, by simp, ?_⟩
    intro m hm n hn
    obtain ⟨e, he, rfl⟩ := List.mem_map.1 hm
    rw [List.map_singleton, List.mem_singleton] at hn
    have := lt_next he
    omega
  floor := f.floor

theorem next_le_publish (gap : ℕ) (x : α) : f.next ≤ (f.publish gap x).next := by
  simp only [publish, next, List.getLast?_concat, Option.map_some, Option.getD_some]
  omega

theorem before_publish {n : ℕ} (hn : n ≤ f.next) (gap : ℕ) (x : α) : (f.publish gap x).before n = f.before n := by
  rw [before, publish, List.filter_append, List.filter_cons_of_neg, List.filter_nil, List.append_nil]
  · rfl
  · simp only [decide_eq_true_eq]
    omega

/-- The first entry from a number on is the next one below a larger number. -/
private theorem filter_step {l : List (ℕ × α)} (hl : (l.map Prod.fst).Pairwise (· < ·)) {n : ℕ} {e : ℕ × α}
    {es : List (ℕ × α)} (h : l.filter (n ≤ ·.1) = e :: es) :
    l.filter (·.1 < e.1 + 1) = l.filter (·.1 < n) ++ [e] ∧ l.filter (e.1 + 1 ≤ ·.1) = es := by
  induction l with
  | nil => cases h
  | cons a l ih =>
    rw [List.map_cons, List.pairwise_cons] at hl
    have hlater : ∀ b ∈ l, a.1 < b.1 := fun b hb => hl.1 b.1 (List.mem_map_of_mem hb)
    by_cases ha : n ≤ a.1
    · -- `a` is the first entry, and all others are behind it
      rw [List.filter_cons_of_pos (by simpa using ha), List.cons.injEq] at h
      obtain ⟨rfl, hes⟩ := h
      have hall : ∀ m, m ≤ a.1 + 1 → l.filter (m ≤ ·.1) = l := fun m hm =>
        List.filter_eq_self.2 fun b hb => decide_eq_true (hm.trans (hlater b hb))
      have hnone : ∀ m, m ≤ a.1 + 1 → l.filter (·.1 < m) = [] := fun m hm =>
        List.filter_eq_nil_iff.2 fun b hb => by
          have := hlater b hb
          simp only [decide_eq_true_eq]
          omega
      rw [List.filter_cons_of_pos (by simp), List.filter_cons_of_neg (by simpa using ha),
        List.filter_cons_of_neg (by simp), hnone _ le_rfl, hnone n (by omega), hall _ le_rfl, ← hes,
        hall n (by omega)]
      exact ⟨rfl, rfl⟩
    · rw [List.filter_cons_of_neg (by simpa using ha)] at h
      obtain ⟨hbefore, hafter⟩ := ih hl.2 h
      have hen : n ≤ e.1 := by
        have hmem : e ∈ l.filter (n ≤ ·.1) := by
          rw [h]
          exact List.mem_cons_self
        simpa using (List.mem_filter.1 hmem).2
      rw [List.filter_cons_of_pos (by simp only [decide_eq_true_eq]; omega),
        List.filter_cons_of_pos (by simp only [decide_eq_true_eq]; omega),
        List.filter_cons_of_neg (by simp only [decide_eq_true_eq]; omega), hbefore, hafter]
      exact ⟨rfl, rfl⟩

/-- What a reader has gone through before and after it has read the next entries. -/
theorem before_readTo {n : ℕ} {es : List (ℕ × α)} (h : es <+: f.log.filter (n ≤ ·.1)) :
    f.before (readTo n es) = f.before n ++ es := by
  induction es generalizing n with
  | nil => rw [List.append_nil]; rfl
  | cons e es ih =>
    obtain ⟨rest, hrest⟩ := h
    obtain ⟨hbefore, hafter⟩ := filter_step f.increasing hrest.symm
    have htail := ih (n := e.1 + 1) (by
      rw [hafter]
      exact List.prefix_append es rest)
    rw [show readTo n (e :: es) = readTo (e.1 + 1) es from rfl, htail, before, hbefore, List.append_assoc]
    rfl

theorem readTo_le_next {n : ℕ} (hn : n ≤ f.next) {es : List (ℕ × α)} (h : ∀ e ∈ es, e ∈ f.log) :
    readTo n es ≤ f.next := by
  induction es generalizing n with
  | nil => exact hn
  | cons e es ih => exact ih (lt_next (h e List.mem_cons_self)) fun e' he' => h e' (List.mem_cons_of_mem _ he')

theorem le_readTo {n : ℕ} {es : List (ℕ × α)} (h : es <+: f.log.filter (n ≤ ·.1)) : n ≤ readTo n es := by
  induction es generalizing n with
  | nil => exact le_rfl
  | cons e es ih =>
    obtain ⟨rest, hrest⟩ := h
    have hafter := (filter_step f.increasing hrest.symm).2
    have hen : n ≤ e.1 := by
      have hmem : e ∈ f.log.filter (n ≤ ·.1) := by
        rw [← hrest]
        exact List.mem_cons_self
      simpa using (List.mem_filter.1 hmem).2
    have htail := ih (n := e.1 + 1) (by
      rw [hafter]
      exact List.prefix_append es rest)
    exact hen.trans ((Nat.le_succ _).trans htail)

theorem before_append_from (n : ℕ) : f.before n ++ f.log.filter (n ≤ ·.1) = f.log := by
  have hinc := f.increasing
  rw [before]
  generalize f.log = l at hinc ⊢
  induction l with
  | nil => rfl
  | cons a l ih =>
    rw [List.map_cons, List.pairwise_cons] at hinc
    by_cases ha : a.1 < n
    · rw [List.filter_cons_of_pos (by simpa using ha), List.filter_cons_of_neg (by simpa using ha), List.cons_append,
        ih hinc.2]
    · -- all that follow are from `n` on
      have hlater : ∀ b ∈ a :: l, n ≤ b.1 := by
        intro b hb
        rcases List.mem_cons.1 hb with rfl | hb
        · exact not_lt.1 ha
        · exact (not_lt.1 ha).trans (hinc.1 b.1 (List.mem_map_of_mem hb)).le
      rw [List.filter_eq_nil_iff.2 fun b hb => by simpa using hlater b hb,
        List.filter_eq_self.2 fun b hb => by simpa using hlater b hb, List.nil_append]

/-- A reader that gets all entries from its number on has then gone through the log. -/
theorem before_readTo_all (n : ℕ) : f.before (readTo n (f.log.filter (n ≤ ·.1))) = f.log := by
  rw [before_readTo (List.prefix_refl _), before_append_from]

end Feed
