import Mathlib.Data.List.Basic

/-!
# Records filled from tables

A record is a list of named values.  It is filled from a table that has, for each name, what the value is computed
from; a computation that fails loses the whole record.
-/

namespace Records

variable {κ β γ : Type} [DecidableEq κ]

/-- The record of a table, with `f` for the value of an entry. -/
def fill (f : κ → β → Option γ) : List (κ × β) → Option (List (κ × γ))
  | [] => some []
  | (k, b) :: rest => (f k b).bind fun c => (fill f rest).map ((k, c) :: ·)

/-- A filled record has at a name what the table's entry of that name gives. -/
theorem lookup_fill {f : κ → β → Option γ} {table : List (κ × β)} {record : List (κ × γ)}
    (h : fill f table = some record) (k : κ) : record.lookup k = (table.lookup k).bind (f k) := by
  induction table generalizing record with
  | nil =>
    obtain rfl : record = [] := by simpa [fill] using h.symm
    rfl
  | cons entry rest ih =>
    obtain ⟨j, b⟩ := entry
    obtain ⟨c, hc, r, hr, rfl⟩ : ∃ c, f j b = some c ∧ ∃ r, fill f rest = some r ∧ (j, c) :: r = record := by
      simpa [fill, Option.bind_eq_some_iff] using h
    by_cases hkj : k = j
    · subst hkj
      simp [hc]
    · simp only [List.lookup_cons, beq_false_of_ne hkj]
      exact ih hr

/-- Nothing fails in a table that is filled. -/
theorem exists_of_fill {f : κ → β → Option γ} {table : List (κ × β)} {record : List (κ × γ)}
    (h : fill f table = some record) {k : κ} {b : β} (hkb : table.lookup k = some b) : ∃ c, f k b = some c := by
  induction table generalizing record with
  | nil => cases hkb
  | cons entry rest ih =>
    obtain ⟨j, b'⟩ := entry
    obtain ⟨c, hc, r, hr, -⟩ : ∃ c, f j b' = some c ∧ ∃ r, fill f rest = some r ∧ (j, c) :: r = record := by
      simpa [fill, Option.bind_eq_some_iff] using h
    by_cases hkj : k = j
    · subst hkj
      obtain rfl : b' = b := by simpa using hkb
      exact ⟨c, hc⟩
    · rw [List.lookup_cons, beq_false_of_ne hkj] at hkb
      exact ih hr hkb

/-- The entry that a lookup finds is in the table. -/
theorem mem_of_lookup {table : List (κ × β)} {k : κ} {b : β} (h : table.lookup k = some b) : (k, b) ∈ table := by
  obtain ⟨l, r, rfl, -⟩ := List.lookup_eq_some_iff.mp h
  simp

end Records
