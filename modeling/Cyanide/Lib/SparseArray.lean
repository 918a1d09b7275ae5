import Mathlib.Data.List.GetD
import Mathlib.Order.Basic

/-!
# Arrays that are written at any position

A `SparseArray` is a length and an entry for each position, which is zero from the length on.  Writing behind the end
makes the array longer and leaves zeros in the gap.
-/

/-- An array whose entries from its length on are zero. -/
@[ext] structure SparseArray (α : Type) [Zero α] where
  length : ℕ
  entry : ℕ → α
  entry_of_le : ∀ i, length ≤ i → entry i = 0

namespace SparseArray

variable {α : Type} [Zero α]

def ofList (l : List α) : SparseArray α where
  length := l.length
  entry i := l.getD i 0
  entry_of_le _ hi := List.getD_eq_default l 0 hi

/-- The entries of `data` from `offset` on, and the old ones elsewhere. -/
def write (a : SparseArray α) (offset : ℕ) (data : List α) : SparseArray α where
  length := max a.length (offset + data.length)
  entry i := if offset ≤ i ∧ i < offset + data.length then data.getD (i - offset) 0 else a.entry i
  entry_of_le i hi := by
    rw [if_neg (by omega)]
    exact a.entry_of_le i (by omega)

/-- Several writes, each with its offset and its data. -/
def writeAll (a : SparseArray α) (ws : List (ℕ × List α)) : SparseArray α :=
  ws.foldl (fun a w => a.write w.1 w.2) a

theorem writeAll_append (a : SparseArray α) (ws ws' : List (ℕ × List α)) :
    a.writeAll (ws ++ ws') = (a.writeAll ws).writeAll ws' := List.foldl_append

/-- At most `n` entries from `offset` on. -/
def slice (a : SparseArray α) (offset n : ℕ) : List α :=
  (List.range (min n (a.length - offset))).map fun i => a.entry (offset + i)

def toList (a : SparseArray α) : List α := a.slice 0 a.length

theorem slice_ofList (l : List α) (offset n : ℕ) : (ofList l).slice offset n = (l.drop offset).take n := by
  refine List.ext_getElem ?_ fun i hi hi' => ?_
  · simp [slice, ofList]
  · have hlt : offset + i < l.length := by
      simp only [slice, ofList, List.length_map, List.length_range] at hi
      omega
    simp [slice, ofList, List.getElem?_eq_getElem hlt]

@[simp] theorem length_toList (a : SparseArray α) : a.toList.length = a.length := by simp [toList, slice]

@[simp] theorem toList_ofList (l : List α) : (ofList l).toList = l := by
  rw [toList, slice_ofList]
  simp [ofList]

@[simp] theorem ofList_toList (a : SparseArray α) : ofList a.toList = a := by
  refine SparseArray.ext ?_ (funext fun i => ?_)
  · simp [ofList, toList, slice]
  · by_cases hi : i < a.length
    · have hlt : i < (List.range a.length).length := by simpa using hi
      simp [ofList, toList, slice, List.getElem?_eq_getElem hlt]
    · have hge : a.toList.length ≤ i := by simpa [toList, slice] using hi
      rw [a.entry_of_le i (by omega)]
      exact List.getD_eq_default _ _ hge

@[simp] theorem length_ofList (l : List α) : (ofList l).length = l.length := rfl

theorem getElem_toList (a : SparseArray α) (i : ℕ) (hi : i < a.toList.length) : a.toList[i] = a.entry i := by
  simp [toList, slice]

/-- What is written lies between the old entries, which are padded with zeros when they end before it. -/
theorem toList_write (a : SparseArray α) (offset : ℕ) (data : List α) :
    let padded := a.toList ++ List.replicate (offset + data.length - a.length) 0
    (a.write offset data).toList = padded.take offset ++ data ++ padded.drop (offset + data.length) := by
  intro padded
  have hlength : padded.length = max a.length (offset + data.length) := by
    simp only [padded, List.length_append, length_toList, List.length_replicate]
    omega
  have hpadded : ∀ (i : ℕ) (hi : i < padded.length), padded[i] = a.entry i := by
    intro i hi
    by_cases ha : i < a.length
    · rw [List.getElem_append_left (by simpa using ha), getElem_toList]
    · rw [List.getElem_append_right (by simpa using ha), List.getElem_replicate, a.entry_of_le i (by omega)]
  refine List.ext_getElem ?_ fun i hi hi' => ?_
  · simp only [length_toList, write, List.length_append, List.length_take, List.length_drop]
    omega
  · rw [getElem_toList]
    simp only [write]
    split_ifs with hin
    · rw [List.getElem_append_left (by simp; omega), List.getElem_append_right (by simp; omega)]
      have htake : (padded.take offset).length = offset := by simp; omega
      simp only [htake]
      exact List.getD_eq_getElem data 0 (by omega)
    · by_cases hlt : i < offset
      · rw [List.getElem_append_left (by simp; omega), List.getElem_append_left (by simp; omega), List.getElem_take,
          hpadded]
      · rw [List.getElem_append_right (by simp; omega), List.getElem_drop, hpadded]
        simp only [List.length_append, List.length_take]
        congr 1
        omega

/-! ### Writing a list piece by piece -/

/-- The first `n` entries are those of the list, and there are no more than the list has. -/
structure Begins (a : SparseArray α) (l : List α) (n : ℕ) : Prop where
  length_le : a.length ≤ l.length
  le_length : n ≤ a.length
  entry_eq : ∀ i < n, a.entry i = l.getD i 0

theorem begins_ofList_nil (l : List α) : (ofList ([] : List α)).Begins l 0 :=
  ⟨Nat.zero_le _, Nat.zero_le _, fun i hi => absurd hi (Nat.not_lt_zero i)⟩

/-- An entry in the piece of `l` that is written at `offset`. -/
private theorem getD_piece (l : List α) {offset k i : ℕ} (h : offset ≤ i)
    (hlt : i < offset + ((l.drop offset).take k).length) :
    ((l.drop offset).take k).getD (i - offset) 0 = l.getD i 0 := by
  have hi : i - offset < ((l.drop offset).take k).length := by omega
  have hl : i < l.length := by
    simp only [List.length_take, List.length_drop] at hlt
    omega
  rw [List.getD_eq_getElem _ _ hi, List.getD_eq_getElem _ _ hl, List.getElem_take, List.getElem_drop]
  congr 1
  omega

variable {a : SparseArray α} {l : List α} {n : ℕ}

/-- Another piece of the list does no harm. -/
theorem Begins.write_piece (h : a.Begins l n) {offset : ℕ} (hoffset : offset ≤ l.length) (k : ℕ) :
    (a.write offset ((l.drop offset).take k)).Begins l n := by
  have hlength := h.length_le
  refine ⟨?_, Nat.le_trans h.le_length (Nat.le_max_left _ _), fun i hi => ?_⟩
  · simp only [write, List.length_take, List.length_drop]
    omega
  · simp only [write]
    split_ifs with hin
    · exact getD_piece l hin.1 hin.2
    · exact h.entry_eq i hi

/-- The next piece of the list. -/
theorem Begins.write_next (h : a.Begins l n) (k : ℕ) :
    (a.write n ((l.drop n).take k)).Begins l (n + ((l.drop n).take k).length) := by
  refine ⟨(h.write_piece (Nat.le_trans h.le_length h.length_le) k).length_le, Nat.le_max_right _ _, fun i hi => ?_⟩
  simp only [write]
  split_ifs with hin
  · exact getD_piece l hin.1 hin.2
  · exact h.entry_eq i (by omega)

theorem Begins.toList_eq (h : a.Begins l l.length) : a.toList = l := by
  have hlength : a.length = l.length := Nat.le_antisymm h.length_le h.le_length
  refine List.ext_getElem (by rw [length_toList, hlength]) fun i hi hi' => ?_
  rw [getElem_toList, h.entry_eq i hi', List.getD_eq_getElem _ _ hi']

end SparseArray
