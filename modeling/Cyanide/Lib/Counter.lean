import Mathlib.Algebra.BigOperators.Group.Finset.Basic
import Mathlib.Algebra.GroupWithZero.Nat
import Mathlib.Data.List.AList

/-!
# Counters

A dictionary that counts occurrences: `increment` adds one occurrence of a key, `decrement` takes one away and drops
the key with the last one.  `c.Counts l` says that `c` holds the multiplicities of the list `l` and no key besides
them; then the sum of all counters is the length of the list.
-/

abbrev Counter (κ : Type) := AList fun _ : κ => ℕ

namespace Counter

variable {κ : Type} [DecidableEq κ] {c : Counter κ} {l : List κ} {k : κ}

/-- The counter of a key, which is 0 for a key that is not there. -/
def get (c : Counter κ) (k : κ) : ℕ := (c.lookup k).getD 0

def increment (c : Counter κ) (k : κ) : Counter κ := c.insert k (c.get k + 1)

def decrement (c : Counter κ) (k : κ) : Counter κ :=
  match c.lookup k with
  | none => c
  | some n => if n - 1 = 0 then c.erase k else c.insert k (n - 1)

def total (c : Counter κ) : ℕ := (c.entries.map Sigma.snd).sum

variable [BEq κ]

def Counts (c : Counter κ) (l : List κ) : Prop := ∀ k, c.lookup k = if l.count k = 0 then none else some (l.count k)

theorem counts_empty : Counts (∅ : Counter κ) [] := fun k => by simp

theorem Counts.get_eq (h : c.Counts l) (k : κ) : c.get k = l.count k := by
  unfold get
  rw [h k]
  split
  · rename_i h0
    exact h0.symm
  · rfl

theorem Counts.perm {l' : List κ} (h : c.Counts l) (hp : l.Perm l') : c.Counts l' := fun k => by
  rw [h k, hp.count_eq]

variable [LawfulBEq κ]

theorem Counts.increment (h : c.Counts l) (k : κ) : (c.increment k).Counts (k :: l) := by
  intro j
  unfold Counter.increment
  rw [h.get_eq]
  by_cases hj : j = k
  · rw [hj, AList.lookup_insert, List.count_cons_self, if_neg (Nat.succ_ne_zero _)]
  · rw [AList.lookup_insert_ne hj, List.count_cons_of_ne (Ne.symm hj), h]

theorem Counts.decrement (h : c.Counts (k :: l)) : (c.decrement k).Counts l := by
  have hk : c.lookup k = some (l.count k + 1) := by
    rw [h k, List.count_cons_self, if_neg (Nat.succ_ne_zero _)]
  intro j
  unfold Counter.decrement
  rw [hk]
  show (if l.count k = 0 then c.erase k else c.insert k (l.count k)).lookup j = _
  by_cases hj : j = k
  · subst hj
    split
    · exact AList.lookup_erase _ _
    · exact AList.lookup_insert _
  · have hold : c.lookup j = if l.count j = 0 then none else some (l.count j) := by
      rw [h j, List.count_cons_of_ne (Ne.symm hj)]
    split
    · rw [AList.lookup_erase_ne hj, hold]
    · rw [AList.lookup_insert_ne hj, hold]

/-- The counters of a list add up to its length. -/
theorem Counts.total_eq (h : c.Counts l) : c.total = l.length := by
  have hkeys : c.keys.toFinset = l.toFinset := by
    ext k
    rw [List.mem_toFinset, List.mem_toFinset, ← AList.mem_keys, ← AList.lookup_isSome, h, ← List.count_pos_iff]
    split
    · rename_i h0
      simp [h0]
    · rename_i h0
      simp [Nat.pos_iff_ne_zero, h0]
  have hvalue : ∀ e ∈ c.entries, e.2 = l.count e.1 := by
    intro e he
    have hl : c.lookup e.1 = some e.2 := AList.mem_lookup_iff.2 he
    rw [h] at hl
    split at hl
    · cases hl
    · exact (Option.some.inj hl).symm
  have hbeq : ‹BEq κ› = instBEqOfDecidableEq := lawful_beq_subsingleton _ _
  calc c.total = (c.keys.map fun k => l.count k).sum := by
        rw [AList.keys, List.keys, List.map_map]
        exact congrArg List.sum (List.map_congr_left hvalue)
    _ = ∑ k ∈ c.keys.toFinset, l.count k := (List.sum_toFinset _ c.keys_nodup).symm
    _ = l.length := by
        subst hbeq
        rw [hkeys, List.sum_toFinset_count_eq_length]

end Counter
