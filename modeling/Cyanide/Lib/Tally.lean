import Mathlib.Algebra.BigOperators.Group.Finset.Basic
import Mathlib.Algebra.GroupWithZero.Nat
import Mathlib.Data.List.AList

/-!
# Sums over dictionaries

`tally weight d` adds up the weights of the values of a dictionary.  Inserting or erasing a key changes the sum by the
weight of what was there.
-/

/-- The weights of the values of a dictionary, added up. -/
def tally {κ β : Type} (weight : β → ℕ) (d : AList fun _ : κ => β) : ℕ := (d.entries.map fun e => weight e.2).sum

section Tally

variable {κ β : Type} [DecidableEq κ] (weight : β → ℕ) {d : AList fun _ : κ => β} {k : κ}

/-- What is at a key counts, and the rest is what is left without it. -/
theorem tally_erase {b : β} (h : d.lookup k = some b) : tally weight (d.erase k) + weight b = tally weight d := by
  have hkey : k ∈ d.entries.keys := AList.lookup_isSome.1 (by rw [h]; rfl)
  obtain ⟨v, l₁, l₂, -, hentries, herase⟩ := List.exists_of_kerase hkey
  have hmem : (⟨k, v⟩ : Sigma fun _ : κ => β) ∈ d.entries := by
    rw [hentries]
    exact List.mem_append_right _ List.mem_cons_self
  have hv : v = b := by
    have hlookup : d.lookup k = some v := List.mem_dlookup d.nodupKeys hmem
    exact Option.some.inj (hlookup.symm.trans h)
  have hleft : (d.erase k).entries = l₁ ++ l₂ := herase
  unfold tally
  rw [hleft, hentries, hv]
  simp only [List.map_append, List.map_cons, List.sum_append, List.sum_cons]
  omega

private theorem tally_insert (b : β) : tally weight (d.insert k b) = weight b + tally weight (d.erase k) := rfl

theorem tally_insert_of_none (h : d.lookup k = none) (b : β) :
    tally weight (d.insert k b) = weight b + tally weight d := by
  have hfresh : d.erase k = d := AList.ext (List.kerase_of_notMem_keys (AList.lookup_eq_none.1 h))
  rw [tally_insert, hfresh]

theorem tally_insert_of_some {c : β} (h : d.lookup k = some c) (b : β) :
    tally weight (d.insert k b) + weight c = weight b + tally weight d := by
  rw [tally_insert, ← tally_erase weight h]
  omega

/-- The sum goes over any set of keys in which none is missing; what is not there weighs nothing. -/
theorem tally_eq_sum (d : AList fun _ : κ => β) {keys : Finset κ} (h : ∀ k ∈ d.keys, k ∈ keys) :
    tally weight d = ∑ k ∈ keys, ((d.lookup k).map weight).getD 0 := by
  have hkeys : d.keys.toFinset ⊆ keys := fun k hk => h k (List.mem_toFinset.1 hk)
  rw [← Finset.sum_subset hkeys fun k _ hk => ?_, List.sum_toFinset _ d.keys_nodup]
  · have hentry : ∀ e ∈ d.entries, ((d.lookup e.1).map weight).getD 0 = weight e.2 := by
      intro e he
      have hlookup : d.lookup e.1 = some e.2 := AList.mem_lookup_iff.2 he
      rw [hlookup]
      rfl
    rw [tally, AList.keys, List.keys, List.map_map]
    exact congrArg List.sum (List.map_congr_left fun e he => (hentry e he).symm)
  · rw [List.mem_toFinset] at hk
    rw [AList.lookup_eq_none.2 hk]
    rfl

end Tally
