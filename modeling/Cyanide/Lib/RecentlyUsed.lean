import Mathlib.Data.List.Dedup
import Mathlib.Data.List.DropRight
import Cyanide.Lib.OrderedDict

/-!
# Caches of what was used last

A cache of at most `limit` entries in which every use of a key makes it the newest one, and a new key drives out the
oldest one when the cache is full (`touch`).  Its keys are the last `limit` different keys that were used, in the order
of their last uses (`keys_touch`): `List.dedup` keeps the last occurrence of each element, so these keys are the end of
`uses.dedup`.
-/

namespace OrderedDict

variable {κ β : Type}

@[simp] theorem length_keys (d : OrderedDict κ β) : d.keys.length = d.length := List.length_map _

@[simp] theorem keys_popFirst (d : OrderedDict κ β) : d.popFirst.keys = d.keys.tail := List.map_tail

theorem keys_append {d : OrderedDict κ β} {k : κ} (h : k ∉ d.keys) (v : β) : (d.append k v h).keys = d.keys ++ [k] := by
  simp [keys, append]

private theorem eq_rtake_of_suffix {n : ℕ} {l s : List κ} (hs : s <:+ l) (hlen : s.length = min n l.length) :
    s = l.rtake n := by
  obtain ⟨t, rfl⟩ := hs
  have ht : (t ++ s).length - n = t.length := by
    rw [List.length_append] at hlen ⊢
    omega
  rw [List.rtake, ht, List.drop_left]

variable [DecidableEq κ]

/-- The last `limit` different keys of a sequence of uses, the one used last at the end. -/
def recent (limit : ℕ) (uses : List κ) : List κ := uses.dedup.rtake limit

theorem length_recent_le (limit : ℕ) (uses : List κ) : (recent limit uses).length ≤ limit := by
  rw [recent, List.rtake, List.length_drop]
  omega

/-- Make a key the newest one, and let the oldest entry go if a new key needs its place. -/
def touch (limit : ℕ) (d : OrderedDict κ β) (k : κ) (v : β) : OrderedDict κ β :=
  match d.lookup k with
  | some _ => d.moveToEnd k
  | none => (if limit ≤ d.length then d.popFirst else d).insert k v

variable {d : OrderedDict κ β} {j k : κ} {v w : β} {limit : ℕ} {uses : List κ}

theorem keys_erase (d : OrderedDict κ β) (k : κ) : (d.erase k).keys = d.keys.filter (· ≠ k) := by
  simp only [keys, erase, List.filter_map]
  rfl

theorem keys_moveToEnd (h : d.lookup k = some v) : (d.moveToEnd k).keys = d.keys.filter (· ≠ k) ++ [k] := by
  have hmove : d.moveToEnd k = (d.erase k).append k v (d.notMem_keys_erase k) := by
    unfold moveToEnd
    split
    · rename_i w hw
      obtain rfl := Option.some.inj (hw.symm.trans h)
      rfl
    · rename_i hnone
      rw [hnone] at h
      cases h
  rw [hmove, keys_append, keys_erase]

theorem keys_insert_of_notMem (h : k ∉ d.keys) : (d.insert k v).keys = d.keys ++ [k] := by
  rw [insert, dif_neg h, keys_append]

theorem notMem_keys_of_lookup (h : d.lookup k = none) : k ∉ d.keys := by
  intro hk
  obtain ⟨w, hw⟩ := d.mem_keys_iff.1 hk
  rw [h] at hw
  cases hw

/-! ### One more use -/
theorem dedup_concat (uses : List κ) (k : κ) : (uses ++ [k]).dedup = uses.dedup.filter (· ≠ k) ++ [k] := by
  induction uses with
  | nil => simp
  | cons j uses ih =>
    rw [List.cons_append]
    by_cases hj : j ∈ uses
    · rw [List.dedup_cons_of_mem (List.mem_append_left _ hj), ih, List.dedup_cons_of_mem hj]
    · rw [List.dedup_cons_of_notMem hj]
      by_cases hk : j = k
      · subst hk
        rw [List.dedup_cons_of_mem (by simp), ih, List.filter_cons_of_neg (by simp)]
      · rw [List.dedup_cons_of_notMem (by simp [hj, hk]), ih, List.filter_cons_of_pos (by simpa using hk)]
        rfl

theorem recent_concat (hlimit : 0 < limit) (uses : List κ) (k : κ) :
    recent limit (uses ++ [k]) = (uses.dedup.filter (· ≠ k)).rtake (limit - 1) ++ [k] := by
  obtain ⟨n, rfl⟩ := Nat.exists_eq_succ_of_ne_zero hlimit.ne'
  rw [recent, dedup_concat, Nat.succ_eq_add_one, List.rtake_concat_succ, Nat.add_sub_cancel]

theorem recent_suffix (limit : ℕ) (uses : List κ) : recent limit uses <:+ uses.dedup := List.drop_suffix _ _

theorem length_recent (limit : ℕ) (uses : List κ) : (recent limit uses).length = min limit uses.dedup.length := by
  rw [recent, List.rtake, List.length_drop]
  omega

private theorem length_filter_of_mem {l : List κ} (hl : l.Nodup) (hk : k ∈ l) :
    (l.filter (· ≠ k)).length = l.length - 1 := by
  have herase : l.filter (· ≠ k) = l.erase k := by
    rw [hl.erase_eq_filter]
    exact List.filter_congr fun j _ => by simp [bne, Bool.beq_eq_decide_eq]
  rw [herase, List.length_erase_of_mem hk]

private theorem filter_of_notMem {l : List κ} (hk : k ∉ l) : l.filter (· ≠ k) = l :=
  List.filter_eq_self.2 fun _ hj => decide_eq_true fun h => hk (h ▸ hj)

/-- A key that was used lately is moved to the end. -/
theorem recent_concat_of_mem (hlimit : 0 < limit) (hk : k ∈ recent limit uses) :
    recent limit (uses ++ [k]) = (recent limit uses).filter (· ≠ k) ++ [k] := by
  have hnodup : (recent limit uses).Nodup := (List.nodup_dedup uses).sublist (recent_suffix limit uses).sublist
  have hmem : k ∈ uses.dedup := (recent_suffix limit uses).subset hk
  rw [recent_concat hlimit]
  congr 1
  refine (eq_rtake_of_suffix ((recent_suffix limit uses).filter _) ?_).symm
  rw [length_filter_of_mem hnodup hk, length_filter_of_mem (List.nodup_dedup uses) hmem, length_recent]
  omega

/-- Another key takes the place of the oldest one if there is no place left. -/
theorem recent_concat_of_notMem (hlimit : 0 < limit) (hk : k ∉ recent limit uses) :
    recent limit (uses ++ [k]) =
      (if limit ≤ (recent limit uses).length then (recent limit uses).tail else recent limit uses) ++ [k] := by
  rw [recent_concat hlimit]
  congr 1
  have hlen := length_recent limit uses
  have hsuffix : recent limit uses <:+ uses.dedup.filter (· ≠ k) := by
    have hf := (recent_suffix limit uses).filter (· ≠ k)
    rwa [filter_of_notMem hk] at hf
  have hle := hsuffix.length_le
  split_ifs with hfull
  · refine (eq_rtake_of_suffix ((List.tail_suffix _).trans hsuffix) ?_).symm
    rw [List.length_tail]
    omega
  · -- everything that was used is there
    have hall : recent limit uses = uses.dedup := (recent_suffix limit uses).eq_of_length (by omega)
    rw [hall] at hk
    rw [filter_of_notMem hk, hall]
    refine (eq_rtake_of_suffix List.suffix_rfl ?_).symm
    rw [hall] at hfull
    omega

/-! ### The cache -/

/-- The keys of a cache are the ones that were used last. -/
theorem keys_touch (hlimit : 0 < limit) (h : d.keys = recent limit uses) (k : κ) (v : β) :
    (d.touch limit k v).keys = recent limit (uses ++ [k]) := by
  unfold touch
  cases hl : d.lookup k with
  | some w =>
    have hk : k ∈ recent limit uses := h ▸ d.mem_keys_iff.2 ⟨w, hl⟩
    dsimp only
    rw [keys_moveToEnd hl, recent_concat_of_mem hlimit hk, h]
  | none =>
    have hk := notMem_keys_of_lookup hl
    dsimp only
    rw [recent_concat_of_notMem hlimit (h ▸ hk), ← h, length_keys]
    split_ifs with hfull
    · have htail : k ∉ d.popFirst.keys := by
        rw [keys_popFirst]
        exact fun hm => hk (List.mem_of_mem_tail hm)
      rw [keys_insert_of_notMem htail, keys_popFirst]
    · exact keys_insert_of_notMem hk

/-- A touched key has the value that it had, or else the new one; another key that is there has the value that it
had. -/
theorem lookup_touch (h : (d.touch limit k v).lookup j = some w) :
    d.lookup j = some w ∨ j = k ∧ d.lookup k = none ∧ w = v := by
  unfold touch at h
  cases hl : d.lookup k with
  | some u =>
    rw [hl] at h
    dsimp only at h
    rw [lookup_moveToEnd] at h
    exact .inl h
  | none =>
    rw [hl] at h
    dsimp only at h
    rw [lookup_insert] at h
    split_ifs at h with hj
    · exact .inr ⟨hj, rfl, (Option.some.inj h).symm⟩
    · exact .inl (lookup_popFirst _ h)
    · exact .inl h

end OrderedDict
