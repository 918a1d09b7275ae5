import Mathlib.Data.List.Basic
import Mathlib.Data.List.Induction
import Mathlib.Data.List.Nodup

/-!
# Dictionaries in insertion order

Python's `dict` and `OrderedDict`: a list of entries with different keys.  Writing to a key that is there keeps its
place, a new key goes to the end; `moveToEnd` and `popFirst` are what an `OrderedDict` has beyond a `dict`.
-/

/-- Entries with different keys, the oldest one first. -/
structure OrderedDict (κ β : Type) where
  entries : List (κ × β)
  nodup : (entries.map Prod.fst).Nodup

namespace OrderedDict

variable {κ β : Type} [DecidableEq κ] (d : OrderedDict κ β) {j k : κ} {v : β}

def keys (d : OrderedDict κ β) : List κ := d.entries.map Prod.fst

def length (d : OrderedDict κ β) : ℕ := d.entries.length

def empty : OrderedDict κ β := ⟨[], List.nodup_nil⟩

def lookup (k : κ) : Option β := (d.entries.find? (·.1 = k)).map Prod.snd

/-- Change the value of a key that is there. -/
def modify (k : κ) (f : β → β) : OrderedDict κ β where
  entries := d.entries.map fun e => if e.1 = k then (e.1, f e.2) else e
  nodup := by
    rw [List.map_map]
    convert d.nodup using 1
    exact List.map_congr_left fun e _ => by simp only [Function.comp]; split <;> rfl

def erase (k : κ) : OrderedDict κ β where
  entries := d.entries.filter (·.1 ≠ k)
  nodup := d.nodup.sublist (List.filter_sublist.map _)

/-- Put a new key at the end. -/
def append (k : κ) (v : β) (h : k ∉ d.keys) : OrderedDict κ β where
  entries := d.entries ++ [(k, v)]
  nodup := by
    rw [List.map_append, List.map_singleton, List.nodup_append]
    refine ⟨d.nodup, List.nodup_singleton k, fun a ha b hb heq => h ?_⟩
    rw [heq, List.mem_singleton.1 hb] at ha
    exact ha

theorem notMem_keys_erase (k : κ) : k ∉ (d.erase k).keys := by
  simp [keys, erase]

def insert (k : κ) (v : β) : OrderedDict κ β :=
  if h : k ∈ d.keys then d.modify k fun _ => v else d.append k v h

/-- Make a key that is there the newest one. -/
def moveToEnd (k : κ) : OrderedDict κ β :=
  match d.lookup k with
  | some v => (d.erase k).append k v (d.notMem_keys_erase k)
  | none => d

/-- Drop the oldest entry. -/
def popFirst (d : OrderedDict κ β) : OrderedDict κ β where
  entries := d.entries.tail
  nodup := d.nodup.sublist ((List.tail_sublist _).map _)

/-- Write the entries of another dictionary, in their order. -/
def update (d e : OrderedDict κ β) : OrderedDict κ β := e.entries.foldl (fun d x => d.insert x.1 x.2) d

def mapValues {γ : Type} (f : β → γ) (d : OrderedDict κ β) : OrderedDict κ γ where
  entries := d.entries.map fun e => (e.1, f e.2)
  nodup := by
    rw [List.map_map]
    exact d.nodup

theorem entries_insert_of_notMem (h : k ∉ d.keys) : (d.insert k v).entries = d.entries ++ [(k, v)] := by
  rw [insert, dif_neg h]
  rfl

/-- New entries come behind the ones that are there. -/
theorem entries_update_of_disjoint {d e : OrderedDict κ β} (h : ∀ k ∈ e.keys, k ∉ d.keys) :
    (d.update e).entries = d.entries ++ e.entries := by
  obtain ⟨l, hl⟩ := e
  unfold update
  induction l generalizing d with
  | nil => exact (List.append_nil _).symm
  | cons x l ih =>
    obtain ⟨hx, hl'⟩ := List.nodup_cons.1 hl
    have hnew : x.1 ∉ d.keys := h _ (List.mem_cons_self ..)
    rw [List.foldl_cons, ih hl', entries_insert_of_notMem _ hnew, List.append_assoc]
    · rfl
    · intro k hk hmem
      rw [keys, entries_insert_of_notMem _ hnew, List.map_append, List.mem_append] at hmem
      rcases hmem with hmem | hmem
      · exact h k (List.mem_cons_of_mem _ hk) hmem
      · rw [List.map_singleton, List.mem_singleton] at hmem
        exact hx (hmem ▸ hk)

/-! ### Lookup -/

theorem lookup_eq_some_iff : d.lookup k = some v ↔ (k, v) ∈ d.entries := by
  unfold lookup
  rw [Option.map_eq_some_iff]
  constructor
  · rintro ⟨⟨j, w⟩, hf, rfl⟩
    have hj : j = k := by simpa using List.find?_some hf
    exact hj ▸ List.mem_of_find?_eq_some hf
  · intro h
    have hsome : (d.entries.find? (·.1 = k)).isSome := List.find?_isSome.2 ⟨(k, v), h, by simp⟩
    obtain ⟨⟨j, w⟩, hf⟩ := Option.isSome_iff_exists.1 hsome
    have hj : j = k := by simpa using List.find?_some hf
    subst hj
    exact ⟨(j, w), hf, congrArg Prod.snd
      (List.inj_on_of_nodup_map d.nodup (List.mem_of_find?_eq_some hf) h rfl)⟩

theorem mem_keys_iff : k ∈ d.keys ↔ ∃ v, d.lookup k = some v := by
  simp only [keys, List.mem_map, lookup_eq_some_iff]
  constructor
  · rintro ⟨⟨j, v⟩, h, rfl⟩
    exact ⟨v, h⟩
  · rintro ⟨v, h⟩
    exact ⟨(k, v), h, rfl⟩

theorem lookup_modify (k j : κ) (f : β → β) :
    (d.modify k f).lookup j = if j = k then (d.lookup k).map f else d.lookup j := by
  refine Option.ext fun v => ?_
  rw [lookup_eq_some_iff]
  simp only [modify, List.mem_map, Prod.exists]
  by_cases hj : j = k
  · subst hj
    rw [if_pos rfl, Option.map_eq_some_iff]
    simp only [lookup_eq_some_iff]
    constructor
    · rintro ⟨i, w, hm, heq⟩
      split at heq
      · cases heq
        exact ⟨w, hm, rfl⟩
      · cases heq
        contradiction
    · rintro ⟨w, hm, rfl⟩
      exact ⟨j, w, hm, by simp⟩
  · rw [if_neg hj, lookup_eq_some_iff]
    constructor
    · rintro ⟨i, w, hm, heq⟩
      split at heq
      · cases heq
        contradiction
      · cases heq
        exact hm
    · intro hm
      exact ⟨j, v, hm, by rw [if_neg hj]⟩

theorem lookup_append (h : k ∉ d.keys) (v : β) (j : κ) :
    (d.append k v h).lookup j = if j = k then some v else d.lookup j := by
  have hk : ∀ w, (k, w) ∉ d.entries := fun w hm => h (List.mem_map_of_mem hm)
  refine Option.ext fun w => ?_
  rw [lookup_eq_some_iff]
  simp only [append, List.mem_append, List.mem_singleton, Prod.mk.injEq]
  by_cases hj : j = k
  · subst hj
    simp [hk, eq_comm]
  · simp [hj, lookup_eq_some_iff]

theorem lookup_insert (k : κ) (v : β) (j : κ) : (d.insert k v).lookup j = if j = k then some v else d.lookup j := by
  unfold insert
  split
  · rename_i h
    obtain ⟨w, hw⟩ := d.mem_keys_iff.1 h
    rw [lookup_modify, hw]
    rfl
  · exact d.lookup_append _ v j

theorem lookup_erase (k j : κ) : (d.erase k).lookup j = if j = k then none else d.lookup j := by
  refine Option.ext fun v => ?_
  rw [lookup_eq_some_iff]
  simp only [erase, List.mem_filter]
  by_cases hj : j = k
  · simp [hj]
  · simp [hj, lookup_eq_some_iff]

theorem lookup_update_of_notMem {e : OrderedDict κ β} (h : k ∉ e.keys) : (d.update e).lookup k = d.lookup k := by
  unfold update keys at *
  generalize e.entries = l at h
  induction l generalizing d with
  | nil => rfl
  | cons x l ih =>
    rw [List.map_cons, List.mem_cons, not_or] at h
    rw [List.foldl_cons, ih _ h.2, lookup_insert, if_neg h.1]

theorem lookup_mapValues {γ : Type} (f : β → γ) (k : κ) : (d.mapValues f).lookup k = (d.lookup k).map f := by
  unfold lookup mapValues
  rw [List.find?_map, Option.map_map, Option.map_map]
  rfl

/-! ### What holds of all values -/

/-- Every value of the dictionary is of the kind. -/
def All (P : β → Prop) (d : OrderedDict κ β) : Prop := ∀ k v, d.lookup k = some v → P v

variable {d} {P : β → Prop}

theorem All.empty : All P (empty : OrderedDict κ β) := fun k v h => by cases h

theorem All.insert (hd : d.All P) (k : κ) (hv : P v) : (d.insert k v).All P := by
  intro j w h
  rw [lookup_insert] at h
  split_ifs at h
  · exact Option.some.inj h ▸ hv
  · exact hd j w h

theorem All.erase (hd : d.All P) (k : κ) : (d.erase k).All P := by
  intro j w h
  rw [lookup_erase] at h
  split_ifs at h
  exact hd j w h

theorem All.update {e : OrderedDict κ β} (hd : d.All P) (he : e.All P) : (d.update e).All P := by
  have hP : ∀ x ∈ e.entries, P x.2 := fun x hx => he x.1 x.2 (e.lookup_eq_some_iff.2 hx)
  unfold OrderedDict.update
  generalize e.entries = l at hP
  induction l generalizing d with
  | nil => exact hd
  | cons x l ih =>
    rw [List.forall_mem_cons] at hP
    exact ih (hd.insert x.1 hP.1) hP.2

theorem all_iff : d.All P ↔ ∀ e ∈ d.entries, P e.2 := by
  constructor
  · exact fun h e he => h e.1 e.2 (d.lookup_eq_some_iff.2 he)
  · exact fun h k v hv => h (k, v) (d.lookup_eq_some_iff.1 hv)

variable (d)

theorem keys_modify (k : κ) (f : β → β) : (d.modify k f).keys = d.keys := by
  simp only [keys, modify, List.map_map]
  exact List.map_congr_left fun e _ => by simp only [Function.comp]; split <;> rfl

theorem lookup_moveToEnd (k j : κ) : (d.moveToEnd k).lookup j = d.lookup j := by
  unfold moveToEnd
  split
  · rename_i v hv
    rw [lookup_append, lookup_erase]
    by_cases hj : j = k
    · rw [if_pos hj, hj, hv]
    · rw [if_neg hj, if_neg hj]
  · rfl

theorem lookup_popFirst (h : d.popFirst.lookup k = some v) : d.lookup k = some v := by
  rw [lookup_eq_some_iff] at h ⊢
  exact List.mem_of_mem_tail h

/-! ### Counting -/

/-- Count a key once more. -/
def increment (d : OrderedDict κ ℕ) (k : κ) : OrderedDict κ ℕ := d.insert k ((d.lookup k).getD 0 + 1)

/-- The dictionary that counts the members of a list. -/
def tally (l : List κ) : OrderedDict κ ℕ := l.foldl increment empty

variable [BEq κ] [LawfulBEq κ]

theorem lookup_tally (l : List κ) (k : κ) : (tally l).lookup k = if k ∈ l then some (l.count k) else none := by
  induction l using List.reverseRecOn with
  | nil => rfl
  | append_singleton l j ih =>
    have hstep : tally (l ++ [j]) = (tally l).increment j := by
      rw [tally, List.foldl_append]
      rfl
    rw [hstep, increment, lookup_insert, List.count_append]
    by_cases hj : k = j
    · subst hj
      rw [if_pos rfl, if_pos (by simp), ih, List.count_singleton_self]
      by_cases hk : k ∈ l
      · rw [if_pos hk]
        rfl
      · rw [if_neg hk, List.count_eq_zero_of_not_mem hk]
        rfl
    · have hcount : [j].count k = 0 := List.count_eq_zero_of_not_mem (by simpa using hj)
      rw [if_neg hj, ih, hcount, Nat.add_zero]
      simp [hj]

theorem mem_tally_iff {l : List κ} {e : κ × ℕ} : e ∈ (tally l).entries ↔ e.1 ∈ l ∧ e.2 = l.count e.1 := by
  obtain ⟨k, n⟩ := e
  rw [← lookup_eq_some_iff, lookup_tally]
  by_cases hk : k ∈ l
  · simp [hk, eq_comm]
  · simp [hk]

end OrderedDict
