import Mathlib.Data.List.Basic
import Mathlib.Data.List.Infix
import Mathlib.Order.Basic

/-!
# Streams with short reads

A stream of which a read for `n` entries returns between one and `n`, as the other side happens to have sent them, and
none only at the end.  `readExactly` and `readThrough` loop over such reads; what they return does not depend on how
the reads cut the stream.
-/

/-- What is left of a stream, and how much each of the next reads returns at most. -/
structure ShortReads (α : Type) where
  rest : List α
  cuts : ℕ → ℕ

namespace ShortReads

variable {α : Type}

def read (n : ℕ) (i : ShortReads α) : List α × ShortReads α :=
  let k := min n (max 1 (i.cuts 0))
  (i.rest.take k, ⟨i.rest.drop k, fun j => i.cuts (j + 1)⟩)

/-- Read `remaining` entries, at most `limit` at a time, behind those that were read. -/
def readExactlyFrom (limit : ℕ) : (fuel remaining : ℕ) → List α → ShortReads α → List α × ShortReads α
  | 0, _, content, i => (content, i)
  | fuel + 1, remaining, content, i =>
    if remaining = 0 then (content, i)
    else
      let (chunk, i') := i.read (min remaining limit)
      if chunk.isEmpty then (content, i')
      else readExactlyFrom limit fuel (remaining - chunk.length) (content ++ chunk) i'

def readExactly (limit n : ℕ) (i : ShortReads α) : List α × ShortReads α := readExactlyFrom limit n n [] i

/-- Read one entry after the other up to the first `stop`; `none` when there is none. -/
def readThroughFrom [DecidableEq α] (stop : α) : (fuel : ℕ) → List α → ShortReads α → Option (List α) × ShortReads α
  | 0, _, i => (none, i)
  | fuel + 1, line, i =>
    if line.getLast? = some stop then (some line, i)
    else
      let (entry, i') := i.read 1
      if entry.isEmpty then (none, i') else readThroughFrom stop fuel (line ++ entry) i'

def readThrough [DecidableEq α] (stop : α) (i : ShortReads α) : Option (List α) × ShortReads α :=
  readThroughFrom stop (i.rest.length + 1) [] i

theorem read_append_rest (n : ℕ) (i : ShortReads α) : (i.read n).1 ++ (i.read n).2.rest = i.rest :=
  List.take_append_drop _ _

theorem length_read_le (n : ℕ) (i : ShortReads α) : (i.read n).1.length ≤ n :=
  (List.length_take_le _ _).trans (min_le_left _ _)

theorem length_rest_read_le (n : ℕ) (i : ShortReads α) : (i.read n).2.rest.length ≤ i.rest.length :=
  (List.length_drop ▸ Nat.sub_le _ _)

/-- A read returns nothing only at the end. -/
theorem read_eq_nil_iff {n : ℕ} (hn : 0 < n) (i : ShortReads α) : (i.read n).1 = [] ↔ i.rest = [] := by
  have hk : min n (max 1 (i.cuts 0)) ≠ 0 := by omega
  simp [read, List.take_eq_nil_iff, hk]

theorem read_one_cons {x : α} {xs : List α} {i : ShortReads α} (h : i.rest = x :: xs) :
    (i.read 1).1 = [x] ∧ (i.read 1).2.rest = xs := by
  have hk : min 1 (max 1 (i.cuts 0)) = 1 := by omega
  rw [read, hk, h]
  exact ⟨rfl, rfl⟩

private theorem readExactlyFrom_eq {limit : ℕ} (hlimit : 0 < limit) (fuel remaining : ℕ) (content : List α)
    (i : ShortReads α) (hfuel : remaining ≤ fuel) :
    (readExactlyFrom limit fuel remaining content i).1 = content ++ i.rest.take remaining ∧
      (readExactlyFrom limit fuel remaining content i).2.rest = i.rest.drop remaining := by
  induction fuel generalizing remaining content i with
  | zero =>
    obtain rfl : remaining = 0 := by omega
    simp [readExactlyFrom]
  | succ fuel ih =>
    by_cases h0 : remaining = 0
    · simp [readExactlyFrom, h0]
    have hpos : 0 < min remaining limit := by omega
    simp only [readExactlyFrom, h0, if_false]
    by_cases hend : i.rest = []
    · have hnil := (read_eq_nil_iff hpos i).2 hend
      have hrest : (i.read (min remaining limit)).2.rest = [] := by
        have := read_append_rest (min remaining limit) i
        rw [hnil, hend] at this
        exact this
      simp [hnil, hrest, hend]
    · -- the chunk is what was asked for or a part of it
      have hne : (i.read (min remaining limit)).1 ≠ [] := fun h => hend ((read_eq_nil_iff hpos i).1 h)
      have hle : (i.read (min remaining limit)).1.length ≤ remaining :=
        (length_read_le _ i).trans (min_le_left _ _)
      have hlt := List.length_pos_iff.2 hne
      obtain ⟨hfst, hrest⟩ := ih (remaining - (i.read (min remaining limit)).1.length)
        (content ++ (i.read (min remaining limit)).1) (i.read (min remaining limit)).2 (by omega)
      have hsplit := read_append_rest (min remaining limit) i
      rw [if_neg (by simpa using hne), hfst, hrest, ← hsplit]
      rw [List.take_append, List.take_of_length_le hle, List.drop_append, List.drop_of_length_le hle]
      simp

/-- The loop gives what is there of the next `n` entries, however the reads cut them. -/
theorem readExactly_eq {limit : ℕ} (hlimit : 0 < limit) (n : ℕ) (i : ShortReads α) :
    (i.readExactly limit n).1 = i.rest.take n ∧ (i.readExactly limit n).2.rest = i.rest.drop n := by
  simpa [readExactly] using readExactlyFrom_eq hlimit n n [] i le_rfl

section Through

variable [DecidableEq α]

private theorem readThroughFrom_append {stop : α} {l rest : List α} (hl : stop ∉ l) (fuel : ℕ) (line : List α)
    (i : ShortReads α) (hline : line.getLast? ≠ some stop) (hrest : i.rest = l ++ stop :: rest)
    (hfuel : l.length + 2 ≤ fuel) :
    (readThroughFrom stop fuel line i).1 = some (line ++ l ++ [stop]) ∧
      (readThroughFrom stop fuel line i).2.rest = rest := by
  induction l generalizing fuel line i with
  | nil =>
    obtain ⟨fuel, rfl⟩ : ∃ f, fuel = f + 2 := ⟨fuel - 2, by simp at hfuel; omega⟩
    obtain ⟨hentry, hrest'⟩ := read_one_cons hrest
    simp [readThroughFrom, hline, hentry, hrest']
  | cons x l ih =>
    obtain ⟨fuel, rfl⟩ : ∃ f, fuel = f + 1 := ⟨fuel - 1, by simp at hfuel; omega⟩
    obtain ⟨hentry, hrest'⟩ := read_one_cons hrest
    simp only [List.mem_cons, not_or] at hl
    simp only [List.length_cons] at hfuel
    have := ih hl.2 fuel (line ++ [x]) (i.read 1).2 (by simpa using Ne.symm hl.1) hrest' (by omega)
    simp only [readThroughFrom, if_neg hline, hentry, List.isEmpty_cons]
    simpa using this

/-- The loop gives the entries through the first `stop`. -/
theorem readThrough_append {stop : α} {l rest : List α} (hl : stop ∉ l) {i : ShortReads α}
    (hrest : i.rest = l ++ stop :: rest) :
    (i.readThrough stop).1 = some (l ++ [stop]) ∧ (i.readThrough stop).2.rest = rest := by
  have hfuel : l.length + 2 ≤ i.rest.length + 1 := by
    rw [hrest, List.length_append, List.length_cons]
    omega
  simpa [readThrough] using readThroughFrom_append hl (i.rest.length + 1) [] i (by simp) hrest hfuel

theorem readThrough_nil {stop : α} {i : ShortReads α} (hrest : i.rest = []) :
    (i.readThrough stop).1 = none ∧ (i.readThrough stop).2.rest = [] := by
  have hnil := (read_eq_nil_iff Nat.one_pos i).2 hrest
  have hrest' := length_rest_read_le 1 i
  rw [hrest, List.length_nil, Nat.le_zero, List.length_eq_zero_iff] at hrest'
  simp [readThrough, readThroughFrom, hnil, hrest']

private theorem length_readThroughFrom_lt {stop : α} (fuel : ℕ) (line : List α) (i : ShortReads α)
    (hline : line.getLast? ≠ some stop) (h : (readThroughFrom stop fuel line i).1 ≠ none) :
    (readThroughFrom stop fuel line i).2.rest.length < i.rest.length := by
  induction fuel generalizing line i with
  | zero => exact absurd rfl h
  | succ fuel ih =>
    simp only [readThroughFrom, if_neg hline] at h ⊢
    cases hrest : i.rest with
    | nil =>
      rw [(read_eq_nil_iff Nat.one_pos i).2 hrest] at h
      exact absurd rfl h
    | cons x xs =>
      obtain ⟨hentry, hrest'⟩ := read_one_cons hrest
      rw [hentry] at h ⊢
      simp only [List.isEmpty_cons, Bool.false_eq_true, if_false] at h ⊢
      by_cases hx : x = stop
      · subst hx
        cases fuel with
        | zero => exact absurd rfl h
        | succ fuel => simp [readThroughFrom, hrest']
      · have := ih (line ++ [x]) (i.read 1).2 (by simpa using hx) h
        rw [hrest'] at this
        exact this.trans (Nat.lt_succ_self _)

/-- A line that was read is taken off the stream. -/
theorem length_readThrough_lt {stop : α} {i : ShortReads α} (h : (i.readThrough stop).1 ≠ none) :
    (i.readThrough stop).2.rest.length < i.rest.length :=
  length_readThroughFrom_lt _ [] i (by simp) h

end Through

section Readers

variable {β γ : Type} {m : StateM (ShortReads α) β} {f : β → StateM (ShortReads α) γ} {l l' l'' : List α} {b : β} {c : γ}

/-- However the reads are cut, `m` returns `b` on `l` and leaves `l'`. -/
def Returns {β : Type} (m : StateM (ShortReads α) β) (l : List α) (b : β) (l' : List α) : Prop :=
  ∀ cuts, ∃ cuts', m ⟨l, cuts⟩ = (b, ⟨l', cuts'⟩)

/-- Some cuts let `m` return `b` on `l` and leave `l'`, however the later reads are cut. -/
def MayReturn {β : Type} (m : StateM (ShortReads α) β) (l : List α) (b : β) (l' : List α) : Prop :=
  ∀ cuts', ∃ cuts, m ⟨l, cuts⟩ = (b, ⟨l', cuts'⟩)

/-- What holds of the results of readers by composition, with reads of up to `width` entries that are all there. -/
structure ReadRule (width : ℕ) (Q : {β : Type} → StateM (ShortReads α) β → List α → β → List α → Prop) : Prop where
  pure : ∀ {β : Type} (b : β) (l : List α), Q (pure b) l b l
  bind : ∀ {β γ : Type} {m : StateM (ShortReads α) β} {f : β → StateM (ShortReads α) γ} {l l' l'' : List α} {b : β}
    {c : γ}, Q m l b l' → Q (f b) l' c l'' → Q (m >>= f) l c l''
  read : ∀ (xs l : List α), 0 < xs.length → xs.length ≤ width → Q (read xs.length) (xs ++ l) xs l

theorem bind_apply (m : StateM (ShortReads α) β) (f : β → StateM (ShortReads α) γ) (s : ShortReads α) :
    (m >>= f) s = f (m s).1 (m s).2 := rfl

theorem bind_eq {s s' : ShortReads α} (h : m s = (b, s')) : (m >>= f) s = f b s' := by
  rw [bind_apply, h]

theorem Returns.bind_eq (h : Returns m l b l') (cuts : ℕ → ℕ) : ∃ cuts', (m >>= f) ⟨l, cuts⟩ = f b ⟨l', cuts'⟩ := by
  obtain ⟨cuts', hm⟩ := h cuts
  exact ⟨cuts', ShortReads.bind_eq hm⟩

theorem MayReturn.bind_eq (h : MayReturn m l b l') (cuts' : ℕ → ℕ) :
    ∃ cuts, (m >>= f) ⟨l, cuts⟩ = f b ⟨l', cuts'⟩ := by
  obtain ⟨cuts, hm⟩ := h cuts'
  exact ⟨cuts, ShortReads.bind_eq hm⟩

/-- Reads of one entry cannot be cut. -/
theorem readRule_returns : ReadRule 1 (Returns (α := α)) where
  pure b l cuts := ⟨cuts, rfl⟩
  bind hm hf cuts := by
    obtain ⟨cuts', hm⟩ := hm cuts
    obtain ⟨cuts'', hf⟩ := hf cuts'
    exact ⟨cuts'', (bind_eq hm).trans hf⟩
  read xs l h0 h1 cuts := by
    have hlen : xs.length = 1 := by omega
    have hcut : min 1 (max 1 (cuts 0)) = xs.length := by omega
    refine ⟨fun j => cuts (j + 1), ?_⟩
    simp only [read, hlen, hcut, List.take_left', List.drop_left']

/-- A read may return any part that is not empty. -/
theorem mayReturn_read {n k : ℕ} (hk : 0 < k) (hn : k ≤ n) (l : List α) :
    MayReturn (read n) l (l.take k) (l.drop k) := by
  intro cuts'
  refine ⟨fun j => if j = 0 then k else cuts' (j - 1), ?_⟩
  have hcut : min n (max 1 k) = k := by omega
  simp [read, hcut]

theorem readRule_mayReturn (width : ℕ) : ReadRule width (MayReturn (α := α)) where
  pure b l cuts' := ⟨cuts', rfl⟩
  bind hm hf cuts'' := by
    obtain ⟨cuts', hf⟩ := hf cuts''
    obtain ⟨cuts, hm⟩ := hm cuts'
    exact ⟨cuts, (bind_eq hm).trans hf⟩
  read xs l h0 _ := by
    have := mayReturn_read h0 le_rfl (xs ++ l)
    rwa [List.take_left, List.drop_left] at this

end Readers

end ShortReads
