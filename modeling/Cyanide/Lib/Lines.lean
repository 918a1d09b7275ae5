import Cyanide.Lib.PyText

/-!
# Lines of a text

The lines that `splitlines(keepends=True)` gives make up the text again (`flatten_linesKeepEnds`), and the first or the
last of them, put together, are split into the same lines (`linesKeepEnds_take`, `linesKeepEnds_drop`): a carriage
return that ends a line is followed by no newline.  The lines without their ends, each with a newline, make up the text
just when it had no other ends (`flatMap_lines_iff`).
-/

namespace PyText

section

variable {α : Type} [DecidableEq α] {isEnd : α → Bool} {cr nl : α}

theorem flatten_linesFrom (isEnd : α → Bool) (cr nl : α) (line s : List α) :
    (linesFrom isEnd cr nl line s).flatten = line ++ s := by
  fun_induction linesFrom isEnd cr nl line s with
  | case1 => simp
  | case2 line hne => simp
  | case3 line c => simp
  | case4 line c d cs hend hcr ih => simp [ih]
  | case5 line c d cs hend hcr ih => simp [ih]
  | case6 line c d cs hend ih => simp [ih]

/-- Characters that end no line are added to the current line. -/
theorem linesFrom_append {a : List α} (ha : ∀ c ∈ a, isEnd c = false) (line s : List α) :
    linesFrom isEnd cr nl line (a ++ s) = linesFrom isEnd cr nl (line ++ a) s := by
  induction a generalizing line with
  | nil => rw [List.nil_append, List.append_nil]
  | cons c a ih =>
    rw [List.forall_mem_cons] at ha
    have hrest := ih ha.2 (line ++ [c])
    rw [← List.append_cons] at hrest
    cases hs : a ++ s with
    | nil =>
      obtain ⟨rfl, rfl⟩ := List.append_eq_nil_iff.1 hs
      rw [List.append_nil, linesFrom, linesFrom, if_neg (by simp)]
    | cons d cs =>
      rw [List.cons_append, hs, linesFrom, ha.1, if_neg Bool.false_ne_true, ← hs, hrest]

/-- An end of a line, if it is not followed by the newline that belongs to it. -/
theorem linesFrom_end {c : α} (hc : isEnd c = true) {s : List α} (hs : ¬(c = cr ∧ s.head? = some nl)) (line : List α) :
    linesFrom isEnd cr nl line (c :: s) = (line ++ [c]) :: linesFrom isEnd cr nl [] s := by
  cases s with
  | nil => rw [linesFrom, linesFrom, if_pos rfl]
  | cons d s =>
    rw [linesFrom, hc, if_pos rfl, if_neg]
    exact fun h => hs ⟨h.1, congrArg some h.2⟩

theorem linesFrom_crlf (hcr : isEnd cr = true) (line s : List α) :
    linesFrom isEnd cr nl line (cr :: nl :: s) = (line ++ [cr, nl]) :: linesFrom isEnd cr nl [] s := by
  rw [linesFrom, hcr, if_pos rfl, if_pos ⟨rfl, rfl⟩]

omit [DecidableEq α] in
private theorem head?_flatten_take {L : List (List α)} (k : ℕ) (hne : ∀ l ∈ L, l ≠ []) :
    (L.take k).flatten = [] ∨ (L.take k).flatten.head? = L.flatten.head? := by
  cases L with
  | nil => simp
  | cons l L =>
    cases k with
    | zero => exact .inl rfl
    | succ k =>
      obtain ⟨c, cs, rfl⟩ := List.exists_cons_of_ne_nil (hne l (by simp))
      exact .inr rfl

theorem ne_nil_of_mem_linesFrom {line s l : List α} (h : l ∈ linesFrom isEnd cr nl line s) : l ≠ [] := by
  fun_induction linesFrom isEnd cr nl line s with
  | case1 => cases h
  | case2 line hne => exact List.mem_singleton.1 h ▸ hne
  | case3 line c => rw [List.mem_singleton.1 h]; simp
  | case4 line c d cs hend hcr ih =>
    rcases List.mem_cons.1 h with rfl | h
    · simp
    · exact ih h
  | case5 line c d cs hend hcr ih =>
    rcases List.mem_cons.1 h with rfl | h
    · simp
    · exact ih h
  | case6 line c d cs hend ih => exact ih h

/-- The first lines are split as before, when no character of the current line ends it. -/
theorem linesFrom_take {line s : List α} (hline : ∀ c ∈ line, isEnd c = false) (k : ℕ) :
    linesFrom isEnd cr nl [] ((linesFrom isEnd cr nl line s).take k).flatten = (linesFrom isEnd cr nl line s).take k := by
  fun_induction linesFrom isEnd cr nl line s generalizing k with
  | case1 => simp [linesFrom]
  | case2 line hne =>
    cases k with
    | zero => simp [linesFrom]
    | succ k =>
      have happend : linesFrom isEnd cr nl [] (line ++ []) = _ := linesFrom_append hline [] []
      rw [List.append_nil, List.nil_append, linesFrom, if_neg hne] at happend
      simpa using happend
  | case3 line c =>
    cases k with
    | zero => simp [linesFrom]
    | succ k =>
      have happend : linesFrom isEnd cr nl [] (line ++ [c]) = _ := linesFrom_append hline [] [c]
      rw [List.nil_append, linesFrom] at happend
      simpa using happend
  | case4 line c d cs hend hcr ih =>
    obtain ⟨rfl, rfl⟩ := hcr
    cases k with
    | zero => simp [linesFrom]
    | succ k =>
      rw [List.take_succ_cons, List.flatten_cons, List.append_assoc, linesFrom_append hline, List.nil_append]
      rw [List.cons_append, List.singleton_append, linesFrom_crlf hend, ih (by simp)]
  | case5 line c d cs hend hcr ih =>
    cases k with
    | zero => simp [linesFrom]
    | succ k =>
      rw [List.take_succ_cons, List.flatten_cons, List.append_assoc, linesFrom_append hline, List.nil_append,
        List.singleton_append, linesFrom_end hend, ih (by simp)]
      rintro ⟨hc, hhead⟩
      have hne : ∀ l ∈ linesFrom isEnd cr nl [] (d :: cs), l ≠ [] := fun l hl => ne_nil_of_mem_linesFrom hl
      rcases head?_flatten_take k hne with h | h
      · rw [h] at hhead
        cases hhead
      · rw [h, flatten_linesFrom] at hhead
        exact hcr ⟨hc, Option.some.inj hhead⟩
  | case6 line c d cs hend ih =>
    refine ih (fun x hx => ?_) k
    rcases List.mem_append.1 hx with hx | hx
    · exact hline x hx
    · rw [List.mem_singleton.1 hx]
      simpa using hend

/-- So are the last ones. -/
theorem linesFrom_drop {line s : List α} (hline : ∀ c ∈ line, isEnd c = false) (k : ℕ) :
    linesFrom isEnd cr nl [] ((linesFrom isEnd cr nl line s).drop k).flatten = (linesFrom isEnd cr nl line s).drop k := by
  cases k with
  | zero =>
    rw [List.drop_zero, flatten_linesFrom, linesFrom_append hline, List.nil_append]
  | succ k =>
    fun_induction linesFrom isEnd cr nl line s generalizing k with
    | case1 => simp [linesFrom]
    | case2 line hne => simp [linesFrom]
    | case3 line c => simp [linesFrom]
    | case4 line c d cs hend hcr ih =>
      rw [List.drop_succ_cons]
      cases k with
      | zero => rw [List.drop_zero, flatten_linesFrom, List.nil_append]
      | succ k => exact ih (by simp) k
    | case5 line c d cs hend hcr ih =>
      rw [List.drop_succ_cons]
      cases k with
      | zero => rw [List.drop_zero, flatten_linesFrom, List.nil_append]
      | succ k => exact ih (by simp) k
    | case6 line c d cs hend ih =>
      refine ih (fun x hx => ?_) k
      rcases List.mem_append.1 hx with hx | hx
      · exact hline x hx
      · rw [List.mem_singleton.1 hx]
        simpa using hend

end

theorem flatten_linesKeepEnds (s : List Char) : (linesKeepEnds s).flatten = s := flatten_linesFrom _ _ _ [] s

theorem linesKeepEnds_take (s : List Char) (k : ℕ) :
    linesKeepEnds ((linesKeepEnds s).take k).flatten = (linesKeepEnds s).take k := linesFrom_take (by simp) k

theorem linesKeepEnds_drop (s : List Char) (k : ℕ) :
    linesKeepEnds ((linesKeepEnds s).drop k).flatten = (linesKeepEnds s).drop k := linesFrom_drop (by simp) k

theorem linesKeepEnds_eq_nil_iff {s : List Char} : linesKeepEnds s = [] ↔ s = [] := by
  constructor
  · intro h
    rw [← flatten_linesKeepEnds s, h, List.flatten_nil]
  · rintro rfl
    rfl

/-! ### Joining lines -/

/-- Lines with newlines between them and one at the end. -/
theorem intercalate_newline {lines : List (List Char)} (h : lines ≠ []) :
    List.intercalate ['\n'] lines ++ ['\n'] = lines.flatMap (· ++ ['\n']) := by
  induction lines with
  | nil => exact absurd rfl h
  | cons l lines ih =>
    cases lines with
    | nil => simp [List.intercalate]
    | cons l' lines =>
      rw [List.intercalate_cons_cons, List.append_assoc, ih (by simp)]
      rfl

theorem getLast?_flatMap {lines : List (List Char)} (h : lines ≠ []) :
    (lines.flatMap (· ++ ['\n'])).getLast? = some '\n' := by
  obtain ⟨init, l, rfl⟩ := List.eq_nil_or_concat lines |>.resolve_left h
  simp

/-- Every line of the text ends with a newline, and nothing else ends a line. -/
def Terminated (s : List Char) : Prop := (∀ c ∈ s, isLineEnd c = true → c = '\n') ∧ (s = [] ∨ s.getLast? = some '\n')

instance (s : List Char) : Decidable (Terminated s) :=
  @instDecidableAnd _ _ (List.decidableBAll _ s) inferInstance

theorem rdropWhile_append_of_forall {α : Type} {p : α → Bool} {a b : List α} (ha : ∀ c ∈ a, p c = false)
    (hb : ∀ c ∈ b, p c = true) : (a ++ b).rdropWhile p = a := by
  have hself : a.rdropWhile p = a := by
    rw [List.rdropWhile_eq_self_iff]
    intro hne hlast
    rw [ha _ (List.getLast_mem hne)] at hlast
    cases hlast
  induction b using List.reverseRecOn with
  | nil => rw [List.append_nil, hself]
  | append_singleton b c ih =>
    rw [← List.append_assoc, List.rdropWhile_concat_pos _ _ _ (hb c (by simp))]
    exact ih fun d hd => hb d (List.mem_append_left _ hd)

/-- A line is what stands in front of its ends. -/
theorem exists_of_mem_linesFrom {α : Type} [DecidableEq α] {isEnd : α → Bool} {cr nl : α} (hnl : isEnd nl = true)
    {line s l : List α} (hline : ∀ c ∈ line, isEnd c = false) (h : l ∈ linesFrom isEnd cr nl line s) :
    ∃ a ends, l = a ++ ends ∧ (∀ c ∈ a, isEnd c = false) ∧ ∀ c ∈ ends, isEnd c = true := by
  fun_induction linesFrom isEnd cr nl line s with
  | case1 => cases h
  | case2 line hne => exact ⟨line, [], by simpa using h, hline, by simp⟩
  | case3 line c =>
    cases hc : isEnd c with
    | true => exact ⟨line, [c], by simpa using h, hline, by simpa using hc⟩
    | false => exact ⟨line ++ [c], [], by simpa using h, by simpa [or_imp, forall_and, hc] using hline, by simp⟩
  | case4 line c d cs hend hcr ih =>
    obtain ⟨-, rfl⟩ := hcr
    rcases List.mem_cons.1 h with rfl | h
    · exact ⟨line, [c, d], rfl, hline, by simp [hend, hnl]⟩
    · exact ih (by simp) h
  | case5 line c d cs hend hcr ih =>
    rcases List.mem_cons.1 h with rfl | h
    · exact ⟨line, [c], rfl, hline, by simpa using hend⟩
    · exact ih (by simp) h
  | case6 line c d cs hend ih =>
    refine ih (fun x hx => ?_) h
    rcases List.mem_append.1 hx with hx | hx
    · exact hline x hx
    · rw [List.mem_singleton.1 hx]
      simpa using hend

theorem isLineEnd_of_mem_lines {s l : List Char} {c : Char} (hl : l ∈ lines s) (hc : c ∈ l) : isLineEnd c = false := by
  obtain ⟨l', hl', rfl⟩ := List.mem_map.1 hl
  obtain ⟨a, ends, rfl, ha, hends⟩ := exists_of_mem_linesFrom (by decide) (by simp) hl'
  rw [rdropWhile_append_of_forall ha hends] at hc
  exact ha c hc

theorem lines_cons {line : List Char} (hline : ∀ c ∈ line, isLineEnd c = false) (rest : List Char) :
    lines (line ++ '\n' :: rest) = line :: lines rest := by
  have hsplit : linesKeepEnds (line ++ '\n' :: rest) = (line ++ ['\n']) :: linesKeepEnds rest := by
    rw [linesKeepEnds, linesFrom_append hline, List.nil_append]
    exact linesFrom_end (by decide) (fun h => absurd h.1 (by decide)) line
  have hdrop : (line ++ ['\n']).rdropWhile isLineEnd = line := by
    refine rdropWhile_append_of_forall hline fun c hc => ?_
    rw [List.mem_singleton.1 hc]
    rfl
  rw [lines, hsplit, List.map_cons, hdrop]
  rfl

private theorem flatMap_linesFrom_of_terminated {line s : List Char} (hline : ∀ c ∈ line, isLineEnd c = false)
    (hs : ∀ c ∈ s, isLineEnd c = true → c = '\n') (hlast : line ++ s = [] ∨ s.getLast? = some '\n') :
    ((linesFrom isLineEnd '\r' '\n' line s).map (·.rdropWhile isLineEnd)).flatMap (· ++ ['\n']) = line ++ s := by
  have hdrop : ∀ line : List Char, (∀ c ∈ line, isLineEnd c = false) →
      (line ++ ['\n']).rdropWhile isLineEnd = line := by
    intro line hline
    refine rdropWhile_append_of_forall hline fun c hc => ?_
    rw [List.mem_singleton.1 hc]
    rfl
  fun_induction linesFrom isLineEnd '\r' '\n' line s with
  | case1 => rfl
  | case2 line hne => simp [hne] at hlast
  | case3 line c =>
    obtain rfl : c = '\n' := by simpa using hlast
    simp [hdrop line hline]
  | case4 line c d cs hend hcr ih =>
    obtain ⟨rfl, -⟩ := hcr
    exact absurd (hs '\r' (by simp) hend) (by decide)
  | case5 line c d cs hend hcr ih =>
    obtain rfl := hs c (by simp) hend
    have hrest := ih (by simp) (fun x hx => hs x (List.mem_cons_of_mem _ hx)) (.inr (by simpa using hlast))
    rw [List.map_cons, List.flatMap_cons, hrest, hdrop line hline]
    simp
  | case6 line c d cs hend ih =>
    have hrest := ih (by simpa [or_imp, forall_and] using ⟨hline, by simpa using hend⟩)
      (fun x hx => hs x (List.mem_cons_of_mem _ hx)) (.inr (by simpa using hlast))
    rw [hrest, List.append_assoc]
    rfl

/-- The lines, each with a newline, make up the text again just when they ended so before. -/
theorem flatMap_lines_iff (s : List Char) : (lines s).flatMap (· ++ ['\n']) = s ↔ Terminated s := by
  constructor
  · intro h
    rw [← h]
    constructor
    · intro c hc hend
      obtain ⟨l, hl, hcl⟩ := List.mem_flatMap.1 hc
      rcases List.mem_append.1 hcl with hcl | hcl
      · rw [isLineEnd_of_mem_lines hl hcl] at hend
        cases hend
      · exact List.mem_singleton.1 hcl
    · by_cases hnil : lines s = []
      · exact .inl (by rw [hnil]; rfl)
      · exact .inr (getLast?_flatMap hnil)
  · rintro ⟨hends, hlast⟩
    exact flatMap_linesFrom_of_terminated (by simp) hends hlast

end PyText
