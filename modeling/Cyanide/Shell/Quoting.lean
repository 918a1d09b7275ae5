import Cyanide.Shell.CommandLine

/-!
# Quote scanners and the lexer

`_parse_chain` and `_split_ignore_quotes` follow quotation marks and know no backslash; the words of a piece come from
`shlex`, which does.  `separators` marks the characters at which the two cut a line, and `quotingAgrees_iff` says for
which lines they cut where the lexer would: a backslash must not matter at an operator character, and in a balanced
line no escaped blank stands at the end of a piece.
-/

namespace Cyanide

open PosixPath PyText Shlex

/-- The characters of operators. -/
def isOperatorChar (c : Char) : Bool := c = ';' || c = '&' || c = '|'

/-- The characters of a text that `_split_ignore_quotes` takes for delimiters, by the branches of its loop. -/
def delimiters (delimiter : Char) : (quote : Option Char) → Str → List Bool
  | _, [] => []
  | quote, c :: cs =>
    if isQuoteChar c then false :: delimiters delimiter (updateQuoteState c quote) cs
    else if c = delimiter ∧ quote = none then true :: delimiters delimiter none cs
    else false :: delimiters delimiter quote cs

/-- The characters of a line that `_parse_chain` takes for operators, by the branches of its loop. -/
def operators : (quote : Option Char) → Str → List Bool
  | _, [] => []
  | none, '&' :: '&' :: cs => true :: true :: operators none cs
  | none, '|' :: '|' :: cs => true :: true :: operators none cs
  | none, ';' :: cs => true :: operators none cs
  | none, '&' :: cs => true :: operators none cs
  | quote, c :: cs => false :: operators (if isQuoteChar c then updateQuoteState c quote else quote) cs

/-- The characters of the current token and of the rest of a line at which it is cut: by `_parse_chain`, or by
`_split_ignore_quotes` in a token that it is handed. -/
def separatorsFrom : (quote : Option Char) → (token : Str) → Str → List Bool
  | _, token, [] => delimiters '|' none token
  | none, token, '&' :: '&' :: cs => delimiters '|' none token ++ true :: true :: separatorsFrom none [] cs
  | none, token, '|' :: '|' :: cs => delimiters '|' none token ++ true :: true :: separatorsFrom none [] cs
  | none, token, ';' :: cs => delimiters '|' none token ++ true :: separatorsFrom none [] cs
  | none, token, '&' :: cs => delimiters '|' none token ++ true :: separatorsFrom none [] cs
  | quote, token, c :: cs =>
    separatorsFrom (if isQuoteChar c then updateQuoteState c quote else quote) (token ++ [c]) cs

def separators (s : Str) : List Bool := separatorsFrom none [] s

/-- The pieces of a line that `shlex` is used on. -/
def segments (s : Str) : List Str := (parseChain s).flatMap fun node => splitIgnoreQuotes node.cmdLine '|'

/-- The scanners cut a line at the operator characters that the lexer takes for unquoted and unescaped, and a balanced
line into balanced pieces. -/
def QuotingAgrees (s : Str) : Prop :=
  (∀ i c, s[i]? = some c → isOperatorChar c → ((separators s)[i]? = some true ↔ IsPlain (s.take i))) ∧
    (Balanced s → (∀ node ∈ parseChain s, Balanced node.cmdLine) ∧ ∀ segment ∈ segments s, Balanced segment)

/-! ### Cutting a text at marks -/

/-- The pieces between the marked characters, from the characters of the current one. -/
def cut : (current : Str) → List Bool → Str → List Str
  | current, true :: marks, _ :: cs => current :: cut [] marks cs
  | current, false :: marks, c :: cs => cut (current ++ [c]) marks cs
  | current, _, _ => [current]

/-- The stripped pieces that are not blank. -/
def commands (pieces : List Str) : List Str := (pieces.map strip).filter (· ≠ [])

/-- Mark the characters with a property outside of the quotes that the scanners see. -/
def mark (p : Char → Bool) : (quote : Option Char) → Str → List Bool
  | _, [] => []
  | quote, c :: cs => (p c && quote.isNone) :: mark p (if isQuoteChar c then updateQuoteState c quote else quote) cs

/-- The quote that the scanners have open behind a text. -/
def quoteAfter (quote : Option Char) (s : Str) : Option Char :=
  s.foldl (fun quote c => if isQuoteChar c then updateQuoteState c quote else quote) quote

theorem length_mark (p : Char → Bool) (quote : Option Char) (s : Str) : (mark p quote s).length = s.length := by
  induction s generalizing quote with
  | nil => rfl
  | cons c s ih => exact congrArg (· + 1) (ih _)

theorem mark_append (p : Char → Bool) (quote : Option Char) (s t : Str) :
    mark p quote (s ++ t) = mark p quote s ++ mark p (quoteAfter quote s) t := by
  induction s generalizing quote with
  | nil => rfl
  | cons c s ih => exact congrArg (_ :: ·) (ih _)

theorem getElem?_mark (p : Char → Bool) (quote : Option Char) (s : Str) (i : ℕ) :
    (mark p quote s)[i]? = some true ↔ ∃ c, s[i]? = some c ∧ p c = true ∧ quoteAfter quote (s.take i) = none := by
  induction s generalizing quote i with
  | nil => simp [mark]
  | cons c s ih =>
    cases i with
    | zero => simp [mark, quoteAfter]
    | succ i => simpa [mark, quoteAfter] using ih _ i

theorem delimiters_eq_mark {delimiter : Char} (hd : isQuoteChar delimiter = false) (quote : Option Char) (s : Str) :
    delimiters delimiter quote s = mark (· = delimiter) quote s := by
  induction s generalizing quote with
  | nil => rfl
  | cons c s ih =>
    rw [delimiters, mark]
    by_cases hq : isQuoteChar c = true
    · have hc : c ≠ delimiter := fun heq => by
        rw [heq, hd] at hq
        cases hq
      simp [hq, hc, ih]
    · split_ifs with hc
      · simp [hc, ih]
      · have hbit : (decide (c = delimiter) && quote.isNone) = false := by
          cases quote <;> simp_all
        simp [hbit, ih]

theorem cut_append_true (current : Str) {marks : List Bool} {s : Str} (hlen : marks.length = s.length)
    (marks' : List Bool) (c : Char) (t : Str) :
    cut current (marks ++ true :: marks') (s ++ c :: t) = cut current marks s ++ cut [] marks' t := by
  induction s generalizing current marks with
  | nil =>
    obtain rfl : marks = [] := List.length_eq_zero_iff.1 hlen
    rfl
  | cons d s ih =>
    cases marks with
    | nil => cases hlen
    | cons bit marks =>
      have hlen' : marks.length = s.length := Nat.succ_injective hlen
      cases bit with
      | true => exact congrArg (current :: ·) (ih [] hlen')
      | false => exact ih (current ++ [d]) hlen'

theorem commands_cons (current : Str) (pieces : List Str) :
    commands (current :: pieces) = (if strip current = [] then [] else [strip current]) ++ commands pieces := by
  unfold commands
  rw [List.map_cons, List.filter_cons]
  split_ifs <;> simp_all

theorem commands_nil_cons (pieces : List Str) : commands ([] :: pieces) = commands pieces := rfl

theorem commands_append (pieces pieces' : List Str) :
    commands (pieces ++ pieces') = commands pieces ++ commands pieces' := by
  simp [commands]

theorem cut_nil (current : Str) (marks : List Bool) : cut current marks [] = [current] := by
  cases marks with
  | nil => rfl
  | cons bit marks => cases bit <;> rfl

/-- The texts that are no empty nodes. -/
private theorem map_cmdLine_filterMap (tokens : List (Str × Option ChainOp)) :
    (tokens.filterMap fun (cmd, op) => if cmd = [] then none else some (⟨cmd, op⟩ : CommandNode Str)).map (·.cmdLine) =
      (tokens.map Prod.fst).filter (· ≠ []) := by
  induction tokens with
  | nil => rfl
  | cons token tokens ih =>
    obtain ⟨cmd, op⟩ := token
    by_cases hcmd : cmd = []
    · simpa [hcmd] using ih
    · simpa [hcmd] using ih

private theorem filter_parseChainFrom (quote : Option Char) (token cs : Str) :
    ((parseChainFrom quote token cs).map Prod.fst).filter (· ≠ []) = commands (cut token (operators quote cs) cs) := by
  have hcons : ∀ (token : Str) (tokens : List Str), (strip token :: tokens).filter (· ≠ []) =
      (if strip token = [] then [] else [strip token]) ++ tokens.filter (· ≠ []) := by
    intro token tokens
    rw [List.filter_cons]
    split_ifs with h <;> simp_all
  induction quote, token, cs using parseChainFrom.induct with
  | case1 quote token h =>
    rw [parseChainFrom, if_pos h, cut_nil, commands_cons, if_pos h]
    rfl
  | case2 quote token h =>
    rw [parseChainFrom, if_neg h, cut_nil, commands_cons, if_neg h]
    simp [h, commands]
  | case3 token cs ih =>
    rw [parseChainFrom, operators, cut, cut, commands_cons, commands_nil_cons, ← ih, List.map_cons, hcons]
  | case4 token cs ih =>
    rw [parseChainFrom, operators, cut, cut, commands_cons, commands_nil_cons, ← ih, List.map_cons, hcons]
  | case5 token cs ih =>
    rw [parseChainFrom, operators, cut, commands_cons, ← ih, List.map_cons, hcons]
  | case6 token cs h ih =>
    rw [parseChainFrom.eq_5 _ _ h, operators.eq_5 _ h, cut, commands_cons, ← ih, List.map_cons, hcons]
  | case7 quote token c cs h1 h2 h3 h4 ih =>
    rw [parseChainFrom.eq_6 _ _ _ _ h1 h2 h3 h4, operators.eq_6 _ _ _ h1 h2 h3 h4]
    exact ih

/-- The nodes of a chain are the commands between its operators. -/
theorem map_cmdLine_parseChain (s : Str) :
    (parseChain s).map (·.cmdLine) = commands (cut [] (operators none s) s) :=
  (map_cmdLine_filterMap _).trans (filter_parseChainFrom none [] s)

private theorem filter_splitIgnoreQuotesFrom (delimiter : Char) (quote : Option Char) (current s : Str) :
    (splitIgnoreQuotesFrom delimiter quote current s).filter (· ≠ []) =
      commands (cut current (delimiters delimiter quote s) s) := by
  induction s generalizing quote current with
  | nil =>
    rw [splitIgnoreQuotesFrom, cut_nil, commands_cons]
    split_ifs with h <;> simp [h, commands]
  | cons c s ih =>
    rw [splitIgnoreQuotesFrom, delimiters]
    split_ifs with hq hd
    · rw [cut, ih]
    · rw [cut, commands_cons, ← ih, List.filter_cons]
      split_ifs <;> simp_all
    · rw [cut, ih]

/-- White space around a text does not change its commands. -/
theorem commands_cut_append_left {l : Str} (hl : ∀ c ∈ l, isSpace c = true) (current : Str) (marks : List Bool)
    (s : Str) : commands (cut (l ++ current) marks s) = commands (cut current marks s) := by
  induction s generalizing current marks with
  | nil => rw [cut_nil, cut_nil, commands_cons, commands_cons, strip_append_left hl]
  | cons c s ih =>
    cases marks with
    | nil =>
      show commands [l ++ current] = commands [current]
      rw [commands_cons, commands_cons, strip_append_left hl]
    | cons bit marks =>
      cases bit with
      | true => rw [cut, cut, commands_cons, commands_cons, strip_append_left hl]
      | false =>
        rw [cut, cut, List.append_assoc]
        exact ih _ _

/-- A property of characters that no white space has. -/
def NoSpace (p : Char → Bool) : Prop := ∀ c, isSpace c = true → p c = false

theorem isQuoteChar_noSpace : NoSpace isQuoteChar := by
  intro c hc
  by_contra hq
  simp only [isQuoteChar, Bool.not_eq_false, Bool.or_eq_true, decide_eq_true_eq] at hq
  rcases hq with rfl | rfl <;> exact absurd hc (by decide)

section Spaces

variable {p : Char → Bool} (hp : NoSpace p) {l : Str} (hl : ∀ c ∈ l, isSpace c = true)

include hp hl

theorem cut_mark_spaces (current : Str) (quote : Option Char) (s : Str) :
    cut current (mark p quote (l ++ s)) (l ++ s) = cut (current ++ l) (mark p quote s) s := by
  induction l generalizing current with
  | nil => rw [List.nil_append, List.append_nil]
  | cons c l ih =>
    have hc := hl c (by simp)
    rw [List.cons_append, mark, hp c hc, isQuoteChar_noSpace c hc, Bool.false_and, if_neg Bool.false_ne_true, cut,
      ih fun d hd => hl d (by simp [hd])]
    rw [List.append_assoc]
    rfl

theorem commands_cut_append_right (current : Str) (quote : Option Char) (s : Str) :
    commands (cut current (mark p quote (s ++ l)) (s ++ l)) = commands (cut current (mark p quote s) s) := by
  induction s generalizing current quote with
  | nil =>
    have h := cut_mark_spaces hp hl current quote []
    rw [List.append_nil] at h
    rw [List.nil_append, h, cut_nil, cut_nil, commands_cons, commands_cons, strip_append_right hl]
  | cons c s ih =>
    rw [List.cons_append, mark, mark]
    cases p c && quote.isNone with
    | true => rw [cut, cut, commands_cons, commands_cons, ih]
    | false => rw [cut, cut, ih]

end Spaces

theorem commands_cut_strip {p : Char → Bool} (hp : NoSpace p) (s : Str) :
    commands (cut [] (mark p none (strip s)) (strip s)) = commands (cut [] (mark p none s) s) := by
  obtain ⟨l, r, hs, hl, hr⟩ := exists_strip_eq s
  conv_rhs => rw [hs, List.append_assoc, cut_mark_spaces hp hl, List.nil_append, ← List.append_nil l,
    commands_cut_append_left hl, commands_cut_append_right hp hr]

/-! ### The separators of a line -/

private theorem bar_noSpace : NoSpace (· = '|') := by
  intro c hc
  simp only [decide_eq_false_iff_not]
  rintro rfl
  exact absurd hc (by decide)

private theorem filter_splitIgnoreQuotes_strip (token : Str) : (splitIgnoreQuotes (strip token) '|').filter (· ≠ []) =
    commands (cut [] (delimiters '|' none token) token) := by
  rw [splitIgnoreQuotes, filter_splitIgnoreQuotesFrom, delimiters_eq_mark (by decide), delimiters_eq_mark (by decide),
    commands_cut_strip bar_noSpace]

theorem length_delimiters (delimiter : Char) (quote : Option Char) (s : Str) :
    (delimiters delimiter quote s).length = s.length := by
  induction s generalizing quote with
  | nil => rfl
  | cons c s ih =>
    rw [delimiters]
    split_ifs <;> simp [ih]

private theorem filter_flatMap_parseChainFrom (quote : Option Char) (token cs : Str) :
    ((((parseChainFrom quote token cs).map Prod.fst).filter (· ≠ [])).flatMap (splitIgnoreQuotes · '|')).filter
      (· ≠ []) = commands (cut [] (separatorsFrom quote token cs) (token ++ cs)) := by
  have hcons : ∀ (token : Str) (tokens : List Str),
      (((strip token :: tokens).filter (· ≠ [])).flatMap (splitIgnoreQuotes · '|')).filter (· ≠ []) =
        commands (cut [] (delimiters '|' none token) token) ++
          ((tokens.filter (· ≠ [])).flatMap (splitIgnoreQuotes · '|')).filter (· ≠ []) := by
    intro token tokens
    rw [← filter_splitIgnoreQuotes_strip, List.filter_cons]
    split_ifs with h
    · rw [List.flatMap_cons, List.filter_append]
    · have hnil : strip token = [] := by simpa using h
      rw [hnil]
      rfl
  induction quote, token, cs using parseChainFrom.induct with
  | case1 quote token h =>
    have hlast := hcons token []
    rw [h] at hlast
    rw [parseChainFrom, if_pos h, separatorsFrom, List.append_nil]
    simpa using hlast
  | case2 quote token h =>
    have hlast := hcons token []
    rw [parseChainFrom, if_neg h, separatorsFrom, List.append_nil]
    simpa using hlast
  | case3 token cs ih =>
    rw [parseChainFrom, separatorsFrom, List.map_cons, hcons, ih, cut_append_true _ (length_delimiters _ _ _), cut,
      commands_append, commands_nil_cons]
    rfl
  | case4 token cs ih =>
    rw [parseChainFrom, separatorsFrom, List.map_cons, hcons, ih, cut_append_true _ (length_delimiters _ _ _), cut,
      commands_append, commands_nil_cons]
    rfl
  | case5 token cs ih =>
    rw [parseChainFrom, separatorsFrom, List.map_cons, hcons, ih, cut_append_true _ (length_delimiters _ _ _),
      commands_append]
    rfl
  | case6 token cs h ih =>
    rw [parseChainFrom.eq_5 _ _ h, separatorsFrom.eq_5 _ _ h, List.map_cons, hcons, ih,
      cut_append_true _ (length_delimiters _ _ _), commands_append]
    rfl
  | case7 quote token c cs h1 h2 h3 h4 ih =>
    rw [parseChainFrom.eq_6 _ _ _ _ h1 h2 h3 h4, separatorsFrom.eq_6 _ _ _ _ h1 h2 h3 h4, ih, List.append_assoc]
    rfl

/-- The pieces of a line are the commands between its separators, and empty ones. -/
theorem filter_segments (s : Str) : (segments s).filter (· ≠ []) = commands (cut [] (separators s) s) := by
  have h := filter_flatMap_parseChainFrom none [] s
  rw [← map_cmdLine_filterMap, List.flatMap_map, List.nil_append] at h
  exact h

private theorem separatorsFrom_eq_mark {quote : Option Char} {token : Str} (cs : Str)
    (hquote : quoteAfter none token = quote) (htoken : mark (· = '|') none token = mark isOperatorChar none token) :
    separatorsFrom quote token cs = mark isOperatorChar none (token ++ cs) := by
  have hdelimiters : ∀ token, delimiters '|' none token = mark (· = '|') none token := fun token =>
    delimiters_eq_mark (by decide) none token
  induction quote, token, cs using parseChainFrom.induct with
  | case1 quote token h => rw [separatorsFrom, hdelimiters, htoken, List.append_nil]
  | case2 quote token h => rw [separatorsFrom, hdelimiters, htoken, List.append_nil]
  | case3 token cs ih =>
    rw [separatorsFrom, hdelimiters, htoken, mark_append, hquote, ih rfl rfl]
    rfl
  | case4 token cs ih =>
    rw [separatorsFrom, hdelimiters, htoken, mark_append, hquote, ih rfl rfl]
    rfl
  | case5 token cs ih =>
    rw [separatorsFrom, hdelimiters, htoken, mark_append, hquote, ih rfl rfl]
    rfl
  | case6 token cs h ih =>
    rw [separatorsFrom.eq_5 _ _ h, hdelimiters, htoken, mark_append, hquote, ih rfl rfl]
    rfl
  | case7 quote token c cs h1 h2 h3 h4 ih =>
    rw [separatorsFrom.eq_6 _ _ _ _ h1 h2 h3 h4, ih, List.append_assoc, List.singleton_append]
    · rw [quoteAfter, List.foldl_append]
      show (if isQuoteChar c then updateQuoteState c (quoteAfter none token) else quoteAfter none token) = _
      rw [hquote]
    · rw [mark_append, mark_append, htoken, hquote]
      -- outside of quotes the token gets no other operator character than a bar
      have hbit : (decide (c = '|') && quote.isNone) = (isOperatorChar c && quote.isNone) := by
        cases quote with
        | none =>
          have h3' : c ≠ ';' := h3 rfl
          have h4' : c ≠ '&' := h4 rfl
          simp [isOperatorChar, h3', h4']
        | some q => simp
      simp only [mark, hbit]

/-- A line is cut at the operator characters outside of the quotes that the scanners see. -/
theorem separators_eq_mark (s : Str) : separators s = mark isOperatorChar none s :=
  separatorsFrom_eq_mark s rfl rfl

theorem length_operators (quote : Option Char) (s : Str) : (operators quote s).length = s.length := by
  induction quote, s using operators.induct with
  | case1 => rfl
  | case2 cs ih => simp [operators, ih]
  | case3 cs ih => simp [operators, ih]
  | case4 cs ih => simp [operators, ih]
  | case5 cs h ih => rw [operators.eq_5 _ h]; simp [ih]
  | case6 quote c cs h1 h2 h3 h4 ih => rw [operators.eq_6 _ _ _ h1 h2 h3 h4]; simp [ih]

/-- The operators of the chain are separators. -/
theorem mark_of_operators {quote : Option Char} {s : Str} {i : ℕ} (h : (operators quote s)[i]? = some true) :
    (mark isOperatorChar quote s)[i]? = some true := by
  induction quote, s using operators.induct generalizing i with
  | case1 => simp [operators] at h
  | case2 cs ih =>
    match i with
    | 0 | 1 => rfl
    | i + 2 => exact ih h
  | case3 cs ih =>
    match i with
    | 0 | 1 => rfl
    | i + 2 => exact ih h
  | case4 cs ih =>
    match i with
    | 0 => rfl
    | i + 1 => exact ih h
  | case5 cs hne ih =>
    rw [operators.eq_5 _ hne] at h
    match i with
    | 0 => rfl
    | i + 1 => exact ih h
  | case6 quote c cs h1 h2 h3 h4 ih =>
    rw [operators.eq_6 _ _ _ h1 h2 h3 h4] at h
    match i with
    | 0 => cases h
    | i + 1 => exact ih h

/-! ### Pieces and the lexer -/

/-- The line with letters for its backslashes. -/
def unescape (s : Str) : Str := s.map fun c => if c = '\\' then '_' else c

/-- A blank is escaped at the end of the text. -/
def EscapedEnd (s : Str) : Prop :=
  ∃ a w, s = a ++ '\\' :: w ∧ IsPlain a ∧ w ≠ [] ∧ ∀ c ∈ w, isSpace c = true

/-- A blank is escaped in front of an operator character or the end, but for white space. -/
def EscapedBlank (s : Str) : Prop :=
  ∃ a w b, s = a ++ '\\' :: w ++ b ∧ IsPlain a ∧ w ≠ [] ∧ (∀ c ∈ w, isSpace c = true) ∧
    ∀ c ∈ b.head?, isOperatorChar c = true

/-- The quote that the scanners have open, for the lexer. -/
def ofQuote (quote : Option Char) : Quoting := quote.elim .plain .quoted

private theorem next_ofQuote {quote : Option Char} (hquote : ∀ q ∈ quote, isQuoteChar q = true) (c : Char) :
    (ofQuote quote).next (if c = '\\' then '_' else c) =
      ofQuote (if isQuoteChar c then updateQuoteState c quote else quote) := by
  have hletter : isQuote '_' = false ∧ isQuoteChar '\\' = false := ⟨by decide, by decide⟩
  by_cases hslash : c = '\\'
  · subst hslash
    cases quote with
    | none => simp [ofQuote, Quoting.next, hletter]
    | some q =>
      have hq : '_' ≠ q := by
        rintro rfl
        exact absurd (hquote '_' rfl) (by decide)
      simp [ofQuote, Quoting.next, hletter, hq]
  · rw [if_neg hslash]
    by_cases hc : isQuoteChar c = true
    · rw [if_pos hc]
      have hc' : isQuote c = true := hc
      cases quote with
      | none => simp [ofQuote, Quoting.next, hc', updateQuoteState]
      | some q =>
        by_cases heq : c = q
        · simp [ofQuote, Quoting.next, updateQuoteState, heq]
        · simp [ofQuote, Quoting.next, updateQuoteState, heq, hslash]
    · rw [if_neg hc]
      have hc' : isQuote c = false := Bool.not_eq_true _ ▸ hc
      cases quote with
      | none => simp [ofQuote, Quoting.next, hc', hslash]
      | some q =>
        have hq : c ≠ q := by
          rintro rfl
          exact hc (hquote c rfl)
        simp [ofQuote, Quoting.next, hslash, hq]

/-- The lexer has open what the scanners have, where there are no backslashes. -/
theorem quotingAfter_unescape {quote : Option Char} (hquote : ∀ q ∈ quote, isQuoteChar q = true) (s : Str) :
    quotingAfter (ofQuote quote) (unescape s) = ofQuote (quoteAfter quote s) := by
  induction s generalizing quote with
  | nil => rfl
  | cons c s ih =>
    have hvalid : ∀ q ∈ (if isQuoteChar c then updateQuoteState c quote else quote), isQuoteChar q = true := by
      split_ifs with hc
      · cases quote with
        | none =>
          rintro q ⟨⟩
          exact hc
        | some q' =>
          intro q hq
          rw [updateQuoteState] at hq
          split_ifs at hq
          · cases hq
          · exact hquote q hq
      · exact hquote
    rw [unescape, List.map_cons, quotingAfter_cons, next_ofQuote hquote]
    exact ih hvalid

theorem isPlain_unescape (s : Str) : IsPlain (unescape s) ↔ quoteAfter none s = none := by
  have h : quotingAfter (ofQuote none) (unescape s) = ofQuote (quoteAfter none s) := quotingAfter_unescape (by simp) s
  rw [IsPlain, show Quoting.plain = ofQuote none from rfl, h]
  cases quoteAfter none s <;> simp [ofQuote]

theorem isSpace_next {c : Char} (hc : isSpace c = true) : isQuote c = false ∧ c ≠ '\\' := by
  refine ⟨isQuoteChar_noSpace c hc, ?_⟩
  rintro rfl
  exact absurd hc (by decide)

theorem isPlain_spaces {w : Str} (hw : ∀ c ∈ w, isSpace c = true) : IsPlain w := by
  induction w with
  | nil => rfl
  | cons c w ih =>
    obtain ⟨hq, hslash⟩ := isSpace_next (hw c (by simp))
    have hw' := ih fun d hd => hw d (by simp [hd])
    have hnext : Quoting.plain.next c = .plain := by simp [Quoting.next, hq, hslash]
    rw [IsPlain, quotingAfter_cons, hnext]
    exact hw'

/-- White space closes only a backslash outside of quotes. -/
theorem plain_of_spaces {x : Quoting} (hx : x.Valid) {w : Str} (hw : ∀ c ∈ w, isSpace c = true)
    (h : quotingAfter x w = .plain) : x = .plain ∨ x = .escaped none := by
  induction w generalizing x with
  | nil => exact .inl h
  | cons c w ih =>
    obtain ⟨hq, hslash⟩ := isSpace_next (hw c (by simp))
    rw [quotingAfter_cons] at h
    have hw' : ∀ d ∈ w, isSpace d = true := fun d hd => hw d (by simp [hd])
    cases x with
    | plain => exact .inl rfl
    | quoted q =>
      have hc : c ≠ q := by
        rintro rfl
        rw [show isQuote c = true from hx] at hq
        cases hq
      have hnext : (Quoting.quoted q).next c = .quoted q := by simp [Quoting.next, hc, hslash]
      rw [hnext] at h
      rcases ih hx hw' h with h | h <;> cases h
    | escaped back =>
      cases back with
      | none => exact .inr rfl
      | some q =>
        have hvalid : (Quoting.quoted q).Valid := by
          rw [show q = '"' from hx]
          rfl
        rcases ih hvalid hw' h with h | h <;> cases h

/-- A closed text is balanced when it is stripped, unless a blank at its end is escaped. -/
theorem balanced_strip_iff {s : Str} (hs : IsPlain s) : Balanced (strip s) ↔ ¬EscapedEnd s := by
  rw [balanced_iff]
  constructor
  · rintro hstrip ⟨a, w, rfl, ha, -, hw⟩
    -- the backslash is the last character of the stripped text
    rw [List.append_cons, strip_append_right hw] at hstrip
    obtain ⟨l, r, hshape, hl, hr⟩ := exists_strip_eq (a ++ ['\\'])
    have hnil : r = [] := by
      by_contra hne
      have hlast := congrArg List.getLast? hshape
      rw [List.getLast?_append_of_ne_nil _ hne, List.getLast?_concat, List.getLast?_eq_some_getLast hne] at hlast
      have hmem := hr _ (List.getLast_mem hne)
      rw [← Option.some_inj.1 hlast] at hmem
      exact absurd hmem (by decide)
    have hplain : IsPlain (a ++ ['\\']) := by
      rw [hshape, hnil, List.append_nil, (isPlain_spaces hl).append_iff]
      exact hstrip
    exact absurd ((ha.append_iff _).1 hplain) (by decide)
  · intro hend
    obtain ⟨l, r, hshape, hl, hr⟩ := exists_strip_eq s
    have hrest : quotingAfter (quotingAfter .plain (strip s)) r = .plain := by
      rw [hshape, List.append_assoc, (isPlain_spaces hl).append_iff] at hs
      rwa [← quotingAfter_append]
    rcases plain_of_spaces (valid_quotingAfter _) hr hrest with h | h
    · exact h
    · obtain ⟨a, ha, hplain⟩ := exists_of_escaped h
      rw [h] at hrest
      refine absurd ⟨l ++ a, r, ?_, ((isPlain_spaces hl).append_iff a).2 hplain, ?_, hr⟩ hend
      · conv_lhs => rw [hshape, ha]
        simp
      · rintro rfl
        cases hrest

/-- The marks of a text are at operator characters where nothing is open. -/
def MarksPlain (current : Str) (marks : List Bool) (s : Str) : Prop :=
  ∀ i, marks[i]? = some true → ∃ c, s[i]? = some c ∧ isOperatorChar c = true ∧ IsPlain (current ++ s.take i)

/-- All such characters are marked. -/
def MarksAll (current : Str) (marks : List Bool) (s : Str) : Prop :=
  ∀ i c, s[i]? = some c → isOperatorChar c = true → IsPlain (current ++ s.take i) → marks[i]? = some true

theorem isPlain_operator {c : Char} (hc : isOperatorChar c = true) : IsPlain [c] := by
  simp only [isOperatorChar, Bool.or_eq_true, decide_eq_true_eq] at hc
  rcases hc with (rfl | rfl) | rfl <;> decide

section Step

variable {current : Str} {bit : Bool} {marks : List Bool} {c : Char} {s : Str}

theorem MarksPlain.tail (h : MarksPlain current (bit :: marks) (c :: s)) : MarksPlain (current ++ [c]) marks s := by
  intro i hi
  obtain ⟨d, hd, hop, hplain⟩ := h (i + 1) hi
  exact ⟨d, hd, hop, by simpa using hplain⟩

theorem MarksAll.tail (h : MarksAll current (bit :: marks) (c :: s)) : MarksAll (current ++ [c]) marks s := by
  intro i d hd hop hplain
  exact h (i + 1) d hd hop (by simpa using hplain)

/-- The lexer starts over behind an operator. -/
theorem MarksPlain.restart (hplain : IsPlain (current ++ [c])) (h : MarksPlain (current ++ [c]) marks s) :
    MarksPlain [] marks s := by
  intro i hi
  obtain ⟨d, hd, hop, hd'⟩ := h i hi
  exact ⟨d, hd, hop, (hplain.append_iff _).1 hd'⟩

theorem MarksAll.restart (hplain : IsPlain (current ++ [c])) (h : MarksAll (current ++ [c]) marks s) :
    MarksAll [] marks s := by
  intro i d hd hop hd'
  exact h i d hd hop ((hplain.append_iff _).2 hd')

end Step

/-- Without escaped blanks at their ends the pieces of a balanced line are balanced. -/
theorem balanced_of_mem_cut {current : Str} {marks : List Bool} {s : Str} (hlen : marks.length = s.length)
    (hmarks : MarksPlain current marks s) (hplain : IsPlain (current ++ s)) (hblank : ¬EscapedBlank (current ++ s)) :
    ∀ piece ∈ cut current marks s, Balanced (strip piece) := by
  -- a blank at the end of the current piece is one of the line
  have hcurrent : (∀ c ∈ s.head?, isOperatorChar c = true) → ¬EscapedEnd current := by
    rintro hhead ⟨a, w, rfl, ha, hne, hw⟩
    exact hblank ⟨a, w, s, rfl, ha, hne, hw, hhead⟩
  induction s generalizing current marks with
  | nil =>
    rw [List.append_nil] at hplain
    rw [cut_nil, List.forall_mem_singleton]
    exact (balanced_strip_iff hplain).2 (hcurrent (by simp))
  | cons c s ih =>
    cases marks with
    | nil => cases hlen
    | cons bit marks =>
      have hlen' : marks.length = s.length := Nat.succ_injective hlen
      have hshape : current ++ c :: s = current ++ [c] ++ s := List.append_cons _ _ _
      cases bit with
      | true =>
        obtain ⟨d, hd, hop, hcur⟩ := hmarks 0 rfl
        obtain rfl : c = d := by simpa using hd
        rw [List.take_zero, List.append_nil] at hcur
        have hcut : IsPlain (current ++ [c]) := (hcur.append_iff _).2 (isPlain_operator hop)
        rw [cut, List.forall_mem_cons]
        refine ⟨(balanced_strip_iff hcur).2 (hcurrent (by simpa using hop)), ?_⟩
        have hrest : ¬EscapedBlank s := by
          rintro ⟨a, w, b, rfl, ha, htail⟩
          exact hblank ⟨current ++ [c] ++ a, w, b, by simp, (hcut.append_iff a).2 ha, htail⟩
        refine ih hlen' (hmarks.tail.restart hcut) ?_ hrest ?_
        · rwa [hshape, hcut.append_iff] at hplain
        · rintro - ⟨a, w, h, -⟩
          simp at h
      | false =>
        rw [cut]
        rw [hshape] at hplain hblank
        refine ih hlen' hmarks.tail hplain hblank ?_
        rintro hhead ⟨a, w, h, ha, hne, hw⟩
        exact hblank ⟨a, w, s, by rw [h], ha, hne, hw, hhead⟩

/-- Neither a backslash nor white space is an operator character. -/
private theorem not_isOperatorChar {c : Char} (hc : c = '\\' ∨ isSpace c = true) : isOperatorChar c = false := by
  by_contra hop
  simp only [isOperatorChar, Bool.not_eq_false, Bool.or_eq_true, decide_eq_true_eq] at hop
  rcases hop with (rfl | rfl) | rfl <;> revert hc <;> decide

/-- An operator character in front of the end of an escaped blank is in front of its backslash. -/
private theorem exists_of_operator {current a w b s : Str} {c : Char} (hshape : current ++ c :: s = a ++ '\\' :: w ++ b)
    (hlt : current.length < (a ++ '\\' :: w).length) (hw : ∀ c ∈ w, isSpace c = true) (hop : isOperatorChar c = true) :
    ∃ a', a = current ++ c :: a' ∧ s = a' ++ '\\' :: w ++ b := by
  rw [List.append_assoc] at hshape
  rcases List.append_eq_append_iff.1 hshape with ⟨a', ha, hs⟩ | ⟨c', hcurrent, hs⟩
  · cases a' with
    | nil =>
      rw [not_isOperatorChar (.inl (List.cons.inj hs).1)] at hop
      cases hop
    | cons d a' =>
      obtain ⟨rfl, htail⟩ := List.cons.inj hs
      exact ⟨a', ha, htail.trans (List.append_assoc _ _ _).symm⟩
  · -- the character is the backslash or in the white space
    exfalso
    rw [hcurrent] at hlt
    have hlen : c'.length < ('\\' :: w).length := by simpa using hlt
    have hget := congrArg (·[c'.length]?) hs
    simp only [List.getElem?_append_left hlen, List.getElem?_append_right le_rfl, Nat.sub_self,
      List.getElem?_cons_zero] at hget
    have hmem := List.mem_of_getElem? hget
    have hc : c = '\\' ∨ isSpace c = true := by
      rcases List.mem_cons.1 hmem with h | h
      · exact .inl h
      · exact .inr (hw c h)
    rw [not_isOperatorChar hc] at hop
    cases hop

/-- An escaped blank at its end makes a piece unbalanced. -/
theorem exists_mem_cut_not_balanced {current : Str} {marks : List Bool} {s : Str} (hlen : marks.length = s.length)
    (hmarks : MarksPlain current marks s) (hall : MarksAll current marks s) {a w b : Str}
    (hshape : current ++ s = a ++ '\\' :: w ++ b) (hle : current.length ≤ (a ++ '\\' :: w).length)
    (ha : IsPlain a) (hne : w ≠ []) (hw : ∀ c ∈ w, isSpace c = true) (hb : ∀ c ∈ b.head?, isOperatorChar c = true) :
    ∃ piece ∈ cut current marks s, ¬Balanced (strip piece) := by
  have hpiece : ∀ {current a : Str}, IsPlain a → current = a ++ '\\' :: w →
      IsPlain current ∧ ¬Balanced (strip current) := by
    rintro current a ha rfl
    -- the backslash takes the first blank
    have hthrough : IsPlain (a ++ '\\' :: w) := by
      rw [ha.append_iff]
      obtain ⟨c, w, rfl⟩ := List.exists_cons_of_ne_nil hne
      have hspaces : IsPlain w := isPlain_spaces fun d hd => hw d (List.mem_cons_of_mem c hd)
      exact hspaces
    exact ⟨hthrough, fun hbal => (balanced_strip_iff hthrough).1 hbal ⟨a, w, rfl, ha, hne, hw⟩⟩
  induction s generalizing current marks a with
  | nil =>
    have hcurrent : current = a ++ '\\' :: w := by
      rw [List.append_nil] at hshape
      rw [hshape, List.length_append] at hle
      have hnil : b = [] := List.length_eq_zero_iff.1 (by omega)
      rw [hshape, hnil, List.append_nil]
    rw [cut_nil]
    exact ⟨current, by simp, (hpiece ha hcurrent).2⟩
  | cons c s ih =>
    cases marks with
    | nil => cases hlen
    | cons bit marks =>
      have hlen' : marks.length = s.length := Nat.succ_injective hlen
      by_cases hcurrent : current = a ++ '\\' :: w
      · have hcs : c :: s = b := List.append_cancel_left (hcurrent ▸ hshape)
        obtain ⟨hplain, hbal⟩ := hpiece ha hcurrent
        have hop : isOperatorChar c = true := hb c (by simp [← hcs])
        have hbit : bit = true := by simpa using hall 0 c rfl hop (by simpa using hplain)
        rw [hbit, cut]
        exact ⟨current, by simp, hbal⟩
      · have hlt : current.length < (a ++ '\\' :: w).length := by
          refine lt_of_le_of_ne hle fun heq => hcurrent ?_
          exact (List.append_inj hshape heq).1
        cases bit with
        | true =>
          obtain ⟨d, hd, hop, hcur⟩ := hmarks 0 rfl
          obtain rfl : c = d := by simpa using hd
          rw [List.take_zero, List.append_nil] at hcur
          have hcut : IsPlain (current ++ [c]) := (hcur.append_iff _).2 (isPlain_operator hop)
          obtain ⟨a', rfl, hs⟩ := exists_of_operator hshape hlt hw hop
          rw [List.append_cons, hcut.append_iff] at ha
          have hrest : ∃ piece ∈ cut [] marks s, ¬Balanced (strip piece) :=
            ih hlen' (hmarks.tail.restart hcut) (hall.tail.restart hcut) hs (Nat.zero_le _) ha
          obtain ⟨piece, hmem, hbal⟩ := hrest
          exact ⟨piece, List.mem_cons_of_mem _ hmem, hbal⟩
        | false =>
          refine ih hlen' hmarks.tail hall.tail ((List.append_cons current c s).symm.trans hshape) ?_ ha
          rw [List.length_append, List.length_singleton]
          exact hlt

/-! ### Agreement -/

/-- The scanners cut where the lexer would just when the backslashes of the line do not matter to the lexer at an
operator character, and no blank is escaped at the end of a piece if the line is balanced. -/
theorem quotingAgrees_iff (s : Str) :
    QuotingAgrees s ↔
      (∀ i c, s[i]? = some c → isOperatorChar c → (IsPlain (s.take i) ↔ IsPlain (unescape (s.take i)))) ∧
        (Balanced s → ¬EscapedBlank s) := by
  have hseparators : ∀ i c, s[i]? = some c → isOperatorChar c = true →
      ((separators s)[i]? = some true ↔ IsPlain (unescape (s.take i))) := by
    intro i c hc hop
    rw [separators_eq_mark, getElem?_mark, isPlain_unescape]
    simp [hc, hop]
  have hlen : (separators s).length = s.length := by
    rw [separators_eq_mark, length_mark]
  have hmarks : (∀ i c, s[i]? = some c → isOperatorChar c → ((separators s)[i]? = some true ↔ IsPlain (s.take i))) →
      MarksPlain [] (separators s) s := by
    intro h i hi
    obtain ⟨c, hc, hop, -⟩ := (getElem?_mark _ _ _ _).1 (separators_eq_mark s ▸ hi)
    exact ⟨c, hc, hop, (h i c hc hop).1 hi⟩
  constructor
  · rintro ⟨hagrees, hpieces⟩
    refine ⟨fun i c hc hop => (hagrees i c hc hop).symm.trans (hseparators i c hc hop), ?_⟩
    rintro hbal ⟨a, w, b, hshape, ha, hne, hw, hb⟩
    obtain ⟨piece, hmem, hpiece⟩ := exists_mem_cut_not_balanced hlen (hmarks hagrees)
      (fun i c hc hop hplain => (hagrees i c hc hop).2 hplain) hshape (Nat.zero_le _) ha hne hw hb
    have hcommand : strip piece ∈ (segments s).filter (· ≠ []) := by
      rw [filter_segments, commands, List.mem_filter]
      refine ⟨List.mem_map_of_mem hmem, decide_eq_true fun hnil => hpiece ?_⟩
      rw [hnil]
      decide
    exact hpiece ((hpieces hbal).2 _ (List.mem_of_mem_filter hcommand))
  · rintro ⟨hescapes, hblank⟩
    have hagrees := fun i c hc hop => (hseparators i c hc hop).trans (hescapes i c hc hop).symm
    refine ⟨hagrees, fun hbal => ?_⟩
    have hplain : IsPlain ([] ++ s) := (balanced_iff s).1 hbal
    -- the nodes are cut at some of the separators
    have hcommands : ∀ {marks : List Bool}, marks.length = s.length → MarksPlain [] marks s →
        ∀ x ∈ commands (cut [] marks s), Balanced x := by
      intro marks hlen hmarks x hx
      obtain ⟨piece, hmem, rfl⟩ := List.mem_map.1 (List.mem_of_mem_filter hx)
      exact balanced_of_mem_cut hlen hmarks hplain (hblank hbal) piece hmem
    constructor
    · intro node hnode
      have hmem := List.mem_map_of_mem (f := (·.cmdLine)) hnode
      rw [map_cmdLine_parseChain] at hmem
      refine hcommands (length_operators none s) (fun i hi => hmarks hagrees i ?_) _ hmem
      rw [separators_eq_mark]
      exact mark_of_operators hi
    · intro x hx
      by_cases hnil : x = []
      · rw [hnil]
        decide
      · refine hcommands hlen (hmarks hagrees) x ?_
        rw [← filter_segments]
        exact List.mem_filter.2 ⟨hx, decide_eq_true hnil⟩

/-- A line with an escaped quotation mark in double quotes, and a semicolon behind it. -/
def escapedQuotation : Str := "echo \"a\\\";b\"".toList

/-- The semicolon is quoted, and the line is cut there into pieces with open quotes. -/
theorem not_quotingAgrees_quotation :
    Balanced escapedQuotation ∧ segments escapedQuotation = ["echo \"a\\\"".toList, "b\"".toList] ∧
      ¬Balanced "b\"".toList ∧ ¬QuotingAgrees escapedQuotation := by
  refine ⟨by decide, by decide +kernel, by decide, fun h => ?_⟩
  have hcut := (h.1 9 ';' (by decide) (by decide)).1 (by decide +kernel)
  exact absurd hcut (by decide)

end Cyanide
