import Mathlib.Data.List.Basic
import Mathlib.Data.List.Induction

/-!
# The POSIX shell lexer

`split` cuts a text into words the way Python's `shlex.split` does in POSIX mode: blanks separate words, single quotes
keep everything, double quotes keep everything but the backslash before `"` and `\`, and a backslash outside of quotes
keeps the next character.  `quote` and `join` are its inverse: `split_join` reads back the words that were joined,
whatever characters they contain.
-/

namespace Shlex

/-- What `split` raises. -/
inductive LexError where
  | noClosingQuotation
  | noEscapedCharacter
  deriving DecidableEq

/-- Where the lexer stands: between words, in a word, behind an opening quote, or behind a backslash that was seen in
a word (`none`) or inside a quote. -/
inductive Mode where
  | blank
  | word
  | quoted (q : Char)
  | escaped (back : Option Char)
  deriving DecidableEq

def isBlank (c : Char) : Bool := c = ' ' || c = '\t' || c = '\r' || c = '\n'

def isQuote (c : Char) : Bool := c = '\'' || c = '"'

/-- The words of the rest of the text, from a mode and the characters of the current word. -/
def scan : Mode → List Char → List Char → Except LexError (List (List Char))
  | .blank, _, [] => .ok []
  | .blank, _, c :: cs =>
    if isBlank c then scan .blank [] cs
    else if c = '\\' then scan (.escaped none) [] cs
    else if isQuote c then scan (.quoted c) [] cs
    else scan .word [c] cs
  | .word, token, [] => .ok [token]
  | .word, token, c :: cs =>
    if isBlank c then do return token :: (← scan .blank [] cs)
    else if isQuote c then scan (.quoted c) token cs
    else if c = '\\' then scan (.escaped none) token cs
    else scan .word (token ++ [c]) cs
  | .quoted _, _, [] => .error .noClosingQuotation
  | .quoted q, token, c :: cs =>
    if c = q then scan .word token cs
    else if c = '\\' ∧ q = '"' then scan (.escaped (some q)) token cs
    else scan (.quoted q) (token ++ [c]) cs
  | .escaped _, _, [] => .error .noEscapedCharacter
  | .escaped none, token, c :: cs => scan .word (token ++ [c]) cs
  | .escaped (some q), token, c :: cs =>
    if c ≠ '\\' ∧ c ≠ q then scan (.quoted q) (token ++ ['\\', c]) cs
    else scan (.quoted q) (token ++ [c]) cs

def split (s : List Char) : Except LexError (List (List Char)) := scan .blank [] s

/-- Characters that need no quoting. -/
def isSafe (c : Char) : Bool := c.isAlphanum || c ∈ "_@%+=:,./-".toList

/-- The text between the quotes of a quoted word: a single quote is closed, quoted by double quotes and opened again. -/
def quoteBody (s : List Char) : List Char := s.flatMap fun c => if c = '\'' then "'\"'\"'".toList else [c]

def quote (s : List Char) : List Char :=
  if s = [] then "''".toList else if s.all isSafe then s else '\'' :: quoteBody s ++ ['\'']

def join (words : List (List Char)) : List Char := List.intercalate [' '] (words.map quote)

/-- The text has no open quotation and no backslash at its end. -/
def Balanced (s : List Char) : Prop := ∃ words, split s = .ok words

instance (s : List Char) : Decidable (Balanced s) :=
  match h : split s with
  | .ok words => isTrue ⟨words, h⟩
  | .error _ => isFalse fun ⟨_, hw⟩ => by rw [h] at hw; cases hw

/-! ### Words that were quoted -/

theorem isSafe_plain {c : Char} (h : isSafe c = true) : isBlank c = false ∧ isQuote c = false ∧ c ≠ '\\' := by
  have hne : ∀ d : Char, isSafe d = false → c ≠ d := by
    rintro d hd rfl
    rw [h] at hd
    contradiction
  have hblank : isBlank c = false := by
    simp only [isBlank, Bool.or_eq_false_iff, decide_eq_false_iff_not]
    exact ⟨⟨⟨hne _ (by decide), hne _ (by decide)⟩, hne _ (by decide)⟩, hne _ (by decide)⟩
  have hquote : isQuote c = false := by
    simp only [isQuote, Bool.or_eq_false_iff, decide_eq_false_iff_not]
    exact ⟨hne _ (by decide), hne _ (by decide)⟩
  exact ⟨hblank, hquote, hne _ (by decide)⟩

theorem scan_word_safe (s token rest : List Char) (h : ∀ c ∈ s, isSafe c = true) :
    scan .word token (s ++ rest) = scan .word (token ++ s) rest := by
  induction s generalizing token with
  | nil => simp
  | cons c s ih =>
    obtain ⟨hblank, hquote, hslash⟩ := isSafe_plain (h c (by simp))
    have hrest := ih (token ++ [c]) fun d hd => h d (by simp [hd])
    rw [List.cons_append, scan, hblank, hquote]
    simpa [hslash] using hrest

theorem scan_quoted_end (q : Char) (token rest : List Char) :
    scan (.quoted q) token (q :: rest) = scan .word token rest := by
  rw [scan, if_pos rfl]

theorem scan_quoted_other {q c : Char} (hc : c ≠ q) (hslash : ¬(c = '\\' ∧ q = '"')) (token rest : List Char) :
    scan (.quoted q) token (c :: rest) = scan (.quoted q) (token ++ [c]) rest := by
  rw [scan, if_neg hc, if_neg hslash]

/-- The text that stands for a single quote inside a body. -/
theorem scan_quoted_quote (token rest : List Char) :
    scan (.quoted '\'') token ("'\"'\"'".toList ++ rest) = scan (.quoted '\'') (token ++ ['\'']) rest := by
  have hdouble : scan (.quoted '"') token ('\'' :: '"' :: '\'' :: rest) =
      scan .word (token ++ ['\'']) ('\'' :: rest) := by
    rw [scan_quoted_other (by decide) (by decide), scan_quoted_end]
  have hopen : ∀ (t : List Char) (q : Char) (cs : List Char), isBlank q = false → isQuote q = true →
      scan .word t (q :: cs) = scan (.quoted q) t cs := by
    intro t q cs hblank hquote
    rw [scan, hblank, hquote, if_neg Bool.false_ne_true, if_pos rfl]
  show scan (.quoted '\'') token ('\'' :: '"' :: '\'' :: '"' :: '\'' :: rest) = _
  rw [scan_quoted_end, hopen _ _ _ (by decide) (by decide), hdouble, hopen _ _ _ (by decide) (by decide)]

theorem scan_quoteBody (s token rest : List Char) :
    scan (.quoted '\'') token (quoteBody s ++ '\'' :: rest) = scan .word (token ++ s) rest := by
  induction s generalizing token with
  | nil => rw [quoteBody, List.flatMap_nil, List.nil_append, scan_quoted_end, List.append_nil]
  | cons c s ih =>
    have hrest := ih (token ++ [c])
    rw [List.append_assoc, List.singleton_append] at hrest
    by_cases hc : c = '\''
    · subst hc
      have hbody : quoteBody ('\'' :: s) = "'\"'\"'".toList ++ quoteBody s := by simp [quoteBody]
      rw [hbody, List.append_assoc, scan_quoted_quote, hrest]
    · have hbody : quoteBody (c :: s) = c :: quoteBody s := by simp [quoteBody, hc]
      have hslash : ¬(c = '\\' ∧ '\'' = '"') := fun h => absurd h.2 (by decide)
      rw [hbody, List.cons_append, scan_quoted_other hc hslash, hrest]

/-- A quoted word is read as one word, up to the next blank. -/
theorem scan_quote (s rest : List Char) : scan .blank [] (quote s ++ rest) = scan .word s rest := by
  unfold quote
  split_ifs with hnil hsafe
  · subst hnil
    simp [scan, isBlank, isQuote]
  · cases s with
    | nil => exact absurd rfl hnil
    | cons c s =>
      have hall : ∀ d ∈ c :: s, isSafe d = true := List.all_eq_true.1 hsafe
      obtain ⟨hblank, hquote, hslash⟩ := isSafe_plain (hall c (by simp))
      have hrest := scan_word_safe s [c] rest fun d hd => hall d (by simp [hd])
      rw [List.cons_append, scan, hblank, hquote]
      simpa [hslash] using hrest
  · have hbody := scan_quoteBody s [] rest
    simpa [scan, isBlank, isQuote] using hbody

theorem split_join (words : List (List Char)) : split (join words) = .ok words := by
  unfold split join
  induction words with
  | nil => rfl
  | cons w words ih =>
    cases words with
    | nil =>
      have hw := scan_quote w []
      simpa [scan] using hw
    | cons v words =>
      have hw := scan_quote w (' ' :: List.intercalate [' '] ((v :: words).map quote))
      rw [List.map_cons, List.map_cons, List.intercalate_cons_cons, ← List.map_cons, List.append_assoc,
        List.singleton_append, hw, scan, if_pos (by decide), ih]
      rfl

/-! ### The quoting behind a text -/

/-- What the lexer has open: nothing, a quote, or a backslash outside of quotes (`none`) or inside of one. -/
inductive Quoting where
  | plain
  | quoted (q : Char)
  | escaped (back : Option Char)
  deriving DecidableEq

namespace Quoting

def next : Quoting → Char → Quoting
  | plain, c => if isQuote c then quoted c else if c = '\\' then escaped none else plain
  | quoted q, c => if c = q then plain else if c = '\\' ∧ q = '"' then escaped (some q) else quoted q
  | escaped none, _ => plain
  | escaped (some q), _ => quoted q

end Quoting

def Mode.quoting : Mode → Quoting
  | blank | word => .plain
  | quoted q => .quoted q
  | escaped back => .escaped back

def quotingAfter (x : Quoting) (s : List Char) : Quoting := s.foldl Quoting.next x

/-- Behind the text the lexer is outside of quotes and has no backslash open. -/
def IsPlain (s : List Char) : Prop := quotingAfter .plain s = .plain

instance (s : List Char) : Decidable (IsPlain s) := inferInstanceAs (Decidable (_ = _))

@[simp] theorem quotingAfter_nil (x : Quoting) : quotingAfter x [] = x := rfl

@[simp] theorem quotingAfter_cons (x : Quoting) (c : Char) (s : List Char) :
    quotingAfter x (c :: s) = quotingAfter (x.next c) s := rfl

theorem quotingAfter_append (x : Quoting) (s t : List Char) :
    quotingAfter x (s ++ t) = quotingAfter (quotingAfter x s) t := List.foldl_append

/-- A text starts over where nothing is open. -/
theorem IsPlain.append_iff {s : List Char} (hs : IsPlain s) (t : List Char) : IsPlain (s ++ t) ↔ IsPlain t := by
  unfold IsPlain at hs ⊢
  rw [quotingAfter_append, hs]

theorem isBlank_not_quote {c : Char} (h : isBlank c = true) : isQuote c = false ∧ c ≠ '\\' := by
  simp only [isBlank, Bool.or_eq_true, decide_eq_true_eq] at h
  rcases h with ((rfl | rfl) | rfl) | rfl <;> decide

/-- The lexer succeeds just when nothing is open at the end. -/
theorem exists_scan_iff (m : Mode) (token s : List Char) :
    (∃ words, scan m token s = .ok words) ↔ quotingAfter m.quoting s = .plain := by
  induction s generalizing m token with
  | nil => cases m <;> simp [scan, Mode.quoting]
  | cons c s ih =>
    rw [quotingAfter_cons]
    cases m with
    | blank =>
      by_cases hb : isBlank c = true
      · obtain ⟨hq, hslash⟩ := isBlank_not_quote hb
        simpa [scan, hb, Mode.quoting, Quoting.next, hq, hslash] using ih .blank []
      · by_cases hslash : c = '\\'
        · subst hslash
          simpa [scan, Mode.quoting, Quoting.next, isBlank, isQuote] using ih (.escaped none) []
        · by_cases hq : isQuote c = true
          · simpa [scan, hb, hslash, hq, Mode.quoting, Quoting.next] using ih (.quoted c) []
          · simpa [scan, hb, hslash, hq, Mode.quoting, Quoting.next] using ih .word [c]
    | word =>
      by_cases hb : isBlank c = true
      · obtain ⟨hq, hslash⟩ := isBlank_not_quote hb
        have hrest := ih .blank []
        simp only [scan, hb, if_true, Mode.quoting, Quoting.next, hq, hslash, Bool.false_eq_true, if_false] at hrest ⊢
        rw [← hrest]
        cases scan .blank [] s <;> simp [bind, Except.bind, pure, Except.pure]
      · by_cases hq : isQuote c = true
        · simpa [scan, hb, hq, Mode.quoting, Quoting.next] using ih (.quoted c) token
        · by_cases hslash : c = '\\'
          · subst hslash
            simpa [scan, Mode.quoting, Quoting.next, isBlank, isQuote] using ih (.escaped none) token
          · simpa [scan, hb, hslash, hq, Mode.quoting, Quoting.next] using ih .word (token ++ [c])
    | quoted q =>
      by_cases hc : c = q
      · simpa [scan, hc, Mode.quoting, Quoting.next] using ih .word token
      · by_cases hslash : c = '\\' ∧ q = '"'
        · simpa [scan, hc, hslash, Mode.quoting, Quoting.next] using ih (.escaped (some q)) token
        · simpa [scan, hc, hslash, Mode.quoting, Quoting.next] using ih (.quoted q) (token ++ [c])
    | escaped back =>
      cases back with
      | none => simpa [scan, Mode.quoting, Quoting.next] using ih .word (token ++ [c])
      | some q =>
        by_cases hc : c ≠ '\\' ∧ c ≠ q
        · simpa [scan, hc, Mode.quoting, Quoting.next] using ih (.quoted q) (token ++ ['\\', c])
        · simpa [scan, hc, Mode.quoting, Quoting.next] using ih (.quoted q) (token ++ [c])

theorem balanced_iff (s : List Char) : Balanced s ↔ IsPlain s := exists_scan_iff .blank [] s

/-- Only quotation marks are ever open, and a backslash only inside double ones. -/
def Quoting.Valid : Quoting → Prop
  | plain | escaped none => True
  | quoted q => isQuote q = true
  | escaped (some q) => q = '"'

theorem valid_quotingAfter (s : List Char) : (quotingAfter .plain s).Valid := by
  induction s using List.reverseRecOn with
  | nil => trivial
  | append_singleton s c ih =>
    rw [quotingAfter_append, quotingAfter_cons, quotingAfter_nil]
    cases hx : quotingAfter .plain s with
    | plain =>
      simp only [Quoting.next]
      split_ifs with hq hslash
      · exact hq
      · trivial
      · trivial
    | quoted q =>
      rw [hx] at ih
      simp only [Quoting.next]
      split_ifs with hc hslash
      · trivial
      · exact hslash.2
      · exact ih
    | escaped back =>
      cases back with
      | none => trivial
      | some q =>
        rw [hx] at ih
        have hq : q = '"' := ih
        rw [hq]
        rfl

/-- A backslash that is open outside of quotes is the last character. -/
theorem exists_of_escaped {s : List Char} (h : quotingAfter .plain s = .escaped none) :
    ∃ a, s = a ++ ['\\'] ∧ IsPlain a := by
  induction s using List.reverseRecOn with
  | nil => cases h
  | append_singleton s c _ =>
    rw [quotingAfter_append, quotingAfter_cons, quotingAfter_nil] at h
    cases hx : quotingAfter .plain s with
    | plain =>
      rw [hx, Quoting.next] at h
      split_ifs at h with hq hslash
      exact ⟨s, by rw [hslash], hx⟩
    | quoted q =>
      rw [hx, Quoting.next] at h
      split_ifs at h
      cases h
    | escaped back =>
      rw [hx] at h
      cases back <;> cases h

example : split "echo 'a b' \"c\\\"d\" e\\ f".toList =
    .ok ["echo".toList, "a b".toList, "c\"d".toList, "e f".toList] := by decide

end Shlex
