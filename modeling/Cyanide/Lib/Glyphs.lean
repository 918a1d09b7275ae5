import Cyanide.Lib.Shlex

/-!
# Words with their quotation

`Shlex.split` gives the text of each word.  `glyphs` is the same lexer and keeps what was quoted, so that an operator can
be told from a word that is spelled like one.  `tokens` cuts the words at unquoted `>` and `>>`, and `redirects` reads
the redirections of a simple command.
-/

namespace Shlex

/-- A part of a word: a character as it is, one that is quoted, or a quotation mark that opens. -/
inductive Glyph where
  | bare (c : Char)
  | quoted (c : Char)
  | opening
  deriving DecidableEq

def Glyph.char : Glyph → Option Char
  | bare c | quoted c => some c
  | opening => none

def text (w : List Glyph) : List Char := w.filterMap Glyph.char

/-- The lexer `scan`, with the quotation of each character. -/
def glyphs : Mode → List Glyph → List Char → Except LexError (List (List Glyph))
  | .blank, _, [] => .ok []
  | .blank, _, c :: cs =>
    if isBlank c then glyphs .blank [] cs
    else if c = '\\' then glyphs (.escaped none) [] cs
    else if isQuote c then glyphs (.quoted c) [.opening] cs
    else glyphs .word [.bare c] cs
  | .word, token, [] => .ok [token]
  | .word, token, c :: cs =>
    if isBlank c then do return token :: (← glyphs .blank [] cs)
    else if isQuote c then glyphs (.quoted c) (token ++ [.opening]) cs
    else if c = '\\' then glyphs (.escaped none) token cs
    else glyphs .word (token ++ [.bare c]) cs
  | .quoted _, _, [] => .error .noClosingQuotation
  | .quoted q, token, c :: cs =>
    if c = q then glyphs .word token cs
    else if c = '\\' ∧ q = '"' then glyphs (.escaped (some q)) token cs
    else glyphs (.quoted q) (token ++ [.quoted c]) cs
  | .escaped _, _, [] => .error .noEscapedCharacter
  | .escaped none, token, c :: cs => glyphs .word (token ++ [.quoted c]) cs
  | .escaped (some q), token, c :: cs =>
    if c ≠ '\\' ∧ c ≠ q then glyphs (.quoted q) (token ++ [.quoted '\\', .quoted c]) cs
    else glyphs (.quoted q) (token ++ [.quoted c]) cs

/-- A word or an operator, which says whether it appends. -/
inductive Token where
  | word (w : List Char)
  | redirect (append : Bool)
  deriving DecidableEq

/-- The word that ends at an operator, if there is one. -/
def wordOf (w : List Glyph) : List Token := if w = [] then [] else [.word (text w)]

/-- Cut a word at its operators. -/
def cutWord : List Glyph → List Glyph → List Token
  | current, [] => wordOf current
  | current, .bare '>' :: .bare '>' :: gs => wordOf current ++ .redirect true :: cutWord [] gs
  | current, .bare '>' :: gs => wordOf current ++ .redirect false :: cutWord [] gs
  | current, g :: gs => cutWord (current ++ [g]) gs

def tokensOf (words : List (List Glyph)) : List Token := words.flatMap (cutWord [])

/-- The words of a command and its redirections, each with its file, if every operator has one. -/
def redirects : List Token → Option (List (List Char) × List (Bool × List Char))
  | [] => some ([], [])
  | .word w :: ts => (redirects ts).map fun r => (w :: r.1, r.2)
  | .redirect append :: .word file :: ts => (redirects ts).map fun r => (r.1, (append, file) :: r.2)
  | .redirect _ :: _ => none

/-! ### The two lexers -/

theorem text_append (v w : List Glyph) : text (v ++ w) = text v ++ text w := List.filterMap_append

theorem scan_text (m : Mode) (token : List Glyph) (s : List Char) :
    scan m (text token) s = (glyphs m token s).map (List.map text) := by
  induction s generalizing m token with
  | nil => cases m <;> rfl
  | cons c s ih =>
    have hbare (c : Char) : text (token ++ [.bare c]) = text token ++ [c] := text_append _ _
    have hquoted (c : Char) : text (token ++ [.quoted c]) = text token ++ [c] := text_append _ _
    have hopening : text (token ++ [.opening]) = text token := (text_append _ _).trans (List.append_nil _)
    cases m with
    | blank =>
      rw [scan, glyphs]
      split_ifs
      · exact ih .blank []
      · exact ih (.escaped none) []
      · exact ih (.quoted c) [.opening]
      · exact ih .word [.bare c]
    | word =>
      rw [scan, glyphs]
      split_ifs
      · have hrest := ih .blank []
        rw [text, List.filterMap_nil] at hrest
        rw [hrest]
        cases glyphs .blank [] s <;> rfl
      · exact hopening ▸ ih (.quoted c) (token ++ [.opening])
      · exact ih (.escaped none) token
      · exact hbare c ▸ ih .word (token ++ [.bare c])
    | quoted q =>
      rw [scan, glyphs]
      split_ifs
      · exact ih .word token
      · exact ih (.escaped (some q)) token
      · exact hquoted c ▸ ih (.quoted q) (token ++ [.quoted c])
    | escaped back =>
      cases back with
      | none =>
        rw [scan, glyphs]
        exact hquoted c ▸ ih .word (token ++ [.quoted c])
      | some q =>
        have hboth : text (token ++ [.quoted '\\', .quoted c]) = text token ++ ['\\', c] := text_append _ _
        rw [scan, glyphs]
        split_ifs
        · exact hboth ▸ ih (.quoted q) (token ++ [.quoted '\\', .quoted c])
        · exact hquoted c ▸ ih (.quoted q) (token ++ [.quoted c])

theorem split_eq_map (s : List Char) : split s = (glyphs .blank [] s).map (List.map text) := scan_text .blank [] s

/-- No word is without a glyph. -/
theorem ne_nil_of_glyphs {m : Mode} {token : List Glyph} {s : List Char} {words : List (List Glyph)}
    (h : glyphs m token s = .ok words) (htoken : m = .blank ∨ m = .escaped none ∨ token ≠ []) :
    ∀ w ∈ words, w ≠ [] := by
  induction s generalizing m token words with
  | nil =>
    cases m with
    | blank =>
      cases h
      exact List.forall_mem_nil _
    | word =>
      cases h
      simpa using htoken
    | _ => cases h
  | cons c s ih =>
    have hpush : ∀ (g : Glyph) (gs : List Glyph), token ++ g :: gs ≠ [] := by simp
    cases m with
    | blank =>
      rw [glyphs] at h
      split_ifs at h
      · exact ih h (.inl rfl)
      · exact ih h (.inr (.inl rfl))
      · exact ih h (.inr (.inr (List.cons_ne_nil _ _)))
      · exact ih h (.inr (.inr (List.cons_ne_nil _ _)))
    | word =>
      have htoken : token ≠ [] := by simpa using htoken
      rw [glyphs] at h
      split_ifs at h
      · cases hrest : glyphs .blank [] s with
        | error x =>
          rw [hrest] at h
          cases h
        | ok rest =>
          rw [hrest] at h
          cases h
          exact List.forall_mem_cons.2 ⟨htoken, ih hrest (.inl rfl)⟩
      · exact ih h (.inr (.inr (hpush _ _)))
      · exact ih h (.inr (.inl rfl))
      · exact ih h (.inr (.inr (hpush _ _)))
    | quoted q =>
      have htoken : token ≠ [] := by simpa using htoken
      rw [glyphs] at h
      split_ifs at h
      · exact ih h (.inr (.inr htoken))
      · exact ih h (.inr (.inr htoken))
      · exact ih h (.inr (.inr (hpush _ _)))
    | escaped back =>
      cases back with
      | none =>
        rw [glyphs] at h
        exact ih h (.inr (.inr (hpush _ _)))
      | some q =>
        rw [glyphs] at h
        split_ifs at h
        · exact ih h (.inr (.inr (hpush _ _)))
        · exact ih h (.inr (.inr (hpush _ _)))

/-! ### Operators that stand alone -/

/-- The word has no operator in it, or it is one. -/
def StandsAlone (w : List Glyph) : Prop :=
  .bare '>' ∉ w ∨ w = [.bare '>'] ∨ w = [.bare '>', .bare '>']

instance (w : List Glyph) : Decidable (StandsAlone w) := inferInstanceAs (Decidable (_ ∨ _ ∨ _))

def tokenOf (w : List Glyph) : Token :=
  if w = [.bare '>'] then .redirect false
  else if w = [.bare '>', .bare '>'] then .redirect true
  else .word (text w)

/-- How a token is spelled. -/
def Token.text : Token → List Char
  | word w => w
  | redirect append => if append then ">>".toList else ">".toList

theorem cutWord_of_notMem {current w : List Glyph} (h : .bare '>' ∉ w) :
    cutWord current w = wordOf (current ++ w) := by
  induction w generalizing current with
  | nil => rw [cutWord, List.append_nil]
  | cons g w ih =>
    rw [List.mem_cons, not_or] at h
    have hrest : cutWord (current ++ [g]) w = wordOf (current ++ [g] ++ w) := ih h.2
    rw [List.append_assoc, List.singleton_append] at hrest
    rw [cutWord, hrest]
    · rintro _ rfl -
      exact h.1 rfl
    · rintro rfl
      exact h.1 rfl

theorem cutWord_of_standsAlone {w : List Glyph} (h : StandsAlone w) (hne : w ≠ []) : cutWord [] w = [tokenOf w] := by
  rcases h with h | rfl | rfl
  · have h1 : w ≠ [.bare '>'] := by
      rintro rfl
      simp at h
    have h2 : w ≠ [.bare '>', .bare '>'] := by
      rintro rfl
      simp at h
    rw [cutWord_of_notMem h, tokenOf, if_neg h1, if_neg h2, wordOf, List.nil_append, if_neg hne]
  · rfl
  · rfl

theorem text_tokenOf (w : List Glyph) : (tokenOf w).text = text w := by
  unfold tokenOf
  split_ifs with h1 h2
  · rw [h1]
    rfl
  · rw [h2]
    rfl
  · rfl

end Shlex
