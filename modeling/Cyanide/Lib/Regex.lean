import Mathlib.Data.List.Basic
import Mathlib.Data.List.Forall2
import Mathlib.Data.List.Infix

/-!
# Regular expressions

The regular expressions of Python's `re` that have single characters, classes of characters, `\b`, groups, alternation
and repetition.  `MatchesAt` says which piece of a text an expression matches, between two positions of the text, since
`\b` looks at the characters around it.  `ends` computes the positions at which a match can end (`mem_ends`), and
`search` whether there is a match at all (`search_iff`).  A match is still there when the text is put into a longer one,
if no word runs across the seams (`search_context`).
-/

/-- What the characters are for an expression: the letters of words, the blanks, the digits, and which characters are
taken for the same letter. -/
structure Alphabet where
  isWord : Char → Bool
  isSpace : Char → Bool
  isDigit : Char → Bool
  sameLetter : Char → Char → Bool

/-- One of the things that are listed in a class: a character, or one of the patterns `\w`, `\s` and `\d`. -/
inductive ClassItem where
  | letter (c : Char)
  | word
  | space
  | digit
  deriving DecidableEq

def ClassItem.accepts (A : Alphabet) : ClassItem → Char → Bool
  | letter d, c => A.sameLetter d c
  | word, c => A.isWord c
  | space, c => A.isSpace c
  | digit, c => A.isDigit c

/-- What one character is matched with. -/
inductive CharClass where
  /-- The pattern `.`. -/
  | any
  /-- One of the items, or none of them. -/
  | set (negated : Bool) (items : List ClassItem)
  deriving DecidableEq

def CharClass.accepts (A : Alphabet) : CharClass → Char → Bool
  | any, c => c ≠ '\n'
  | set negated items, c => items.any (·.accepts A c) != negated

inductive Regex where
  | empty
  | char (k : CharClass)
  /-- The pattern `\b`. -/
  | boundary
  | seq (r s : Regex)
  | alt (r s : Regex)
  | star (r : Regex)
  deriving DecidableEq

namespace Regex

/-- The first `n` characters of the text end in a word. -/
def wordBefore (A : Alphabet) (text : List Char) : ℕ → Bool
  | 0 => false
  | n + 1 => (text[n]?).any A.isWord

def wordAfter (A : Alphabet) (text : List Char) (n : ℕ) : Bool := (text[n]?).any A.isWord

/-- The expression matches the text from the first position to the second. -/
inductive MatchesAt (A : Alphabet) (text : List Char) : Regex → ℕ → ℕ → Prop
  | empty (i : ℕ) : MatchesAt A text empty i i
  | char {k : CharClass} {i : ℕ} {c : Char} (hc : text[i]? = some c) (h : k.accepts A c = true) :
      MatchesAt A text (char k) i (i + 1)
  | boundary {i : ℕ} (h : wordBefore A text i ≠ wordAfter A text i) : MatchesAt A text boundary i i
  | seq {r s : Regex} {i j k : ℕ} (hr : MatchesAt A text r i j) (hs : MatchesAt A text s j k) :
      MatchesAt A text (seq r s) i k
  | left {r : Regex} (s : Regex) {i j : ℕ} (h : MatchesAt A text r i j) : MatchesAt A text (alt r s) i j
  | right (r : Regex) {s : Regex} {i j : ℕ} (h : MatchesAt A text s i j) : MatchesAt A text (alt r s) i j
  | stop (r : Regex) (i : ℕ) : MatchesAt A text (star r) i i
  | next {r : Regex} {i j k : ℕ} (hr : MatchesAt A text r i j) (hs : MatchesAt A text (star r) j k) :
      MatchesAt A text (star r) i k

/-- The positions that are reached by repeating a step that goes forward, those of more steps first. -/
def repeated (step : ℕ → List ℕ) : (fuel : ℕ) → ℕ → List ℕ
  | 0, i => [i]
  | fuel + 1, i => ((step i).filter (i < ·)).flatMap (repeated step fuel) ++ [i]

/-- The positions at which a match from `i` can end, in the order in which backtracking finds them. -/
def ends (A : Alphabet) (text : List Char) : Regex → ℕ → List ℕ
  | empty, i => [i]
  | char k, i => if (text[i]?).any (k.accepts A) then [i + 1] else []
  | boundary, i => if wordBefore A text i ≠ wordAfter A text i then [i] else []
  | seq r s, i => (ends A text r i).flatMap (ends A text s)
  | alt r s, i => ends A text r i ++ ends A text s i
  | star r, i => repeated (ends A text r) text.length i

def search (A : Alphabet) (r : Regex) (text : List Char) : Bool :=
  (List.range (text.length + 1)).any fun i => !(ends A text r i).isEmpty

variable {A : Alphabet} {text : List Char} {r s : Regex} {i j k : ℕ}

/-- A match goes forward and stays inside of the text. -/
theorem MatchesAt.le (h : MatchesAt A text r i j) : i ≤ j ∧ (i ≤ text.length → j ≤ text.length) := by
  induction h with
  | empty i => exact ⟨le_rfl, id⟩
  | char hc h =>
    obtain ⟨hlt, -⟩ := List.getElem?_eq_some_iff.1 hc
    exact ⟨Nat.le_succ _, fun _ => hlt⟩
  | boundary h => exact ⟨le_rfl, id⟩
  | seq hr hs ihr ihs => exact ⟨ihr.1.trans ihs.1, fun hi => ihs.2 (ihr.2 hi)⟩
  | left s h ih => exact ih
  | right r h ih => exact ih
  | stop r i => exact ⟨le_rfl, id⟩
  | next hr hs ihr ihs => exact ⟨ihr.1.trans ihs.1, fun hi => ihs.2 (ihr.2 hi)⟩

/-! ### The computed positions -/

/-- What a step computes, repeated. -/
private theorem mem_repeated {step : ℕ → List ℕ} (hstep : ∀ i j, i ≤ text.length →
    (j ∈ step i ↔ MatchesAt A text r i j)) {fuel : ℕ} (hi : i ≤ text.length) (hfuel : text.length ≤ i + fuel) :
    j ∈ repeated step fuel i ↔ MatchesAt A text (star r) i j := by
  constructor
  · clear hfuel
    induction fuel generalizing i with
    | zero =>
      intro h
      rw [repeated, List.mem_singleton] at h
      rw [h]
      exact .stop r i
    | succ fuel ih =>
      intro h
      rw [repeated, List.mem_append, List.mem_flatMap, List.mem_singleton] at h
      rcases h with ⟨k, hk, hj⟩ | rfl
      · have hr := (hstep i k hi).1 (List.mem_filter.1 hk).1
        exact .next hr (ih (hr.le.2 hi) hj)
      · exact .stop r j
  · intro h
    generalize hq : star r = q at h
    induction h generalizing fuel with
    | stop r' i =>
      cases fuel with
      | zero => exact List.mem_singleton.2 rfl
      | succ fuel => exact List.mem_append_right _ (List.mem_singleton.2 rfl)
    | @next r' i k j hr hs ihr ihs =>
      obtain rfl := Regex.star.inj hq
      have hk := hr.le.2 hi
      rcases Nat.eq_or_lt_of_le hr.le.1 with rfl | hlt
      · exact ihs hi hfuel rfl
      · -- a step forward uses up some fuel
        obtain ⟨fuel, rfl⟩ := Nat.exists_eq_succ_of_ne_zero (show fuel ≠ 0 by omega)
        rw [Nat.succ_eq_add_one, repeated, List.mem_append, List.mem_flatMap]
        exact .inl ⟨k, List.mem_filter.2 ⟨(hstep i k hi).2 hr, by simpa using hlt⟩, ihs hk (by omega) rfl⟩
    | empty i => cases hq
    | char hc h => cases hq
    | boundary h => cases hq
    | seq hr hs _ _ => cases hq
    | left s h _ => cases hq
    | right r h _ => cases hq

theorem mem_ends (hi : i ≤ text.length) : j ∈ ends A text r i ↔ MatchesAt A text r i j := by
  induction r generalizing i j with
  | empty =>
    rw [ends, List.mem_singleton]
    constructor
    · rintro rfl
      exact .empty j
    · rintro ⟨⟩
      rfl
  | char k =>
    rw [ends]
    constructor
    · intro h
      split at h
      · rename_i hany
        rw [List.mem_singleton.1 h]
        obtain ⟨c, hc, hacc⟩ := (Option.any_eq_true _ _).1 hany
        exact .char hc hacc
      · cases h
    · rintro ⟨hc, hacc⟩
      rename_i c hc hacc
      simp [hc, hacc]
  | boundary =>
    rw [ends]
    constructor
    · intro h
      split at h
      · rename_i hb
        rw [List.mem_singleton.1 h]
        exact .boundary hb
      · cases h
    · rintro ⟨hb⟩
      rename_i hb
      simp [hb]
  | seq r s ihr ihs =>
    rw [ends, List.mem_flatMap]
    constructor
    · rintro ⟨k, hk, hj⟩
      have hr := (ihr hi).1 hk
      exact .seq hr ((ihs (hr.le.2 hi)).1 hj)
    · rintro ⟨⟩
      rename_i k hr hs
      exact ⟨k, (ihr hi).2 hr, (ihs (hr.le.2 hi)).2 hs⟩
  | alt r s ihr ihs =>
    rw [ends, List.mem_append, ihr hi, ihs hi]
    constructor
    · rintro (h | h)
      · exact .left s h
      · exact .right r h
    · rintro ⟨⟩
      · exact .inl (by assumption)
      · exact .inr (by assumption)
  | star r ih => exact mem_repeated (fun i j hi => ih hi) hi (by omega)

theorem search_iff : search A r text = true ↔ ∃ i j, i ≤ text.length ∧ MatchesAt A text r i j := by
  unfold search
  rw [List.any_eq_true]
  constructor
  · rintro ⟨i, hi, hne⟩
    have hle : i ≤ text.length := Nat.lt_succ_iff.1 (List.mem_range.1 hi)
    obtain ⟨j, hj⟩ := List.exists_mem_of_ne_nil (ends A text r i) (by simpa using hne)
    exact ⟨i, j, hle, (mem_ends hle).1 hj⟩
  · rintro ⟨i, j, hle, h⟩
    refine ⟨i, List.mem_range.2 (Nat.lt_succ_iff.2 hle), ?_⟩
    have hmem := (mem_ends hle).2 h
    simpa using List.ne_nil_of_mem hmem

/-! ### All matches -/

/-- The matches of `re.findall` from a position on: at each place the first that backtracking finds, and then on behind
it. -/
def spansFrom (A : Alphabet) (r : Regex) (text : List Char) : (fuel : ℕ) → ℕ → List (ℕ × ℕ)
  | 0, _ => []
  | fuel + 1, i =>
    if text.length < i then []
    else
      match (ends A text r i).head? with
      | some j => (i, j) :: spansFrom A r text fuel (max j (i + 1))
      | none => spansFrom A r text fuel (i + 1)

def spans (A : Alphabet) (r : Regex) (text : List Char) : List (ℕ × ℕ) := spansFrom A r text (text.length + 1) 0

/-- A piece of a text. -/
def piece (text : List Char) (span : ℕ × ℕ) : List Char := (text.drop span.1).take (span.2 - span.1)

def findall (A : Alphabet) (r : Regex) (text : List Char) : List (List Char) := (spans A r text).map (piece text)

private theorem mem_spansFrom {fuel : ℕ} {span : ℕ × ℕ} (h : span ∈ spansFrom A r text fuel i) :
    i ≤ span.1 ∧ span.1 ≤ text.length ∧ (ends A text r span.1).head? = some span.2 := by
  induction fuel generalizing i with
  | zero => cases h
  | succ fuel ih =>
    rw [spansFrom] at h
    split at h
    · cases h
    · rename_i hi
      split at h
      · rename_i j hj
        rcases List.mem_cons.1 h with rfl | h
        · exact ⟨le_rfl, not_lt.1 hi, hj⟩
        · obtain ⟨h1, h2⟩ := ih h
          exact ⟨by omega, h2⟩
      · obtain ⟨h1, h2⟩ := ih h
        exact ⟨by omega, h2⟩

/-- What is found is a match, the first one that backtracking finds there. -/
theorem mem_spans {span : ℕ × ℕ} (h : span ∈ spans A r text) :
    span.1 ≤ text.length ∧ (ends A text r span.1).head? = some span.2 ∧ MatchesAt A text r span.1 span.2 := by
  obtain ⟨-, hle, hhead⟩ := mem_spansFrom h
  exact ⟨hle, hhead, (mem_ends hle).1 (List.mem_of_head? hhead)⟩

private theorem covered_spansFrom {fuel : ℕ} (hfuel : text.length + 1 ≤ i + fuel) {k m : ℕ} (hk : i ≤ k)
    (hle : k ≤ text.length) (hm : MatchesAt A text r k m) :
    ∃ span ∈ spansFrom A r text fuel i, span.1 = k ∨ (span.1 ≤ k ∧ k < span.2) := by
  induction fuel generalizing i with
  | zero => omega
  | succ fuel ih =>
    rw [spansFrom, if_neg (by omega)]
    have hstart : i = k → ends A text r i ≠ [] := by
      rintro rfl
      exact List.ne_nil_of_mem ((mem_ends hle).2 hm)
    split
    · rename_i j hj
      by_cases hkj : i = k ∨ k < j
      · refine ⟨(i, j), List.mem_cons_self, ?_⟩
        rcases hkj with heq | hlt
        · exact .inl heq
        · exact .inr ⟨hk, hlt⟩
      · obtain ⟨span, hspan, hcov⟩ := ih (i := max j (i + 1)) (by omega) (by omega)
        exact ⟨span, List.mem_cons_of_mem _ hspan, hcov⟩
    · rename_i hnone
      have hne : i ≠ k := fun heq => hstart heq (List.head?_eq_none_iff.1 hnone)
      obtain ⟨span, hspan, hcov⟩ := ih (i := i + 1) (by omega) (by omega)
      exact ⟨span, hspan, hcov⟩

/-- Where a match begins, something is found that begins there or runs over it. -/
theorem covered_spans {k m : ℕ} (hk : k ≤ text.length) (hm : MatchesAt A text r k m) :
    ∃ span ∈ spans A r text, span.1 = k ∨ (span.1 ≤ k ∧ k < span.2) :=
  covered_spansFrom (by omega) (Nat.zero_le k) hk hm

/-! ### Longer texts -/

/-- No word runs across the seams of a text between two others. -/
structure Separated (A : Alphabet) (pre post : List Char) : Prop where
  before : ∀ c, pre.getLast? = some c → A.isWord c = false
  after : ∀ c, post.head? = some c → A.isWord c = false

variable {pre post : List Char}

private theorem getElem?_between {n : ℕ} (hn : n < text.length) : (pre ++ text ++ post)[pre.length + n]? = text[n]? := by
  rw [List.append_assoc, List.getElem?_append_right (Nat.le_add_right _ _), Nat.add_sub_cancel_left,
    List.getElem?_append_left hn]

private theorem wordBefore_between (h : Separated A pre post) (hi : i ≤ text.length) :
    wordBefore A (pre ++ text ++ post) (pre.length + i) = wordBefore A text i := by
  cases i with
  | succ n =>
    show ((pre ++ text ++ post)[pre.length + n]?).any A.isWord = (text[n]?).any A.isWord
    rw [getElem?_between hi]
  | zero =>
    rcases List.eq_nil_or_concat pre with rfl | ⟨p, c, rfl⟩
    · rfl
    · have hc := h.before c (by rw [List.concat_eq_append, List.getLast?_concat])
      rw [List.concat_eq_append, Nat.add_zero, List.length_append, List.length_singleton]
      show ((p ++ [c] ++ text ++ post)[p.length]?).any A.isWord = false
      simp [hc]

private theorem wordAfter_between (h : Separated A pre post) (hi : i ≤ text.length) :
    wordAfter A (pre ++ text ++ post) (pre.length + i) = wordAfter A text i := by
  unfold wordAfter
  rcases Nat.eq_or_lt_of_le hi with rfl | hlt
  · rw [show text[text.length]? = none by simp, List.getElem?_append_right (by simp), List.length_append,
      Nat.sub_self]
    cases hpost : post with
    | nil => rfl
    | cons c post =>
      have hc := h.after c (by rw [hpost, List.head?_cons])
      simp [hc]
  · rw [getElem?_between hlt]

theorem MatchesAt.between (h : Separated A pre post) (hm : MatchesAt A text r i j) (hi : i ≤ text.length) :
    MatchesAt A (pre ++ text ++ post) r (pre.length + i) (pre.length + j) := by
  induction hm with
  | empty i => exact .empty _
  | char hc hacc =>
    obtain ⟨hlt, -⟩ := List.getElem?_eq_some_iff.1 hc
    exact .char ((getElem?_between hlt).trans hc) hacc
  | boundary hb =>
    refine .boundary ?_
    rwa [wordBefore_between h hi, wordAfter_between h hi]
  | seq hr hs ihr ihs => exact .seq (ihr hi) (ihs (hr.le.2 hi))
  | left s hm ih => exact .left s (ih hi)
  | right r hm ih => exact .right r (ih hi)
  | stop r i => exact .stop r _
  | next hr hs ihr ihs => exact .next (ihr hi) (ihs (hr.le.2 hi))

/-- What is found in a text is found in a longer one. -/
theorem search_context (h : Separated A pre post) (hs : search A r text = true) :
    search A r (pre ++ text ++ post) = true := by
  obtain ⟨i, j, hi, hm⟩ := search_iff.1 hs
  refine search_iff.2 ⟨pre.length + i, pre.length + j, ?_, hm.between h hi⟩
  simp only [List.length_append]
  omega

/-! ### Other letters -/

/-- The characters are the same for every expression. -/
structure Alike (A : Alphabet) (c d : Char) : Prop where
  word : A.isWord c = A.isWord d
  accepts : ∀ k : CharClass, k.accepts A c = k.accepts A d

theorem Alike.of_tests {c d : Char} (hword : A.isWord c = A.isWord d) (hspace : A.isSpace c = A.isSpace d)
    (hdigit : A.isDigit c = A.isDigit d) (hsame : ∀ e, A.sameLetter e c = A.sameLetter e d)
    (hline : c = '\n' ↔ d = '\n') : Alike A c d := by
  have hitem : ∀ item : ClassItem, item.accepts A c = item.accepts A d := by
    rintro (e | _ | _ | _)
    · exact hsame e
    · exact hword
    · exact hspace
    · exact hdigit
  refine ⟨hword, fun k => ?_⟩
  cases k with
  | any => exact decide_eq_decide.2 (not_congr hline)
  | set negated items =>
    have hany : (fun item : ClassItem => item.accepts A c) = (·.accepts A d) := funext hitem
    rw [CharClass.accepts, CharClass.accepts, hany]

variable {text' : List Char}

private theorem getElem?_alike (h : List.Forall₂ (Alike A) text text') (n : ℕ) :
    (text[n]? = none ∧ text'[n]? = none) ∨ ∃ c d, text[n]? = some c ∧ text'[n]? = some d ∧ Alike A c d := by
  induction h generalizing n with
  | nil => exact .inl ⟨rfl, rfl⟩
  | @cons c d _ _ hcd _ ih =>
    cases n with
    | zero => exact .inr ⟨c, d, rfl, rfl, hcd⟩
    | succ n => exact ih n

private theorem any_alike (h : List.Forall₂ (Alike A) text text') (n : ℕ) :
    (text[n]?).any A.isWord = (text'[n]?).any A.isWord := by
  rcases getElem?_alike h n with ⟨h1, h2⟩ | ⟨c, d, h1, h2, hcd⟩
  · rw [h1, h2]
  · rw [h1, h2]
    exact hcd.word

theorem MatchesAt.alike (h : List.Forall₂ (Alike A) text text') (hm : MatchesAt A text r i j) :
    MatchesAt A text' r i j := by
  induction hm with
  | empty i => exact .empty i
  | @char k i c hc hacc =>
    rcases getElem?_alike h i with ⟨h1, -⟩ | ⟨c', d, h1, h2, hcd⟩
    · rw [h1] at hc
      cases hc
    · rw [h1, Option.some.injEq] at hc
      subst hc
      exact .char h2 ((hcd.accepts k).symm.trans hacc)
  | @boundary i hb =>
    refine .boundary ?_
    have hbefore : wordBefore A text i = wordBefore A text' i := by
      cases i with
      | zero => rfl
      | succ n => exact any_alike h n
    rwa [← hbefore, wordAfter, ← any_alike h i]
  | seq hr hs ihr ihs => exact .seq ihr ihs
  | left s hm ih => exact .left s ih
  | right r hm ih => exact .right r ih
  | stop r i => exact .stop r i
  | next hr hs ihr ihs => exact .next ihr ihs

theorem search_alike (h : List.Forall₂ (Alike A) text text') (hs : search A r text = true) :
    search A r text' = true := by
  obtain ⟨i, j, hi, hm⟩ := search_iff.1 hs
  exact search_iff.2 ⟨i, j, h.length_eq ▸ hi, hm.alike h⟩

/-! ### Patterns -/

/-- The items of a class, up to its bracket. -/
def readClass : List Char → Option (List ClassItem × List Char)
  | [] => none
  | ']' :: rest => some ([], rest)
  | '\\' :: 's' :: rest => (readClass rest).map fun c => (.space :: c.1, c.2)
  | '\\' :: 'w' :: rest => (readClass rest).map fun c => (.word :: c.1, c.2)
  | '\\' :: 'd' :: rest => (readClass rest).map fun c => (.digit :: c.1, c.2)
  | '\\' :: a :: rest => (readClass rest).map fun c => (.letter a :: c.1, c.2)
  | a :: '-' :: ']' :: rest => some ([.letter a, .letter '-'], rest)
  | a :: '-' :: b :: rest =>
    (readClass rest).map fun c =>
      ((List.range (b.toNat + 1 - a.toNat)).map (fun n => .letter (Char.ofNat (a.toNat + n))) ++ c.1, c.2)
  | a :: rest => (readClass rest).map fun c => (.letter a :: c.1, c.2)

/-- Up to `n` times. -/
def upTo (r : Regex) : (n : ℕ) → Regex
  | 0 => empty
  | n + 1 => alt (seq r (upTo r n)) empty

/-- `n` times, and then what is behind. -/
def power (r behind : Regex) : (n : ℕ) → Regex
  | 0 => behind
  | n + 1 => seq r (power r behind n)

def readNumber (s : List Char) : Option ℕ × List Char :=
  let digits := s.takeWhile Char.isDigit
  (if digits = [] then none else some (digits.foldl (fun n c => 10 * n + (c.toNat - '0'.toNat)) 0), s.drop digits.length)

/-- The repetition behind an item: `+`, `*`, or one or two numbers in braces. -/
def readRepetition (r : Regex) : List Char → Regex × List Char
  | '+' :: rest => (seq r (star r), rest)
  | '*' :: rest => (star r, rest)
  | '?' :: rest => (alt r empty, rest)
  | '\x7b' :: rest =>
    match readNumber rest with
    | (some n, '\x7d' :: rest) => (power r empty n, rest)
    | (some n, ',' :: rest) =>
      match readNumber rest with
      | (some m, '\x7d' :: rest) => (power r (upTo r (m - n)) n, rest)
      | (none, '\x7d' :: rest) => (power r (star r) n, rest)
      | _ => (r, '\x7b' :: rest)
    | _ => (r, '\x7b' :: rest)
  | rest => (r, rest)

/-- The items that are written with a backslash. -/
def escaped : Char → Regex
  | 'b' => boundary
  | 's' => char (.set false [.space])
  | 'w' => char (.set false [.word])
  | 'd' => char (.set false [.digit])
  | c => char (.set false [.letter c])

def closeGroup : Option (Regex × List Char) → Option (Regex × List Char)
  | some (r, ')' :: rest) => some (r, rest)
  | _ => none

mutual

/-- Sequences between bars; the first argument bounds the nesting. -/
def readAlt : ℕ → List Char → Option (Regex × List Char)
  | 0, _ => none
  | n + 1, s => do
    let (r, rest) ← readSeq n s
    match rest with
    | '|' :: rest => do
      let (r', rest) ← readAlt n rest
      some (alt r r', rest)
    | _ => some (r, rest)

def readSeq : ℕ → List Char → Option (Regex × List Char)
  | 0, _ => none
  | n + 1, s =>
    match s with
    | [] | ')' :: _ | '|' :: _ => some (empty, s)
    | _ => do
      let (r, rest) ← readItem n s
      let (r, rest) := readRepetition r rest
      let (r', rest) ← readSeq n rest
      some (seq r r', rest)

def readItem : ℕ → List Char → Option (Regex × List Char)
  | 0, _ => none
  | n + 1, s =>
    match s with
    | '\\' :: c :: rest => some (escaped c, rest)
    | '.' :: rest => some (char .any, rest)
    | '[' :: '^' :: rest => (readClass rest).map fun c => (char (.set true c.1), c.2)
    | '[' :: rest => (readClass rest).map fun c => (char (.set false c.1), c.2)
    | '(' :: '?' :: ':' :: rest => closeGroup (readAlt n rest)
    | '(' :: rest => closeGroup (readAlt n rest)
    | c :: rest => some (char (.set false [.letter c]), rest)
    | [] => none

end

/-- The expression that a pattern stands for. -/
def compile (pattern : List Char) : Option Regex :=
  match readAlt (3 * pattern.length + 3) pattern with
  | some (r, []) => some r
  | _ => none

end Regex
