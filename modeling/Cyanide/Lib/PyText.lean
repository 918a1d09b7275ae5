import Mathlib.Algebra.GroupWithZero.Nat
import Mathlib.Data.List.DropRight
import Mathlib.Data.List.Basic
import Mathlib.Data.List.Infix

/-!
# Python's text methods

The methods of `str` and `bytes` on lists of characters and of bytes: stripping, splitting, lines, replacement,
decoding, and `int` on texts.  What needs the Unicode tables beyond ASCII is in a structure `Unicode`, so that results
hold for every version of the tables.
-/

namespace PyText

/-- The parts of the Unicode database that `\w`, `str.lower`, `str.isdigit` and `int` look at. -/
structure Unicode where
  isWord : Char → Bool
  lower : List Char → List Char
  isDigit : Char → Bool
  decimal : Char → Option ℕ

/-- The tables for texts in ASCII. -/
def ascii : Unicode where
  isWord c := c.isAlphanum || c = '_'
  lower s := s.map Char.toLower
  isDigit c := c.isDigit
  decimal c := if c.isDigit then some (c.toNat - '0'.toNat) else none

/-- `str.isspace` for one character. -/
def isSpace (c : Char) : Bool :=
  (0x09 ≤ c.toNat && c.toNat ≤ 0x0d) || (0x1c ≤ c.toNat && c.toNat ≤ 0x20) || c.toNat = 0x85 || c.toNat = 0xa0 ||
    c.toNat = 0x1680 || (0x2000 ≤ c.toNat && c.toNat ≤ 0x200a) || c.toNat = 0x2028 || c.toNat = 0x2029 ||
    c.toNat = 0x202f || c.toNat = 0x205f || c.toNat = 0x3000

def stripWhile (p : Char → Bool) (s : List Char) : List Char := (s.dropWhile p).rdropWhile p

/-- `str.strip()`. -/
def strip (s : List Char) : List Char := stripWhile isSpace s

/-- `str.strip(chars)`. -/
def stripChars (chars s : List Char) : List Char := stripWhile (· ∈ chars) s

/-- `str.split()`, from the characters of the current word. -/
def wordsFrom : List Char → List Char → List (List Char)
  | word, [] => if word = [] then [] else [word]
  | word, c :: cs =>
    if isSpace c then (if word = [] then wordsFrom [] cs else word :: wordsFrom [] cs) else wordsFrom (word ++ [c]) cs

def words (s : List Char) : List (List Char) := wordsFrom [] s

/-- The characters at which `str.splitlines` ends a line. -/
def isLineEnd (c : Char) : Bool :=
  (0x0a ≤ c.toNat && c.toNat ≤ 0x0d) || (0x1c ≤ c.toNat && c.toNat ≤ 0x1e) || c.toNat = 0x85 || c.toNat = 0x2028 ||
    c.toNat = 0x2029

/-- The lines with their ends, for a type of characters with line ends, a carriage return and a newline; a newline
behind a carriage return belongs to the same line. -/
def linesFrom {α : Type} [DecidableEq α] (isEnd : α → Bool) (cr nl : α) : List α → List α → List (List α)
  | line, [] => if line = [] then [] else [line]
  | line, [c] => [line ++ [c]]
  | line, c :: d :: cs =>
    if isEnd c then
      if c = cr ∧ d = nl then (line ++ [c, d]) :: linesFrom isEnd cr nl [] cs
      else (line ++ [c]) :: linesFrom isEnd cr nl [] (d :: cs)
    else linesFrom isEnd cr nl (line ++ [c]) (d :: cs)

/-- `str.splitlines(keepends=True)`. -/
def linesKeepEnds (s : List Char) : List (List Char) := linesFrom isLineEnd '\r' '\n' [] s

/-- `str.splitlines()`. -/
def lines (s : List Char) : List (List Char) := (linesKeepEnds s).map fun l => l.rdropWhile isLineEnd

/-- `bytes.splitlines(keepends=True)`. -/
def byteLinesKeepEnds (b : List UInt8) : List (List UInt8) := linesFrom (fun c => c = 10 || c = 13) 13 10 [] b

/-- `bytes.splitlines()`. -/
def byteLines (b : List UInt8) : List (List UInt8) :=
  (byteLinesKeepEnds b).map fun l => l.rdropWhile fun c => c = 10 || c = 13

/-- `sub in s`. -/
def contains (sub s : List Char) : Bool := s.tails.any (sub.isPrefixOf ·)

/-- `str.replace`, after `skip` more characters of an occurrence that was replaced. -/
def replaceFrom (old new : List Char) : (skip : ℕ) → List Char → List Char
  | _, [] => []
  | skip + 1, _ :: cs => replaceFrom old new skip cs
  | 0, c :: cs =>
    if old.isPrefixOf (c :: cs) then new ++ replaceFrom old new (old.length - 1) cs else c :: replaceFrom old new 0 cs

def replace (old new s : List Char) : List Char := replaceFrom old new 0 s

/-- Nothing is replaced in front of the first character of an occurrence. -/
theorem replaceFrom_append_of_notMem {d : Char} {old c : List Char} (hold : old.head? = some d) (hc : d ∉ c)
    (new rest : List Char) : replaceFrom old new 0 (c ++ rest) = c ++ replaceFrom old new 0 rest := by
  cases old with
  | nil => cases hold
  | cons e old =>
    obtain rfl := Option.some.inj hold
    induction c with
    | nil => rfl
    | cons a c ih =>
      rw [List.mem_cons, not_or] at hc
      rw [List.cons_append, replaceFrom, if_neg, ih hc.2]
      · rfl
      · simp [hc.1]

/-- `str.partition(c)`: the text in front of the first `c`, and what follows it if there is one. -/
def partition (c : Char) (s : List Char) : List Char × Option (List Char) :=
  match s.dropWhile (· ≠ c) with
  | [] => (s, none)
  | _ :: rest => (s.takeWhile (· ≠ c), some rest)

theorem partition_append {c : Char} {a : List Char} (ha : c ∉ a) (b : List Char) :
    partition c (a ++ c :: b) = (a, some b) := by
  have hall : ∀ x ∈ a, decide (x ≠ c) = true := fun x hx => decide_eq_true fun he => ha (he ▸ hx)
  have hdrop : (a ++ c :: b).dropWhile (· ≠ c) = c :: b := by
    rw [List.dropWhile_append_of_pos hall, List.dropWhile_cons_of_neg (by simp)]
  have htake : (a ++ c :: b).takeWhile (· ≠ c) = a := by
    rw [List.takeWhile_append_of_pos hall, List.takeWhile_cons_of_neg (by simp), List.append_nil]
  rw [partition, hdrop, htake]

theorem partition_cases (c : Char) (s : List Char) :
    (c ∉ s ∧ partition c s = (s, none)) ∨ ∃ a b, s = a ++ c :: b ∧ c ∉ a ∧ partition c s = (a, some b) := by
  by_cases hc : c ∈ s
  · obtain ⟨a, b, rfl, ha⟩ := List.eq_append_cons_of_mem hc
    exact .inr ⟨a, b, rfl, ha, partition_append ha b⟩
  · refine .inl ⟨hc, ?_⟩
    have hdrop : s.dropWhile (· ≠ c) = [] := by
      rw [List.dropWhile_eq_nil_iff]
      exact fun x hx => decide_eq_true fun he => hc (he ▸ hx)
    rw [partition, hdrop]

/-! ### Stripping -/


theorem strip_append_left {l : List Char} (hl : ∀ c ∈ l, isSpace c = true) (s : List Char) :
    strip (l ++ s) = strip s := by
  rw [strip, stripWhile, List.dropWhile_append_of_pos hl]
  rfl

theorem strip_append_right {r : List Char} (hr : ∀ c ∈ r, isSpace c = true) (s : List Char) :
    strip (s ++ r) = strip s := by
  induction s with
  | nil => 
    rw [List.nil_append, strip, stripWhile, List.dropWhile_eq_nil_iff.2 hr]
    rfl
  | cons c s ih =>
    rw [List.cons_append]
    unfold strip stripWhile at ih ⊢
    rw [List.dropWhile_cons, List.dropWhile_cons]
    split_ifs with hc
    · exact ih
    · rw [← List.cons_append, List.rdropWhile, List.rdropWhile, List.reverse_append,
        List.dropWhile_append_of_pos fun d hd => hr d (List.mem_reverse.1 hd)]

/-- A text is its stripped text with white space around it. -/
theorem exists_strip_eq (s : List Char) : ∃ l r, s = l ++ strip s ++ r ∧ (∀ c ∈ l, isSpace c = true) ∧
    ∀ c ∈ r, isSpace c = true := by
  refine ⟨s.takeWhile isSpace, (s.dropWhile isSpace).rtakeWhile isSpace, ?_, fun c hc => List.mem_takeWhile_imp hc,
    fun c hc => ?_⟩
  · rw [strip, stripWhile, List.append_assoc, List.rdropWhile_append_rtakeWhile, List.takeWhile_append_dropWhile]
  · exact List.mem_rtakeWhile_imp hc

/-- A text is blank when all of it is white space. -/
theorem strip_eq_nil_iff {s : List Char} : strip s = [] ↔ ∀ c ∈ s, isSpace c = true := by
  constructor
  · intro h c hc
    obtain ⟨l, r, hs, hl, hr⟩ := exists_strip_eq s
    rw [hs, h, List.append_nil, List.mem_append] at hc
    exact hc.elim (hl c) (hr c)
  · intro h
    have hstrip := strip_append_left h []
    rw [List.append_nil] at hstrip
    exact hstrip

theorem mem_of_mem_strip {s : List Char} {c : Char} (h : c ∈ strip s) : c ∈ s := by
  obtain ⟨l, r, hs, -, -⟩ := exists_strip_eq s
  rw [hs]
  simp [h]

theorem strip_eq_self {s : List Char} (hhead : ∀ c ∈ s.head?, isSpace c = false)
    (hlast : ∀ c ∈ s.getLast?, isSpace c = false) : strip s = s := by
  have hdrop : s.dropWhile isSpace = s := by
    cases s with
    | nil => rfl
    | cons c s => simp [hhead c rfl]
  rw [strip, stripWhile, hdrop, List.rdropWhile_eq_self_iff]
  intro hne
  simp [hlast _ (List.getLast?_eq_some_getLast hne)]

/-! ### Numbers -/

def natText (n : ℕ) : List Char := (toString n).toList

theorem natText_eq_toDigits (n : ℕ) : natText n = Nat.toDigits 10 n := by
  rw [natText, Nat.toString_eq_repr, Nat.toList_repr]

theorem natText_injective : Function.Injective natText := by
  intro m n h
  rw [natText_eq_toDigits, natText_eq_toDigits] at h
  simpa using congrArg (Nat.ofDigitChars 10 · 0) h

/-- Digits with single underscores between them. -/
def readDigits (U : Unicode) : (value : ℕ) → List Char → Option ℕ
  | value, [] => some value
  | value, '_' :: c :: cs => (U.decimal c).bind fun d => readDigits U (10 * value + d) cs
  | value, c :: cs => (U.decimal c).bind fun d => readDigits U (10 * value + d) cs

def readNat (U : Unicode) : List Char → Option ℕ
  | [] => none
  | c :: cs => (U.decimal c).bind fun d => readDigits U d cs

/-- `int` on a text. -/
def readInt (U : Unicode) (s : List Char) : Option Int :=
  match strip s with
  | '-' :: cs => (readNat U cs).map fun n => -(n : Int)
  | '+' :: cs => (readNat U cs).map fun n => (n : Int)
  | cs => (readNat U cs).map fun n => (n : Int)

/-- The tables know the ten digits, and a space is none of them. -/
structure ReadsDigits (U : Unicode) : Prop where
  digit : ∀ c : Char, c.isDigit → U.decimal c = some (c.toNat - '0'.toNat)
  space : U.decimal ' ' = none

theorem readsDigits_ascii : ReadsDigits ascii where
  digit _ hc := if_pos hc
  space := rfl

theorem isDigit_of_mem_natText {n : ℕ} {c : Char} (hc : c ∈ natText n) : c.isDigit := by
  rw [natText_eq_toDigits] at hc
  exact Nat.isDigit_of_mem_toDigits (by decide) (by decide) hc

theorem natText_ne_nil (n : ℕ) : natText n ≠ [] := by
  rw [natText_eq_toDigits]
  exact Nat.toDigits_ne_nil

private theorem readDigits_eq {U : Unicode} (hU : ReadsDigits U) {l : List Char} (hl : ∀ c ∈ l, c.isDigit) (value : ℕ) :
    readDigits U value l = some (Nat.ofDigitChars 10 l value) := by
  induction l generalizing value with
  | nil => rfl
  | cons c l ih =>
    rw [List.forall_mem_cons] at hl
    have hc : c ≠ '_' := by
      rintro rfl
      exact absurd hl.1 (by decide)
    have hstep : readDigits U value (c :: l) =
        (U.decimal c).bind fun d => readDigits U (10 * value + d) l := by
      cases l <;> simp [readDigits, hc]
    rw [hstep, hU.digit c hl.1, Option.bind_some, ih hl.2, Nat.ofDigitChars_cons]

/-- A number is read back from its digits. -/
theorem readNat_natText {U : Unicode} (hU : ReadsDigits U) (n : ℕ) : readNat U (natText n) = some n := by
  have hdigits : ∀ c ∈ natText n, c.isDigit := fun c hc => isDigit_of_mem_natText hc
  have hvalue : Nat.ofDigitChars 10 (natText n) 0 = n := by
    rw [natText_eq_toDigits, Nat.ofDigitChars_ten_toDigits]
  obtain ⟨c, cs, hc⟩ := List.exists_cons_of_ne_nil (natText_ne_nil n)
  rw [hc] at hdigits hvalue ⊢
  rw [List.forall_mem_cons] at hdigits
  rw [readNat, hU.digit c hdigits.1, Option.bind_some, readDigits_eq hU hdigits.2, ← hvalue, Nat.ofDigitChars_cons]
  simp

/-! ### Decoding -/

/-- The length of a UTF-8 sequence by its first byte, with the range of the second byte. -/
def leadByte (b : UInt8) : Option (ℕ × UInt8 × UInt8) :=
  if 0xc2 ≤ b ∧ b ≤ 0xdf then some (1, 0x80, 0xbf)
  else if b = 0xe0 then some (2, 0xa0, 0xbf)
  else if b = 0xed then some (2, 0x80, 0x9f)
  else if 0xe1 ≤ b ∧ b ≤ 0xef then some (2, 0x80, 0xbf)
  else if b = 0xf0 then some (3, 0x90, 0xbf)
  else if 0xf1 ≤ b ∧ b ≤ 0xf3 then some (3, 0x80, 0xbf)
  else if b = 0xf4 then some (3, 0x80, 0x8f)
  else none

/-- `bytes.decode('utf-8', errors)`, where `bad` is what a malformed part becomes: nothing for `ignore`, U+FFFD for
`replace`.  Inside a sequence, `need` is the number of bytes still to come, `lo` and `hi` bound the next one and
`value` is what was read; a byte out of bounds ends the malformed part and is read again as a first byte. -/
def decodeFrom (bad : List Char) : (need : ℕ) → (lo hi : UInt8) → (value : ℕ) → List UInt8 → List Char
  | 0, _, _, _, [] => []
  | _ + 1, _, _, _, [] => bad
  | 0, _, _, _, b :: bs =>
    if b < 0x80 then Char.ofNat b.toNat :: decodeFrom bad 0 0 0 0 bs
    else
      match leadByte b with
      | none => bad ++ decodeFrom bad 0 0 0 0 bs
      | some (need, lo, hi) => decodeFrom bad need lo hi (b.toNat % 2 ^ (6 - need)) bs
  | need + 1, lo, hi, value, b :: bs =>
    if lo ≤ b ∧ b ≤ hi then
      if need = 0 then Char.ofNat (64 * value + b.toNat % 64) :: decodeFrom bad 0 0 0 0 bs
      else decodeFrom bad need 0x80 0xbf (64 * value + b.toNat % 64) bs
    else if b < 0x80 then bad ++ Char.ofNat b.toNat :: decodeFrom bad 0 0 0 0 bs
    else
      match leadByte b with
      | none => bad ++ bad ++ decodeFrom bad 0 0 0 0 bs
      | some (need, lo, hi) => bad ++ decodeFrom bad need lo hi (b.toNat % 2 ^ (6 - need)) bs

def decodeReplace (b : List UInt8) : List Char := decodeFrom [Char.ofNat 0xfffd] 0 0 0 0 b

def decodeIgnore (b : List UInt8) : List Char := decodeFrom [] 0 0 0 0 b

end PyText
