import Mathlib.Data.List.Basic

/-!
# Comparisons of the STIX pattern language

A comparison `[type:path = 'value']`, read by a lexer and a parser.  A string literal stands between quotes; a backslash
escapes a quote or another backslash, and nothing else.  `escape` writes a value that reads back as itself; a value that
is embedded as it is reads back exactly when it has neither of the two characters.
-/

namespace StixPattern

inductive Token where
  | lbrack
  | rbrack
  | colon
  | dot
  | eq
  | word (s : List Char)
  | literal (s : List Char)
  deriving DecidableEq

/-- What the lexer is inside of, with what it has read of it. -/
inductive Mode where
  | plain
  | word (acc : List Char)
  | literal (acc : List Char)
  | escaped (acc : List Char)
  deriving DecidableEq

def isWordChar (c : Char) : Bool := c.isAlphanum || c = '-' || c = '_'

def symbol? (c : Char) : Option Token :=
  if c = '[' then some .lbrack
  else if c = ']' then some .rbrack
  else if c = ':' then some .colon
  else if c = '.' then some .dot
  else if c = '=' then some .eq
  else none

/-- A character between tokens. -/
def enter (c : Char) : Option (List Token × Mode) :=
  if c = ' ' then some ([], .plain)
  else if c = '\'' then some ([], .literal [])
  else if isWordChar c then some ([], .word [c])
  else (symbol? c).map fun t => ([t], .plain)

def step : Mode → Char → Option (List Token × Mode)
  | .plain, c => enter c
  | .word acc, c =>
    if isWordChar c then some ([], .word (acc ++ [c])) else (enter c).map fun (ts, m) => (.word acc :: ts, m)
  | .literal acc, c =>
    if c = '\'' then some ([.literal acc], .plain)
    else if c = '\\' then some ([], .escaped acc)
    else some ([], .literal (acc ++ [c]))
  | .escaped acc, c => if c = '\'' || c = '\\' then some ([], .literal (acc ++ [c])) else none

/-- The tokens of a text and what the lexer is inside of behind it. -/
def scan : Mode → List Char → Option (List Token × Mode)
  | m, [] => some ([], m)
  | m, c :: cs => (step m c).bind fun r => (scan r.2 cs).map fun r' => (r.1 ++ r'.1, r'.2)

/-- A text may end between tokens or behind a word, but not in a literal. -/
def finish : List Token × Mode → Option (List Token)
  | (ts, .plain) => some ts
  | (ts, .word acc) => some (ts ++ [.word acc])
  | _ => none

def lex (s : List Char) : Option (List Token) := (scan .plain s).bind finish

/-- A comparison of an object's property with a string. -/
structure Comparison where
  objectType : List Char
  path : List (List Char)
  value : List Char
  deriving DecidableEq

def stepName : Token → Option (List Char)
  | .word s => some s
  | .literal s => some s
  | _ => none

/-- The steps of a path, with dots between them, and the tokens behind it. -/
def pathFrom : List Token → Option (List (List Char) × List Token)
  | t :: .dot :: ts => (stepName t).bind fun s => (pathFrom ts).map fun (path, rest) => (s :: path, rest)
  | t :: ts => (stepName t).map fun s => ([s], ts)
  | [] => none

/-- The value behind the equality sign. -/
def valueEnd (objectType : List Char) (path : List (List Char)) : List Token → Option Comparison
  | [.literal value, .rbrack] => some ⟨objectType, path, value⟩
  | _ => none

def comparison : List Token → Option Comparison
  | .lbrack :: .word objectType :: .colon :: ts =>
    (pathFrom ts).bind fun (path, rest) =>
      match rest with
      | .eq :: us => valueEnd objectType path us
      | _ => none
  | _ => none

def parse (s : List Char) : Option Comparison := (lex s).bind comparison

/-! ### Reading and writing literals -/

theorem scan_append (m : Mode) (s t : List Char) :
    scan m (s ++ t) = (scan m s).bind fun r => (scan r.2 t).map fun r' => (r.1 ++ r'.1, r'.2) := by
  induction s generalizing m with
  | nil => simp [scan]
  | cons c s ih =>
    rw [List.cons_append, scan, scan]
    cases step m c with
    | none => rfl
    | some r =>
      rw [Option.bind_some, Option.bind_some, ih]
      cases scan r.2 s with
      | none => rfl
      | some r' =>
        simp only [Option.bind_some, Option.map_some, Option.map_map]
        congr 1
        funext r''
        simp [List.append_assoc]

/-- The characters that a literal needs to escape. -/
def isSpecial (c : Char) : Bool := c = '\'' || c = '\\'

/-- A value as the text between the quotes of a literal. -/
def escape (value : List Char) : List Char := value.flatMap fun c => if isSpecial c then ['\\', c] else [c]

theorem escape_cons (c : Char) (value : List Char) :
    escape (c :: value) = (if isSpecial c then ['\\', c] else [c]) ++ escape value := rfl

theorem length_escape (value : List Char) : (escape value).length = value.length + value.countP isSpecial := by
  induction value with
  | nil => rfl
  | cons c value ih =>
    rw [escape_cons, List.length_append, ih, List.length_cons, List.countP_cons]
    cases isSpecial c with
    | true => simp; omega
    | false => simp; omega

theorem escape_eq_self {value : List Char} (h : ∀ c ∈ value, isSpecial c = false) : escape value = value := by
  induction value with
  | nil => rfl
  | cons c value ih =>
    rw [escape_cons, h c (by simp), if_neg Bool.false_ne_true, ih fun d hd => h d (List.mem_cons_of_mem c hd)]
    rfl

theorem step_literal_of_not_special {c : Char} (hc : isSpecial c = false) (acc : List Char) :
    step (.literal acc) c = some ([], .literal (acc ++ [c])) := by
  obtain ⟨hquote, hslash⟩ : c ≠ '\'' ∧ c ≠ '\\' := by simpa [isSpecial] using hc
  rw [step, if_neg hquote, if_neg hslash]

theorem step_escaped (acc : List Char) (c : Char) :
    step (.escaped acc) c = if isSpecial c then some ([], .literal (acc ++ [c])) else none := rfl

/-- An escaped value is read as itself. -/
theorem scan_escape (acc value : List Char) : scan (.literal acc) (escape value) = some ([], .literal (acc ++ value)) := by
  induction value generalizing acc with
  | nil =>
    rw [List.append_nil]
    rfl
  | cons c value ih =>
    have hone : scan (.literal acc) (if isSpecial c then ['\\', c] else [c]) = some ([], .literal (acc ++ [c])) := by
      cases hc : isSpecial c with
      | true =>
        have hslash : step (.literal acc) '\\' = some ([], .escaped acc) := rfl
        rw [if_pos rfl, scan, hslash, Option.bind_some, scan, step_escaped, hc]
        rfl
      | false =>
        rw [if_neg Bool.false_ne_true, scan, step_literal_of_not_special hc]
        rfl
    rw [escape_cons, scan_append, hone, Option.bind_some, ih, List.append_assoc]
    rfl

/-- Whether the text may not end in this mode. -/
def Mode.isOpen : Mode → Bool
  | .literal _ => true
  | .escaped _ => true
  | _ => false

/-- A literal that is read to its end is an escaped value. -/
theorem exists_of_scan_literal {acc s : List Char} {ts : List Token} {m : Mode}
    (h : scan (.literal acc) s = some (ts, m)) (hm : m.isOpen = false) :
    ∃ value rest ts', s = escape value ++ '\'' :: rest ∧ ts = .literal (acc ++ value) :: ts' ∧
      scan .plain rest = some (ts', m) := by
  induction hn : s.length using Nat.strongRecOn generalizing acc s ts with
  | ind n ih =>
    subst hn
    cases s with
    | nil =>
      obtain ⟨-, rfl⟩ : [] = ts ∧ Mode.literal acc = m := by simpa [scan] using h
      cases hm
    | cons c s =>
      cases hc : isSpecial c with
      | false =>
        rw [scan, step_literal_of_not_special hc, Option.bind_some] at h
        obtain ⟨value, rest, ts', hs, hts, hrest⟩ := ih s.length (by simp) (by simpa using h) rfl
        refine ⟨c :: value, rest, ts', ?_, by simpa using hts, hrest⟩
        rw [escape_cons, hc, if_neg Bool.false_ne_true, hs]
        rfl
      | true =>
        obtain rfl | rfl : c = '\'' ∨ c = '\\' := by simpa [isSpecial] using hc
        · -- the quote that ends the literal
          have hquote : step (.literal acc) '\'' = some ([.literal acc], .plain) := rfl
          rw [scan, hquote, Option.bind_some, Option.map_eq_some_iff] at h
          obtain ⟨⟨ts', m'⟩, hrest, heq⟩ := h
          obtain ⟨rfl, rfl⟩ : .literal acc :: ts' = ts ∧ m' = m := by simpa using heq
          exact ⟨[], s, ts', rfl, by rw [List.append_nil], hrest⟩
        · -- a backslash and the character that it escapes
          have hslash : step (.literal acc) '\\' = some ([], .escaped acc) := rfl
          rw [scan, hslash, Option.bind_some] at h
          have hescaped : scan (.escaped acc) s = some (ts, m) := by simpa using h
          cases s with
          | nil =>
            obtain ⟨-, rfl⟩ : [] = ts ∧ Mode.escaped acc = m := by simpa [scan] using hescaped
            cases hm
          | cons d s =>
            rw [scan, step_escaped] at hescaped
            split_ifs at hescaped with hd
            · rw [Option.bind_some] at hescaped
              have hlt : s.length < ('\\' :: d :: s).length := by
                simp only [List.length_cons]
                omega
              obtain ⟨value, rest, ts', hs, hts, hrest⟩ := ih s.length hlt (by simpa using hescaped) rfl
              refine ⟨d :: value, rest, ts', ?_, by simpa using hts, hrest⟩
              rw [escape_cons, hd, if_pos rfl, hs]
              rfl
            · cases hescaped

/-! ### Embedded values -/

/-- A text that begins a comparison, up to the quote in front of the value. -/
structure Begins (s : List Char) (objectType : List Char) (path : List (List Char)) (ts : List Token) : Prop where
  scan_eq : scan .plain s = some (ts, .literal [])
  comparison_eq : ∀ us, comparison (ts ++ us) = valueEnd objectType path us

variable {s objectType : List Char} {path : List (List Char)} {ts : List Token}

theorem comparison_of_pathFrom {us : List Token} (h : pathFrom ts = some (path, .eq :: us)) :
    comparison (.lbrack :: .word objectType :: .colon :: ts) = valueEnd objectType path us := by
  rw [comparison, h, Option.bind_some]

/-- A comparison with an escaped value is read back. -/
theorem Begins.parse_escape (h : Begins s objectType path ts) (value : List Char) :
    parse (s ++ escape value ++ ['\'', ']']) = some ⟨objectType, path, value⟩ := by
  have hend : scan (.literal value) ['\'', ']'] = some ([.literal value, .rbrack], .plain) := rfl
  rw [parse, lex, List.append_assoc, scan_append, h.scan_eq, Option.bind_some, scan_append, scan_escape]
  simp only [List.nil_append, Option.bind_some, hend, Option.map_some, finish]
  rw [h.comparison_eq]
  rfl

theorem Begins.parse_raw (h : Begins s objectType path ts) {value : List Char}
    (hplain : ∀ c ∈ value, isSpecial c = false) :
    parse (s ++ value ++ ['\'', ']']) = some ⟨objectType, path, value⟩ := by
  have hparse := h.parse_escape value
  rwa [escape_eq_self hplain] at hparse

/-- A value that is embedded as it is reads back exactly when no character of it needs an escape. -/
theorem Begins.parse_raw_iff (h : Begins s objectType path ts) (value : List Char) :
    (parse (s ++ value ++ ['\'', ']'])).map Comparison.value = some value ↔ ∀ c ∈ value, isSpecial c = false := by
  constructor
  · intro hvalue
    obtain ⟨comparison, hparse, hcomparison⟩ := Option.map_eq_some_iff.mp hvalue
    rw [parse, lex, List.append_assoc, scan_append, h.scan_eq, Option.bind_some] at hparse
    cases hscan : scan (.literal []) (value ++ ['\'', ']']) with
    | none => simp [hscan] at hparse
    | some r =>
      obtain ⟨us, m⟩ := r
      rw [hscan, Option.map_some, Option.bind_some] at hparse
      -- the tokens behind the beginning, with a word that the text ends in
      obtain ⟨word, hword, hm⟩ : ∃ word, finish (ts ++ us, m) = some (ts ++ (us ++ word)) ∧ m.isOpen = false := by
        cases m with
        | plain => exact ⟨[], by simp [finish], rfl⟩
        | word acc => exact ⟨[.word acc], by simp [finish], rfl⟩
        | literal acc => simp [finish] at hparse
        | escaped acc => simp [finish] at hparse
      obtain ⟨value', rest, ts', hraw, rfl, hrest⟩ := exists_of_scan_literal hscan hm
      rw [hword, Option.bind_some, h.comparison_eq] at hparse
      have hrest_ne : rest ≠ [] := by
        rintro rfl
        obtain ⟨rfl, rfl⟩ : [] = ts' ∧ Mode.plain = m := by simpa [scan] using hrest
        obtain rfl : word = [] := by simpa [finish] using hword
        simp [valueEnd] at hparse
      obtain rfl : value' = value := by
        unfold valueEnd at hparse
        split at hparse
        · rename_i us value'' heq
          have hhead : Token.literal value' = .literal value'' := by simpa using congrArg List.head? heq
          cases hhead
          rw [← Option.some.inj hparse] at hcomparison
          exact hcomparison
        · cases hparse
      have hlength := congrArg List.length hraw
      rw [List.length_append, List.length_append, length_escape] at hlength
      have hpos : 0 < rest.length := List.length_pos_iff.mpr hrest_ne
      have hcount : value'.countP isSpecial = 0 := by
        simp at hlength
        omega
      intro c hc
      simpa using List.countP_eq_zero.mp hcount c hc
  · intro hplain
    rw [h.parse_raw hplain]
    rfl

end StixPattern
