import Mathlib.Data.List.Infix
import Mathlib.Data.List.TakeWhile
import Cyanide.Lib.Lines

/-!
# The text exposition format

The line-oriented text format in which metrics are scraped: comments with the help and the type of a metric, and samples
with quoted label values.  `parse` reads a text and `render` writes one, with the label values escaped; what is written
is read back (`parse_render`).  Every label value that is read comes from between two quotes of one line and is no
longer than what stands there (`quoted_of_parse`).
-/

namespace Exposition

/-! ### Tokens -/

def isBlank (c : Char) : Bool := c = ' ' || c = '\t'

def skipBlanks (s : List Char) : List Char := s.dropWhile isBlank

/-- The tokens between blanks. -/
def tokens (s : List Char) : List (List Char) := (s.splitOnP isBlank).filter (· ≠ [])

/-- The first character of a name; a colon may stand in the name of a metric. -/
def isNameStart (colon : Bool) (c : Char) : Bool := c.isAlpha || c = '_' || (colon && c = ':')

def isNameChar (colon : Bool) (c : Char) : Bool := isNameStart colon c || c.isDigit

def isName (colon : Bool) : List Char → Bool
  | [] => false
  | c :: cs => isNameStart colon c && cs.all (isNameChar colon)

def readName (colon : Bool) (s : List Char) : Option (List Char × List Char) :=
  if isName colon (s.takeWhile (isNameChar colon)) then
    some (s.takeWhile (isNameChar colon), s.dropWhile (isNameChar colon))
  else none

def stripSign : List Char → List Char
  | '+' :: s | '-' :: s => s
  | s => s

def isDigits (s : List Char) : Bool := s ≠ [] && s.all Char.isDigit

/-- A decimal number with or without a fraction and an exponent. -/
def isDecimal (s : List Char) : Bool :=
  let mantissa := s.takeWhile fun c => c ≠ 'e' && c ≠ 'E'
  let power := s.dropWhile fun c => c ≠ 'e' && c ≠ 'E'
  let whole := mantissa.takeWhile (· ≠ '.')
  let fraction := (mantissa.dropWhile (· ≠ '.')).tail
  (whole ++ fraction).all Char.isDigit && whole ++ fraction ≠ [] && (power = [] || isDigits (stripSign power.tail))

/-- The value of a sample. -/
def isNumber (s : List Char) : Bool :=
  isDecimal (stripSign s) || (["inf", "infinity", "nan"].map String.toList).contains ((stripSign s).map Char.toLower)

theorem isNumber_of_isDigits {s : List Char} (h : isDigits (stripSign s) = true) : isNumber s = true := by
  obtain ⟨hne, hdigits⟩ : stripSign s ≠ [] ∧ ∀ c ∈ stripSign s, c.isDigit = true := by
    simpa [isDigits] using h
  have hpower : ∀ c ∈ stripSign s, (decide (c ≠ 'e') && decide (c ≠ 'E')) = true := by
    intro c hc
    have hd := hdigits c hc
    by_contra hcon
    obtain rfl | rfl : c = 'e' ∨ c = 'E' := by
      by_contra h
      rw [not_or] at h
      exact hcon (by simp [h])
    all_goals exact absurd hd (by decide)
  have hpoint : ∀ c ∈ stripSign s, decide (c ≠ '.') = true := by
    intro c hc
    refine decide_eq_true fun h => ?_
    exact absurd (hdigits c hc) (by rw [h]; decide)
  have hdecimal : isDecimal (stripSign s) = true := by
    rw [isDecimal, List.takeWhile_eq_self_iff.2 hpower, List.dropWhile_eq_nil_iff.2 hpower,
      List.takeWhile_eq_self_iff.2 hpoint, List.dropWhile_eq_nil_iff.2 hpoint]
    simpa [hne] using hdigits
  rw [isNumber, hdecimal]
  rfl

/-! ### Label values -/

def unescape (c : Char) : Option Char :=
  if c = '\\' then some '\\' else if c = '"' then some '"' else if c = 'n' then some '\n' else none

/-- The value up to the closing quote, and what follows it. -/
def readLabelValue : List Char → Option (List Char × List Char)
  | [] | ['\\'] => none
  | '"' :: s => some ([], s)
  | '\\' :: d :: s => (unescape d).bind fun e => (readLabelValue s).map fun r => (e :: r.1, r.2)
  | c :: s => (readLabelValue s).map fun r => (c :: r.1, r.2)

def escapeChar (c : Char) : List Char :=
  if c = '\\' then ['\\', '\\'] else if c = '"' then ['\\', '"'] else if c = '\n' then ['\\', 'n'] else [c]

def escape (v : List Char) : List Char := v.flatMap escapeChar

/-- A value that is its own escaped form. -/
def Plain (v : List Char) : Prop := '\\' ∉ v ∧ '"' ∉ v ∧ '\n' ∉ v

instance (v : List Char) : Decidable (Plain v) := inferInstanceAs (Decidable (_ ∧ _ ∧ _))

theorem escape_of_plain {v : List Char} (h : Plain v) : escape v = v := by
  obtain ⟨hb, hq, hn⟩ := h
  induction v with
  | nil => rfl
  | cons c v ih =>
    rw [List.mem_cons, not_or] at hb hq hn
    rw [escape, List.flatMap_cons, escapeChar, if_neg (Ne.symm hb.1), if_neg (Ne.symm hq.1), if_neg (Ne.symm hn.1)]
    exact congrArg (c :: ·) (ih hb.2 hq.2 hn.2)

theorem newline_notMem_escape (v : List Char) : '\n' ∉ escape v := by
  rw [escape, List.mem_flatMap]
  rintro ⟨c, -, hc⟩
  unfold escapeChar at hc
  split_ifs at hc with hb hq hn
  · simp at hc
  · simp at hc
  · simp at hc
  · exact hn (List.mem_singleton.1 hc).symm

theorem readLabelValue_escape (v s : List Char) : readLabelValue (escape v ++ '"' :: s) = some (v, s) := by
  induction v with
  | nil => rfl
  | cons c v ih =>
    have hcons : escape (c :: v) ++ '"' :: s = escapeChar c ++ (escape v ++ '"' :: s) := List.append_assoc ..
    rw [hcons]
    unfold escapeChar
    split_ifs with hb hq hn
    · rw [hb]
      simp [readLabelValue, unescape, ih]
    · rw [hq]
      simp [readLabelValue, unescape, ih]
    · rw [hn]
      simp [readLabelValue, unescape, ih]
    · simp [readLabelValue, hb, ih]

/-- What stands between two quotes can be read as the value: it is longer, unless nothing in it is escaped. -/
structure Reads (chunk v : List Char) : Prop where
  length_le : v.length ≤ chunk.length
  of_length_eq : v.length = chunk.length → '\\' ∉ chunk
  of_notMem : '\\' ∉ chunk → v = chunk ∧ '"' ∉ chunk

theorem chunk_of_readLabelValue {s v rest : List Char} (h : readLabelValue s = some (v, rest)) :
    ∃ chunk, s = chunk ++ '"' :: rest ∧ Reads chunk v := by
  fun_induction readLabelValue s generalizing v rest with
  | case1 => cases h
  | case2 => cases h
  | case3 s =>
    cases h
    exact ⟨[], rfl, le_rfl, fun _ => by simp, fun _ => ⟨rfl, by simp⟩⟩
  | case4 d s ih =>
    obtain ⟨e, -, h⟩ := Option.bind_eq_some_iff.1 h
    obtain ⟨⟨v', rest'⟩, hr, heq⟩ := Option.map_eq_some_iff.1 h
    cases heq
    obtain ⟨chunk, rfl, hreads⟩ := ih hr
    have hlen := hreads.length_le
    refine ⟨'\\' :: d :: chunk, rfl, ?_, fun heq => ?_, fun h => absurd List.mem_cons_self h⟩
    · simp only [List.length_cons]
      omega
    · simp only [List.length_cons] at heq
      omega
  | case5 c s hb hq hd ih =>
    obtain ⟨⟨v', rest'⟩, hr, heq⟩ := Option.map_eq_some_iff.1 h
    cases heq
    obtain ⟨chunk, rfl, hreads⟩ := ih hr
    have hne : c ≠ '\\' := by
      intro hc
      cases hs : chunk ++ '"' :: rest' with
      | nil => exact hb hc hs
      | cons d s => exact hd d s hc hs
    refine ⟨c :: chunk, rfl, Nat.succ_le_succ hreads.length_le, fun heq => ?_, fun hnot => ?_⟩
    · have hchunk := hreads.of_length_eq (Nat.succ.inj heq)
      simp [hne.symm, hchunk]
    · rw [List.mem_cons, not_or] at hnot
      obtain ⟨rfl, hquote⟩ := hreads.of_notMem hnot.2
      exact ⟨rfl, by simpa [hquote] using fun h : '"' = c => hq h.symm⟩

/-! ### Samples and comments -/

structure Sample where
  name : List Char
  labels : List (List Char × List Char)
  value : List Char
  timestamp : Option (List Char) := none
  deriving DecidableEq

/-- What a line says, if it is not blank and no plain comment. -/
inductive Entry where
  | help (name : List Char)
  | type (name kind : List Char)
  | sample (s : Sample)
  deriving DecidableEq

/-- A label with its value, and what follows the closing quote. -/
def readLabel (s : List Char) : Option ((List Char × List Char) × List Char) :=
  (readName false (skipBlanks s)).bind fun r =>
    match skipBlanks r.2 with
    | '=' :: s =>
      match skipBlanks s with
      | '"' :: s => (readLabelValue s).map fun v => ((r.1, v.1), v.2)
      | _ => none
    | _ => none

/-- The labels up to the closing brace, of which there are fewer than `fuel`; the last one may have a comma. -/
def readLabels : (fuel : ℕ) → List Char → Option (List (List Char × List Char) × List Char)
  | 0, _ => none
  | fuel + 1, s =>
    match skipBlanks s with
    | '}' :: s => some ([], s)
    | _ =>
      (readLabel s).bind fun l =>
        match skipBlanks l.2 with
        | ',' :: s => (readLabels fuel s).map fun r => (l.1 :: r.1, r.2)
        | '}' :: s => some ([l.1], s)
        | _ => none

/-- The labels of a sample, if it has some. -/
def readLabelSet (s : List Char) : Option (List (List Char × List Char) × List Char) :=
  match skipBlanks s with
  | '{' :: s => readLabels (s.length + 1) s
  | s => some ([], s)

def readSample (s : List Char) : Option Sample :=
  (readName true s).bind fun n =>
    (readLabelSet n.2).bind fun r =>
      if ¬(r.1.map Prod.fst).Nodup then none
      else
        match tokens r.2 with
        | [value] => if isNumber value then some ⟨n.1, r.1, value, none⟩ else none
        | [value, time] =>
          if isNumber value && isDigits (stripSign time) then some ⟨n.1, r.1, value, some time⟩ else none
        | _ => none

def kinds : List (List Char) := ["counter", "gauge", "histogram", "summary", "untyped"].map String.toList

/-- The line behind `#`. -/
def readComment (s : List Char) : Option (Option Entry) :=
  match tokens s with
  | [] => some none
  | keyword :: args =>
    if keyword = "HELP".toList then
      match args with
      | name :: _ => if isName true name then some (some (.help name)) else none
      | [] => none
    else if keyword = "TYPE".toList then
      match args with
      | [name, kind] => if isName true name && kinds.contains kind then some (some (.type name kind)) else none
      | _ => none
    else some none

def readLine (s : List Char) : Option (Option Entry) :=
  match skipBlanks s with
  | [] => some none
  | '#' :: s => readComment s
  | s => (readSample s).map fun x => some (.sample x)

def readLines : List (List Char) → Option (List Entry)
  | [] => some []
  | l :: ls => (readLine l).bind fun e => (readLines ls).map (e.toList ++ ·)

/-- The entries of a text whose lines can all be read; the last one has to end in a newline, too. -/
def parse (text : List Char) : Option (List Entry) :=
  if text ≠ [] ∧ text.getLast? ≠ some '\n' then none else readLines (text.splitOn '\n')

/-! ### Writing -/

/-- The samples of one metric, with its help text and type if they are given. -/
structure Family where
  name : List Char
  help : Option (List Char)
  kind : Option (List Char)
  samples : List (List (List Char × List Char) × List Char)

def renderLabel (l : List Char × List Char) : List Char := l.1 ++ '=' :: '"' :: escape l.2 ++ ['"']

def renderLabels (labels : List (List Char × List Char)) : List Char :=
  if labels = [] then [] else '{' :: List.intercalate [','] (labels.map renderLabel) ++ ['}']

namespace Family

variable (f : Family)

def render : List (List Char) :=
  (f.help.elim [] fun doc => ["# HELP ".toList ++ f.name ++ ' ' :: doc]) ++
    (f.kind.elim [] fun kind => ["# TYPE ".toList ++ f.name ++ ' ' :: kind]) ++
      f.samples.map fun x => f.name ++ renderLabels x.1 ++ ' ' :: x.2

def entries : List Entry :=
  (f.help.elim [] fun _ => [.help f.name]) ++ (f.kind.elim [] fun kind => [.type f.name kind]) ++
    f.samples.map fun x => .sample ⟨f.name, x.1, x.2, none⟩

/-- The names, kinds and values are what the format allows, and no sample is there twice. -/
structure WellFormed : Prop where
  name : isName true f.name = true
  help : ∀ doc ∈ f.help, '\n' ∉ doc
  kind : ∀ kind ∈ f.kind, kind ∈ kinds
  labels : ∀ x ∈ f.samples, (∀ l ∈ x.1, isName false l.1 = true) ∧ (x.1.map Prod.fst).Nodup
  values : ∀ x ∈ f.samples, isNumber x.2 = true ∧ ∀ c ∈ x.2, isBlank c = false ∧ c ≠ '\n'
  distinct : (f.samples.map Prod.fst).Nodup

end Family

def render (fs : List Family) : List Char := (fs.flatMap Family.render).flatMap (· ++ ['\n'])

/-- A well-formed exposition: each metric has one group of lines. -/
structure WellFormed (fs : List Family) : Prop where
  names : (fs.map Family.name).Nodup
  families : ∀ f ∈ fs, f.WellFormed

/-! ### What is read -/

/-- The value comes from between two quotes. -/
def Quoted (s v : List Char) : Prop := ∃ chunk, '"' :: chunk ++ ['"'] <:+: s ∧ Reads chunk v

theorem Quoted.mono {s t v : List Char} (h : Quoted s v) (hs : s <:+: t) : Quoted t v := by
  obtain ⟨chunk, hchunk, hreads⟩ := h
  exact ⟨chunk, hchunk.trans hs, hreads⟩

theorem skipBlanks_suffix (s : List Char) : skipBlanks s <:+ s := List.dropWhile_suffix _

theorem suffix_of_readName {colon : Bool} {s n rest : List Char} (h : readName colon s = some (n, rest)) :
    rest <:+ s := by
  unfold readName at h
  split_ifs at h
  cases h
  exact List.dropWhile_suffix _

private theorem suffix_of_skipBlanks {s rest : List Char} {c : Char} (h : skipBlanks s = c :: rest) : rest <:+ s :=
  (List.suffix_cons c rest).trans (h ▸ skipBlanks_suffix s)

theorem quoted_of_readLabel {s rest : List Char} {l : List Char × List Char} (h : readLabel s = some (l, rest)) :
    rest <:+ s ∧ Quoted s l.2 := by
  obtain ⟨⟨n, r⟩, hn, h⟩ := Option.bind_eq_some_iff.1 h
  have hr : r <:+ s := (suffix_of_readName hn).trans (skipBlanks_suffix s)
  dsimp only at h
  split at h
  · rename_i s₁ hs₁
    split at h
    · rename_i s₂ hs₂
      obtain ⟨⟨v, rest'⟩, hv, heq⟩ := Option.map_eq_some_iff.1 h
      cases heq
      obtain ⟨chunk, rfl, hreads⟩ := chunk_of_readLabelValue hv
      have hquote : '"' :: (chunk ++ '"' :: rest') <:+ s :=
        (hs₂ ▸ skipBlanks_suffix s₁).trans ((suffix_of_skipBlanks hs₁).trans hr)
      refine ⟨(List.suffix_append ('"' :: chunk ++ ['"']) rest').trans (by simpa using hquote), chunk, ?_, hreads⟩
      exact List.IsInfix.trans ⟨[], rest', by simp⟩ hquote.isInfix
    · cases h
  · cases h

theorem quoted_of_readLabels {fuel : ℕ} {s rest : List Char} {ls : List (List Char × List Char)}
    (h : readLabels fuel s = some (ls, rest)) : ∀ l ∈ ls, Quoted s l.2 := by
  induction fuel generalizing s ls rest with
  | zero => cases h
  | succ fuel ih =>
    unfold readLabels at h
    split at h
    · cases h
      simp
    · obtain ⟨⟨l, r⟩, hl, h⟩ := Option.bind_eq_some_iff.1 h
      obtain ⟨hr, hq⟩ := quoted_of_readLabel hl
      dsimp only at h
      split at h
      · rename_i s₁ hs₁
        obtain ⟨⟨ls', rest'⟩, hls, heq⟩ := Option.map_eq_some_iff.1 h
        cases heq
        rw [List.forall_mem_cons]
        refine ⟨hq, fun l hl => (ih hls l hl).mono ?_⟩
        exact ((suffix_of_skipBlanks hs₁).trans hr).isInfix
      · cases h
        simpa using hq
      · cases h

theorem quoted_of_readSample {s : List Char} {x : Sample} (h : readSample s = some x) :
    ∀ l ∈ x.labels, Quoted s l.2 := by
  obtain ⟨⟨n, r⟩, hn, h⟩ := Option.bind_eq_some_iff.1 h
  obtain ⟨⟨ls, rest⟩, hls, h⟩ := Option.bind_eq_some_iff.1 h
  have hx : x.labels = ls := by
    dsimp only at h
    split_ifs at h
    split at h
    · split_ifs at h
      cases h
      rfl
    · split_ifs at h
      cases h
      rfl
    · cases h
  have hquoted : ∀ l ∈ ls, Quoted r l.2 := by
    unfold readLabelSet at hls
    split at hls
    · rename_i s₁ hs₁
      exact fun l hl => (quoted_of_readLabels hls l hl).mono (suffix_of_skipBlanks hs₁).isInfix
    · cases hls
      simp
  intro l hl
  exact (hquoted l (hx ▸ hl)).mono (suffix_of_readName hn).isInfix

theorem quoted_of_readLine {s : List Char} {x : Sample} (h : readLine s = some (some (.sample x))) :
    ∀ l ∈ x.labels, Quoted s l.2 := by
  unfold readLine at h
  split at h
  · cases h
  · unfold readComment at h
    split at h
    · cases h
    · split_ifs at h
      · split at h
        · split_ifs at h
          cases h
        · cases h
      · split at h
        · split_ifs at h
          cases h
        · cases h
      · cases h
  · obtain ⟨y, hy, heq⟩ := Option.map_eq_some_iff.1 h
    cases heq
    exact fun l hl => (quoted_of_readSample hy l hl).mono (skipBlanks_suffix s).isInfix

theorem exists_line_of_readLines {ls : List (List Char)} {es : List Entry} (h : readLines ls = some es) {e : Entry}
    (he : e ∈ es) : ∃ l ∈ ls, readLine l = some (some e) := by
  induction ls generalizing es with
  | nil =>
    cases h
    cases he
  | cons l ls ih =>
    obtain ⟨o, ho, h⟩ := Option.bind_eq_some_iff.1 h
    obtain ⟨es', hes, rfl⟩ := Option.map_eq_some_iff.1 h
    rcases List.mem_append.1 he with he | he
    · rw [Option.mem_toList] at he
      exact ⟨l, List.mem_cons_self, ho.trans (congrArg some he)⟩
    · obtain ⟨l', hl', hr⟩ := ih hes he
      exact ⟨l', List.mem_cons_of_mem _ hl', hr⟩

/-- The label values of a text come from its lines. -/
theorem quoted_of_parse {text : List Char} {es : List Entry} (h : parse text = some es) {x : Sample}
    (hx : .sample x ∈ es) : ∃ line ∈ text.splitOn '\n', ∀ l ∈ x.labels, Quoted line l.2 := by
  unfold parse at h
  split_ifs at h
  obtain ⟨line, hline, hread⟩ := exists_line_of_readLines h hx
  exact ⟨line, hline, quoted_of_readLine hread⟩

theorem readLines_append (a b : List (List Char)) :
    readLines (a ++ b) = (readLines a).bind fun x => (readLines b).map (x ++ ·) := by
  induction a with
  | nil =>
    rw [List.nil_append, readLines, Option.bind_some]
    cases readLines b <;> rfl
  | cons l a ih =>
    rw [List.cons_append, readLines, readLines, ih]
    cases readLine l with
    | none => rfl
    | some e =>
      cases readLines a with
      | none => rfl
      | some x =>
        cases readLines b with
        | none => rfl
        | some y => simp

private theorem exists_prefix_append {d : Char} {p r a s : List Char} (hp : d ∉ p) (h : p ++ d :: r = a ++ d :: s) :
    ∃ t, a = p ++ t := by
  induction p generalizing a with
  | nil => exact ⟨a, rfl⟩
  | cons c p ih =>
    rw [List.mem_cons, not_or] at hp
    cases a with
    | nil => exact absurd (List.cons.inj h).1.symm hp.1
    | cons c' a =>
      obtain ⟨rfl, hrest⟩ := List.cons.inj h
      obtain ⟨t, rfl⟩ := ih hp.2 hrest
      exact ⟨t, rfl⟩

/-- What stands between two quotes of a text that is quoted once, but may have quotes of its own. -/
private theorem chunk_of_infix {p x q chunk : List Char} (hp : '"' ∉ p) (hq : '"' ∉ q)
    (h : '"' :: chunk ++ ['"'] <:+: p ++ '"' :: x ++ '"' :: q) :
    ∃ t w, x = t ++ chunk ++ w ∧ (t = [] ∨ '"' ∈ t) ∧ (w = [] ∨ '"' ∈ w) := by
  obtain ⟨a, b, hab⟩ := h
  obtain ⟨t, rfl⟩ : ∃ t, a = p ++ t :=
    exists_prefix_append (d := '"') (r := x ++ '"' :: q) (s := chunk ++ '"' :: b) hp (by simpa using hab.symm)
  obtain ⟨w, hw⟩ : ∃ w, b.reverse = q.reverse ++ w := by
    refine exists_prefix_append (d := '"') (r := (p ++ '"' :: x).reverse) (s := (p ++ t ++ '"' :: chunk).reverse)
      (by simpa using hq) ?_
    have hrev := congrArg List.reverse hab.symm
    simpa using hrev
  obtain rfl : b = w.reverse ++ q := by
    rw [← List.reverse_reverse b, hw]
    simp
  have hx : '"' :: (x ++ ['"']) = t ++ '"' :: (chunk ++ '"' :: w.reverse) := by
    refine (List.append_right_inj p).1 ((List.append_left_inj q).1 ?_)
    simpa using hab.symm
  obtain ⟨w', hx', hw'⟩ : ∃ w', '"' :: x = t ++ '"' :: (chunk ++ w') ∧ (w' = [] ∨ '"' ∈ w') := by
    rcases List.eq_nil_or_concat w.reverse with hnil | ⟨u, e, hu⟩
    · refine ⟨[], (List.append_left_inj ['"']).1 ?_, .inl rfl⟩
      simpa [hnil] using hx
    · have hsplit : ('"' :: x) ++ ['"'] = (t ++ '"' :: (chunk ++ '"' :: u)) ++ [e] := by simpa [hu] using hx
      exact ⟨'"' :: u, (List.append_inj' hsplit rfl).1, .inr List.mem_cons_self⟩
  cases t with
  | nil => exact ⟨[], w', (List.cons.inj hx').2, .inl rfl, hw'⟩
  | cons c t =>
    refine ⟨t ++ ['"'], w', ?_, .inr (by simp), hw'⟩
    simpa using (List.cons.inj hx').2

/-- A value that is read from a part of a line with a quoted text is that text, or else it is shorter. -/
theorem Quoted.cases {p x q line v : List Char} (hp : '"' ∉ p) (hq : '"' ∉ q)
    (hline : line <:+: p ++ '"' :: x ++ '"' :: q) (hn : '\n' ∉ line) (h : Quoted line v) :
    (v = x ∧ Plain x) ∨ (v.length < x.length ∧ ¬Plain x) := by
  obtain ⟨chunk, hchunk, hreads⟩ := h
  obtain ⟨t, w, rfl, ht, hw⟩ := chunk_of_infix hp hq (hchunk.trans hline)
  have hlen := hreads.length_le
  have hquoted : '"' ∈ t ∨ '"' ∈ w → (v.length < (t ++ chunk ++ w).length ∧ ¬Plain (t ++ chunk ++ w)) := by
    intro h
    refine ⟨?_, fun hplain => hplain.2.1 ?_⟩
    · rcases h with h | h <;> have hpos := List.length_pos_of_mem h <;> simp only [List.length_append] <;> omega
    · rcases h with h | h <;> simp [h]
  rcases ht with rfl | ht
  · rcases hw with rfl | hw
    · rw [List.nil_append, List.append_nil] at *
      by_cases hb : '\\' ∈ chunk
      · right
        refine ⟨lt_of_le_of_ne hlen fun heq => hreads.of_length_eq heq hb, fun hplain => hplain.1 hb⟩
      · obtain ⟨rfl, hquote⟩ := hreads.of_notMem hb
        refine .inl ⟨rfl, hb, hquote, fun hnl => hn (hchunk.subset ?_)⟩
        simp [hnl]
    · exact .inr (hquoted (.inr hw))
  · exact .inr (hquoted (.inl ht))

/-! ### What is written is read back -/

theorem skipBlanks_cons {c : Char} (hc : isBlank c = false) (s : List Char) : skipBlanks (c :: s) = c :: s := by
  rw [skipBlanks, List.dropWhile_cons_of_neg (by rw [hc]; exact Bool.false_ne_true)]

theorem isBlank_of_isNameChar {colon : Bool} {c : Char} (h : isNameChar colon c = true) : isBlank c = false := by
  by_contra hcon
  rw [Bool.not_eq_false, isBlank, Bool.or_eq_true, decide_eq_true_eq, decide_eq_true_eq] at hcon
  rcases hcon with rfl | rfl <;> cases colon <;> revert h <;> decide

theorem isNameChar_of_isName {colon : Bool} {n : List Char} (h : isName colon n = true) :
    ∀ c ∈ n, isNameChar colon c = true := by
  cases n with
  | nil => simp
  | cons c cs =>
    rw [isName, Bool.and_eq_true, List.all_eq_true] at h
    rw [List.forall_mem_cons, isNameChar, h.1]
    exact ⟨rfl, h.2⟩

theorem readName_append {colon : Bool} {n s : List Char} (hn : isName colon n = true)
    (hs : ∀ c ∈ s.head?, isNameChar colon c = false) : readName colon (n ++ s) = some (n, s) := by
  have hrest : s.takeWhile (isNameChar colon) = [] ∧ s.dropWhile (isNameChar colon) = s := by
    cases s with
    | nil => exact ⟨rfl, rfl⟩
    | cons c s =>
      have hc : ¬isNameChar colon c = true := by rw [hs c rfl]; exact Bool.false_ne_true
      exact ⟨List.takeWhile_cons_of_neg hc, List.dropWhile_cons_of_neg hc⟩
  have htake : (n ++ s).takeWhile (isNameChar colon) = n := by
    rw [List.takeWhile_append_of_pos (isNameChar_of_isName hn), hrest.1, List.append_nil]
  have hdrop : (n ++ s).dropWhile (isNameChar colon) = s := by
    rw [List.dropWhile_append_of_pos (isNameChar_of_isName hn), hrest.2]
  rw [readName, htake, hdrop, if_pos hn]

theorem skipBlanks_name {colon : Bool} {n s : List Char} (hn : isName colon n = true) :
    skipBlanks (n ++ s) = n ++ s := by
  cases n with
  | nil => cases hn
  | cons c cs => exact skipBlanks_cons (isBlank_of_isNameChar (isNameChar_of_isName hn c List.mem_cons_self)) _

theorem readLabel_render {l : List Char × List Char} (hl : isName false l.1 = true) (s : List Char) :
    readLabel (renderLabel l ++ s) = some (l, s) := by
  have hsplit : renderLabel l ++ s = l.1 ++ '=' :: '"' :: (escape l.2 ++ '"' :: s) := by simp [renderLabel]
  have hequals : skipBlanks ('=' :: '"' :: (escape l.2 ++ '"' :: s)) = '=' :: '"' :: (escape l.2 ++ '"' :: s) :=
    skipBlanks_cons (by decide) _
  have hquote : skipBlanks ('"' :: (escape l.2 ++ '"' :: s)) = '"' :: (escape l.2 ++ '"' :: s) :=
    skipBlanks_cons (by decide) _
  rw [readLabel, hsplit, skipBlanks_name hl, readName_append hl (by simp; decide), Option.bind_some]
  simp only [hequals, hquote, readLabelValue_escape]
  rfl

theorem readLabels_render {labels : List (List Char × List Char)} (hl : ∀ l ∈ labels, isName false l.1 = true)
    {fuel : ℕ} (hfuel : labels.length < fuel) (s : List Char) :
    readLabels fuel (List.intercalate [','] (labels.map renderLabel) ++ '}' :: s) = some (labels, s) := by
  induction labels generalizing fuel with
  | nil =>
    obtain ⟨fuel, rfl⟩ := Nat.exists_eq_succ_of_ne_zero (Nat.ne_of_gt hfuel)
    have hbrace : skipBlanks ('}' :: s) = '}' :: s := skipBlanks_cons (by decide) s
    simp [readLabels, hbrace]
  | cons l labels ih =>
    obtain ⟨fuel, rfl⟩ := Nat.exists_eq_succ_of_ne_zero (Nat.ne_of_gt (Nat.zero_lt_of_lt hfuel))
    rw [List.forall_mem_cons] at hl
    have hrest : ∃ rest, List.intercalate [','] ((l :: labels).map renderLabel) ++ '}' :: s = renderLabel l ++ rest ∧
        (rest = ',' :: (List.intercalate [','] (labels.map renderLabel) ++ '}' :: s) ∨
          (labels = [] ∧ rest = '}' :: s)) := by
      cases labels with
      | nil => exact ⟨_, by simp [List.intercalate], .inr ⟨rfl, rfl⟩⟩
      | cons l' labels => exact ⟨_, by simp [List.intercalate_cons_cons], .inl rfl⟩
    obtain ⟨rest, heq, hrest⟩ := hrest
    rw [heq, readLabels]
    split
    · rename_i s' hs'
      -- a label begins with its name
      rw [renderLabel, List.append_assoc, List.append_assoc, skipBlanks_name hl.1] at hs'
      have hbrace : isNameChar false '}' = true := by
        refine isNameChar_of_isName hl.1 '}' ?_
        cases hname : l.1 with
        | nil =>
          rw [hname] at hl
          cases hl.1
        | cons c cs =>
          rw [hname] at hs'
          cases hs'
          exact List.mem_cons_self
      exact absurd hbrace (by decide)
    · rw [readLabel_render hl.1, Option.bind_some]
      rcases hrest with rfl | ⟨rfl, rfl⟩
      · have hcomma : ∀ s, skipBlanks (',' :: s) = ',' :: s := skipBlanks_cons (by decide)
        simp only [hcomma]
        rw [ih hl.2 (by simpa using hfuel)]
        rfl
      · have hbrace : skipBlanks ('}' :: s) = '}' :: s := skipBlanks_cons (by decide) s
        simp only [hbrace]

theorem tokens_blank (s : List Char) : tokens (' ' :: s) = tokens s := by
  have hsplit := List.splitOnP_append_cons [] s (show isBlank ' ' = true by decide)
  rw [List.nil_append] at hsplit
  rw [tokens, hsplit]
  rfl

theorem tokens_append (a s : List Char) : tokens (a ++ ' ' :: s) = tokens a ++ tokens s := by
  rw [tokens, List.splitOnP_append_cons a s (show isBlank ' ' = true by decide), List.filter_append]
  rfl

theorem tokens_of_forall {s : List Char} (hne : s ≠ []) (hs : ∀ c ∈ s, isBlank c = false) : tokens s = [s] := by
  rw [tokens, List.splitOnP_eq_singleton hs]
  simp [hne]

private theorem length_le_render (labels : List (List Char × List Char)) :
    labels.length ≤ (List.intercalate [','] (labels.map renderLabel)).length := by
  induction labels with
  | nil => simp
  | cons l labels ih =>
    cases labels with
    | nil =>
      simp [List.intercalate, renderLabel]
      omega
    | cons l' labels =>
      rw [List.map_cons, List.map_cons, List.intercalate_cons_cons, List.length_append, List.length_append]
      rw [List.map_cons] at ih
      simp only [List.length_cons, List.length_nil] at ih ⊢
      omega

private theorem isNumber_brace (s : List Char) : isNumber ('{' :: s) = false := by
  have hdecimal : isDecimal ('{' :: s) = false := by
    simp [isDecimal]
  have hlower : ('{' :: s).map Char.toLower ∉ ["inf", "infinity", "nan"].map String.toList := by
    simp
  rw [isNumber, show stripSign ('{' :: s) = '{' :: s from rfl, hdecimal, Bool.false_or]
  exact decide_eq_false hlower

/-- The line of a sample is read back. -/
theorem readSample_render {n value : List Char} {labels : List (List Char × List Char)} (hn : isName true n = true)
    (hl : ∀ l ∈ labels, isName false l.1 = true) (hnodup : (labels.map Prod.fst).Nodup)
    (hvalue : isNumber value = true) (hblank : ∀ c ∈ value, isBlank c = false) :
    readSample (n ++ renderLabels labels ++ ' ' :: value) = some ⟨n, labels, value, none⟩ := by
  have hne : value ≠ [] := by
    rintro rfl
    exact absurd hvalue (by decide)
  have htokens : tokens value = [value] := tokens_of_forall hne hblank
  have hset : ∃ rest, readLabelSet (renderLabels labels ++ ' ' :: value) = some (labels, rest) ∧
      tokens rest = [value] := by
    by_cases hnil : labels = []
    · refine ⟨value, ?_, htokens⟩
      have hskip : skipBlanks (' ' :: value) = value := by
        obtain ⟨c, cs, rfl⟩ := List.exists_cons_of_ne_nil hne
        exact skipBlanks_cons (hblank c List.mem_cons_self) cs
      rw [renderLabels, if_pos hnil, List.nil_append, readLabelSet, hskip]
      split
      · rw [isNumber_brace] at hvalue
        cases hvalue
      · rw [hnil]
    · refine ⟨' ' :: value, ?_, (tokens_blank value).trans htokens⟩
      have hbrace : renderLabels labels ++ ' ' :: value =
          '{' :: (List.intercalate [','] (labels.map renderLabel) ++ '}' :: ' ' :: value) := by
        rw [renderLabels, if_neg hnil]
        simp
      have hskip := skipBlanks_cons (c := '{') (by decide)
        (List.intercalate [','] (labels.map renderLabel) ++ '}' :: ' ' :: value)
      rw [readLabelSet, hbrace, hskip]
      refine readLabels_render hl ?_ _
      have hlen := length_le_render labels
      rw [List.length_append]
      omega
  obtain ⟨rest, hset, hrest⟩ := hset
  have hhead : ∀ c ∈ (renderLabels labels ++ ' ' :: value).head?, isNameChar true c = false := by
    intro c hc
    unfold renderLabels at hc
    split_ifs at hc
    · cases hc
      decide
    · cases hc
      decide
  rw [readSample, List.append_assoc, readName_append hn hhead, Option.bind_some]
  dsimp only
  rw [hset, Option.bind_some]
  dsimp only
  rw [if_neg (not_not_intro hnodup), hrest]
  dsimp only
  rw [if_pos hvalue]

private theorem not_comment_of_name {n : List Char} (hn : isName true n = true) (s : List Char) :
    readLine (n ++ s) = (readSample (n ++ s)).map fun x => some (.sample x) := by
  rw [readLine, skipBlanks_name hn]
  cases n with
  | nil => cases hn
  | cons c cs =>
    rw [List.cons_append]
    split
    · rename_i h
      cases h
    · rename_i h
      cases h
      exact absurd (isNameChar_of_isName hn '#' List.mem_cons_self) (by decide)
    · rfl

private theorem tokens_name {n : List Char} (hn : isName true n = true) : tokens n = [n] := by
  refine tokens_of_forall ?_ fun c hc => isBlank_of_isNameChar (isNameChar_of_isName hn c hc)
  rintro rfl
  cases hn

private theorem tokens_comment {keyword n : List Char} (hk : tokens keyword = [keyword]) (hn : isName true n = true)
    (s : List Char) : tokens (' ' :: (keyword ++ ' ' :: (n ++ ' ' :: s))) = keyword :: n :: tokens s := by
  rw [tokens_blank, tokens_append, tokens_append, hk, tokens_name hn]
  rfl

theorem readLine_help {n : List Char} (hn : isName true n = true) (doc : List Char) :
    readLine ("# HELP ".toList ++ n ++ ' ' :: doc) = some (some (.help n)) := by
  have hline : "# HELP ".toList ++ n ++ ' ' :: doc = '#' :: ' ' :: ("HELP".toList ++ ' ' :: (n ++ ' ' :: doc)) := by
    simp
  rw [hline, readLine, skipBlanks_cons (by decide)]
  change readComment _ = _
  unfold readComment
  rw [tokens_comment (by decide) hn]
  exact (if_pos rfl).trans (if_pos hn)

theorem readLine_type {n kind : List Char} (hn : isName true n = true) (hk : kind ∈ kinds) :
    readLine ("# TYPE ".toList ++ n ++ ' ' :: kind) = some (some (.type n kind)) := by
  have hline : "# TYPE ".toList ++ n ++ ' ' :: kind = '#' :: ' ' :: ("TYPE".toList ++ ' ' :: (n ++ ' ' :: kind)) := by
    simp
  have hkind : tokens kind = [kind] := by
    have hkinds : ∀ k ∈ kinds, tokens k = [k] := by decide
    exact hkinds kind hk
  rw [hline, readLine, skipBlanks_cons (by decide)]
  change readComment _ = _
  unfold readComment
  rw [tokens_comment (by decide) hn, hkind]
  refine (if_neg (by decide)).trans ((if_pos rfl).trans (if_pos ?_))
  rw [hn, List.contains_iff_mem.2 hk]
  rfl

private theorem readLines_map {α : Type} {l : List α} {line : α → List Char} {entry : α → Entry}
    (h : ∀ x ∈ l, readLine (line x) = some (some (entry x))) :
    readLines (l.map line) = some (l.map entry) := by
  induction l with
  | nil => rfl
  | cons x l ih =>
    rw [List.forall_mem_cons] at h
    rw [List.map_cons, readLines, h.1, ih h.2]
    rfl

private theorem readLines_singleton {line : List Char} {e : Entry} (h : readLine line = some (some e)) :
    readLines [line] = some [e] := by
  rw [readLines, h]
  rfl

/-- The lines of a family are read back. -/
theorem readLines_family {f : Family} (h : f.WellFormed) : readLines f.render = some f.entries := by
  have hhelp : readLines (f.help.elim [] fun doc => ["# HELP ".toList ++ f.name ++ ' ' :: doc]) =
      some (f.help.elim [] fun _ => [.help f.name]) := by
    cases f.help with
    | none => rfl
    | some doc => exact readLines_singleton (readLine_help h.name doc)
  have hkind : readLines (f.kind.elim [] fun kind => ["# TYPE ".toList ++ f.name ++ ' ' :: kind]) =
      some (f.kind.elim [] fun kind => [.type f.name kind]) := by
    cases hk : f.kind with
    | none => rfl
    | some kind => exact readLines_singleton (readLine_type h.name (h.kind kind hk))
  have hsamples : readLines (f.samples.map fun x => f.name ++ renderLabels x.1 ++ ' ' :: x.2) =
      some (f.samples.map fun x => .sample ⟨f.name, x.1, x.2, none⟩) := by
    refine readLines_map fun x hx => ?_
    obtain ⟨hlabels, hnodup⟩ := h.labels x hx
    obtain ⟨hnumber, hblank⟩ := h.values x hx
    rw [List.append_assoc, not_comment_of_name h.name, ← List.append_assoc,
      readSample_render h.name hlabels hnodup hnumber fun c hc => (hblank c hc).1]
    rfl
  rw [Family.render, readLines_append, readLines_append, hhelp, hkind, hsamples]
  rfl

private theorem newline_notMem_name {colon : Bool} {n : List Char} (hn : isName colon n = true) : '\n' ∉ n := by
  intro h
  have hc := isNameChar_of_isName hn '\n' h
  revert hc
  cases colon <;> decide

private theorem newline_notMem_renderLabels {labels : List (List Char × List Char)}
    (hl : ∀ l ∈ labels, isName false l.1 = true) : '\n' ∉ renderLabels labels := by
  have hlabel : ∀ l ∈ labels, '\n' ∉ renderLabel l := by
    intro l hmem
    have hname := newline_notMem_name (hl l hmem)
    have hvalue := newline_notMem_escape l.2
    simp [renderLabel, hname, hvalue]
  have hjoin : '\n' ∉ List.intercalate [','] (labels.map renderLabel) := by
    clear hl
    induction labels with
    | nil => simp
    | cons l labels ih =>
      rw [List.forall_mem_cons] at hlabel
      cases labels with
      | nil => simpa [List.intercalate] using hlabel.1
      | cons l' labels =>
        have hrest := ih hlabel.2
        rw [List.map_cons] at hrest
        rw [List.map_cons, List.map_cons, List.intercalate_cons_cons]
        simp [hlabel.1, hrest]
  unfold renderLabels
  split_ifs
  · simp
  · simp [hjoin]

theorem newline_notMem_family {f : Family} (h : f.WellFormed) : ∀ line ∈ f.render, '\n' ∉ line := by
  have hname := newline_notMem_name h.name
  intro line hline
  rw [Family.render, List.mem_append, List.mem_append] at hline
  rcases hline with (hline | hline) | hline
  · cases hhelp : f.help with
    | none => simp [hhelp] at hline
    | some doc =>
      have hdoc := h.help doc hhelp
      obtain rfl : line = _ := by simpa [hhelp] using hline
      simp [hname, hdoc]
  · cases hkind : f.kind with
    | none => simp [hkind] at hline
    | some kind =>
      have hk : '\n' ∉ kind := by
        have hkinds : ∀ k ∈ kinds, '\n' ∉ k := by decide
        exact hkinds kind (h.kind kind hkind)
      obtain rfl : line = _ := by simpa [hkind] using hline
      simp [hname, hk]
  · obtain ⟨x, hx, rfl⟩ := List.mem_map.1 hline
    have hvalue : '\n' ∉ x.2 := fun hc => ((h.values x hx).2 _ hc).2 rfl
    have hlabels := newline_notMem_renderLabels (h.labels x hx).1
    simp [hname, hvalue, hlabels]

/-- The lines of a text that is put together of lines, which may have newlines of their own. -/
theorem splitOn_flatMap (lines : List (List Char)) :
    (lines.flatMap (· ++ ['\n'])).splitOn '\n' = lines.flatMap (·.splitOn '\n') ++ [[]] := by
  induction lines with
  | nil => rfl
  | cons l lines ih =>
    rw [List.flatMap_cons, List.append_assoc, List.singleton_append, List.splitOn_append_cons_self, ih,
      List.flatMap_cons, List.append_assoc]

/-- The lines of a text are parts of it without a newline. -/
theorem mem_splitOn {s l : List Char} (h : l ∈ s.splitOn '\n') : l <:+: s ∧ '\n' ∉ l := by
  induction hn : s.length using Nat.strongRecOn generalizing s with
  | ind n ih =>
    by_cases hnl : '\n' ∈ s
    · obtain ⟨a, b, rfl, ha⟩ := List.eq_append_cons_of_mem hnl
      rw [List.splitOn_append_cons_self_of_not_mem ha, List.mem_cons] at h
      rcases h with rfl | h
      · exact ⟨(List.prefix_append l _).isInfix, ha⟩
      · obtain ⟨hb, hl⟩ := ih b.length (by rw [← hn]; simp; omega) h rfl
        exact ⟨hb.trans ((List.suffix_cons '\n' b).trans (List.suffix_append a _)).isInfix, hl⟩
    · rw [List.splitOn_eq_singleton hnl, List.mem_singleton] at h
      rw [h]
      exact ⟨List.infix_rfl, hnl⟩

/-- The entries of a well-formed exposition are read back from its text. -/
theorem parse_render {fs : List Family} (h : ∀ f ∈ fs, f.WellFormed) :
    parse (render fs) = some (fs.flatMap Family.entries) := by
  have hlines : readLines (fs.flatMap Family.render) = some (fs.flatMap Family.entries) := by
    induction fs with
    | nil => rfl
    | cons f fs ih =>
      rw [List.forall_mem_cons] at h
      rw [List.flatMap_cons, readLines_append, readLines_family h.1, ih h.2]
      rfl
  have hsplit : (fs.flatMap Family.render).flatMap (·.splitOn '\n') = fs.flatMap Family.render := by
    have hline : ∀ line ∈ fs.flatMap Family.render, line.splitOn '\n' = [line] := by
      intro line hline
      obtain ⟨f, hf, hl⟩ := List.mem_flatMap.1 hline
      exact List.splitOn_eq_singleton (newline_notMem_family (h f hf) line hl)
    rw [List.flatMap_congr hline, List.flatMap_singleton']
  rw [parse, if_neg, render, splitOn_flatMap, hsplit, readLines_append, hlines]
  · simp [readLines, readLine, skipBlanks]
  · rintro ⟨hne, hlast⟩
    refine hlast (PyText.getLast?_flatMap ?_)
    rintro hnil
    rw [render, hnil] at hne
    exact hne rfl

end Exposition
