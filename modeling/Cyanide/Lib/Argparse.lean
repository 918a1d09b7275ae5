import Mathlib.Algebra.GroupWithZero.Nat
import Mathlib.Data.List.DropRight

/-!
# Command-line parsing with unknown arguments

`parseKnownArgs` follows `argparse.ArgumentParser.parse_known_args` for parsers whose options either are flags or take
one value, and whose positionals take at most one argument (`?`), any number (`*`) or at least one (`+`).  The argument
strings are classified first (`classify`); then options are consumed one after the other with the positionals in
front of them, and the positionals that are left take what follows the last option.  Positionals are matched greedily,
which is what the regular expressions of the original amount to when only the first positional is a `+`.  An error of
the parser, where the original exits the process, is `none`.
-/

namespace Argparse

/-- What an option does with its value. -/
inductive Action where
  | flag
  | text
  | int
  deriving DecidableEq

structure Opt where
  strings : List (List Char)
  dest : List Char
  action : Action

inductive Nargs where
  | zeroOrOne
  | zeroOrMore
  | oneOrMore
  deriving DecidableEq

structure Positional where
  dest : List Char
  nargs : Nargs

structure Parser where
  options : List Opt
  positionals : List Positional

/-- A value in the namespace that the parser fills. -/
inductive Value where
  | set
  | text (s : List Char)
  | int (n : Int)
  | texts (l : List (List Char))
  deriving DecidableEq

/-- The namespace, the last assignment first, and the arguments that were not recognised. -/
structure Parsed where
  values : List (List Char × Value) := []
  extras : List (List Char) := []

namespace Parsed

def value (p : Parsed) (dest : List Char) : Option Value := p.values.lookup dest

def isSet (p : Parsed) (dest : List Char) : Bool := p.value dest = some .set

/-- The text of an option or of a positional with `?`. -/
def text (p : Parsed) (dest : List Char) : Option (List Char) :=
  match p.value dest with
  | some (.text s) => some s
  | _ => none

def texts (p : Parsed) (dest : List Char) : List (List Char) :=
  match p.value dest with
  | some (.texts l) => l
  | _ => []

def int (p : Parsed) (dest : List Char) (default : Int) : Int :=
  match p.value dest with
  | some (.int n) => n
  | _ => default

end Parsed

/-- An option string with the option it stands for, and what follows it in the same argument: the separator (`true`
for `=`) and the text. -/
structure Match where
  option : Option Opt
  string : List Char
  explicit : Option (Bool × List Char)

/-- A classified argument string. -/
inductive Tag where
  | arg
  | opt (readings : List Match)
  | dashes

structure Tagged where
  string : List Char
  tag : Tag

namespace Tagged

def isOpt (t : Tagged) : Bool := match t.tag with | .opt _ => true | _ => false

def isArg (t : Tagged) : Bool := match t.tag with | .arg => true | _ => false

def isDashes (t : Tagged) : Bool := match t.tag with | .dashes => true | _ => false

end Tagged

namespace Parser

variable (P : Parser)

/-- The option strings with their options, in the order in which they were added. -/
def optionStrings : List (List Char × Opt) := P.options.flatMap fun o => o.strings.map (·, o)

def find (s : List Char) : Option Opt := (P.optionStrings.find? (·.1 = s)).map (·.2)

/-- `str.partition('=')`, without the separator when there is none. -/
def partitionEq (s : List Char) : List Char × Option (List Char) :=
  match s.dropWhile (· ≠ '=') with
  | [] => (s, none)
  | _ :: rest => (s.takeWhile (· ≠ '='), some rest)

/-- `_get_option_tuples`: the options of which the argument is an abbreviation, or whose short form begins it. -/
def optionTuples (s : List Char) : List Match :=
  let (stem, explicit) := partitionEq s
  let explicit := explicit.map (true, ·)
  if ['-', '-'].isPrefixOf s then
    P.optionStrings.filterMap fun (string, o) => if stem.isPrefixOf string then some ⟨o, string, explicit⟩ else none
  else
    P.optionStrings.filterMap fun (string, o) =>
      if string = s.take 2 then some ⟨o, string, some (false, s.drop 2)⟩
      else if stem.isPrefixOf string then some ⟨o, string, explicit⟩
      else none

/-- Arguments such as `-5` or `-.5`. -/
def looksNegative : List Char → Bool
  | '-' :: '.' :: c :: _ => c.isDigit
  | '-' :: c :: _ => c.isDigit
  | _ => false

/-- `_parse_optional`; `none` is a positional. -/
def parseOptional (s : List Char) : Option (List Match) :=
  if s.head? ≠ some '-' then none
  else
    match P.find s with
    | some o => some [⟨o, s, none⟩]
    | none =>
      if s.length = 1 then none
      else
        let (stem, explicit) := partitionEq s
        match explicit, P.find stem with
        | some text, some o => some [⟨o, stem, some (true, text)⟩]
        | _, _ =>
          if P.optionTuples s ≠ [] then some (P.optionTuples s)
          else if looksNegative s then none
          else if ' ' ∈ s then none
          else some [⟨none, s, none⟩]

/-- Everything behind `--` is a positional. -/
def classify : List (List Char) → List Tagged
  | [] => []
  | s :: rest =>
    if s = ['-', '-'] then ⟨s, .dashes⟩ :: rest.map (⟨·, .arg⟩)
    else
      match P.parseOptional s with
      | none => ⟨s, .arg⟩ :: classify rest
      | some readings => ⟨s, .opt readings⟩ :: classify rest

end Parser

/-! ### Consuming arguments -/

/-- How many arguments a positional takes from the front, if it can take its least number. -/
def Nargs.count (n : Nargs) (rest : List Tagged) : Option ℕ :=
  let lead := (rest.takeWhile Tagged.isDashes).length
  let tail := rest.drop lead
  match n with
  | .zeroOrMore => some (lead + (tail.takeWhile fun t => !t.isOpt).length)
  | .oneOrMore =>
    match tail with
    | t :: more => if t.isArg then some (lead + 1 + (more.takeWhile fun t => !t.isOpt).length) else none
    | [] => none
  | .zeroOrOne =>
    match tail with
    | t :: more => if t.isArg then some (lead + 1 + (more.takeWhile Tagged.isDashes).length) else some lead
    | [] => some lead

def counts : List Positional → List Tagged → Option (List ℕ)
  | [], _ => some []
  | p :: ps, rest => do
    let n ← p.nargs.count rest
    return n :: (← counts ps (rest.drop n))

/-- `_match_arguments_partial`: the counts of the longest list of positionals that match, without the last empty ones
if an option comes next. -/
def matchPartial (ps : List Positional) (rest : List Tagged) : List ℕ :=
  match (List.range ps.length).reverse.findSome? fun i => counts (ps.take (i + 1)) rest with
  | none => []
  | some ns =>
    if (rest.drop ns.sum).head?.any Tagged.isOpt then ns.rdropWhile (· = 0) else ns

/-- The value of a positional; `none` is the default of `?`. -/
def positionalValue (p : Positional) (args : List Tagged) : Option Value :=
  let strings := (args.eraseP Tagged.isDashes).map Tagged.string
  match p.nargs with
  | .zeroOrOne => strings.head?.map .text
  | _ => some (.texts strings)

/-- Where the parser stands: the arguments and the positionals that are left, and what was parsed. -/
structure State where
  rest : List Tagged
  positionals : List Positional
  parsed : Parsed := {}

namespace State

def extra (st : State) (strings : List (List Char)) : State :=
  { st with parsed := { st.parsed with extras := st.parsed.extras ++ strings } }

def assign (st : State) (dest : List Char) (v : Value) : State :=
  { st with parsed := { st.parsed with values := (dest, v) :: st.parsed.values } }

/-- `consume_positionals`, for the counts of `matchPartial`. -/
def consumePositionals (st : State) : List ℕ → State
  | [] => st
  | n :: ns =>
    match st.positionals with
    | [] => st
    | p :: ps =>
      let st' : State := { st with rest := st.rest.drop n, positionals := ps }
      match positionalValue p (st.rest.take n) with
      | some v => (st'.assign p.dest v).consumePositionals ns
      | none => st'.consumePositionals ns

end State

/-- `take_action` for an option with a value; `readInt` is `int` on texts. -/
def storeValue (readInt : List Char → Option Int) (st : State) (o : Opt) (text : List Char) : Option State :=
  match o.action with
  | .flag => none
  | .text => some (st.assign o.dest (.text text))
  | .int => (readInt text).map fun n => st.assign o.dest (.int n)

/-- The loop of `consume_optional` over the characters of one argument: flags may be written together, and the rest of
the argument after an option that takes a value is its value. -/
def consumeExplicit (P : Parser) (readInt : List Char → Option Int) (st : State) (o : Opt) (string : List Char)
    (sep : Bool) : List Char → Option State
  | [] => if o.action = .flag then none else storeValue readInt st o []
  | c :: cs =>
    if o.action ≠ .flag then storeValue readInt st o (c :: cs)
    else if string[1]? = some '-' ∨ sep = true ∨ c = '-' then none
    else
      let st := st.assign o.dest .set
      match P.find ['-', c] with
      | none => some (st.extra ['-' :: c :: cs])
      | some next =>
        match cs with
        | [] =>
          if next.action = .flag then some (st.assign next.dest .set)
          else
            match st.rest with
            | t :: rest => if t.isArg then storeValue readInt { st with rest } next t.string else none
            | [] => none
        | '=' :: cs => consumeExplicit P readInt st next ['-', c] true cs
        | c' :: cs => consumeExplicit P readInt st next ['-', c] false (c' :: cs)

/-- `consume_optional` on the first of the remaining arguments, which `st.rest` no longer contains. -/
def consumeOptional (P : Parser) (readInt : List Char → Option Int) (st : State) (string : List Char) :
    List Match → Option State
  | [⟨none, _, _⟩] => some (st.extra [string])
  | [⟨some o, _, none⟩] =>
    if o.action = .flag then some (st.assign o.dest .set)
    else
      match st.rest with
      | t :: rest => if t.isArg then storeValue readInt { st with rest } o t.string else none
      | [] => none
  | [⟨some o, s, some (sep, text)⟩] => consumeExplicit P readInt st o s sep text
  | _ => none

/-- The main loop, as long as an option is left; every round consumes an argument. -/
def parseLoop (P : Parser) (readInt : List Char → Option Int) : (fuel : ℕ) → State → Option State
  | 0, st => some st
  | fuel + 1, st =>
    let lead := st.rest.takeWhile fun t => !t.isOpt
    match st.rest.drop lead.length with
    | [] => some st
    | o :: rest =>
      let ns := if lead = [] then [] else matchPartial st.positionals st.rest
      if 0 < ns.sum then parseLoop P readInt fuel (st.consumePositionals ns)
      else
        let st := st.consumePositionals ns
        match o.tag with
        | .opt readings => do
          let st ← consumeOptional P readInt ({ st with rest }.extra (lead.map Tagged.string)) o.string readings
          parseLoop P readInt fuel st
        | _ => none

/-- The positionals behind the last option; a `+` that got no argument is an error. -/
def finish (st : State) : Option Parsed :=
  let st := st.consumePositionals (matchPartial st.positionals st.rest)
  if st.positionals.any (·.nargs = .oneOrMore) then none else some (st.extra (st.rest.map Tagged.string)).parsed

def parseKnownArgs (P : Parser) (readInt : List Char → Option Int) (args : List (List Char)) : Option Parsed := do
  finish (← parseLoop P readInt (args.length + 1) { rest := P.classify args, positionals := P.positionals })

end Argparse
