import Cyanide.Lib.Shlex
import Cyanide.Lib.PyText
import Cyanide.Shell.Chain

/-!
# Command lines as texts

What `execute` does with a command line before anything runs: variables are expanded, the line is cut into the nodes of
a chain, a node into the segments of a pipeline, and a segment into words and redirections.
-/

namespace Cyanide

open PosixPath PyText

/-! ### Variables -/

section Variables

variable (U : Unicode)

/-- The longest match of `[a-zA-Z_]\w*` at the front of a text. -/
def varName : Str → Str
  | [] => []
  | c :: cs => if c.isAlpha || c = '_' then c :: cs.takeWhile U.isWord else []

/-- The name of a reference without its dollar sign, and its length: `\x7bNAME\x7d`. -/
def bracedReference : Str → Option (Str × ℕ)
  | '{' :: cs =>
    let name := varName U cs
    if name ≠ [] ∧ (cs.drop name.length).head? = some '}' then some (name, name.length + 2) else none
  | _ => none

/-- The same for `NAME`. -/
def simpleReference (s : Str) : Option (Str × ℕ) :=
  let name := varName U s
  if name = [] then none else some (name, name.length)

/-- `re.sub`: each reference behind a dollar sign is replaced by its value, or by nothing. -/
def replaceReferences (reference : Str → Option (Str × ℕ)) (env : Dict Str) : (skip : ℕ) → Str → Str
  | _, [] => []
  | skip + 1, _ :: cs => replaceReferences reference env skip cs
  | 0, c :: cs =>
    match if c = '$' then reference cs else none with
    | some (name, length) => (env.lookup name).getD [] ++ replaceReferences reference env length cs
    | none => c :: replaceReferences reference env 0 cs

/-- The method `_expand_vars`. -/
def expandVars (env : Dict Str) (s : Str) : Str :=
  replaceReferences (simpleReference U) env 0 (replaceReferences (bracedReference U) env 0 s)

/-- A line without a dollar sign has no references. -/
theorem expandVars_of_no_dollar (env : Dict Str) {line : Str} (h : '$' ∉ line) :
    expandVars U env line = line := by
  have hreplace : ∀ (reference : Str → Option (Str × ℕ)) (line : Str), '$' ∉ line →
      replaceReferences reference env 0 line = line := by
    intro reference line hline
    induction line with
    | nil => rfl
    | cons c cs ih =>
      rw [List.mem_cons, not_or] at hline
      rw [replaceReferences, if_neg (Ne.symm hline.1)]
      exact congrArg (c :: ·) (ih hline.2)
  rw [expandVars, hreplace _ _ h, hreplace _ _ h]

end Variables

/-! ### Chains and pipelines -/

/-- The method `_update_quote_state`, where `none` is outside of quotes. -/
def updateQuoteState (char : Char) : Option Char → Option Char
  | none => some char
  | some quote => if char = quote then none else some quote

def isQuoteChar (c : Char) : Bool := c = '\'' || c = '"'

/-- The loop of `_parse_chain`, from the open quote and the current token. -/
def parseChainFrom : (quote : Option Char) → (token : Str) → Str → List (Str × Option ChainOp)
  | _, token, [] => if strip token = [] then [] else [(strip token, none)]
  | none, token, '&' :: '&' :: cs => (strip token, some .and) :: parseChainFrom none [] cs
  | none, token, '|' :: '|' :: cs => (strip token, some .or) :: parseChainFrom none [] cs
  | none, token, ';' :: cs => (strip token, some .seq) :: parseChainFrom none [] cs
  | none, token, '&' :: cs => (strip token, some .background) :: parseChainFrom none [] cs
  | quote, token, c :: cs =>
    parseChainFrom (if isQuoteChar c then updateQuoteState c quote else quote) (token ++ [c]) cs

/-- The method `_parse_chain`. -/
def parseChain (commandLine : Str) : List (CommandNode Str) :=
  (parseChainFrom none [] commandLine).filterMap fun (cmd, op) => if cmd = [] then none else some ⟨cmd, op⟩

/-- The loop of `_split_ignore_quotes`. -/
def splitIgnoreQuotesFrom (delimiter : Char) : (quote : Option Char) → (current : Str) → Str → List Str
  | _, current, [] => if strip current = [] then [] else [strip current]
  | quote, current, c :: cs =>
    if isQuoteChar c then splitIgnoreQuotesFrom delimiter (updateQuoteState c quote) (current ++ [c]) cs
    else if c = delimiter ∧ quote = none then strip current :: splitIgnoreQuotesFrom delimiter none [] cs
    else splitIgnoreQuotesFrom delimiter quote (current ++ [c]) cs

/-- The method `_split_ignore_quotes`. -/
def splitIgnoreQuotes (s : Str) (delimiter : Char) : List Str := splitIgnoreQuotesFrom delimiter none [] s

/-! ### Redirections and aliases -/

/-- The local variables of `_parse_redirections`. -/
structure Redirections where
  cleanParts : List Str := []
  target : Option Str := none
  append : Bool := false
  deriving DecidableEq

/-- The loop of `_parse_redirections`. -/
def redirectionsOf : Redirections → List Str → Redirections
  | r, [] => r
  | r, [token] => { r with cleanParts := r.cleanParts ++ [token] }
  | r, token :: file :: parts =>
    if token = ">>".toList then redirectionsOf { r with target := some file, append := true } parts
    else if token = ">".toList then redirectionsOf { r with target := some file } parts
    else redirectionsOf { r with cleanParts := r.cleanParts ++ [token] } (file :: parts)

/-- The method `_parse_redirections`. -/
def parseRedirections (cmd : Str) : Except Shlex.LexError (Str × Option Str × Bool) := do
  let r := redirectionsOf {} (← Shlex.split cmd)
  return (Shlex.join r.cleanParts, r.target, r.append)

/-- The method `_resolve_alias`. -/
def resolveAlias (aliases : Dict Str) (cmdName : Str) (params : List Str) : Str × List Str :=
  match (aliases.lookup cmdName).map Shlex.split with
  | some (.ok (name :: args)) => if name ≠ cmdName then (name, args ++ params) else (cmdName, params)
  | _ => (cmdName, params)

end Cyanide
