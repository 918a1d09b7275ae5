import Mathlib.Algebra.Group.Nat.Defs
import Cyanide.Lib.Argparse
import Cyanide.Shell.State

/-!
# Commands on files

`cat`, `cp`, `mv`, `rm`, `rmdir`, `mkdir`, `touch`, `chmod` and `gcc`.  A command gets the view of the shell that runs
it, its arguments and its input, and works on the machine.
-/

namespace Cyanide

open PosixPath PyText Traced Argparse

/-- The arguments that do not start with a dash. -/
def cleanArgs (args : List Str) : List Str := args.filter fun a => a.head? ≠ some '-'

variable (W : World) (v : View)

/-! ### `cat` -/

/-- The loop of `_handle_wildcard` over the names in the current directory. -/
def catFlags (output : Str) : List Str → Leaf Str
  | [] => return output
  | f :: files => do
    if contains "flag".toList f then
      catFlags (← Leaf.concat output (← Leaf.getContent (v.cwd ++ '/' :: f))) files
    else catFlags output files

def catWildcard (arg : Str) : Leaf Str := do
  if contains "flag".toList arg then catFlags v [] ((← Leaf.fs).listDir v.cwd) else return []

def catFile (arg : Str) : Leaf Output := do
  let path := resolvePath v.cwd arg
  let s ← Leaf.fs
  if s.isFile path then return .ok (← Leaf.getContentStr path)
  else if s.isDir path then return .fail ("cat: ".toList ++ arg ++ ": Is a directory\n".toList) 1
  else return .fail ("cat: ".toList ++ arg ++ ": No such file or directory\n".toList) 1

def catLoop (output : Str) : List Str → Leaf Output
  | [] => return .ok output
  | arg :: args => do
    if '*' ∈ arg then catLoop (output ++ (← catWildcard v arg)) args
    else
      let r ← catFile v arg
      if r.rc ≠ 0 then return r else catLoop (output ++ r.stdout) args

def catCommand (args : List Str) (input : Content) : Leaf Result := do
  if args = [] then return ⟨if input.len = 0 then .text [] else input, [], 0⟩
  else return (← catLoop v [] args).toResult

/-! ### `cp` and `mv` -/

def cpLoop (recursive : Bool) (destStr : Str) : List Str → Leaf Output
  | [] => return .ok []
  | srcStr :: sources => do
    let srcPath := resolvePath v.cwd srcStr
    if (← Leaf.fs).pathExists srcPath = false then
      return .fail ("cp: cannot stat '".toList ++ srcStr ++ "': No such file or directory\n".toList) 1
    else if ← Leaf.copy W srcPath (resolvePath v.cwd destStr) recursive then cpLoop recursive destStr sources
    else if (← Leaf.fs).isDir srcPath && !recursive then
      return .fail ("cp: -r not specified; omitting directory '".toList ++ srcStr ++ "'\n".toList) 1
    else
      return .fail ("cp: cannot copy '".toList ++ srcStr ++ "' to '".toList ++ destStr ++ "'\n".toList) 1

def cpCommand (args : List Str) : Leaf Output :=
  let recursive := args.any ["-r".toList, "-R".toList, "--recursive".toList].contains
  match (cleanArgs args).reverse with
  | destStr :: src :: sources => cpLoop W v recursive destStr (src :: sources).reverse
  | _ => return .fail "cp: missing file operand\n".toList 1

def mvLoop (destStr : Str) : List Str → Leaf Output
  | [] => return .ok []
  | srcStr :: sources => do
    let srcPath := resolvePath v.cwd srcStr
    if (← Leaf.fs).pathExists srcPath = false then
      return .fail ("mv: cannot stat '".toList ++ srcStr ++ "': No such file or directory\n".toList) 1
    else if ← Leaf.move W srcPath (resolvePath v.cwd destStr) then mvLoop destStr sources
    else
      return .fail ("mv: cannot move '".toList ++ srcStr ++ "' to '".toList ++ destStr ++
        "': No such file or directory\n".toList) 1

def mvCommand (args : List Str) : Leaf Output :=
  if args.length < 2 then return .fail "mv: missing file operand\n".toList 1
  else
    match (cleanArgs args).reverse with
    | destStr :: src :: sources => mvLoop W v destStr (src :: sources).reverse
    | _ => return .fail "mv: missing destination file operand\n".toList 1

/-! ### `rm` and `rmdir` -/

def rmLoop (recursive force : Bool) : List Str → Leaf Output
  | [] => return .ok []
  | arg :: args => do
    let path := resolvePath v.cwd arg
    match (← Leaf.fs).getNode path with
    | none =>
      if force then rmLoop recursive force args
      else return .fail ("rm: cannot remove '".toList ++ arg ++ "': No such file or directory\n".toList) 1
    | some node =>
      if node.isDir && !recursive then
        return .fail ("rm: cannot remove '".toList ++ arg ++ "': Is a directory\n".toList) 1
      else
        let _ ← Leaf.remove path
        rmLoop recursive force args

def rmCommand (args : List Str) : Leaf Output :=
  let recursive := args.any ["-r".toList, "-rf".toList, "-R".toList].contains
  let force := args.any ["-f".toList, "-rf".toList].contains
  if cleanArgs args = [] ∧ force = false then return .fail "rm: missing operand\n".toList 1
  else rmLoop v recursive force (cleanArgs args)

def rmdirFailed (arg : Str) (reason : String) : Output :=
  .fail ("rmdir: failed to remove '".toList ++ arg ++ "': ".toList ++ reason.toList ++ "\n".toList) 1

def rmdirLoop : List Str → Leaf Output
  | [] => return .ok []
  | arg :: args => do
    let path := resolvePath v.cwd arg
    let s ← Leaf.fs
    if s.getNode path = none then return rmdirFailed arg "No such file or directory"
    else if s.isDir path = false then return rmdirFailed arg "Not a directory"
    else if s.listDir path ≠ [] then return rmdirFailed arg "Directory not empty"
    else if ← Leaf.remove path then rmdirLoop args
    else return rmdirFailed arg "Operation not permitted"

def rmdirCommand (args : List Str) : Leaf Output :=
  if args = [] then return .fail "rmdir: missing operand\n".toList 1 else rmdirLoop v args

/-! ### `mkdir` and `touch` -/

def mkdirParser : Parser where
  options := [⟨["-p".toList, "--parents".toList], "parents".toList, .flag⟩]
  positionals := [⟨"path".toList, .oneOrMore⟩]

/-- `str(PurePosixPath(path).parent)` for a resolved path. -/
def purePosixParent (path : Str) : Str := if dirname path = [] then ['.'] else dirname path

def mkdirCannot (path : Str) (reason : String) : Output :=
  .fail ("mkdir: cannot create directory '".toList ++ path ++ "': ".toList ++ reason.toList ++ "\n".toList) 1

def mkdirLoop (parents : Bool) : List Str → Leaf Output
  | [] => return .ok []
  | pathStr :: paths => do
    let resolved := resolvePath v.cwd pathStr
    let s ← Leaf.fs
    if s.pathExists resolved then return mkdirCannot pathStr "File exists"
    else
      let parentPath := purePosixParent resolved
      if !parents && (!s.pathExists parentPath || !s.isDir parentPath) then
        return mkdirCannot pathStr "No such file or directory"
      else
        Leaf.mkdirP resolved v.username
        Leaf.logEvent v "mkdir_success".toList [("path".toList, resolved)]
        mkdirLoop parents paths

/-- `parse_known_args`, with the event that is logged when the parser exits the process. -/
def parseArgs (P : Parser) (name : String) (args : List Str) : Leaf Parsed := do
  match parseKnownArgs P (readInt W.unicode) args with
  | none =>
    Leaf.logEvent v (name.toList ++ "_parse_fail".toList) [("full_cmd".toList, List.intercalate [' '] args)]
    throw .systemExit
  | some parsed => return parsed

/-- The event for arguments that the parser does not know. -/
def logUnknown (name : String) (args : List Str) (parsed : Parsed) : Leaf Unit :=
  if parsed.extras = [] then return ()
  else Leaf.logEvent v (name.toList ++ "_unknown_args".toList) [("full_cmd".toList, List.intercalate [' '] args)]

def mkdirCommand (args : List Str) : Leaf Output := do
  let parsed ← parseArgs W v mkdirParser "mkdir" args
  logUnknown v "mkdir" args parsed
  if parsed.texts "path".toList = [] then return .fail "mkdir: missing operand\n".toList 1
  else mkdirLoop v (parsed.isSet "parents".toList) (parsed.texts "path".toList)

def touchLoop : List Str → Leaf Output
  | [] => return .ok []
  | arg :: args => do
    if arg.head? = some '-' then touchLoop args
    else if (← Leaf.mkfile (resolvePath v.cwd arg) (.text []) v.username).isNone then
      return .fail ("touch: cannot touch '".toList ++ arg ++ "': No such file or directory\n".toList) 1
    else touchLoop args

def touchCommand (args : List Str) : Leaf Output :=
  if args = [] then return .fail "touch: missing file operand\n".toList 1 else touchLoop v args

/-! ### `chmod` -/

/-- `_octal_to_str`. -/
def octalToStr (octal : ℕ) : Str :=
  [2, 1, 0].flatMap fun i =>
    let digit := octal / 8 ^ i % 8
    [if digit / 4 % 2 = 1 then 'r' else '-', if digit / 2 % 2 = 1 then 'w' else '-', if digit % 2 = 1 then 'x' else '-']

/-- `int(mode, 8)` for a mode of digits. -/
def readOctal (mode : Str) : Option ℕ :=
  mode.foldlM (fun n c => (W.unicode.decimal c).bind fun d => if d < 8 then some (8 * n + d) else none) 0

/-- The letters of `perms` in the group that starts at `start`, after the operator was applied; `none` where the list
is too short to be assigned to. -/
def updatePermGroup (start : ℕ) (op : Char) (what perms : Str) : Option Str :=
  [(0, 'r'), (1, 'w'), (2, 'x')].foldlM (fun perms (i, c) =>
    let letter :=
      if c ∈ what then (if op = '+' ∨ op = '=' then some c else if op = '-' then some '-' else none)
      else if op = '=' then some '-' else none
    match letter with
    | none => some perms
    | some l => if start + i < perms.length then some (perms.set (start + i) l) else none) perms

def groupStart (who : Char) : ℕ := if who = 'u' then 0 else if who = 'g' then 3 else 6

/-- `_apply_relative_mode`: the operator of `re.match(r"([ugoa]*)([+-=])([rwx]*)")` is any character from `+` to `=`. -/
def applyRelativeMode (mode perms : Str) : Option Str :=
  let who := mode.takeWhile (· ∈ "ugoa".toList)
  match mode.dropWhile (· ∈ "ugoa".toList) with
  | [] => some perms
  | op :: rest =>
    if '+' ≤ op ∧ op ≤ '=' then
      let what := rest.takeWhile (· ∈ "rwx".toList)
      let who := if who = [] ∨ 'a' ∈ who then "ugo".toList else who
      who.foldlM (fun perms w => updatePermGroup (groupStart w) op what perms) perms
    else some perms

def chmodPerms (mode perms : Str) : Option Str :=
  if mode ≠ [] ∧ mode.all W.unicode.isDigit then some ((readOctal W mode).elim perms octalToStr)
  else applyRelativeMode mode perms

def chmodLoop (mode : Str) : List Str → Leaf Output
  | [] => return .ok []
  | target :: targets => do
    let path := resolvePath v.cwd target
    match (← Leaf.fs).getNode path with
    | none => return .fail ("chmod: cannot access '".toList ++ target ++ "': No such file or directory\n".toList) 1
    | some node =>
      match chmodPerms W mode node.perm.tail with
      | none => throw .assignmentIndex
      | some perms =>
        match node.perm with
        | [] => throw .stringIndex
        | kind :: _ =>
          let _ ← Leaf.onFs fun s => s.chmod path (kind :: perms)
          chmodLoop mode targets

def chmodCommand : List Str → Leaf Output
  | mode :: target :: targets => chmodLoop W v mode (target :: targets)
  | _ => return .fail "chmod: missing operand\n".toList 1

/-! ### `gcc` -/

/-- `args[args.index(flag) + 1]`, if the flag is there and has an argument. -/
def argAfter (flag : Str) (args : List Str) : Option Str := args[args.idxOf flag + 1]?

def gccOutput (args : List Str) : Str :=
  if args.contains "-o".toList then (argAfter "-o".toList args).getD "a.out".toList else "a.out".toList

def isSource (arg : Str) : Bool := ".c".toList.isSuffixOf arg || ".cpp".toList.isSuffixOf arg

def gccCommand (args : List Str) : Leaf Output := do
  if args = [] then
    return .fail "gcc: fatal error: no input files\ncompilation terminated.\n".toList 1
  else if args.contains "--version".toList then
    return .ok
      "gcc (Ubuntu 11.4.0-1ubuntu1~22.04) 11.4.0\nCopyright (C) 2021 Free Software Foundation, Inc.\n".toList
  else
    let s ← Leaf.fs
    match args.find? fun a => isSource a && !s.pathExists (resolvePath v.cwd a) with
    | some src =>
      return .fail ("gcc: error: ".toList ++ src ++
        ": No such file or directory\nfatal error: no input files\ncompilation terminated.\n".toList) 1
    | none =>
      let output := gccOutput args
      if output ≠ [] then
        let _ ← Leaf.mkfile (resolvePath v.cwd output)
          (.bytes [0x7f, 0x45, 0x4c, 0x46, 2, 1, 1, 0, 0, 0, 0, 0, 0, 0, 0, 0]) root root "-rwxr-xr-x".toList
      Leaf.logEvent v "gcc_compilation".toList [("output".toList, output)]
      return .ok []

end Cyanide
