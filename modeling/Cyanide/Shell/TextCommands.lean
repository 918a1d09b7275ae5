import Cyanide.Shell.FileCommands

/-!
# Commands that read

`head`, `tail`, `grep`, `awk`, `find` and `ls`.  The walks of `find` and `grep -r` recurse into every directory node
they meet, up to the recursion limit of the interpreter; `ls -R` works off a queue.
-/

namespace Cyanide

open PosixPath PyText Traced Argparse

/-- The property `children` of the directory node of a resolved path. -/
def FakeFilesystem.children (s : FakeFilesystem) (path : Str) : List (Str × Node) :=
  (s.listDir path).filterMap fun name => (s.getNode (join path name)).map (name, ·)

variable (W : World) (v : View)

/-! ### `head` and `tail` -/

def linesParser : Parser where
  options := [⟨["-n".toList, "--lines".toList], "lines".toList, .int⟩]
  positionals := [⟨"files".toList, .zeroOrMore⟩]

/-- An index of a slice of a list of length `n`. -/
def sliceIndex (n : ℕ) (i : Int) : ℕ := if i < 0 then (n + i).toNat else i.toNat

/-- `head` and `tail`, which differ in their name and in the lines they keep. -/
def linesCommand (name : String) (keep : Int → List Content → List Content) (args : List Str) (input : Content) :
    Leaf Output := do
  let parsed ← parseArgs W v linesParser name args
  logUnknown v name args parsed
  let count := parsed.int "lines".toList 10
  match parsed.texts "files".toList with
  | [] => return .ok (← Leaf.joinTexts [] (keep count input.linesKeepEnds))
  | file :: _ =>
    let path := resolvePath v.cwd file
    let s ← Leaf.fs
    if s.isDir path then
      return .fail (name.toList ++ ": error reading '".toList ++ file ++ "': Is a directory\n".toList) 1
    else if s.isFile path then
      let content ← Leaf.getContentStr path
      return .ok (← Leaf.joinTexts [] (keep count (Content.text content).linesKeepEnds))
    else
      return .fail (name.toList ++ ": cannot open '".toList ++ file ++
        "' for reading: No such file or directory\n".toList) 1

def headCommand (args : List Str) (input : Content) : Leaf Output :=
  linesCommand W v "head" (fun count lines => lines.take (sliceIndex lines.length count)) args input

def tailCommand (args : List Str) (input : Content) : Leaf Output :=
  linesCommand W v "tail" (fun count lines => lines.drop (sliceIndex lines.length (-count))) args input

/-! ### `grep` -/

def grepParser : Parser where
  options := [⟨["-i".toList, "--ignore-case".toList], "ignore_case".toList, .flag⟩,
    ⟨["-v".toList, "--invert-match".toList], "invert_match".toList, .flag⟩]
  positionals := [⟨"pattern".toList, .zeroOrOne⟩, ⟨"files".toList, .zeroOrMore⟩]

/-- `f"{path}/{name}".replace("//", "/")`. -/
def childPath (path name : Str) : Str := replace "//".toList ['/'] (path ++ '/' :: name)

/-- `_get_recursive_files`, with the number of nested calls left; `none` is a `RecursionError`. -/
def recursiveFiles (s : FakeFilesystem) : (depth : ℕ) → Str → Option (List Str)
  | 0, _ => none
  | depth + 1, path =>
    if (s.getNode path).any Node.isDir then do
      let found ← (s.children (resolve path)).mapM fun (_, child) =>
        let childPath := childPath path child.name
        if s.isFile childPath then some [childPath]
        else if s.isDir childPath then recursiveFiles s depth childPath
        else some []
      return found.flatten
    else some []

/-- A line behind `f"{filepath}:"`; of bytes it is their `repr`. -/
def prefixedLine (path : Str) : Content → Content
  | .text line => .text (path ++ ':' :: line)
  | .bytes line => .text (path ++ ':' :: W.bytesRepr line)

def grepFiles (paths : List Str) : Leaf (List Content) :=
  paths.foldlM (fun lines path => do
    let content ← Leaf.getContent path
    return lines ++ content.linesKeepEnds.map (prefixedLine W path)) []

/-- `_collect_lines`, with the error message for the first file that cannot be read. -/
def grepCollect (recursive : Bool) (lines : List Content) : List Str → Leaf (Except Str (List Content))
  | [] => return .ok lines
  | f :: files => do
    let path := resolvePath v.cwd f
    let s ← Leaf.fs
    if recursive && s.isDir path then
      match recursiveFiles s W.recursionLimit path with
      | none => throw .recursion
      | some paths => grepCollect recursive (lines ++ (← grepFiles W paths)) files
    else if s.isFile path then
      let content ← Leaf.getContentStr path
      grepCollect recursive (lines ++ (Content.text content).linesKeepEnds) files
    else if s.isDir path then return .error ("grep: ".toList ++ f ++ ": Is a directory\n".toList)
    else return .error ("grep: ".toList ++ f ++ ": No such file or directory\n".toList)

/-- `_filter_lines`. -/
def grepFilter (pattern : Str) (ignoreCase invert : Bool) (output : Str) : List Content → Leaf Str
  | [] => return output
  | .bytes _ :: _ => throw .bytesRequired
  | .text line :: lines =>
    let lower := fun s => if ignoreCase then W.unicode.lower s else s
    if contains (lower pattern) (lower line) != invert then
      grepFilter pattern ignoreCase invert (output ++ line) lines
    else grepFilter pattern ignoreCase invert output lines

/-- Catch what is below `Exception`. -/
def Leaf.catching {α : Type} (m : Leaf α) (handler : Str → Leaf α) : Leaf α :=
  tryCatch m fun
    | .raised message => handler message
    | x => throw x

def grepCommand (args : List Str) (input : Content) : Leaf Output := do
  let parsed ← parseArgs W v grepParser "grep" args
  logUnknown v "grep" args parsed
  let pattern := (parsed.text "pattern".toList).getD []
  if pattern = [] then return .fail "Usage: grep [OPTION]... PATTERN [FILE]...\n".toList 2
  else
    let recursive := args.any ["-r".toList, "-R".toList].contains
    let files := parsed.texts "files".toList
    let collected ← Leaf.catching
      (if files = [] then return .ok input.linesKeepEnds else grepCollect W v recursive [] files)
      fun message => return .error ("grep: ".toList ++ message ++ ['\n'])
    match collected with
    | .error message => return .fail message 2
    | .ok lines =>
      let output ← grepFilter W pattern (parsed.isSet "ignore_case".toList) (parsed.isSet "invert_match".toList) []
        lines
      return ⟨output, [], if output = [] then 1 else 0⟩

/-! ### `awk` -/

def awkParser : Parser where
  options := [⟨["-F".toList, "--field-separator".toList], "field_separator".toList, .text⟩]
  positionals := [⟨"program".toList, .zeroOrOne⟩, ⟨"files".toList, .zeroOrMore⟩]

/-- The group of `\{print\s+([^}\s][^}]*)\}`, matched at the front of a text. -/
def printFieldsAt (text : Str) : Option Str :=
  if "\x7bprint".toList.isPrefixOf text then
    let rest := text.drop 6
    let body := rest.dropWhile isSpace
    let group := body.takeWhile (· ≠ '}')
    if rest.head?.any isSpace && group ≠ [] && '}' ∈ body then some group else none
  else none

/-- `_get_fields_to_print`. -/
def fieldsToPrint (program : Str) : List Int :=
  match program.tails.findSome? printFieldsAt with
  | none => []
  | some group => (group.splitOn ',').filterMap fun f =>
      match strip f with
      | '$' :: number => readInt W.unicode number
      | _ => none

/-- `line.split(separator)`. -/
def splitOnText (separator : Str) (line : Str) : (fuel : ℕ) → List Str
  | 0 => [line]
  | fuel + 1 =>
    match line.tails.findIdx? (separator.isPrefixOf ·) with
    | none => [line]
    | some i => line.take i :: splitOnText separator (line.drop (i + separator.length)) fuel

/-- `bytes.split()`, with ASCII whitespace. -/
def byteWords (b : List UInt8) : List (List UInt8) :=
  (b.splitOnP fun c => (9 ≤ c && c ≤ 13) || c = 32).filter (· ≠ [])

def awkFields (separator : Str) : Content → Leaf (List Content)
  | .text line =>
    if separator = [' '] then return (words line).map .text
    else if separator = [] then throw .emptySeparator
    else return (splitOnText separator line line.length).map .text
  | .bytes line =>
    if separator = [' '] then return (byteWords line).map .bytes else throw .bytesRequired

def isBlankLine : Content → Bool
  | .text line => strip line = []
  | .bytes line => byteWords line = []

/-- `_process_line`; `none` for a blank line. -/
def awkLine (separator : Str) (fieldsToPrint : List Int) (line : Content) : Leaf (Option Str) := do
  if isBlankLine line then return none
  else
    let fields ← awkFields separator line
    let row := fieldsToPrint.map fun i =>
      if i = 0 then line else if 0 < i then fields[i.toNat - 1]?.getD (.text []) else .text []
    return some (← Leaf.joinTexts [' '] row)

def awkCollect (lines : List Content) : List Str → Leaf (Except Output (List Content))
  | [] => return .ok lines
  | f :: files => do
    let path := resolvePath v.cwd f
    let s ← Leaf.fs
    if s.isFile path then
      let content ← Leaf.getContent path
      awkCollect (lines ++ content.lines) files
    else if s.isDir path then return .error (.fail ("awk: ".toList ++ f ++ ": Is a directory\n".toList) 2)
    else awkCollect lines files

def awkOutput (separator : Str) (fields : List Int) (output : List Str) : List Content → Leaf (List Str)
  | [] => return output
  | line :: lines => do
    match ← awkLine separator fields line with
    | some row => awkOutput separator fields (if row = [] then output else output ++ [row]) lines
    | none => awkOutput separator fields output lines

def awkCommand (args : List Str) (input : Content) : Leaf Output := do
  let parsed ← parseArgs W v awkParser "awk" args
  logUnknown v "awk" args parsed
  let program := (parsed.text "program".toList).getD []
  if program = [] then return .fail "awk: no program specified\n".toList 1
  else if fieldsToPrint W program = [] then return .ok []
  else
    let files := parsed.texts "files".toList
    match ← (if files = [] then return .ok input.lines else awkCollect v [] files) with
    | .error r => return r
    | .ok lines =>
      let separator := (parsed.text "field_separator".toList).getD [' ']
      let output ← awkOutput separator (fieldsToPrint W program) [] lines
      return .ok (List.intercalate ['\n'] output ++ if output = [] then [] else ['\n'])

/-! ### `find` -/

/-- `_walk`, with the number of nested calls left; `none` is a `RecursionError`. -/
def walk (s : FakeFilesystem) : (depth : ℕ) → Str → Option (List Str)
  | 0, _ => none
  | depth + 1, path =>
    if (s.getNode path).any Node.isDir then do
      let found ← (s.children (resolve path)).mapM fun (_, child) => walk s depth (childPath path child.name)
      return path :: found.flatten
    else some [path]

def findCommand : List Str → Leaf Output
  | [] => return .ok ".\n".toList
  | arg :: args => do
    let startPath := resolvePath v.cwd arg
    let s ← Leaf.fs
    if s.pathExists startPath = false then
      return .fail ("find: '".toList ++ arg ++ "': No such file or directory\n".toList) 1
    else
      match walk s W.recursionLimit startPath with
      | none => throw .recursion
      | some all =>
        let pattern := ((argAfter "-name".toList (arg :: args)).map fun p =>
          replace ['*'] [] (stripChars ['\'', '"'] p)).getD []
        let paths := if pattern = [] then all else all.filter (contains pattern ·)
        return .ok (List.intercalate ['\n'] paths ++ if paths = [] then [] else ['\n'])

/-! ### `ls` -/

structure LsArgs where
  showAll : Bool
  longFormat : Bool
  recursive : Bool
  paths : List Str

/-- `_parse_ls_args`. -/
def lsArgs (args : List Str) : LsArgs :=
  let flags := args.filter (·.head? = some '-')
  ⟨flags.any ('a' ∈ ·), flags.any ('l' ∈ ·), flags.any ('R' ∈ ·), cleanArgs args⟩

/-- `_collect_nodes` for the node of a resolved path. -/
def collectNodes (s : FakeFilesystem) (path : Str) (node : Node) (showAll : Bool) : List (Node × Str) :=
  if node.isDir then
    (if showAll then [(node, ".".toList), (node, "..".toList)] else []) ++
      ((s.children path).filter fun (name, _) => showAll || name.head? ≠ some '.').map fun (name, child) => (child, name)
  else [(node, node.name)]

def spaced (parts : List Str) : Str := List.intercalate [' '] parts

/-- The lines of `_format_long`. -/
def longLines (output : Str) : List (Node × Str) → Leaf Str
  | [] => return output
  | (node, name) :: nodes => do
    match W.strftime (← Leaf.tick) node.mtime with
    | .error message => throw (.raised message)
    | .ok date =>
      let line := spaced [node.perm, ['1'], node.owner, node.group, natText node.size, date, name] ++ ['\n']
      longLines (output ++ line) nodes

/-- `_format_output`, the standard output only. -/
def formatOutput (nodes : List (Node × Str)) (longFormat : Bool) : Leaf Str := do
  if longFormat then
    return "total ".toList ++ natText (nodes.length * 4) ++ ['\n'] ++ (← longLines W [] nodes)
  else if nodes = [] then return []
  else return List.intercalate "  ".toList ((nodes.map (·.2)).filter (· ≠ [])) ++ ['\n']

/-- The loop of `_format_recursive`: the queue holds directories, by the path that is shown and the path of the node. -/
def lsQueue (s : FakeFilesystem) (showAll longFormat : Bool) :
    (patience : ℕ) → (output : Str) → List (Str × Str) → Leaf Str
  | _, output, [] => return output
  | 0, _, _ :: _ => throw .endless
  | patience + 1, output, (shown, path) :: queue => do
    match s.getNode path with
    | none => lsQueue s showAll longFormat patience output queue
    | some node =>
      let nodes := collectNodes s path node showAll
      if nodes = [] then lsQueue s showAll longFormat patience output queue
      else
        let head := (if output = [] then [] else ['\n']) ++ shown ++ ":\n".toList
        let listing ← formatOutput W nodes longFormat
        let children := (s.children path).filter fun (name, child) =>
          (showAll || name.head? ≠ some '.') && child.isDir
        lsQueue s showAll longFormat patience (output ++ head ++ listing)
          (queue ++ children.map fun (name, _) => (join shown name, resolve (join path name)))

def lsCommand (args : List Str) : Leaf Output := do
  let parsed := lsArgs args
  let targetPath := (parsed.paths.head?.map (resolvePath v.cwd)).getD v.cwd
  let s ← Leaf.fs
  match s.getNode targetPath with
  | none =>
    return .fail ("ls: cannot access '".toList ++ parsed.paths.head?.getD [] ++ "': No such file or directory\n".toList)
      2
  | some node =>
    let path := resolve targetPath
    if parsed.recursive && node.isDir then
      return .ok (← lsQueue W s parsed.showAll parsed.longFormat W.patience [] [(targetPath, path)])
    else return .ok (← formatOutput W (collectNodes s path node parsed.showAll) parsed.longFormat)

end Cyanide
