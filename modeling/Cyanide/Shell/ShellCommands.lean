import Cyanide.Lib.Shlex
import Cyanide.Shell.SystemCommands

/-!
# Commands that change the shell

`cd`, `export`, `alias` and `unalias`; the commands that raise a prompt and what answers it; and the commands that
call the shell again, which get its method `execute` as `run`.  Commands that are delegated by `sudo` and `doas` run in
a shell of their own on the same machine.
-/

namespace Cyanide

open PosixPath PyText Traced

/-! ### Directory, environment and aliases -/

def cdCommand (args : List Str) : Shell Output := do
  let e ← get
  let target := match args with
    | [] => (e.env.lookup "HOME".toList).getD ['/']
    | arg :: _ => resolvePath e.cwd arg
  if e.fs.isDir target then
    modify fun e => { e with cwd := target }
    return .ok []
  else
    match args with
    | [] => throw .listIndex
    | arg :: _ =>
      if e.fs.pathExists target then return .fail ("bash: cd: ".toList ++ arg ++ ": Not a directory\n".toList) 1
      else return .fail ("bash: cd: ".toList ++ arg ++ ": No such file or directory\n".toList) 1

/-- The items `key=value` among the arguments. -/
def assignments (args : List Str) : List (Str × Str) :=
  args.filterMap fun arg =>
    match partition '=' arg with
    | (_, none) => none
    | (key, some value) => some (key, value)

def exportCommand (args : List Str) : Shell Output := do
  modify fun e => { e with env := (assignments args).foldl (fun env (key, value) => env.insert key value) e.env }
  return .ok []

/-- Texts are ordered by code points. -/
def textLe : Str → Str → Bool
  | [], _ => true
  | _ :: _, [] => false
  | a :: as, b :: bs => if a = b then textLe as bs else a.toNat < b.toNat

def aliasLine (name value : Str) : Str := "alias ".toList ++ name ++ "='".toList ++ value ++ "'\n".toList

/-- `_list_aliases`. -/
def listAliases (aliases : Dict Str) : Str :=
  (aliases.keys.mergeSort textLe).flatMap fun name => aliasLine name ((aliases.lookup name).getD [])

/-- The value without a pair of quotes around it. -/
def unquoteAlias (value : Str) : Str :=
  if 2 ≤ value.length ∧ value.head? = value.getLast? ∧ (value.head? = some '\'' ∨ value.head? = some '"') then
    value.tail.dropLast
  else value

/-- The loop over the arguments, with the output and the return code so far. -/
def aliasLoop : (aliases : Dict Str) → (output : Str) → (rc : Int) → List Str → Dict Str × Output
  | aliases, output, rc, [] => (aliases, ⟨output, [], rc⟩)
  | aliases, output, rc, arg :: args =>
    match partition '=' arg with
    | (name, some value) => aliasLoop (aliases.insert name (unquoteAlias value)) output rc args
    | (_, none) =>
      match aliases.lookup arg with
      | some value => aliasLoop aliases (output ++ aliasLine arg value) rc args
      | none => aliasLoop aliases (output ++ "bash: alias: ".toList ++ arg ++ ": not found\n".toList) 1 args

def aliasCommand (args : List Str) : Shell Output := do
  let e ← get
  if args = [] then return .ok (listAliases e.aliases)
  else
    let (aliases, r) := aliasLoop e.aliases [] 0 args
    modify fun e => { e with aliases }
    return r

def unaliasLoop : (aliases : Dict Str) → List Str → Dict Str × Output
  | aliases, [] => (aliases, .ok [])
  | aliases, arg :: args =>
    if (aliases.lookup arg).isSome then unaliasLoop (aliases.erase arg) args
    else (aliases, .fail ("bash: unalias: ".toList ++ arg ++ ": not found\n".toList) 1)

def unaliasCommand (args : List Str) : Shell Output := do
  if args = [] then return .fail "unalias: usage: unalias name [name ...]\n".toList 1
  else
    let e ← get
    let (aliases, r) := unaliasLoop e.aliases args
    modify fun e => { e with aliases }
    return r

/-! ### Prompts -/

/-- Ask the client for a line. -/
def ask (callback : Callback) (prompt : Str) : Shell Unit :=
  modify fun e => { e with pendingInputCallback := some callback, pendingInputPrompt := some prompt }

def passwordPrompt (username : Str) : Str := "[cyanide] password for ".toList ++ username ++ ": ".toList

/-- The content of a file, empty when there is none. -/
def existingContent (path : Str) : Leaf Content := do
  if (← Leaf.fs).pathExists path then Leaf.getContent path else return .text []

/-- The lines that an editor starts from. -/
def existingLines (content : Content) : List Content := if content.len = 0 then [] else content.lines

/-- `"\n".join(self._capture_lines) + "\n" if self._capture_lines else ""`. -/
def capturedText (lines : List Content) : Leaf Str := do
  if lines = [] then return [] else return (← Leaf.joinTexts ['\n'] lines) ++ ['\n']

def setLines (name : Str) (lines : List Content) : Shell Unit :=
  modify fun e => { e with captureLines := e.captureLines.insert name lines }

def capturedLines (name : Str) : Shell (List Content) := do
  let e ← get
  return (e.captureLines.lookup name).getD []

/-- Add a line to what is captured, without its newline, and ask for the next one. -/
def captureLine (name : Str) (line : Str) (callback : Callback) (prompt : String) : Shell Output := do
  setLines name ((← capturedLines name) ++ [.text (line.rdropWhile (· = '\n'))])
  ask callback prompt.toList
  return .ok []

def crontabName : Str := "crontab".toList

def visudoName : Str := "visudo".toList

def cronDir : Str := "/var/spool/cron/crontabs".toList

def cronFile (username : Str) : Str := cronDir ++ '/' :: username

/-- `_handle_install`. -/
def crontabInstall (args : List Str) : Shell Output := do
  let e ← get
  match cleanArgs args with
  | [] => return ⟨"crontab: usage error: file name must be specified for install.\n".toList, [], 1⟩
  | file :: _ =>
    let target := resolvePath e.cwd file
    if e.fs.pathExists target = false then
      return .fail ("crontab: ".toList ++ file ++ ": No such file or directory\n".toList) 1
    else if e.fs.isDir target then return .fail ("crontab: ".toList ++ file ++ ": Is a directory\n".toList) 1
    else
      onMachine do
        let content ← Leaf.getContent target
        let _ ← Leaf.mkfile (cronFile e.username) content e.username
        return .ok []

/-- `_handle_edit`. -/
def crontabEdit (file : Str) : Shell Output := do
  ask .crontabInput "(crontab) type DONE on a new line to save, CANCEL to abort > ".toList
  let existing ← onMachine (existingContent file)
  setLines crontabName (existingLines existing)
  return .ok ("Entering crontab editor...\n".toList ++
    if existingLines existing = [] then [] else "(Appending to existing crontab)\n".toList)

/-- What `crontab` does by its options. -/
def crontabAction (args : List Str) : Shell Result := do
  let e ← get
  let file := cronFile e.username
  let hasFile := e.fs.pathExists file
  if args.contains "-l".toList then
    if hasFile then return ⟨← onMachine (Leaf.getContent file), [], 0⟩
    else return .ok ("no crontab for ".toList ++ e.username ++ ['\n'])
  else if args.contains "-r".toList then
    if hasFile then
      let _ ← onMachine (Leaf.remove file)
    return .ok []
  else if args.contains "-e".toList then return (← crontabEdit file).toResult
  else return (← crontabInstall args).toResult

def crontabCommand (args : List Str) : Shell Result := do
  if (← get).fs.pathExists cronDir then crontabAction args
  else
    onMachine (Leaf.mkdirP cronDir root)
    crontabAction args

/-- `_on_editor_input` of `crontab`. -/
def crontabInput (line : Str) : Shell Output := do
  if strip line = "CANCEL".toList then return .ok "crontab: edits aborted\n".toList
  else if strip line = "DONE".toList then
    let e ← get
    let captured ← capturedLines crontabName
    onMachine do
      let _ ← Leaf.mkfile (cronFile e.username) (.text (← capturedText captured)) e.username
    let entries := (captured.map Content.chars).filter fun entry => entry ≠ [] && entry.head? ≠ some '#'
    modify fun e => { e with backgroundTasks := e.backgroundTasks ++ entries }
    return .ok "crontab: installing new crontab\n".toList
  else captureLine crontabName line .crontabInput "> "

def sudoersFile : Str := "/etc/sudoers".toList

def visudoCommand : Shell Output := do
  let e ← get
  if e.username ≠ root then return .fail "visudo: /etc/sudoers: Permission denied\n".toList 1
  else
    ask .visudoInput "(visudo) type DONE on a new line to save, CANCEL to abort > ".toList
    let existing ← onMachine (existingContent sudoersFile)
    setLines visudoName (existingLines (.text (ignoring existing)))
    return .ok "visudo: editing /etc/sudoers...\n".toList

/-- `_on_editor_input` of `visudo`. -/
def visudoInput (line : Str) : Shell Output := do
  if strip line = "CANCEL".toList then return .ok "visudo: edits aborted\n".toList
  else if strip line = "DONE".toList then
    let e ← get
    let captured ← capturedLines visudoName
    onMachine do
      let content ← capturedText captured
      let _ ← Leaf.mkfile sudoersFile (.text content) root
      Leaf.logEvent e.view "sudoers_modified".toList [("content".toList, content)]
    return .ok "visudo: /etc/sudoers: success\n".toList
  else captureLine visudoName line .visudoInput "> "

def editorPrompt : String := "editor> "

/-- The editors, which keep what they edit under their names. -/
def editorCommand (name : Str) (args : List Str) : Shell Output := do
  match args with
  | [] => return .fail "No filename provided.\n".toList 1
  | arg :: _ =>
    let e ← get
    let target := resolvePath e.cwd arg
    modify fun e => { e with targetFile := e.targetFile.insert name target }
    if e.fs.isDir target then return .fail ('"' :: arg ++ "\" is a directory\n".toList) 1
    else
      let captured := existingLines (← onMachine (existingContent target))
      setLines name captured
      ask (.editorInput name) editorPrompt.toList
      return .ok ("Entering editor for ".toList ++ arg ++
        ".\nType :wq or ^X on a new line to save and exit, :q! or ^C to abort.\n".toList ++
        if captured = [] then [] else "(File has ".toList ++ natText captured.length ++ " existing lines)\n".toList)

/-- `_on_input` of the editors. -/
def editorInput (name line : Str) : Shell Output := do
  let rawLine := strip line
  if [":wq".toList, "wq".toList, "^X".toList, ":w".toList].contains rawLine then
    let e ← get
    let target := (e.targetFile.lookup name).getD []
    let captured ← capturedLines name
    onMachine do
      let content ← capturedText captured
      if dirname target ≠ [] then Leaf.mkdirP (dirname target) root
      let _ ← Leaf.mkfile target (.text content) e.username
    if rawLine = ":w".toList then
      ask (.editorInput name) editorPrompt.toList
      return .ok ('"' :: target ++ "\" written\n".toList)
    else return .ok ('"' :: target ++ "\" written, exit.\n".toList)
  else if [":q!".toList, "q!".toList, "^C".toList, ":q".toList].contains rawLine then return .ok "Aborted.\n".toList
  else captureLine name line (.editorInput name) editorPrompt

def pythonPrompt : Str := ">>> ".toList

def pythonCommand (args : List Str) : Shell Output := do
  let e ← get
  onMachine (Leaf.logEvent e.view "python_execution_attempt".toList)
  if args.contains "-h".toList || args.contains "--help".toList then
    return .ok ("usage: python [option] ... [-c cmd | -m mod | file | -] [arg] ...\n".toList ++
      "Options and arguments (and corresponding environment variables):\n".toList ++
      "-c cmd : program passed in as string (terminates option list)\n".toList)
  else if args.contains "--version".toList || args.contains "-V".toList then return .ok "Python 3.10.12\n".toList
  else if args.contains "-c".toList then
    onMachine (runOneLiner e.view "python" "-c" (.fail ("Argument expected for the -c option\n".toList ++
      "usage: python3 [option] ... [-c cmd | -m mod | file | -] [arg] ...\n".toList ++
      "Try `python -h' for more information.\n".toList) 2) args)
  else
    match args.head?.filter (·.head? ≠ some '-') with
    | some file =>
      onMachine (runScriptFile e.view "python" (fun file => "python: can't open file '".toList ++ file ++
        "': [Errno 2] No such file or directory\n".toList) file)
    | none =>
      ask .pythonInput pythonPrompt
      return .ok ("Python 3.10.12 (main, Jun 11 2023, 05:26:28) [GCC 11.4.0] on linux\n".toList ++
        "Type \"help\", \"copyright\", \"credits\" or \"license\" for more information.\n".toList)

/-- What the interactive interpreter prints for a line. -/
def pythonOutput (cmd : Str) : Str :=
  if contains "print(".toList cmd then
    let argument := ((splitOnText "print(".toList cmd cmd.length)[1]?.getD []).takeWhile (· ≠ ')')
    stripChars ['\'', '"'] argument ++ ['\n']
  else if cmd = "help".toList then
    "Type help() for interactive help, or help(object) for help about object.\n".toList
  else []

/-- `_on_input` of `python`. -/
def pythonInput (line : Str) : Shell Output := do
  let cmd := strip line
  if ["quit()".toList, "exit()".toList, "exit".toList, "quit".toList].contains cmd then return .ok []
  else
    let e ← get
    if cmd ≠ [] then onMachine (Leaf.logEvent e.view "python_repl_input".toList [("line".toList, cmd)])
    ask .pythonInput pythonPrompt
    return .ok (pythonOutput cmd)

end Cyanide
