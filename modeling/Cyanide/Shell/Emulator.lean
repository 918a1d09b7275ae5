import Cyanide.Shell.CommandLine
import Cyanide.Shell.Delegation
import Cyanide.Shell.Downloads

/-!
# The shell

`execute` answers a pending prompt or runs a command line: chains of pipelines of commands, with redirections into
files.  Commands that call the shell again get it with one nested call less; the depth stands for the recursion limit
of the interpreter.
-/

namespace Cyanide

open PosixPath PyText Traced

variable (W : World)

/-! ### The commands -/

/-- The classes of commands that only work on the machine; `report` is for those whose output is made up. -/
inductive LeafCommand where
  | apt | awk | cat | chmod | cp | curl | dpkg | echo | env | find | gcc | grep | head | help | history | id | ls | make
  | mkdir | mv | nc | perl | ping | pwd | report | rm | rmdir | rpm | tail | touch | uname | uptime | wget | whoami | yum
  deriving DecidableEq

/-- The classes of commands that change the shell or call it. -/
inductive ShellCommand where
  | alias_ | bash | cd | crontab | doas | editor | export_ | pkexec | python | su | sudo_ | unalias | visudo
  deriving DecidableEq

inductive CommandClass where
  | leaf (cls : LeafCommand)
  | shell (cls : ShellCommand)
  deriving DecidableEq

/-- `COMMAND_MAP`, with the entry that `_register_commands` adds. -/
def commandMap : List (Str × CommandClass) :=
  [("cd", .shell .cd), ("ls", .leaf .ls), ("pwd", .leaf .pwd), ("whoami", .leaf .whoami), ("id", .leaf .id),
    ("echo", .leaf .echo), ("uname", .leaf .uname), ("ps", .leaf .report), ("sudo", .shell .sudo_), ("su", .shell .su),
    ("help", .leaf .help), ("export", .shell .export_), ("who", .leaf .report), ("w", .leaf .report),
    ("cat", .leaf .cat), ("chmod", .leaf .chmod), ("touch", .leaf .touch), ("mkdir", .leaf .mkdir),
    ("rmdir", .leaf .rmdir), ("rm", .leaf .rm), ("cp", .leaf .cp), ("mv", .leaf .mv), ("find", .leaf .find),
    ("grep", .leaf .grep), ("head", .leaf .head), ("tail", .leaf .tail), ("awk", .leaf .awk), ("ip", .leaf .report),
    ("ifconfig", .leaf .report), ("route", .leaf .report), ("netstat", .leaf .report), ("ss", .leaf .report),
    ("lsof", .leaf .report), ("env", .leaf .env), ("history", .leaf .history), ("last", .leaf .report),
    ("finger", .leaf .report), ("systemctl", .leaf .report), ("journalctl", .leaf .report),
    ("crontab", .shell .crontab), ("free", .leaf .report), ("alias", .shell .alias_), ("unalias", .shell .unalias),
    ("apt", .leaf .apt), ("apt-get", .leaf .apt), ("dpkg", .leaf .dpkg), ("yum", .leaf .yum), ("dnf", .leaf .yum),
    ("rpm", .leaf .rpm), ("python", .shell .python), ("python3", .shell .python), ("perl", .leaf .perl),
    ("gcc", .leaf .gcc), ("make", .leaf .make), ("nc", .leaf .nc), ("netcat", .leaf .nc), ("pkexec", .shell .pkexec),
    ("doas", .shell .doas), ("visudo", .shell .visudo), ("bash", .shell .bash), ("sh", .shell .bash),
    ("curl", .leaf .curl), ("wget", .leaf .wget), ("ping", .leaf .ping), ("uptime", .leaf .uptime),
    ("vi", .shell .editor), ("vim", .shell .editor), ("nano", .shell .editor), ("ed", .shell .editor),
    ("date", .leaf .report), ("df", .leaf .report), ("dir", .leaf .ls)].map fun (name, cls) => (name.toList, cls)

def lookupCommand (name : Str) : Option CommandClass := commandMap.lookup name

/-- `execute` of a command that only works on the machine. -/
def LeafCommand.execute (cls : LeafCommand) (v : View) (name : Str) (args : List Str) (input : Content) : Leaf Result :=
  match cls with
  | .apt => Output.toResult <$> aptCommand W v args
  | .awk => Output.toResult <$> awkCommand W v args input
  | .cat => catCommand v args input
  | .chmod => Output.toResult <$> chmodCommand W v args
  | .cp => Output.toResult <$> cpCommand W v args
  | .curl => Output.toResult <$> curlCommand W v args
  | .dpkg => Output.toResult <$> dpkgCommand W v args
  | .echo => Output.toResult <$> echoCommand args
  | .env => Output.toResult <$> envCommand v
  | .find => Output.toResult <$> findCommand W v args
  | .gcc => Output.toResult <$> gccCommand v args
  | .grep => Output.toResult <$> grepCommand W v args input
  | .head => Output.toResult <$> headCommand W v args input
  | .help => Output.toResult <$> helpCommand
  | .history => Output.toResult <$> historyCommand v
  | .id => Output.toResult <$> idCommand v
  | .ls => Output.toResult <$> lsCommand W v args
  | .make => Output.toResult <$> makeCommand v
  | .mkdir => Output.toResult <$> mkdirCommand W v args
  | .mv => Output.toResult <$> mvCommand W v args
  | .nc => Output.toResult <$> ncCommand v args
  | .perl => Output.toResult <$> perlCommand v args
  | .ping => Output.toResult <$> pingCommand W v args
  | .pwd => Output.toResult <$> pwdCommand v
  | .report => Output.toResult <$> reportCommand W v name args
  | .rm => Output.toResult <$> rmCommand v args
  | .rmdir => Output.toResult <$> rmdirCommand v args
  | .rpm => Output.toResult <$> rpmCommand W v args
  | .tail => Output.toResult <$> tailCommand W v args input
  | .touch => Output.toResult <$> touchCommand v args
  | .uname => Output.toResult <$> unameCommand args
  | .uptime => Output.toResult <$> uptimeCommand W
  | .wget => Output.toResult <$> wgetCommand W v args
  | .whoami => Output.toResult <$> whoamiCommand v
  | .yum => Output.toResult <$> yumCommand W v args

section Run

variable (run : Ctx → Str → Shell Result) (c : Ctx)

/-- `execute` of a command that changes the shell or calls it. -/
def ShellCommand.execute (cls : ShellCommand) (name : Str) (args : List Str) : Shell Result :=
  match cls with
  | .alias_ => Output.toResult <$> aliasCommand args
  | .bash => bashCommand run c args
  | .cd => Output.toResult <$> cdCommand args
  | .crontab => crontabCommand args
  | .doas => doasCommand run c args
  | .editor => Output.toResult <$> editorCommand name args
  | .export_ => Output.toResult <$> exportCommand args
  | .pkexec => pkexecCommand run c args
  | .python => Output.toResult <$> pythonCommand args
  | .su => suCommand run c args
  | .sudo_ => sudoCommand run c args
  | .unalias => Output.toResult <$> unaliasCommand args
  | .visudo => Output.toResult <$> visudoCommand

/-- `execute` of the command of the given name. -/
def runCommand (cls : CommandClass) (name : Str) (args : List Str) (input : Content) : Shell Result := do
  let e ← get
  step (.dispatch c name args input e)
  match cls with
  | .leaf cls => onMachine (cls.execute W e.view name args input)
  | .shell cls => cls.execute run c name args

/-! ### Authentication -/

/-- Whether a path is `/root` or below it. -/
def inRoot (path : Str) : Bool := path = "/root".toList || "/root/".toList.isPrefixOf path

/-- A user who is not root names a path at or below `/root`. -/
def needsPassword (e : ShellEmulator) (args : List Str) : Bool :=
  e.username ≠ root && args.any fun p => inRoot (resolvePath e.cwd p)

/-- `auth_and_execute`. -/
def authAndExecute (cls : CommandClass) (name : Str) (args : List Str) (input : Content) : Shell Result := do
  let e ← get
  step (.authenticate c name args e)
  if needsPassword e args then
    ask (.passwordAuth name args input) (passwordPrompt e.username)
    return .ok []
  else runCommand W run c cls name args input

/-- `_on_password_auth`. -/
def onPasswordAuth (name : Str) (args : List Str) (input : Content) : Shell Result := do
  modify fun e => { e with username := root }
  match lookupCommand name with
  | some cls => runCommand W run c cls name args input
  | none => return .ok []

/-- What a pending callback does with a line. -/
def answer (callback : Callback) (line : Str) : Shell Result :=
  match callback with
  | .passwordAuth name args input => onPasswordAuth W run c name args input
  | .suPassword => Output.toResult <$> onPassword line
  | .doasAuth args => onDoasAuth run c args
  | .pkexecAuth args => onPkexecAuth run c args
  | .crontabInput => Output.toResult <$> crontabInput line
  | .visudoInput => Output.toResult <$> visudoInput line
  | .editorInput name => Output.toResult <$> editorInput name line
  | .pythonInput => Output.toResult <$> pythonInput line

/-! ### Commands and pipelines -/

/-- The method `check_permission`. -/
def checkPermission (e : ShellEmulator) (path : Str) (mode : Str) : Bool :=
  if e.username = root then true
  else if inRoot (resolvePath e.cwd path) then false
  else
    match e.fs.getNode path with
    | none => false
    | some node =>
      let scope (i : ℕ) := (node.perm.drop i).take 3
      let scopePerm := if e.username = node.owner then scope 1 else if e.username = node.group then scope 4 else scope 7
      ['r', 'w', 'x'].all fun m => !mode.contains m || scopePerm.contains m

/-- The method `_run_command_instance`. -/
def runCommandInstance (cmdName : Str) (params : List Str) (input : Content) : Shell Result :=
  match lookupCommand cmdName with
  | none => return .fail (cmdName ++ ": command not found\n".toList) 127
  | some cls =>
    tryCatch (authAndExecute W run c.caught cls cmdName params input) fun
      | .raised message => return .fail ("Command execution error: ".toList ++ message ++ ['\n']) 1
      | x => throw x

/-- A file that is run by its name, which calls the command `bash` directly. -/
def runScript (cmdName : Str) (params : List Str) (input : Content) : Shell Result := do
  let e ← get
  if checkPermission e (resolvePath e.cwd cmdName) ['x'] then
    runCommand W run c (.shell .bash) "bash".toList (cmdName :: params) input
  else return .fail ("bash: ".toList ++ cmdName ++ ": Permission denied\n".toList) 126

/-- The method `_execute_single_command`. -/
def executeSingleCommand (cmdLine : Str) (input : Content) : Shell Result := do
  match Shlex.split cmdLine with
  | .error _ => return .fail "Syntax error\n".toList 1
  | .ok [] => return .ok []
  | .ok (name :: args) =>
    let e ← get
    let (cmdName, params) := resolveAlias e.aliases name args
    let absPath := resolvePath e.cwd cmdName
    if lookupCommand cmdName = none ∧ e.fs.pathExists absPath = true ∧ e.fs.isDir absPath = false then
      runScript W run c cmdName params input
    else runCommandInstance W run c cmdName params input

/-- `existing + stdout`. -/
def addContent : Content → Content → Leaf Content
  | .text a, .text b => return .text (a ++ b)
  | .bytes a, .bytes b => return .bytes (a ++ b)
  | .text _, .bytes _ => throw .concatBytes
  | .bytes _, .text _ => throw .concatText

/-- The output of a segment goes to a file. -/
def redirectOutput (target : Str) (append : Bool) (stdout : Content) : Shell Unit := do
  let e ← get
  step (.redirect c target append stdout e)
  let absTarget := resolvePath e.cwd target
  onMachine do
    let content ← if append then addContent (← existingContent absTarget) stdout else pure stdout
    -- `_write_file`
    let _ ← Leaf.mkfile absTarget content e.username e.username

/-- The local variables of `_execute_pipeline`. -/
structure PipelineState where
  inputData : Content := .text []
  errOut : Str := []
  lastRc : Int := 0

/-- The loop body of `_execute_pipeline`. -/
def executeSegment (st : PipelineState) (segment : Str) : Shell PipelineState := do
  step (.segment c segment)
  match parseRedirections segment with
  | .error x => throw (.raised (lexMessage x))
  | .ok (cmdStr, target, append) =>
    let r ← executeSingleCommand W run c cmdStr st.inputData
    let target := target.getD []
    if target ≠ [] then
      redirectOutput c target append r.stdout
      return ⟨.text [], st.errOut ++ r.stderr, r.rc⟩
    else return ⟨r.stdout, st.errOut ++ r.stderr, r.rc⟩

/-- The method `_execute_pipeline`. -/
def executePipeline (pipelineStr : Str) : Shell Result := do
  let st ← (splitIgnoreQuotes pipelineStr '|').foldlM (executeSegment W run c) {}
  return ⟨st.inputData, st.errOut, st.lastRc⟩

/-! ### Command lines -/

/-- `secrets.SystemRandom().randint(lo, hi)`. -/
def randint (lo hi : ℕ) : Leaf ℕ := do return lo + W.random (← Leaf.tick) % (hi - lo + 1)

/-- A node that ends in `&` is only entered in the process table. -/
def background (cmdLine : Str) : Shell Output := do
  let e ← get
  onMachine do
    let pid ← randint W 2000 9000
    modify fun M => { M with fs := { M.fs with
      processes := M.fs.processes ++ [⟨pid, "pts/0".toList, "00:00:00".toList, cmdLine, e.username⟩] } }
    return ⟨'[' :: natText (← randint W 1 10) ++ "] ".toList ++ natText pid ++ ['\n'], [], 0⟩

/-- A pipeline as a node of a chain, whose output is added to a text. -/
def pipelineNode (cmdLine : Str) : Shell Output := do
  let r ← executePipeline W run c cmdLine
  return ⟨← addOutput c [] r.stdout, r.stderr, r.rc⟩

/-- `execute`, when nothing is pending. -/
def executeLine (commandLine : Str) : Shell Result := do
  if strip commandLine = [] then return .ok []
  else
    modify fun e => { e with history := e.history ++ [strip commandLine] }
    let e ← get
    let nodes := parseChain (expandVars W.unicode e.env commandLine)
    if e.config.maxChainDepth < nodes.length then
      return .fail "shell: maximum command chain depth exceeded\n".toList 1
    else
      Output.toResult <$> executeNodes e.config.maxOutputSize (background W) (pipelineNode W run c) nodes

/-- The body of `execute`. -/
def executeWith (commandLine : Str) : Shell Result := do
  let e ← get
  match e.pendingInputCallback with
  | some callback =>
    modify fun e => { e with pendingInputCallback := none, pendingInputPrompt := none }
    step (.answer c callback commandLine e)
    answer W run c callback commandLine
  | none => executeLine W run c commandLine

end Run

/-- The method `execute`, with the number of nested calls left. -/
def execute : (depth : ℕ) → Ctx → Str → Shell Result
  | depth, c, commandLine => do
    let e ← get
    step (.enter c depth commandLine e)
    match depth with
    | 0 => throw .recursion
    | depth + 1 => executeWith W (execute depth) c commandLine

end Cyanide
