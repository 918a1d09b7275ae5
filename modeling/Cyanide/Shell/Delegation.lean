import Cyanide.Shell.ShellCommands

/-!
# Commands that call the shell

`bash`, `su`, `sudo`, `doas` and `pkexec` get the method `execute` of the shell that they call as `run`.  Commands that
`sudo` and `doas` delegate run in a shell of their own on the same machine, which is forgotten afterwards unless cron
jobs were set up in it.
-/

namespace Cyanide

open PosixPath PyText Traced

namespace Ctx

/-- A call from a command of the same shell. -/
def inner (c : Ctx) : Ctx := { c with nested := true }

/-- The call for a line of a script. -/
def line (c : Ctx) (later : Bool) : Ctx := { c.inner with more := c.more || later }

/-- The call of another shell. -/
def delegated (c : Ctx) : Ctx := { c.inner with more := false }

/-- Under a handler for exceptions. -/
def caught (c : Ctx) : Ctx := { c with handled := true }

end Ctx

variable (run : Ctx → Str → Shell Result) (c : Ctx)

/-- `_execute_subcommand`. -/
def executeSubcommand (args : List Str) : Shell Result :=
  if args = [] then return .ok [] else run c.inner (Shlex.join args)

/-! ### `bash` -/

/-- `a + b` for a text `a`, where `b` is the output of a call. -/
def addOutput (a : Str) (b : Content) : Shell Str := do
  step (.output c b)
  onMachine (Leaf.concat a b)

/-- The lines of a script that are executed. -/
def scriptLines (content : Str) : List Str :=
  ((PyText.lines content).map strip).filter fun line => line ≠ [] && line.head? ≠ some '#'

def bashLoop (stdout stderr : Str) (rc : Int) : List Str → Shell Result
  | [] => return ⟨.text stdout, stderr, rc⟩
  | line :: lines => do
    let r ← run (c.line (lines ≠ [])) line
    bashLoop (← addOutput c stdout r.stdout) (stderr ++ r.stderr) r.rc lines

def bashScript (scriptPath : Str) : Shell Result := do
  let e ← get
  let absPath := resolvePath e.cwd scriptPath
  if e.fs.pathExists absPath = false then
    return .fail ("bash: ".toList ++ scriptPath ++ ": No such file or directory\n".toList) 127
  else if e.fs.isDir absPath then
    return .fail ("bash: ".toList ++ scriptPath ++ ": Is a directory\n".toList) 126
  else
    let content ← onMachine (Leaf.getContentStr absPath)
    onMachine (Leaf.logEvent e.view "bash_script_execution".toList
      [("path".toList, scriptPath), ("content_preview".toList, content.take 200)])
    bashLoop run c [] [] 0 (scriptLines content)

def bashCommand (args : List Str) : Shell Result :=
  if args.contains "-i".toList then return .ok "welcome to cyanide bash\n".toList
  else
    match args.filter fun a => a.head? ≠ some '-' || a = "-c".toList with
    | [] => return .ok []
    | scriptPath :: rest =>
      match if scriptPath = "-c".toList then rest.head? else none with
      | some cmd => run c.inner cmd
      | none => bashScript run c scriptPath

/-! ### `su` -/

def suPrompt (targetUser : Str) (loginShell : Bool) : Shell Output := do
  let e ← get
  if e.username = targetUser then return .ok []
  else
    modify fun e => { e with suTarget := (targetUser, loginShell) }
    ask .suPassword "Password: ".toList
    return .ok []

/-- What `shlex.split` raises. -/
def lexMessage : Shlex.LexError → Str
  | .noClosingQuotation => "No closing quotation".toList
  | .noEscapedCharacter => "No escaped character".toList

def shlexSplit (s : Str) : Shell (List Str) :=
  match Shlex.split s with
  | .ok words => return words
  | .error x => throw (.raised (lexMessage x))

def suCommand (args : List Str) : Shell Result := do
  match argAfter "-c".toList args with
  | some cmdLine => executeSubcommand run c (← shlexSplit cmdLine)
  | none =>
    match args with
    | [] => return (← suPrompt root false).toResult
    | arg :: rest =>
      return (← if arg = ['-'] then suPrompt (rest.head?.getD root) true else suPrompt arg false).toResult

/-- `_validate_password`. -/
def validatePassword (users : List User) (targetUser password : Str) : Bool :=
  (users.find? (·.user = some targetUser)).any (·.pass = some password) ||
    ["root".toList, "password".toList, "cyanide".toList, "admin".toList].contains password || password = []

/-- `_update_emulator_state`. -/
def updateEmulatorState : Shell Unit := do
  let e ← get
  let (targetUser, loginShell) := e.suTarget
  let home := if targetUser = root then "/root".toList else "/home/".toList ++ targetUser
  let cwd := if loginShell || (targetUser = root && e.cwd = ['/']) then home else e.cwd
  modify fun e => { e with
    username := targetUser
    cwd
    env := (e.env.insert "USER".toList targetUser).insert "HOME".toList home }
  if e.fs.pathExists cwd = false then onMachine (Leaf.mkdirP cwd targetUser)

/-- `_on_password`. -/
def onPassword (password : Str) : Shell Output := do
  let e ← get
  if validatePassword e.fs.users e.suTarget.1 (strip password) then
    updateEmulatorState
    return .ok []
  else return .fail "su: Authentication failure\n".toList 1

/-! ### Shells of delegated commands -/

/-- `ShellEmulator.__init__`, without configuration and logger. -/
def initShell (fs : FakeFilesystem) (username : Str) (quarantineCallback : Bool) : ShellState :=
  let home := if username = root then "/root".toList else "/home/".toList ++ username
  let cwd := if fs.pathExists home then home else ['/']
  { username
    cwd
    env := [("PATH", "/usr/local/sbin:/usr/local/bin:/usr/sbin:/usr/bin:/sbin:/bin".toList), ("HOME", cwd),
        ("USER", username), ("SHELL", "/bin/bash".toList), ("TERM", "xterm-256color".toList)].foldl
      (fun env (key, value) => env.insert key.toList value) (∅ : Dict Str)
    aliases := [("l", "ls -CF"), ("la", "ls -A"), ("ll", "ls -alF"), ("ls", "ls --color=auto")].foldl
      (fun aliases (name, value) => aliases.insert name.toList value.toList) (∅ : Dict Str)
    history := []
    config := {}
    logger := false
    quarantineCallback
    analytics := false
    pendingInputCallback := none
    pendingInputPrompt := none
    suTarget := ([], false)
    captureLines := ∅
    targetFile := ∅
    backgroundTasks := [] }

/-- Run a new shell on the machine of this one. -/
def inTempShell (shell : ShellEmulator → ShellState) (m : Shell Result) : Shell Result :=
  zoom (fun e => ⟨shell e, { e.machine with dnsCache := ∅ }, e.detached⟩)
    (fun t e => { e with
      machine := { t.machine with dnsCache := e.machine.dnsCache }
      detached := if t.backgroundTasks = [] then t.detached
        else t.detached ++ [⟨t.toShellState, t.machine.dnsCache⟩] })
    m

/-- Run a command line in a new shell, in the directory of this one if `keepCwd`. -/
def executeAs (username : Str) (keepCwd : Bool) (cmdLine : Str) : Shell Result :=
  inTempShell (fun e =>
    let shell := initShell e.fs username e.quarantineCallback
    if keepCwd then { shell with cwd := e.cwd } else shell) (run c.delegated cmdLine)

/-! ### `sudo`, `doas` and `pkexec` -/

/-- What `_parse_sudo_args` returns. -/
inductive SudoArgs where
  | err (message : Str)
  | listPrivileges
  | command (targetUser : Str) (interactive : Bool) (args : List Str)

/-- The loop of `_parse_sudo_args`. -/
def parseSudoArgs : (targetUser : Str) → (interactive : Bool) → List Str → SudoArgs
  | targetUser, interactive, [] => .command targetUser interactive []
  | targetUser, interactive, arg :: args =>
    if arg = "-u".toList then
      match args with
      | [] => .err "sudo: option requires an argument -- 'u'\n".toList
      | user :: args => parseSudoArgs user interactive args
    else if arg = "-l".toList then .listPrivileges
    else if arg = "-i".toList || arg = "-s".toList then parseSudoArgs targetUser true args
    else if arg.head? = some '-' then parseSudoArgs targetUser interactive args
    else .command targetUser interactive (arg :: args)

/-- `_list_privileges`. -/
def listPrivileges (username : Str) : Str :=
  "Matching Defaults entries for ".toList ++ username ++
    " on server:\n    env_reset, mail_badpass, secure_path=".toList ++
    "/usr/local/sbin:/usr/local/bin:/usr/sbin:/usr/bin:/sbin:/bin\n\nUser ".toList ++ username ++
    " may run the following commands on server:\n    (ALL : ALL) ALL\n".toList

/-- `_handle_interactive`. -/
def sudoInteractive (targetUser : Str) : Shell Output := do
  let e ← get
  let cwd := if targetUser = root then (if e.fs.pathExists "/root".toList then "/root".toList else ['/'])
    else "/home/".toList ++ targetUser
  modify fun e => { e with username := targetUser, cwd }
  return .ok []

def sudoUsage : Str :=
  "usage: sudo -h | -K | -k | -V\nusage: sudo -v [-AknS] [-g group] [-h host] [-p prompt] [-u user]\n".toList

def sudoCommand (args : List Str) : Shell Result := do
  match parseSudoArgs root false args with
  | .err message => return .fail message 1
  | .listPrivileges => return .ok (listPrivileges (← get).username)
  | .command targetUser true [] => return (← sudoInteractive targetUser).toResult
  | .command _ false [] => return .fail sudoUsage 1
  | .command targetUser interactive args => executeAs run c targetUser (!interactive) (Shlex.join args)

def doasCommand (args : List Str) : Shell Result := do
  let e ← get
  if args = [] then return .fail "usage: doas [-nSs] [-a style] [-C conf] [-u user] command [args]\n".toList 1
  else if e.username = root then executeSubcommand run c args
  else
    ask (.doasAuth args) (passwordPrompt e.username)
    return .ok []

/-- `_on_delegated_auth` of `doas`. -/
def onDoasAuth (args : List Str) : Shell Result := executeAs run c root true (Shlex.join args)

def pkexecCommand (args : List Str) : Shell Result := do
  let e ← get
  match args with
  | [] => return .fail "pkexec: must specify a program to execute\n".toList 1
  | program :: _ =>
    if e.username = root then executeSubcommand run c args
    else
      let prompt := "==== AUTHENTICATING FOR org.freedesktop.policykit.exec ====\n".toList ++
        "Authentication is required to run ".toList ++ program ++ " as the super user\nAuthenticating as: ".toList ++
        e.username ++ "\nPassword: ".toList
      ask (.pkexecAuth args) prompt
      return .ok prompt

/-- `_on_delegated_auth` of `pkexec`. -/
def onPkexecAuth (args : List Str) : Shell Result := do
  modify fun e => { e with username := root }
  executeSubcommand run c args

end Cyanide
