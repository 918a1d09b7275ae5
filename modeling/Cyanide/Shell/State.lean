import Cyanide.Lib.PyText
import Cyanide.Lib.Traced
import Cyanide.Shell.Chain
import Cyanide.Vfs.Engine

/-!
# The state of the shell

`ShellEmulator` is a session's shell: user, directory, environment, aliases, history, a pending prompt, the `Machine` it
works on, and the shells of delegated commands that still have cron jobs to run.  `World` is everything the shell asks
that is not its own: clocks and random numbers, the network, the Unicode tables, and how deep the interpreter recurses.
Commands that only work on the machine are computations `Leaf`; those that change the shell are computations `Shell`.
Both record `Step`s, which no command reads: they are what statements about whole command lines talk about.
-/

namespace Cyanide

open PosixPath PyText

/-- What ends a call without a result: an exception below `Exception`, `SystemExit`, or nothing ever. -/
inductive Exn where
  | raised (message : Str)
  | systemExit
  | endless
  deriving DecidableEq

namespace Exn

def concatBytes : Exn := .raised "can only concatenate str (not \"bytes\") to str".toList

def concatText : Exn := .raised "can't concat str to bytes".toList

def joinBytes (item : ℕ) : Exn :=
  .raised ("sequence item ".toList ++ natText item ++ ": expected str instance, bytes found".toList)

def bytesRequired : Exn := .raised "a bytes-like object is required, not 'str'".toList

def listIndex : Exn := .raised "list index out of range".toList

def stringIndex : Exn := .raised "string index out of range".toList

def assignmentIndex : Exn := .raised "list assignment index out of range".toList

def emptySeparator : Exn := .raised "empty separator".toList

def recursion : Exn := .raised "maximum recursion depth exceeded".toList

end Exn

namespace Content

def isBytes : Content → Bool
  | text _ => false
  | bytes _ => true

/-- The characters of a text. -/
def chars : Content → Str
  | text s => s
  | bytes _ => []

/-- `splitlines()`. -/
def lines : Content → List Content
  | text s => (PyText.lines s).map text
  | bytes b => (byteLines b).map bytes

/-- `splitlines(keepends=True)`. -/
def linesKeepEnds : Content → List Content
  | text s => (PyText.linesKeepEnds s).map text
  | bytes b => (byteLinesKeepEnds b).map bytes

end Content

/-- What a command may return: its standard output is text or bytes.  Most return an `Output`, whose is text. -/
structure Result where
  stdout : Content
  stderr : Str
  rc : Int
  deriving DecidableEq

def Result.ok (stdout : Str) : Result := ⟨.text stdout, [], 0⟩

def Result.fail (stderr : Str) (rc : Int) : Result := ⟨.text [], stderr, rc⟩

namespace Output

def ok (stdout : Str) : Output := ⟨stdout, [], 0⟩

def fail (stderr : Str) (rc : Int) : Output := ⟨[], stderr, rc⟩

def toResult (o : Output) : Result := ⟨.text o.stdout, o.stderr, o.rc⟩

end Output

/-! ### The world -/

/-- The shell section of the configuration and the entries that commands read. -/
structure ShellConfig where
  maxChainDepth : ℕ := 100
  maxOutputSize : ℕ := 1024 * 1024
  packageManagers : List Str := []
  allowLocalNetwork : Bool := false
  dnsCacheTtl : ℕ := 60
  ipAddress : Str := "192.168.1.15".toList

/-- What `socket.getaddrinfo` returns: addresses, each with whether it is private, loopback or link-local (`none`
when it is no IP address). -/
inductive Resolution where
  | gaierror
  | invalid
  | addresses (list : List (Str × Option Bool))

/-- What an HTTP request ends with. -/
inductive HttpReply where
  | raised (clientError : Bool) (message : Str)
  | response (status : ℕ) (head : Str) (body : List UInt8)

/-- The data a command reads of the shell that runs it. -/
structure View where
  username : Str
  cwd : Str
  history : List Str
  config : ShellConfig
  logger : Bool
  quarantineCallback : Bool

/-- What the shell asks from outside, at the number of questions asked so far. -/
structure World where
  unicode : Unicode
  /-- What the commands print that only look at their arguments, clocks, random numbers and constants. -/
  report : Str → List Str → View → ℕ → Str × Str × Int
  random : ℕ → ℕ
  time : ℕ → ℕ
  clock : ℕ → Str
  strftime : ℕ → MTime → Except Str Str
  /-- Hours and minutes of a number of seconds, if `float` takes the text. -/
  hoursAndMinutes : Str → Option (Except Str (Int × Int))
  urlparse : Str → Except Str (Str × Option Str)
  getaddrinfo : ℕ → Str → Resolution
  http : ℕ → Str → HttpReply
  isMalicious : Str → Bool
  /-- `repr` of bytes. -/
  bytesRepr : List UInt8 → Str
  /-- How deep calls nest before `RecursionError`. -/
  recursionLimit : ℕ
  /-- After how many rounds a loop counts as endless. -/
  patience : ℕ

/-! ### The machine -/

/-- A logged event: its type and the texts among its data. -/
structure Event where
  eventType : Str
  data : List (Str × Str)
  deriving DecidableEq

/-- What commands work on: the filesystem with its `os_profile`, the DNS cache of the shell, the logged events, and
what went to the quarantine callback. -/
structure Machine where
  fs : FakeFilesystem
  osProfile : Str
  dnsCache : Dict (Str × ℕ)
  events : List Event
  quarantine : List (Str × List UInt8)
  ticks : ℕ

/-! ### The shell -/

/-- A value of `pending_input_callback`. -/
inductive Callback where
  /-- `auth_and_execute`'s closure over the command called `name`. -/
  | passwordAuth (name : Str) (args : List Str) (input : Content)
  | suPassword
  | doasAuth (args : List Str)
  | pkexecAuth (args : List Str)
  | crontabInput
  | visudoInput
  | editorInput (name : Str)
  | pythonInput
  deriving DecidableEq

/-- The attributes of a shell and of its commands that keep something. -/
structure ShellState where
  username : Str
  cwd : Str
  env : Dict Str
  aliases : Dict Str
  history : List Str
  config : ShellConfig
  logger : Bool
  quarantineCallback : Bool
  analytics : Bool
  pendingInputCallback : Option Callback
  pendingInputPrompt : Option Str
  /-- `target_user` and `login_shell` of the `su` command. -/
  suTarget : Str × Bool
  /-- `_capture_lines` of the commands that edit, by the name of the command. -/
  captureLines : Dict (List Content)
  /-- `target_file` of the editors, by the name of the command. -/
  targetFile : Dict Str
  /-- The cron jobs that are waiting for their time. -/
  backgroundTasks : List Str

/-- A shell that a delegated command ran in and that cron jobs still refer to. -/
structure DetachedShell where
  shell : ShellState
  dnsCache : Dict (Str × ℕ)

structure ShellEmulator extends ShellState where
  machine : Machine
  detached : List DetachedShell

namespace ShellEmulator

variable (e : ShellEmulator)

def fs : FakeFilesystem := e.machine.fs

def view : View := ⟨e.username, e.cwd, e.history, e.config, e.logger, e.quarantineCallback⟩

def setMachine (M : Machine) : ShellEmulator := { e with machine := M }

end ShellEmulator

/-- The method `resolve_path`, for the current directory. -/
def resolvePath (cwd path : Str) : Str :=
  if path.head? = some '/' then resolve path else resolve (cwd ++ '/' :: path)

/-! ### Steps -/

/-- Where a call stands: whether the client's line or a command called the shell, whether the script that is being run
has a later line, and whether an `except Exception` is around the call. -/
structure Ctx where
  nested : Bool
  more : Bool
  handled : Bool
  deriving DecidableEq

/-- A step of a command line, with the state before it. -/
inductive Step where
  /-- The shell is entered, with this many nested calls left. -/
  | enter (c : Ctx) (depth : ℕ) (line : Str) (e : ShellEmulator)
  /-- A line goes to the pending callback. -/
  | answer (c : Ctx) (callback : Callback) (line : Str) (e : ShellEmulator)
  /-- The redirections of a pipeline segment are parsed. -/
  | segment (c : Ctx) (text : Str)
  /-- A command's `auth_and_execute` starts. -/
  | authenticate (c : Ctx) (name : Str) (args : List Str) (e : ShellEmulator)
  /-- A command's `execute` starts. -/
  | dispatch (c : Ctx) (name : Str) (args : List Str) (input : Content) (e : ShellEmulator)
  /-- The output of a segment is written to a file. -/
  | redirect (c : Ctx) (target : Str) (append : Bool) (stdout : Content) (e : ShellEmulator)
  /-- The output of a pipeline, or of a line of a script, is added to the text so far. -/
  | output (c : Ctx) (stdout : Content)
  /-- The command of a cron job goes to the shell. -/
  | cron (cmd : Str) (e : ShellEmulator)

/-- A computation on the machine, which takes no steps. -/
abbrev Leaf (α : Type) := Traced Exn Machine Empty α

abbrev Shell (α : Type) := Traced Exn ShellEmulator Step α

open Traced

/-- A command on the machine, run by a shell. -/
def onMachine {α : Type} (m : Leaf α) : Shell α := embed ShellEmulator.machine (fun M e => e.setMachine M) m

/-! ### Operations on the machine -/

namespace Leaf

def fs : Leaf FakeFilesystem := do return (← get).fs

/-- An operation of the filesystem that returns a value. -/
def onFs {α : Type} (op : FakeFilesystem → α × FakeFilesystem) : Leaf α := do
  let M ← get
  modify fun M => { M with fs := (op M.fs).2 }
  return (op M.fs).1

def getContent (path : Str) : Leaf Content := onFs (·.getContent path)

/-- `get_content_str`. -/
def getContentStr (path : Str) : Leaf Str := do
  match ← getContent path with
  | .text s => return s
  | .bytes b => return decodeReplace b

def mkfile (path : Str) (content : Content) (owner : Str) (group : Str := root)
    (perm : Str := "-rw-r--r--".toList) : Leaf (Option Node) :=
  onFs fun s => s.mkfile path content owner group perm

def mkdirP (path owner : Str) : Leaf Unit := onFs fun s => ((), s.mkdirP path owner)

def remove (path : Str) : Leaf Bool := onFs (·.remove path)

/-- An operation that may run into the recursion limit. -/
def orRecursion (m : Leaf (Except RecursionError Bool)) : Leaf Bool := do
  match ← m with
  | .ok b => return b
  | .error _ => throw .recursion

def copy (W : World) (src dst : Str) (recursive : Bool) : Leaf Bool :=
  orRecursion (onFs fun s => s.copy W.recursionLimit src dst recursive)

def move (W : World) (src dst : Str) : Leaf Bool := orRecursion (onFs fun s => s.move W.recursionLimit src dst)

/-- `_log_event`, which does nothing without a logger. -/
def logEvent (v : View) (eventType : Str) (data : List (Str × Str) := []) : Leaf Unit :=
  if v.logger then modify fun M => { M with events := ⟨eventType, data⟩ :: M.events } else return ()

/-- The number of questions asked so far, which this one increases. -/
def tick : Leaf ℕ := do
  let M ← get
  modify fun M => { M with ticks := M.ticks + 1 }
  return M.ticks

/-- `a + b` for a text `a`. -/
def concat (a : Str) : Content → Leaf Str
  | .text b => return a ++ b
  | .bytes _ => throw .concatBytes

/-- `"".join(lines)`, and the same with another separator. -/
def joinTexts (sep : Str) (parts : List Content) : Leaf Str :=
  match parts.findIdx? Content.isBytes with
  | none => return List.intercalate sep (parts.map Content.chars)
  | some item => throw (.joinBytes item)

theorem joinTexts_map_text (sep : Str) (lines : List Str) (M : Machine) :
    joinTexts sep (lines.map .text) M = ⟨.ok (List.intercalate sep lines), M, []⟩ := by
  have hnone : (lines.map Content.text).findIdx? Content.isBytes = none := by
    rw [List.findIdx?_eq_none_iff]
    intro c hc
    obtain ⟨l, -, rfl⟩ := List.mem_map.1 hc
    rfl
  have hchars : (lines.map Content.text).map Content.chars = lines := by
    rw [List.map_map]
    exact List.map_id lines
  unfold joinTexts
  rw [hnone, hchars]
  rfl

end Leaf

end Cyanide
