import Cyanide.Shell.Emulator

/-!
# Histories of a session

A session gets lines from its client, and between them the cron jobs that were set up run, in its own shell or in one
that a delegated command left behind.  `history` is the computation of a whole history, in which an exception ends what
it was raised in.
-/

namespace Cyanide

open PosixPath PyText Traced

variable (W : World)

/-- What happens to a session. -/
inductive Input where
  /-- The client sends a line. -/
  | line (s : Str)
  /-- The time of a cron job has come, in the session's shell (`none`) or a detached one. -/
  | cron (shell : Option ℕ) (job : ℕ)

namespace Ctx

/-- The call for a line of the client. -/
def client : Ctx := ⟨false, false, false⟩

/-- The call for a cron job. -/
def cron : Ctx := ⟨true, false, true⟩

end Ctx

/-- `_schedule_cron_job`. -/
def scheduleCronJob (entry : Str) : Shell Unit := do
  let parts := words entry
  if parts.length < 6 then return ()
  else
    let cmd := List.intercalate [' '] (parts.drop 5)
    let e ← get
    if e.analytics && W.isMalicious cmd then
      onMachine (Leaf.logEvent e.view "cron_simulation_blocked".toList
        [("command".toList, cmd), ("reason".toList, "ML flagged as malicious".toList)])
    else
      onMachine (Leaf.logEvent e.view "cron_simulation_start".toList [("command".toList, cmd)])
      step (.cron cmd e)
      tryCatch (do let _ ← execute W W.recursionLimit .cron cmd) fun
        | .raised _ => return ()
        | x => throw x

/-- The job of the given number runs. -/
def fireJob (job : ℕ) : Shell Unit := do
  let e ← get
  match e.backgroundTasks[job]? with
  | none => return ()
  | some entry =>
    modify fun e => { e with backgroundTasks := e.backgroundTasks.eraseIdx job }
    scheduleCronJob W entry

/-- Run a computation in a detached shell. -/
def inDetached (i : ℕ) (d : DetachedShell) (m : Shell Unit) : Shell Unit :=
  zoom (fun e => ⟨d.shell, { e.machine with dnsCache := d.dnsCache }, e.detached⟩)
    (fun t e => { e with
      machine := { t.machine with dnsCache := e.machine.dnsCache }
      detached := t.detached.set i ⟨t.toShellState, t.machine.dnsCache⟩ })
    m

def handleInput : Input → Shell Unit
  | .line s => do let _ ← execute W W.recursionLimit .client s
  | .cron none job => fireJob W job
  | .cron (some i) job => do
    let e ← get
    match e.detached[i]? with
    | none => return ()
    | some d => inDetached i d (fireJob W job)

def history (inputs : List Input) : Shell Unit :=
  inputs.foldlM (fun _ input => tryCatch (handleInput W input) fun _ => return ()) ()

/-! ### A small world -/

/-- A world without a network, where nothing is random and no time passes. -/
def plainWorld : World where
  unicode := ascii
  report _ _ _ _ := ([], [], 0)
  random _ := 0
  time _ := 0
  clock _ := []
  strftime _ _ := .ok []
  hoursAndMinutes _ := none
  urlparse _ := .error []
  getaddrinfo _ _ := .gaierror
  http _ _ := .raised false []
  isMalicious _ := false
  bytesRepr _ := []
  recursionLimit := 10
  patience := 10

/-- A filesystem with nothing but the homes of its users. -/
def plainFs : FakeFilesystem where
  profile := ⟨none, ∅, [], id, fun _ => none⟩
  users := []
  memoryOverlay := (["/root", "/home/bob"].foldl (fun overlay path => overlay.insert path.toList
    { type := some typeDir }) (∅ : Dict Config))
  deletedPaths := ∅
  processes := []
  fileOps := []
  now := 0

def plainShell (username : Str) : ShellEmulator :=
  ⟨initShell plainFs username false, ⟨plainFs, "debian".toList, ∅, [], [], 0⟩, []⟩

end Cyanide
