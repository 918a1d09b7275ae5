import Cyanide.Core.InputLines
import Cyanide.Core.Stats
import Cyanide.Core.TtyRecording
import Cyanide.Services.Smtp

/-!
# Telnet sessions

A session as `TelnetHandler.handle_connection` holds it with a client that was accepted: the login and the shell read
the lines of the client and write, count and log.  The counts of a phase are handed on when it returns; an exception that
comes out of it drops them.  So the log of a session tells the bytes and commands that the statistics and the recording
tell of, exactly when no phase that has read something was broken off (`sessionEnd_iff`).
-/

namespace Cyanide

open PosixPath PyText Transition Smtp

/-- What the shell makes of a command: its state behind it, the two outputs and the code, or an exception. -/
inductive Executed (σ : Type) where
  | done (shell : σ) (stdout stderr : Str) (rc : Int)
  | timeout
  | error

/-- What the handler asks of the server, its configuration and the shell. -/
structure TelnetServer (σ : Type) where
  users : List (Str × Str)
  hostname : Str
  /-- The text in `/etc/issue`, or else the line with the name of the system. -/
  issue : Str
  logPasswords : Bool
  sha256 : Str → Str
  shell : Str → σ
  cwd : σ → Str
  execute : σ → Str → Executed σ

inductive TelnetLog where
  | connect
  | sessionStart
  | telnetDisconnect
  | authAttempt (username : Str) (success : Bool) (passwordLen : ℕ)
  | auth (username : Str) (success : Bool) (password : Str)
  | commandInput (username cmd cwd : Str)
  | commandNotFound (cmd : Str)
  /-- `telnet_error` and `telnet_exception`. -/
  | telnetError
  | sessionEnd (username : Str) (commandCount bytesIn bytesOut : ℕ)

inductive TelnetEffect where
  | write (b : List UInt8)
  | stat (e : StatEvent)
  /-- `on_command` of the statistics. -/
  | command (username cmd : Str)
  | log (e : TelnetLog)
  | tty (direction : TtyDirection) (data : TtyData)
  | analyzeCommand (cmd : Str)
  | analyzeAuth (username password : Str)
  | close

/-- What becomes of the connection behind the lines: it breaks off, or nothing comes any more. -/
inductive ClientEnd where
  /-- `IncompleteReadError` or `ConnectionResetError`. -/
  | gone
  | silent

inductive Reading where
  | line (line : Line)
  | gone
  | silent
  /-- `LimitOverrunError`. -/
  | overrun

def ClientEnd.reading : ClientEnd → Reading
  | .gone => .gone
  | .silent => .silent

/-- `readuntil(b"\n")`. -/
def readUntil (ending : ClientEnd) : List Line → Reading
  | [] => ending.reading
  | line :: _ => if isTooLong line then .overrun else if line.getLast? = some 10 then .line line else ending.reading

/-- How a phase ends. -/
inductive PhaseEnd (α : Type) where
  | returned (a : α)
  | raised
  /-- It waits for the client. -/
  | waiting

structure AuthResult where
  success : Bool
  username : Str
  bytesIn : ℕ
  bytesOut : ℕ

/-- The counts of `_run_shell`. -/
structure ShellCounts where
  bytesIn : ℕ
  bytesOut : ℕ
  commands : List Str

def encodeText (s : Str) : List UInt8 := s.flatMap String.utf8EncodeChar

namespace TelnetServer

variable {σ : Type} (S : TelnetServer σ)

def isValidUser (username password : Str) : Bool := S.users.any fun u => u.1 = username && u.2 = password

/-- `_send_banner`. -/
def banner : Str :=
  if S.issue = [] then []
  else
    let banner := replace "\n".toList "\r\n".toList
      (replace "\\l".toList "pts/0".toList (replace "\\n".toList S.hostname S.issue))
    if "\r\n".toList <:+ banner then banner else banner ++ "\r\n".toList

def sendBanner : List TelnetEffect := if S.issue = [] then [] else [.write (encodeText S.banner)]

/-- A prompt of the login, and the line that is read behind it. -/
def ask (prompt : Str) (ending : ClientEnd) (r : List Line) : List TelnetEffect × Reading :=
  let answer := readUntil ending r
  ([.write (encodeText prompt), .stat (.traffic "out".toList prompt.length)] ++
    (match answer with
      | .line line => [.stat (.traffic "in".toList line.length)]
      | _ => []), answer)

def loginPrompt : Str := "login: ".toList

def passwordPrompt : Str := "Password: ".toList

/-- What the handler does with a name and a password. -/
def authenticate (username password : Str) : List TelnetEffect :=
  let success := S.isValidUser username password
  let logPassword :=
    if S.logPasswords then password
    else "sha256:".toList ++ S.sha256 password ++ " (len:".toList ++ natText password.length ++ ")".toList
  [.stat (.auth success), .log (.authAttempt username success password.length),
    .log (.auth username success logPassword)] ++
  if success then []
  else [.analyzeAuth username password, .write (encodeText "\r\nLogin incorrect\r\n".toList), .close]

/-- `_perform_auth`. -/
def performAuth (ending : ClientEnd) (r : List Line) : List TelnetEffect × PhaseEnd AuthResult :=
  let (effects, answer) := ask loginPrompt ending r
  match answer with
  | .overrun => (effects, .raised)
  | .silent => (effects, .waiting)
  | .gone => (effects ++ [.log .telnetDisconnect], .returned ⟨false, [], 0, loginPrompt.length⟩)
  | .line login =>
    match decodeStrict login with
    | none => (effects, .raised)
    | some name =>
      let (effects', answer') := ask passwordPrompt ending r.tail
      match answer' with
      | .overrun => (effects ++ effects', .raised)
      | .silent => (effects ++ effects', .waiting)
      | .gone => (effects ++ effects' ++ [.log .telnetDisconnect],
          .returned ⟨false, [], login.length, loginPrompt.length + passwordPrompt.length⟩)
      | .line pass =>
        match decodeStrict pass with
        | none => (effects ++ effects', .raised)
        | some word =>
          let success := S.isValidUser (strip name) (strip word)
          (effects ++ effects' ++ S.authenticate (strip name) (strip word),
            .returned ⟨success, strip name, login.length + pass.length,
              loginPrompt.length + passwordPrompt.length +
                if success then 0 else "\r\nLogin incorrect\r\n".toList.length⟩)

/-- `_get_prompt`. -/
def getPrompt (username cwd : Str) : Str :=
  let home := "/home/".toList ++ username
  let shown :=
    if home <+: cwd then '~' :: cwd.drop home.length
    else if username = "root".toList ∧ "/root".toList <+: cwd then '~' :: cwd.drop 5
    else cwd
  username ++ "@server:".toList ++ shown ++ "$ ".toList

def timeoutText : Str := "\r\nTimeout.\r\n".toList

/-- What is written behind a command, and its length. -/
def output (stdout stderr : Str) : List UInt8 := encodeText (replace "\n".toList "\r\n".toList (stdout ++ stderr))

/-- What the handler does with a command in front of its execution. -/
def enter (username : Str) (shell : σ) (cmd : Str) : List TelnetEffect :=
  [.command username cmd, .log (.commandInput username cmd (S.cwd shell)), .analyzeCommand cmd]

/-- What the handler does with the results of a command. -/
def answer (username cmd : Str) (shell : σ) (stdout stderr : Str) (rc : Int) : List TelnetEffect :=
  let prompt := getPrompt username (S.cwd shell)
  (if rc = 127 then [.stat (.commandNotFound cmd), .log (.commandNotFound cmd)] else []) ++
  [.write (output stdout stderr), .stat (.traffic "out".toList (output stdout stderr).length),
    .tty .output (.bytes (output stdout stderr)), .write (encodeText prompt),
    .stat (.traffic "out".toList prompt.length)]

/-- The loop of `_run_shell`. -/
def shellLoop (username : Str) (ending : ClientEnd) : σ → (prompt : Str) → ShellCounts → List Line →
    List TelnetEffect × PhaseEnd ShellCounts
  | _, _, counts, [] =>
    match ending with
    | .gone => ([], .raised)
    | .silent => ([.write (encodeText timeoutText)],
        .returned { counts with bytesOut := counts.bytesOut + timeoutText.length })
  | shell, prompt, counts, line :: rest =>
    match readUntil ending (line :: rest) with
    | .overrun => ([], .raised)
    | .gone => ([], .raised)
    | .silent => ([.write (encodeText timeoutText)],
        .returned { counts with bytesOut := counts.bytesOut + timeoutText.length })
    | .line line =>
      let counts := { counts with bytesIn := counts.bytesIn + line.length }
      let read : TelnetEffect := .stat (.traffic "in".toList line.length)
      match decodeStrict line with
      | none => ([read], .raised)
      | some text =>
        let cmd := strip text
        if cmd = [] then
          let b := encodeText prompt
          let later := shellLoop username ending shell prompt { counts with bytesOut := counts.bytesOut + b.length } rest
          ([read, .write b, .stat (.traffic "out".toList b.length)] ++ later.1, later.2)
        else
          let counts := { counts with commands := counts.commands ++ [cmd] }
          let typed := [read, .tty .input (.text (cmd ++ ['\n']))]
          if InputState.isExit cmd then (typed, .returned counts)
          else
            match S.execute shell cmd with
            | .error => (typed ++ S.enter username shell cmd, .raised)
            | .timeout => (typed ++ S.enter username shell cmd ++ [.write (encodeText timeoutText)],
                .returned { counts with bytesOut := counts.bytesOut + timeoutText.length })
            | .done shell' stdout stderr rc =>
              let prompt' := getPrompt username (S.cwd shell')
              let later := shellLoop username ending shell' prompt'
                { counts with bytesOut := counts.bytesOut + (output stdout stderr).length + prompt'.length } rest
              (typed ++ S.enter username shell cmd ++ S.answer username cmd shell' stdout stderr rc ++ later.1, later.2)

/-- `_run_shell`. -/
def runShell (username : Str) (ending : ClientEnd) (r : List Line) : List TelnetEffect × PhaseEnd ShellCounts :=
  let prompt := username ++ "@server:~$ ".toList
  let loop := S.shellLoop username ending (S.shell username) prompt ⟨0, prompt.length, []⟩ r
  ([.write (encodeText prompt), .stat (.traffic "out".toList prompt.length), .tty .output (.text prompt)] ++ loop.1,
    loop.2)

/-- The event `session.end` and what the handler does with it. -/
def cleanup (username : Str) (commands bytesIn bytesOut : ℕ) : List TelnetEffect :=
  [.log (.sessionEnd username commands bytesIn bytesOut), .stat .disconnect, .close]

/-- What comes in front of the login. -/
def opening (srcIp : Str) : List TelnetEffect :=
  [.log .sessionStart, .log .connect, .stat (.connect "telnet".toList srcIp)] ++ S.sendBanner

/-- What the handler does, and whether it has ended. -/
def handleConnection (srcIp : Str) (ending : ClientEnd) (stream : List UInt8) : List TelnetEffect × Bool :=
  let r := linesOf stream
  let before := S.opening srcIp
  let auth := S.performAuth ending r
  match auth.2 with
  | .waiting => (before ++ auth.1, false)
  | .raised => (before ++ auth.1 ++ [.log .telnetError] ++ cleanup [] 0 0 S.banner.length, true)
  | .returned a =>
    let bytesOut := S.banner.length + a.bytesOut
    if a.success then
      let shell := S.runShell a.username ending (r.drop 2)
      let entered := before ++ auth.1 ++ [.log .sessionStart] ++ shell.1
      match shell.2 with
      | .waiting => (entered, false)
      | .raised => (entered ++ [.log .telnetError] ++ cleanup a.username 0 a.bytesIn bytesOut, true)
      | .returned counts =>
        (entered ++ cleanup a.username counts.commands.length (a.bytesIn + counts.bytesIn) (bytesOut + counts.bytesOut),
          true)
    else (before ++ auth.1 ++ cleanup a.username 0 a.bytesIn bytesOut, true)

/-- What was done in the phase that an exception came out of. -/
def lost (ending : ClientEnd) (stream : List UInt8) : List TelnetEffect :=
  let r := linesOf stream
  let auth := S.performAuth ending r
  match auth.2 with
  | .waiting => []
  | .raised => auth.1
  | .returned a =>
    if a.success then
      let shell := S.runShell a.username ending (r.drop 2)
      match shell.2 with
      | .raised => shell.1
      | _ => []
    else []

end TelnetServer

/-! ### What the effects tell -/

namespace TelnetEffect

/-- What the statistics are told of. -/
def stats (effects : List TelnetEffect) : List StatEvent :=
  effects.filterMap fun
    | .stat e => some e
    | _ => none

/-- What the recording has as typed. -/
def typed (effects : List TelnetEffect) : List Str :=
  effects.filterMap fun
    | .tty .input (.text s) => some s
    | _ => none

def ends (effects : List TelnetEffect) : List (Str × ℕ × ℕ × ℕ) :=
  effects.filterMap fun
    | .log (.sessionEnd username commandCount bytesIn bytesOut) => some (username, commandCount, bytesIn, bytesOut)
    | _ => none

/-- The bytes that the statistics count as read. -/
def bytesRead (effects : List TelnetEffect) : ℕ :=
  (effects.map fun
    | .stat (.traffic direction size) => if direction = "in".toList then size else 0
    | _ => 0).sum

@[simp] theorem typed_append (a b : List TelnetEffect) : typed (a ++ b) = typed a ++ typed b := List.filterMap_append

@[simp] theorem ends_append (a b : List TelnetEffect) : ends (a ++ b) = ends a ++ ends b := List.filterMap_append

@[simp] theorem bytesRead_append (a b : List TelnetEffect) : bytesRead (a ++ b) = bytesRead a + bytesRead b := by
  rw [bytesRead, List.map_append, List.sum_append]
  rfl

theorem bytesIn_run (s : StatsManager) (effects : List TelnetEffect) :
    (run StatEvent.apply s (stats effects)).bytesIn = s.bytesIn + bytesRead effects := by
  induction effects generalizing s with
  | nil => rfl
  | cons e effects ih =>
    have hcons : bytesRead (e :: effects) = bytesRead [e] + bytesRead effects := bytesRead_append [e] effects
    cases e with
    | stat e =>
      have hstep : (e.apply s).bytesIn = s.bytesIn + bytesRead [.stat e] := by
        cases e with
        | auth success => cases success <;> rfl
        | traffic direction size =>
          by_cases hin : direction = "in".toList
          · simp only [StatEvent.apply, bytesRead, List.map_cons, List.map_nil, List.sum_cons, List.sum_nil, if_pos hin]
            rfl
          · simp only [StatEvent.apply, bytesRead, List.map_cons, List.map_nil, List.sum_cons, List.sum_nil, if_neg hin]
            rfl
        | _ => rfl
      have hih := ih (e.apply s)
      rw [hcons]
      show (run StatEvent.apply (e.apply s) (stats effects)).bytesIn = _
      omega
    | _ =>
      have hih := ih s
      rw [hcons]
      show (run StatEvent.apply s (stats effects)).bytesIn = _
      rw [hih]
      simp [bytesRead]

end TelnetEffect

/-! ### The phases -/

namespace TelnetServer

open TelnetEffect

variable {σ : Type} {S : TelnetServer σ} {ending : ClientEnd}

/-- Effects that the accounts do not show. -/
structure Silent (effects : List TelnetEffect) : Prop where
  ends : ends effects = []
  typed : typed effects = []
  bytesRead : bytesRead effects = 0

theorem Silent.append {a b : List TelnetEffect} (ha : Silent a) (hb : Silent b) : Silent (a ++ b) where
  ends := by rw [ends_append, ha.ends, hb.ends]; rfl
  typed := by rw [typed_append, ha.typed, hb.typed]; rfl
  bytesRead := by rw [bytesRead_append, ha.bytesRead, hb.bytesRead]

theorem silent_enter (username cmd : Str) (shell : σ) : Silent (S.enter username shell cmd) := ⟨rfl, rfl, rfl⟩

theorem silent_answer (username cmd stdout stderr : Str) (shell : σ) (rc : Int) :
    Silent (S.answer username cmd shell stdout stderr rc) := by
  unfold answer
  refine Silent.append ?_ ⟨rfl, rfl, rfl⟩
  split
  · exact ⟨rfl, rfl, rfl⟩
  · exact ⟨rfl, rfl, rfl⟩

theorem silent_opening (srcIp : Str) : Silent (S.opening srcIp) := by
  unfold opening sendBanner
  refine Silent.append ⟨rfl, rfl, rfl⟩ ?_
  split
  · exact ⟨rfl, rfl, rfl⟩
  · exact ⟨rfl, rfl, rfl⟩

theorem silent_authenticate (username password : Str) : Silent (S.authenticate username password) := by
  unfold authenticate
  refine Silent.append ⟨rfl, rfl, rfl⟩ ?_
  split
  · exact ⟨rfl, rfl, rfl⟩
  · exact ⟨rfl, rfl, rfl⟩

/-- What the loop does from some counts on, and what it returns, if it does. -/
structure Counted (counts : ShellCounts) (loop : List TelnetEffect × PhaseEnd ShellCounts) : Prop where
  ends : ends loop.1 = []
  ended : loop.2 ≠ .waiting
  bytesIn : ∀ c, loop.2 = .returned c → c.bytesIn = counts.bytesIn + bytesRead loop.1
  commands : ∀ c, loop.2 = .returned c → c.commands.length = counts.commands.length + (typed loop.1).length

theorem counted_raised (counts : ShellCounts) {effects : List TelnetEffect} (h : TelnetEffect.ends effects = []) :
    Counted counts (effects, .raised) where
  ends := h
  ended h := by cases h
  bytesIn c h := by cases h
  commands c h := by cases h

theorem counted_returned {counts c : ShellCounts} {effects : List TelnetEffect} (hends : TelnetEffect.ends effects = [])
    (hbytes : c.bytesIn = counts.bytesIn + bytesRead effects)
    (hcommands : c.commands.length = counts.commands.length + (typed effects).length) :
    Counted counts (effects, .returned c) where
  ends := hends
  ended h := by cases h
  bytesIn c' h := by cases h; exact hbytes
  commands c' h := by cases h; exact hcommands

/-- Effects in front of a loop that goes on from the counts behind them. -/
theorem Counted.cons {counts counts' : ShellCounts} {effects : List TelnetEffect}
    {later : List TelnetEffect × PhaseEnd ShellCounts} (h : Counted counts' later)
    (hends : TelnetEffect.ends effects = []) (hbytes : counts'.bytesIn = counts.bytesIn + bytesRead effects)
    (hcommands : counts'.commands.length = counts.commands.length + (typed effects).length) :
    Counted counts (effects ++ later.1, later.2) where
  ends := by rw [ends_append, hends, h.ends]; rfl
  ended := h.ended
  bytesIn c hc := by
    have hlater := h.bytesIn c hc
    rw [bytesRead_append]
    omega
  commands c hc := by
    have hlater := h.commands c hc
    rw [typed_append, List.length_append]
    omega

/-- The loop counts what is read and typed. -/
theorem counted_shellLoop (username : Str) (shell : σ) (prompt : Str) (counts : ShellCounts) (r : List Line) :
    Counted counts (S.shellLoop username ending shell prompt counts r) := by
  induction r generalizing shell prompt counts with
  | nil =>
    cases ending with
    | gone => exact counted_raised counts rfl
    | silent => exact counted_returned rfl rfl rfl
  | cons line rest ih =>
    unfold shellLoop
    -- the line is too long, the connection breaks off, nothing comes any more, or there is a line
    split
    · exact counted_raised counts rfl
    · exact counted_raised counts rfl
    · exact counted_returned rfl rfl rfl
    · rename_i line' hread
      have hbytes : bytesRead [.stat (.traffic "in".toList line'.length)] = line'.length := rfl
      dsimp only
      split
      · exact counted_raised counts rfl
      · rename_i text htext
        split
        · exact (ih shell prompt _).cons rfl (by simp [bytesRead]) rfl
        · split
          · exact counted_returned rfl rfl (by simp [typed])
          · have henter := silent_enter (S := S) username (strip text) shell
            -- the command raises, times out, or is executed, and then the loop goes on from the new counts
            split
            · exact counted_raised counts (by rw [ends_append, henter.ends]; rfl)
            · refine counted_returned ?_ ?_ ?_
              · rw [ends_append, ends_append, henter.ends]
                rfl
              · simp only [bytesRead_append, henter.bytesRead]
                simp [bytesRead]
              · simp only [typed_append, henter.typed]
                simp [typed]
            · rename_i shell' stdout stderr rc hexec
              have hanswer := silent_answer (S := S) username (strip text) stdout stderr shell' rc
              have hsilent := henter.append hanswer
              refine (ih shell' _ _).cons ?_ ?_ ?_
              · rw [List.append_assoc, ends_append, hsilent.ends]
                rfl
              · rw [List.append_assoc, bytesRead_append, hsilent.bytesRead]
                simp [bytesRead]
              · rw [List.append_assoc, typed_append, hsilent.typed]
                simp [typed]

theorem counted_runShell (username : Str) (r : List Line) : Counted ⟨0, 0, []⟩ (S.runShell username ending r) :=
  (counted_shellLoop username (S.shell username) _ _ r).cons rfl rfl rfl

theorem ask_counts (prompt : Str) (r : List Line) :
    ends (ask prompt ending r).1 = [] ∧ typed (ask prompt ending r).1 = [] ∧
      bytesRead (ask prompt ending r).1 = match (ask prompt ending r).2 with
        | .line line => line.length
        | _ => 0 := by
  unfold ask
  dsimp only
  split
  · rename_i line hread
    refine ⟨rfl, rfl, ?_⟩
    rw [bytesRead_append]
    exact Nat.zero_add _
  · exact ⟨rfl, rfl, rfl⟩

/-- What the login reads, when it returns; nothing is typed in it. -/
theorem performAuth_counts (r : List Line) :
    let auth := S.performAuth ending r
    ends auth.1 = [] ∧ typed auth.1 = [] ∧ ∀ a, auth.2 = .returned a → a.bytesIn = bytesRead auth.1 := by
  obtain ⟨hends, htyped, hbytes⟩ := @ask_counts ending loginPrompt r
  obtain ⟨hends', htyped', hbytes'⟩ := @ask_counts ending passwordPrompt r.tail
  have hdisconnect : Silent [.log .telnetDisconnect] := ⟨rfl, rfl, rfl⟩
  unfold performAuth
  -- the reads behind the two prompts have the same four outcomes
  split
  rename_i effects answer hask
  rw [hask] at hends htyped hbytes
  split
  · exact ⟨hends, htyped, fun a h => by cases h⟩
  · exact ⟨hends, htyped, fun a h => by cases h⟩
  · refine ⟨by rw [ends_append, hends]; rfl, by rw [typed_append, htyped]; rfl, fun a h => ?_⟩
    cases h
    rw [bytesRead_append, hbytes, hdisconnect.bytesRead]
  · rename_i login
    split
    · exact ⟨hends, htyped, fun a h => by cases h⟩
    · rename_i name hname
      split
      rename_i effects' answer' hask'
      rw [hask'] at hends' htyped' hbytes'
      have hboth : ends (effects ++ effects') = [] ∧ typed (effects ++ effects') = [] := by
        rw [ends_append, typed_append, hends, hends', htyped, htyped']
        exact ⟨rfl, rfl⟩
      split
      · exact ⟨hboth.1, hboth.2, fun a h => by cases h⟩
      · exact ⟨hboth.1, hboth.2, fun a h => by cases h⟩
      · refine ⟨by rw [ends_append, hboth.1]; rfl, by rw [typed_append, hboth.2]; rfl, fun a h => ?_⟩
        cases h
        rw [bytesRead_append, bytesRead_append, hbytes, hbytes', hdisconnect.bytesRead]
        rfl
      · rename_i pass
        split
        · exact ⟨hboth.1, hboth.2, fun a h => by cases h⟩
        · rename_i word hword
          have hsilent := silent_authenticate (S := S) (strip name) (strip word)
          refine ⟨by rw [ends_append, hboth.1, hsilent.ends]; rfl, by rw [typed_append, hboth.2, hsilent.typed]; rfl,
            fun a h => ?_⟩
          cases h
          rw [bytesRead_append, bytesRead_append, hbytes, hbytes', hsilent.bytesRead]
          rfl

/-- There is one `session.end`, with this number of commands, and what is missing in it was lost. -/
def Tells (effects lost : List TelnetEffect) (commandCount : ℕ) : Prop :=
  ∃ username bytesIn bytesOut, ends effects = [(username, commandCount, bytesIn, bytesOut)] ∧
    bytesRead effects = bytesIn + bytesRead lost ∧ (typed effects).length = commandCount + (typed lost).length

theorem tells_cleanup {effects lost : List TelnetEffect} {commandCount bytesIn : ℕ} (username : Str) (bytesOut : ℕ)
    (hends : ends effects = []) (hbytes : bytesRead effects = bytesIn + bytesRead lost)
    (hcommands : (typed effects).length = commandCount + (typed lost).length) :
    Tells (effects ++ cleanup username commandCount bytesIn bytesOut) lost commandCount := by
  refine ⟨username, bytesIn, bytesOut, ?_, ?_, ?_⟩
  · rw [ends_append, hends]
    rfl
  · rw [bytesRead_append, hbytes]
    rfl
  · rw [typed_append, List.length_append, hcommands]
    rfl

/-- No line is a command that ends the session. -/
def Stays (r : List Line) : Prop :=
  ∀ line ∈ r, ∀ text, decodeStrict line = some text → InputState.isExit (strip text) = false

/-- The connection breaks off, and neither a command nor a timeout has ended the shell before. -/
structure BreaksOff (S : TelnetServer σ) (ending : ClientEnd) (r : List Line) : Prop where
  gone : ending = .gone
  stays : Stays r
  noTimeout : ∀ shell cmd, S.execute shell cmd ≠ .timeout

theorem shellLoop_raised {r : List Line} (h : BreaksOff S ending r) (username : Str) (shell : σ) (prompt : Str)
    (counts : ShellCounts) : (S.shellLoop username ending shell prompt counts r).2 = .raised := by
  obtain ⟨rfl, hr, hS⟩ := h
  induction r generalizing shell prompt counts with
  | nil => rfl
  | cons line rest ih =>
    have hrest : Stays rest := fun line hline => hr line (List.mem_cons_of_mem _ hline)
    unfold shellLoop
    split
    · rfl
    · rfl
    · rename_i hread
      rw [readUntil] at hread
      split_ifs at hread
      cases hread
    · rename_i line' hread
      have hline : line' = line := by
        rw [readUntil] at hread
        split_ifs at hread
        · exact (Reading.line.inj hread).symm
        · cases hread
      dsimp only
      split
      · rfl
      · rename_i text htext
        have hexit := hr line List.mem_cons_self text (hline ▸ htext)
        split
        · exact ih _ _ _ hrest
        · rw [hexit, if_neg Bool.false_ne_true]
          split
          · rfl
          · rename_i htimeout
            exact absurd htimeout (hS _ _)
          · exact ih _ _ _ hrest

theorem tells_handleConnection (srcIp : Str) (stream : List UInt8)
    (hend : (S.handleConnection srcIp ending stream).2 = true) :
    ∃ n, Tells (S.handleConnection srcIp ending stream).1 (S.lost ending stream) n ∧
      (BreaksOff S ending ((linesOf stream).drop 2) → n = 0) := by
  have hopening := silent_opening (S := S) srcIp
  have herror : Silent [.log .telnetError] := ⟨rfl, rfl, rfl⟩
  have hstart : Silent [.log .sessionStart] := ⟨rfl, rfl, rfl⟩
  have hauth := @performAuth_counts σ S ending (linesOf stream)
  unfold handleConnection at hend ⊢
  unfold lost
  dsimp only at hauth hend ⊢
  generalize S.performAuth ending (linesOf stream) = auth at hauth hend ⊢
  obtain ⟨effects, phase⟩ := auth
  obtain ⟨hends, htyped, hbytes⟩ := hauth
  dsimp only at hends htyped hbytes
  cases phase with
  | waiting => cases hend
  | raised =>
    -- nothing that the login has read was counted, and all of it is lost
    refine ⟨_, tells_cleanup [] _ ?_ ?_ ?_, fun _ => rfl⟩
    · simp only [ends_append, hopening.ends, hends, herror.ends, List.append_nil]
    · simp only [bytesRead_append, hopening.bytesRead, herror.bytesRead]
      omega
    · simp only [typed_append, hopening.typed, herror.typed, List.append_nil, List.nil_append]
      omega
  | returned a =>
    have hread := hbytes a rfl
    dsimp only at hend ⊢
    by_cases hsuccess : a.success = true
    · rw [if_pos hsuccess] at hend ⊢
      rw [if_pos hsuccess]
      have hshell := @counted_runShell σ S ending a.username ((linesOf stream).drop 2)
      have hraised : BreaksOff S ending ((linesOf stream).drop 2) →
          (S.runShell a.username ending ((linesOf stream).drop 2)).2 = .raised :=
        fun h => shellLoop_raised h _ _ _ _
      generalize S.runShell a.username ending ((linesOf stream).drop 2) = shell at hshell hraised hend ⊢
      obtain ⟨later, phase⟩ := shell
      have hlater : ends later = [] := hshell.ends
      cases phase with
      | waiting => cases hend
      | raised =>
        -- the counts of the login remain, those of the shell are lost
        refine ⟨_, tells_cleanup _ _ ?_ ?_ ?_, fun _ => rfl⟩
        · simp only [ends_append, hopening.ends, hends, hstart.ends, hlater, herror.ends, List.append_nil]
        · simp only [bytesRead_append, hopening.bytesRead, hread, hstart.bytesRead, herror.bytesRead]
          omega
        · simp only [typed_append, hopening.typed, htyped, hstart.typed, herror.typed, List.append_nil, List.nil_append]
          omega
      | returned counts =>
        have hin : counts.bytesIn = 0 + bytesRead later := hshell.bytesIn counts rfl
        have hcommands : counts.commands.length = 0 + (typed later).length := hshell.commands counts rfl
        have hnothing : bytesRead [] = 0 ∧ typed [] = [] := ⟨rfl, rfl⟩
        refine ⟨_, tells_cleanup _ _ ?_ ?_ ?_, fun h => nomatch hraised h⟩
        · simp only [ends_append, hopening.ends, hends, hstart.ends, hlater, List.append_nil]
        · simp only [bytesRead_append, hopening.bytesRead, hread, hstart.bytesRead, hin, hnothing.1]
          omega
        · simp only [typed_append, hopening.typed, htyped, hstart.typed, hcommands, hnothing.2, List.append_nil,
            List.nil_append, List.length_nil]
          omega
    · rw [if_neg hsuccess]
      rw [if_neg hsuccess]
      have hnothing : bytesRead [] = 0 ∧ typed [] = [] := ⟨rfl, rfl⟩
      refine ⟨_, tells_cleanup _ _ ?_ ?_ ?_, fun _ => rfl⟩
      · simp only [ends_append, hopening.ends, hends, List.append_nil]
      · simp only [bytesRead_append, hopening.bytesRead, hread, hnothing.1]
        omega
      · simp only [typed_append, hopening.typed, htyped, hnothing.2, List.append_nil, List.length_nil]

/-- The log of an ended session has one `session.end`.  It tells the bytes that the statistics count and the commands
that the recording has, exactly when no exception came out of a phase in which there were any; and it tells of no command
at all when a client that has logged in breaks off and has not left the shell before. -/
theorem sessionEnd_iff (srcIp : Str) (stream : List UInt8) (s : StatsManager)
    (hend : (S.handleConnection srcIp ending stream).2 = true) :
    let effects := (S.handleConnection srcIp ending stream).1
    ∃ username commandCount bytesIn bytesOut, ends effects = [(username, commandCount, bytesIn, bytesOut)] ∧
      ((run StatEvent.apply s (stats effects)).bytesIn = s.bytesIn + bytesIn ∧ (typed effects).length = commandCount ↔
        bytesRead (S.lost ending stream) = 0 ∧ typed (S.lost ending stream) = []) ∧
      (BreaksOff S ending ((linesOf stream).drop 2) → commandCount = 0) := by
  intro effects
  obtain ⟨n, ⟨username, bytesIn, bytesOut, hends, hbytes, hcommands⟩, hzero⟩ :=
    tells_handleConnection srcIp stream hend
  refine ⟨username, n, bytesIn, bytesOut, hends, ?_, hzero⟩
  rw [bytesIn_run, hbytes, hcommands, ← List.length_eq_zero_iff]
  omega

/-- A server with one user and a shell that writes nothing. -/
def quietServer : TelnetServer Unit where
  users := [("root".toList, "toor".toList)]
  hostname := "server".toList
  issue := []
  logPasswords := false
  sha256 := id
  shell _ := ()
  cwd _ := "/root".toList
  execute _ _ := .done () [] [] 0

/-- A client that logs in, types a command and breaks off. -/
theorem sessionEnd_iff_ls :
    ∃ username bytesIn bytesOut,
      ends (quietServer.handleConnection "10.0.0.1".toList .gone (encodeText "root\ntoor\nls\n".toList)).1 =
        [(username, 0, bytesIn, bytesOut)] := by
  obtain ⟨username, n, bytesIn, bytesOut, hends, -, hzero⟩ :=
    @sessionEnd_iff Unit quietServer .gone "10.0.0.1".toList (encodeText "root\ntoor\nls\n".toList) .new rfl
  have hlines : (linesOf (encodeText "root\ntoor\nls\n".toList)).drop 2 = [encodeText "ls\n".toList] := by decide
  have htext : decodeStrict (encodeText "ls\n".toList) = some "ls\n".toList := by decide
  have hstays : Stays ((linesOf (encodeText "root\ntoor\nls\n".toList)).drop 2) := by
    intro line hline text h
    rw [hlines] at hline
    rw [List.mem_singleton.1 hline, htext] at h
    rw [← Option.some.inj h]
    decide
  rw [hzero ⟨rfl, hstays, fun _ _ h => by cases h⟩] at hends
  exact ⟨username, bytesIn, bytesOut, hends⟩

end TelnetServer

end Cyanide
