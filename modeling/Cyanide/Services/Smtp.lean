import Cyanide.Lib.PosixPath
import Cyanide.Lib.PyText

/-!
# The mail session

`SMTPHandler` reads lines in two modes: the command loop dispatches them, and behind `DATA` they belong to the message
up to a line with a single dot.  The test for that line strips it first, so a dot with blanks around it ends the message
as well: `keepsMessage_iff` says for which streams the session reads the message as it was sent.
-/

namespace Cyanide

open PosixPath PyText

namespace Smtp

/-- A line with its end, as `readline` returns it. -/
abbrev Line := List UInt8

/-- The lines of a stream; only the last one may lack its end. -/
def linesOf (stream : List UInt8) : List Line := linesFrom (· = 10) 13 10 [] stream

/-- The limit of a stream reader, for a line without its end. -/
def limit : ℕ := 65536

/-- `readline` raises. -/
def isTooLong (line : Line) : Bool := limit < (line.rdropWhile (· = 10)).length

/-- `bytes.strip`. -/
def stripBytes (line : Line) : Line :=
  let isBlank := fun (b : UInt8) => b = 32 || (9 ≤ b && b ≤ 13)
  (line.dropWhile isBlank).rdropWhile isBlank

/-- `bytes.decode`: what decodes without a malformed part, and back to the same bytes. -/
def decodeStrict (line : Line) : Option Str :=
  if (decodeIgnore line).flatMap String.utf8EncodeChar = line then some (decodeIgnore line) else none

/-- What can be seen of a session: the lines that are logged and dispatched as commands, the replies, the lines that are
read as a message, and the error that ends it. -/
inductive Event where
  | command (cmdLine : Str)
  | reply (text : Str)
  | message (lines : List Line)
  | failed
  deriving DecidableEq

/-- The name of the honeypot, the address of the client, and `str.upper`. -/
structure Session where
  hostname : Str
  srcIp : Str
  upper : Str → Str

inductive Handler where
  | answer (text : Str)
  | data
  | quit

/-- The dispatch map. -/
def Session.handler (s : Session) (cmd : Str) : Handler :=
  if cmd = "HELO".toList ∨ cmd = "EHLO".toList then
    .answer ("250 ".toList ++ s.hostname ++ " Hello ".toList ++ s.srcIp ++ "\r\n".toList)
  else if cmd = "MAIL".toList then .answer "250 2.1.0 Ok\r\n".toList
  else if cmd = "RCPT".toList then .answer "250 2.1.5 Ok\r\n".toList
  else if cmd = "DATA".toList then .data
  else if cmd = "QUIT".toList then .quit
  else if cmd = "VRFY".toList then
    .answer "252 2.1.5 Cannot VRFY user, but will accept message and attempt delivery\r\n".toList
  else if cmd = "NOOP".toList then .answer "250 2.0.0 Ok\r\n".toList
  else if cmd = "RSET".toList then .answer "250 2.0.0 Reset state\r\n".toList
  else .answer "502 5.5.2 Error: command not recognized\r\n".toList

/-- The loop of `_cmd_data`: the lines that it reads and those behind them, if no line is too long. -/
def dataLoop : List Line → Option (List Line × List Line)
  | [] => some ([], [])
  | line :: rest =>
    if isTooLong line then none
    else if stripBytes line = [46] then some ([line], rest)
    else (dataLoop rest).map fun r => (line :: r.1, r.2)

theorem length_dataLoop_le {r lines rest : List Line} (h : dataLoop r = some (lines, rest)) :
    rest.length ≤ r.length := by
  induction r generalizing lines with
  | nil =>
    obtain ⟨-, rfl⟩ : [] = lines ∧ [] = rest := by simpa [dataLoop] using h
    exact le_rfl
  | cons line r ih =>
    rw [dataLoop] at h
    split_ifs at h with hlong hdot
    · obtain ⟨-, rfl⟩ : [line] = lines ∧ r = rest := by simpa using h
      exact Nat.le_succ _
    · obtain ⟨⟨lines', rest'⟩, hr, heq⟩ := Option.map_eq_some_iff.mp h
      obtain ⟨-, rfl⟩ : line :: lines' = lines ∧ rest' = rest := by simpa using heq
      exact Nat.le_succ_of_le (ih hr)

/-- `_command_loop`, until the client closes the connection. -/
def commandLoop (s : Session) (r : List Line) : List Event :=
  match r with
  | [] => []
  | line :: rest =>
    if isTooLong line then [.failed]
    else
      match decodeStrict line with
      | none => [.failed]
      | some text =>
        if strip text = [] then commandLoop s rest
        else
          .command (strip text) ::
            match s.handler (s.upper ((words (strip text)).headD [])) with
            | .answer reply => .reply reply :: commandLoop s rest
            | .quit => [.reply "221 2.0.0 Bye\r\n".toList]
            | .data => .reply "354 End data with <CR><LF>.<CR><LF>\r\n".toList ::
              match _h : dataLoop rest with
              | none => [.failed]
              | some (lines, rest') =>
                .message lines :: .reply "250 2.0.0 Ok: queued as 12345\r\n".toList :: commandLoop s rest'
termination_by r.length
decreasing_by
  · simp
  · simp
  · exact Nat.lt_succ_of_le (length_dataLoop_le _h)

/-- What a session does with the lines behind `DATA`. -/
def afterData (s : Session) (r : List Line) : List Event :=
  match dataLoop r with
  | none => [.failed]
  | some (lines, rest) => .message lines :: .reply "250 2.0.0 Ok: queued as 12345\r\n".toList :: commandLoop s rest

/-- The command that asks for a message is followed by what the session does behind it. -/
theorem commandLoop_data {s : Session} {line : Line} {text : Str} (r : List Line) (hlong : isTooLong line = false)
    (htext : decodeStrict line = some text) (hne : strip text ≠ [])
    (hdata : s.handler (s.upper ((words (strip text)).headD [])) = .data) :
    commandLoop s (line :: r) =
      .command (strip text) :: .reply "354 End data with <CR><LF>.<CR><LF>\r\n".toList :: afterData s r := by
  rw [commandLoop, hlong, if_neg Bool.false_ne_true, htext]
  simp only [if_neg hne, hdata, afterData]
  congr 2
  split <;> rename_i h <;> rw [h]

/-! ### Messages -/

/-- A line that consists of a single dot, its end apart. -/
def isTerminator (line : Line) : Bool := line = [46] || line = [46, 10] || line = [46, 13, 10]

/-- The lines in front of the first terminator. -/
def bodyOf (r : List Line) : List Line := r.takeWhile (!isTerminator ·)

/-- The body with the terminator, if there is one. -/
def messageOf (r : List Line) : List Line := r.take ((bodyOf r).length + 1)

def behindMessage (r : List Line) : List Line := r.drop ((bodyOf r).length + 1)

def isBlankLine (line : Line) : Bool := (decodeStrict line).any fun text => strip text = []

/-- The message is read as it was sent, and the first line behind it that is not blank is the next command. -/
structure KeepsMessage (s : Session) (r : List Line) : Prop where
  message : afterData s r = .message (messageOf r) :: .reply "250 2.0.0 Ok: queued as 12345\r\n".toList ::
    commandLoop s (behindMessage r)
  next : ∀ line, (behindMessage r).find? (!isBlankLine ·) = some line →
    ∃ text, decodeStrict line = some text ∧
      (commandLoop s (behindMessage r)).head? = some (.command (strip text))

theorem stripBytes_of_isTerminator {line : Line} (h : isTerminator line) : stripBytes line = [46] := by
  simp only [isTerminator, Bool.or_eq_true, decide_eq_true_eq] at h
  rcases h with (rfl | rfl) | rfl <;> decide

theorem not_isTooLong_of_isTerminator {line : Line} (h : isTerminator line) : isTooLong line = false := by
  simp only [isTerminator, Bool.or_eq_true, decide_eq_true_eq] at h
  rcases h with (rfl | rfl) | rfl <;> decide

theorem append_of_dataLoop {r lines rest : List Line} (h : dataLoop r = some (lines, rest)) : lines ++ rest = r := by
  induction r generalizing lines with
  | nil =>
    obtain ⟨rfl, rfl⟩ : [] = lines ∧ [] = rest := by simpa [dataLoop] using h
    rfl
  | cons line r ih =>
    rw [dataLoop] at h
    split_ifs at h with hlong hdot
    · obtain ⟨rfl, rfl⟩ : [line] = lines ∧ r = rest := by simpa using h
      rfl
    · obtain ⟨⟨lines', rest'⟩, hr, heq⟩ := Option.map_eq_some_iff.mp h
      obtain ⟨rfl, rfl⟩ : line :: lines' = lines ∧ rest' = rest := by simpa using heq
      exact congrArg (line :: ·) (ih hr)

/-- The loop reads the message as it was sent when no line of the body but the last one of a stream looks like a
terminator to it. -/
theorem dataLoop_iff (r : List Line) :
    dataLoop r = some (messageOf r, behindMessage r) ↔
      (∀ line ∈ r.dropLast.takeWhile (!isTerminator ·), stripBytes line ≠ [46]) ∧
        ∀ line ∈ bodyOf r, isTooLong line = false := by
  induction r with
  | nil => simp [dataLoop, messageOf, behindMessage, bodyOf]
  | cons line r ih =>
    cases hterm : isTerminator line with
    | true =>
      have hbody : bodyOf (line :: r) = [] := by simp [bodyOf, hterm]
      have hlast : (line :: r).dropLast.takeWhile (!isTerminator ·) = [] := by
        cases r <;> simp [hterm]
      rw [dataLoop, not_isTooLong_of_isTerminator hterm, if_neg Bool.false_ne_true,
        if_pos (stripBytes_of_isTerminator hterm), messageOf, behindMessage, hbody, hlast]
      simp
    | false =>
      have hbody : bodyOf (line :: r) = line :: bodyOf r := by simp [bodyOf, hterm]
      have hmessage : messageOf (line :: r) = line :: messageOf r := by
        rw [messageOf, hbody]
        rfl
      have hbehind : behindMessage (line :: r) = behindMessage r := by
        rw [behindMessage, hbody]
        rfl
      rw [dataLoop, hmessage, hbehind, hbody]
      cases hlong : isTooLong line with
      | true => simp [hlong]
      | false =>
        rw [if_neg Bool.false_ne_true]
        by_cases hdot : stripBytes line = [46]
        · -- the line ends the message for the loop, which is right at the end of a stream only
          rw [if_pos hdot]
          cases r with
          | nil => simp [messageOf, behindMessage, bodyOf, hlong]
          | cons line' r => simp [messageOf, hterm, hdot]
        · have hmap : (dataLoop r).map (fun r' => (line :: r'.1, r'.2)) = some (line :: messageOf r, behindMessage r) ↔
              dataLoop r = some (messageOf r, behindMessage r) := by
            rw [Option.map_eq_some_iff]
            constructor
            · rintro ⟨⟨lines, rest⟩, hr, heq⟩
              obtain ⟨rfl, rfl⟩ : lines = messageOf r ∧ rest = behindMessage r := by simpa using heq
              exact hr
            · exact fun hr => ⟨_, hr, rfl⟩
          rw [if_neg hdot, hmap, ih]
          cases r with
          | nil => simp [bodyOf, hlong]
          | cons line' r => simp [hterm, hdot, hlong]

/-- The next command is dispatched when nothing up to it ends the session. -/
theorem next_iff (s : Session) (r : List Line) :
    (∀ line, r.find? (!isBlankLine ·) = some line →
        ∃ text, decodeStrict line = some text ∧ (commandLoop s r).head? = some (.command (strip text))) ↔
      ∀ line, r.find? (!isBlankLine ·) = some line →
        (∀ l ∈ r.takeWhile isBlankLine ++ [line], isTooLong l = false) ∧ (decodeStrict line).isSome := by
  induction r with
  | nil => simp
  | cons line r ih =>
    cases hlong : isTooLong line with
    | true =>
      have hfailed : commandLoop s (line :: r) = [.failed] := by rw [commandLoop, hlong, if_pos rfl]
      cases hblank : isBlankLine line <;> simp [hfailed, hblank, hlong]
    | false =>
      cases hblank : isBlankLine line with
      | true =>
        obtain ⟨text, htext, hstrip⟩ : ∃ text, decodeStrict line = some text ∧ strip text = [] := by
          simpa [isBlankLine, Option.any_eq_true] using hblank
        have hloop : commandLoop s (line :: r) = commandLoop s r := by
          rw [commandLoop, hlong, if_neg Bool.false_ne_true, htext]
          simp only [hstrip, if_true]
        rw [hloop]
        simpa [hblank, hlong] using ih
      | false =>
        cases htext : decodeStrict line with
        | none => simp [hblank, htext]
        | some text =>
          have hstrip : strip text ≠ [] := by
            intro hnil
            simp [isBlankLine, htext, hnil] at hblank
          have hhead : (commandLoop s (line :: r)).head? = some (.command (strip text)) := by
            rw [commandLoop, hlong, if_neg Bool.false_ne_true, htext]
            simp only [if_neg hstrip, List.head?_cons]
          simp [hblank, htext, hhead, hlong]

/-- The session reads a message as it was sent and then dispatches the next line that is not blank exactly when no line
of the body strips to a dot (the last line of a stream without a terminator apart), no line of it is too long for the
reader, and up to the next command the lines are not too long and the command decodes. -/
theorem keepsMessage_iff (s : Session) (stream : List UInt8) :
    KeepsMessage s (linesOf stream) ↔
      (∀ line ∈ (linesOf stream).dropLast.takeWhile (!isTerminator ·), stripBytes line ≠ [46]) ∧
      (∀ line ∈ bodyOf (linesOf stream), isTooLong line = false) ∧
      ∀ line, (behindMessage (linesOf stream)).find? (!isBlankLine ·) = some line →
        (∀ l ∈ (behindMessage (linesOf stream)).takeWhile isBlankLine ++ [line], isTooLong l = false) ∧
          (decodeStrict line).isSome := by
  generalize linesOf stream = r
  rw [← and_assoc, ← dataLoop_iff, ← next_iff s]
  constructor
  · rintro ⟨hmessage, hnext⟩
    refine ⟨?_, hnext⟩
    rw [afterData] at hmessage
    cases hloop : dataLoop r with
    | none => simp [hloop] at hmessage
    | some read =>
      obtain ⟨lines, rest⟩ := read
      have hlines : lines = messageOf r := by
        rw [hloop] at hmessage
        simpa using congrArg List.head? hmessage
      have hrest : rest = behindMessage r := by
        have happend : messageOf r ++ rest = messageOf r ++ behindMessage r := by
          rw [← hlines, append_of_dataLoop hloop, hlines, messageOf, behindMessage, List.take_append_drop]
        exact List.append_cancel_left happend
      rw [hlines, hrest]
  · rintro ⟨hloop, hnext⟩
    exact ⟨by rw [afterData, hloop], hnext⟩

/-- A dot behind a blank ends the message, and the next line of it is a command. -/
theorem not_keepsMessage_blank :
    ¬KeepsMessage ⟨"host".toList, "192.0.2.1".toList, id⟩
      (linesOf [32, 46, 10, 81, 85, 73, 84, 10, 46, 10]) := by
  intro h
  have hloop : dataLoop (linesOf [32, 46, 10, 81, 85, 73, 84, 10, 46, 10]) =
      some ([[32, 46, 10]], [[81, 85, 73, 84, 10], [46, 10]]) := by decide +kernel
  have hmessage : messageOf (linesOf [32, 46, 10, 81, 85, 73, 84, 10, 46, 10]) =
      [[32, 46, 10], [81, 85, 73, 84, 10], [46, 10]] := by decide +kernel
  have hhead := congrArg List.head? h.message
  rw [afterData, hloop, hmessage] at hhead
  simp at hhead

end Smtp

end Cyanide
