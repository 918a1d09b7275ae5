import Mathlib.Algebra.Group.Nat.Defs
import Cyanide.Lib.Shlex
import Cyanide.Vfs.Sftp

/-!
# The SCP handler

`ScpHandler` speaks the two sides of the SCP protocol.  As a sink it works off records: a header line, and for a file
the bytes that were read behind it.  A file goes to the current base if that is no directory, and into it otherwise; a
directory record descends and an end record goes back to the base that was current before.  As a source it sends a file,
or a directory with all that is in it, and waits for an acknowledgement behind each header.
-/

namespace Cyanide

open PosixPath PyText Transition

/-- What a sink writes to the client. -/
inductive ScpReply where
  /-- A null byte. -/
  | ack
  /-- The byte 1, a message and a newline. -/
  | error (message : Str)
  deriving DecidableEq

structure ScpSink where
  username : Str
  currentBase : Str
  /-- `dir_stack`, the last element first. -/
  dirStack : List Str
  /-- The return code, once the protocol has ended. -/
  exit : Option ℕ

/-- A record: the header line, decoded and stripped, and the file data that follows it. -/
structure ScpRecord where
  header : Str
  content : List UInt8

namespace ScpHandler

variable (U : Unicode)

/-! ### The command line -/

inductive ScpMode where
  | sink
  | source
  | usage
  deriving DecidableEq

/-- `_parse_scp_metadata`, as the two flags and the path are used: a source before a sink. -/
def parseScpMetadata (command : Str) : ScpMode × Str :=
  match Shlex.split command with
  | .error _ => (.usage, ['.'])
  | .ok parts =>
    let path := (parts.reverse.find? fun part => part.head? ≠ some '-').getD ['.']
    if parts.contains "-f".toList then (.source, path)
    else if parts.contains "-t".toList then (.sink, path)
    else (.usage, ['.'])

/-! ### The sink -/

/-- A header of `letter`, four digits, a space, digits that `size` is given as their value, a space and a name. -/
def parseHeader (letter : Char) (header : Str) : Option (Str × Str × Str) :=
  match header with
  | [] => none
  | c :: rest =>
    let isDecimal := fun d => (U.decimal d).isSome
    let mode := rest.take 4
    if c = letter ∧ mode.length = 4 ∧ mode.all isDecimal then
      match rest.drop 4 with
      | ' ' :: rest =>
        match rest.dropWhile isDecimal with
        | ' ' :: name =>
          let size := rest.takeWhile isDecimal
          let name := name.takeWhile (· ≠ '\n')
          if size = [] ∨ name = [] then none else some (mode, size, name)
        | _ => none
      | _ => none
    else none

theorem parseHeader_head {letter : Char} {header : Str} (h : header.head? ≠ some letter) :
    parseHeader U letter header = none := by
  cases header with
  | nil => rfl
  | cons c rest =>
    have hc : c ≠ letter := by simpa using h
    simp [parseHeader, hc]

/-- The groups of `C(\d{4}) (\d+) (.+)`. -/
def copyHeader (header : Str) : Option (Str × ℕ × Str) :=
  (parseHeader U 'C' header).map fun (mode, size, name) => (mode, (readNat U size).getD 0, name)

/-- The groups of `D(\d{4}) 0 (.+)`. -/
def dirHeader (header : Str) : Option (Str × Str) :=
  (parseHeader U 'D' header).bind fun (mode, size, name) => if size = ['0'] then some (mode, name) else none

/-- Where a file record is stored. -/
def targetPath (s : FakeFilesystem) (destBase filename : Str) : Str :=
  if s.isDir destBase then join destBase filename else destBase

/-- `_handle_copy_command`: the return code, and what is answered behind the header and behind the file. -/
def handleCopyCommand (P : Honeypot) (username : Str) (r : ScpRecord) (destBase : Str) :
    ℕ × List ScpReply × Honeypot :=
  match copyHeader U r.header with
  | none => (1, [.error "SCP Protocol Error: Invalid header".toList], P)
  | some (_, _, filename) =>
    (0, [.ack, .ack],
      { fs := (P.fs.mkfile (targetPath P.fs destBase filename) (.bytes r.content) username username).2
        quarantine := (filename, r.content) :: P.quarantine })

/-- `_handle_dir_command`, which returns the new base. -/
def handleDirCommand (P : Honeypot) (header currentBase : Str) : Str × List ScpReply × Honeypot :=
  match dirHeader U header with
  | none => (currentBase, [.error "SCP Protocol Error: Invalid directory header".toList], P)
  | some (_, dirname) =>
    (join currentBase dirname, [.ack], { P with fs := P.fs.mkdirP (join currentBase dirname) })

/-- `_handle_end_dir`: back to the base on top of the stack, and the end when the stack is empty. -/
def handleEndDir (s : ScpSink) : ScpSink :=
  { s with
    currentBase := s.dirStack.head?.getD s.currentBase
    dirStack := s.dirStack.tail
    exit := if s.dirStack.tail = [] then some 0 else none }

def startSink (username path : Str) : ScpSink := ⟨username, path, [path], none⟩

/-- One round of `_process_sink_protocol`. -/
def sinkRecord (s : ScpSink) (P : Honeypot) (r : ScpRecord) : List ScpReply × ScpSink × Honeypot :=
  if s.exit.isSome then ([], s, P)
  else
    match r.header.head? with
    | none => ([], { s with exit := some 0 }, P)
    | some 'C' =>
      let (rc, replies, P') := handleCopyCommand U P s.username r s.currentBase
      (replies, { s with exit := if rc = 0 then none else some rc }, P')
    | some 'D' =>
      let (base, replies, P') := handleDirCommand U P r.header s.currentBase
      (replies, { s with currentBase := base, dirStack := s.currentBase :: s.dirStack }, P')
    | some 'E' => ([.ack], handleEndDir s, P)
    | some 'T' => ([.ack], s, P)
    | some _ => ([.error ("SCP: Unknown protocol command: ".toList ++ r.header)], { s with exit := some 1 }, P)

/-- The operations that a record makes. -/
def sinkOps (s : ScpSink) (P : Honeypot) (r : ScpRecord) : List Op :=
  if s.exit.isSome then []
  else
    match r.header.head? with
    | some 'C' =>
      match copyHeader U r.header with
      | none => []
      | some (_, _, filename) =>
        [.mkfile (targetPath P.fs s.currentBase filename) (.bytes r.content) s.username s.username
          "-rw-r--r--".toList]
    | some 'D' =>
      match dirHeader U r.header with
      | none => []
      | some (_, dirname) => [.mkdirP (join s.currentBase dirname) root root "drwxr-xr-x".toList]
    | _ => []

/-- A record leaves the filesystem that its operations leave. -/
theorem sinkRecord_eq_run (s : ScpSink) (P : Honeypot) (r : ScpRecord) :
    (sinkRecord U s P r).2.2.fs = run Op.apply P.fs (sinkOps U s P r) := by
  unfold sinkRecord sinkOps
  split
  · rfl
  · cases r.header.head? with
    | none => rfl
    | some c =>
      by_cases hC : c = 'C'
      · subst hC
        simp only [handleCopyCommand]
        cases copyHeader U r.header <;> rfl
      by_cases hD : c = 'D'
      · subst hD
        simp only [handleDirCommand]
        cases dirHeader U r.header <;> rfl
      by_cases hE : c = 'E'
      · subst hE
        rfl
      by_cases hT : c = 'T'
      · subst hT
        rfl
      · simp [hC, hD]

/-! ### The source -/

/-- What a source writes to the client. -/
inductive ScpMessage where
  | directory (path : Str) (mode : ℕ)
  | file (path : Str) (mode size : ℕ)
  | content (b : List UInt8)
  | endDirectory
  | notFound
  deriving DecidableEq

/-- `_perm_to_mode`. -/
def permToMode (perm : Str) : ℕ :=
  if perm.length < 10 then 0o644
  else
    ((perm.drop 1).take 9).zipIdx.foldl (fun mode (c, i) =>
      let bit := if c = 'r' then 4 else if c = 'w' then 2 else if c = 'x' then 1 else 0
      mode ||| bit <<< (3 * (2 - i / 3))) 0

/-- The four octal digits of `{mode:04o}`. -/
def octalText (mode : ℕ) : Str := [3, 2, 1, 0].flatMap fun i => natText (mode / 8 ^ i % 8)

namespace ScpMessage

def bytes : ScpMessage → List UInt8
  | directory path mode =>
    (Content.text ('D' :: octalText mode ++ " 0 ".toList ++ basename path ++ ['\n'])).encode
  | file path mode size =>
    (Content.text ('C' :: octalText mode ++ ' ' :: natText size ++ ' ' :: basename path ++ ['\n'])).encode
  | content b => b ++ [0]
  | endDirectory => (Content.text "E\n".toList).encode
  | notFound => 1 :: (Content.text "SCP: No such file or directory\n".toList).encode

end ScpMessage

/-- What a source has sent, the acknowledgements it has read, and whether it ended with an exception. -/
structure Sent where
  messages : List ScpMessage
  acks : ℕ
  fs : FakeFilesystem
  raised : Bool := false

/-- `_send_file`; `ack k` says whether the `k`-th byte read from the client is a null byte. -/
def sendFile (ack : ℕ → Bool) (t : Sent) (path : Str) (node : Node) : Sent :=
  let (content, fs) := t.fs.getContent path
  let size := content.encode.length
  let header := ScpMessage.file path (permToMode node.perm) size
  if ack t.acks then { t with messages := t.messages ++ [header, .content content.encode], acks := t.acks + 2, fs }
  else { t with messages := t.messages ++ [header], acks := t.acks + 1, fs }

/-- The loop over the items of a directory, which an exception ends. -/
def sendItems (send : Sent → Str → Node → Sent) (path : Str) : Sent → List Str → Sent
  | t, [] => t
  | t, item :: items =>
    match t.fs.getNode (join path item) with
    | none => sendItems send path t items
    | some node =>
      let t' := send t (join path item) node
      if t'.raised then t' else sendItems send path t' items

/-- `_send_directory`, with the number of nested calls left to the interpreter: what is raised inside the loop is caught
there. -/
def sendDirectory (ack : ℕ → Bool) : (depth : ℕ) → Sent → Str → Node → Sent
  | 0, t, _, _ => { t with raised := true }
  | depth + 1, t, path, node =>
    let t' := { t with
      messages := t.messages ++ [ScpMessage.directory path (permToMode node.perm)], acks := t.acks + 1 }
    if ack t.acks then
      let u := sendItems
        (fun t path node =>
          if node.isDir then sendDirectory ack depth t path node else sendFile ack t path node)
        path t' (t'.fs.listDir path)
      { u with messages := u.messages ++ [.endDirectory], acks := u.acks + 1, raised := false }
    else t'

/-- `_handle_source_mode`. -/
def sourceMode (ack : ℕ → Bool) (depth : ℕ) (s : FakeFilesystem) (path : Str) : ℕ × Sent :=
  match s.getNode path with
  | none => (1, ⟨[.notFound], 0, s, false⟩)
  | some node =>
    if ack 0 then
      if node.isDir then (0, sendDirectory ack depth ⟨[], 1, s, false⟩ path node)
      else (0, sendFile ack ⟨[], 1, s, false⟩ path node)
    else (1, ⟨[], 1, s, false⟩)

end ScpHandler

end Cyanide
