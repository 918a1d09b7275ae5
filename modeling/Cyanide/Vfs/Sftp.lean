import Cyanide.Lib.PyText
import Cyanide.Vfs.Runs

/-!
# The SFTP server

`CyanideSFTPHandler` maps the requests of an SFTP client to the filesystem.  A file that is opened is read as a whole
into the buffer of its handle, reads and writes go to the buffer, and `close` stores the buffer of a handle that was
opened for writing.  What a request does to the filesystem is a run of operations, `SftpRequest.ops`.
-/

namespace Cyanide

open PosixPath PyText Transition

/-- What the sessions of one client share: the filesystem, and the samples that were given to the quarantine. -/
structure Honeypot where
  fs : FakeFilesystem
  quarantine : List (Str × List UInt8)

/-- The entries of the section `ssh` that the handler reads. -/
structure SftpConfig where
  allowUpload : Bool := true
  allowDownload : Bool := true
  maxTotalUploadMbPerSession : ℕ := 200

inductive SftpError where
  | noSuchFile
  | permissionDenied (reason : Str)
  | badMessage (reason : Str)
  /-- Any other exception of the handler. -/
  | failure
  deriving DecidableEq

structure SftpFile where
  path : Str
  buffer : List UInt8
  isWrite : Bool
  deriving DecidableEq

abbrev Handle := List UInt8

structure CyanideSFTPHandler where
  config : SftpConfig
  fileHandles : AList fun _ : Handle => SftpFile
  nextHandleId : ℕ

/-- What a request is answered with. -/
inductive SftpReply where
  | ok
  | handle (h : Handle)
  | data (b : List UInt8)
  | written (n : ℕ)
  | error (e : SftpError)
  deriving DecidableEq

inductive SftpRequest where
  | open (path : Str) (flags : ℕ)
  | read (handle : Handle) (offset size : ℕ)
  | write (handle : Handle) (offset : ℕ) (data : List UInt8)
  | close (handle : Handle)
  | mkdir (path : Str)
  | remove (path : Str)
  | rmdir (path : Str)
  /-- With the number of nested calls left to the interpreter. -/
  | rename (depth : ℕ) (oldpath newpath : Str)

def fxfWrite : ℕ := 0x02

def fxfCreat : ℕ := 0x08

def fxfTrunc : ℕ := 0x10

/-- The bytes of `f"h{handle_id}"`. -/
def handleName (id : ℕ) : Handle := (Content.text ('h' :: natText id)).encode

namespace CyanideSFTPHandler

variable (h : CyanideSFTPHandler) (P : Honeypot)

/-- `_check_sftp_permissions`. -/
def checkPermissions (isWrite : Bool) : Option SftpError :=
  if isWrite && !h.config.allowUpload then some (.permissionDenied "Uploads disabled".toList)
  else if !isWrite && !h.config.allowDownload then some (.permissionDenied "Downloads disabled".toList)
  else none

/-- The answer to `open` that hands out a new handle. -/
def addFile (file : SftpFile) : SftpReply × CyanideSFTPHandler :=
  (.handle (handleName h.nextHandleId),
    { h with
      fileHandles := h.fileHandles.insert (handleName h.nextHandleId) file
      nextHandleId := h.nextHandleId + 1 })

/-- `_get_node_content`. -/
def nodeContent (path : Str) : List UInt8 := (P.fs.getContent path).1.encode

def isWriteFlags (flags : ℕ) : Bool := flags &&& (fxfWrite ||| fxfCreat ||| fxfTrunc) ≠ 0

/-- Whether `open` reads the file, once it is allowed. -/
def opensContent (path : Str) (flags : ℕ) : Bool :=
  if isWriteFlags flags then flags &&& fxfTrunc = 0 && P.fs.pathExists path else true

/-- The error that `open` raises, if any. -/
def openError (path : Str) (flags : ℕ) : Option SftpError :=
  match h.checkPermissions (isWriteFlags flags) with
  | some e => some e
  | none =>
    if isWriteFlags flags && P.fs.isDir path then some (.permissionDenied "Is a directory".toList)
    else if !isWriteFlags flags && !P.fs.pathExists path then some .noSuchFile
    else none

def openFile (path : Str) (flags : ℕ) : SftpReply × CyanideSFTPHandler × Honeypot :=
  match h.openError P path flags with
  | some e => (.error e, h, P)
  | none =>
    if opensContent P path flags then
      let (reply, h') := h.addFile ⟨path, nodeContent P path, isWriteFlags flags⟩
      (reply, h', { P with fs := (P.fs.getContent path).2 })
    else
      let (reply, h') := h.addFile ⟨path, [], isWriteFlags flags⟩
      (reply, h', P)

def invalidHandle : SftpError := .badMessage "Invalid handle".toList

def readFile (handle : Handle) (offset size : ℕ) : SftpReply :=
  match h.fileHandles.lookup handle with
  | none => .error invalidHandle
  | some file => .data ((file.buffer.drop offset).take size)

/-- `buffer[offset:end] = data`, behind zeros up to the offset. -/
def writeBuffer (buffer : List UInt8) (offset : ℕ) (data : List UInt8) : List UInt8 :=
  let buffer := buffer ++ List.replicate (offset + data.length - buffer.length) 0
  buffer.take offset ++ data ++ buffer.drop (offset + data.length)

def writeFile (handle : Handle) (offset : ℕ) (data : List UInt8) : SftpReply × CyanideSFTPHandler :=
  match h.fileHandles.lookup handle with
  | none => (.error invalidHandle, h)
  | some file =>
    if file.isWrite = false then (.error (.permissionDenied "File not open for writing".toList), h)
    else if h.config.maxTotalUploadMbPerSession * 1024 * 1024 < file.buffer.length + data.length then
      (.error (.permissionDenied "Session upload limit exceeded".toList), h)
    else
      (.written data.length,
        { h with
          fileHandles := h.fileHandles.insert handle { file with buffer := writeBuffer file.buffer offset data } })

/-- `close`, which is answered in the same way whatever `mkfile` returns. -/
def closeFile (handle : Handle) : SftpReply × CyanideSFTPHandler × Honeypot :=
  match h.fileHandles.lookup handle with
  | none => (.ok, h, P)
  | some file =>
    let h' := { h with fileHandles := h.fileHandles.erase handle }
    if file.isWrite then
      (.ok, h',
        { fs := (P.fs.mkfile file.path (.bytes file.buffer)).2
          quarantine := (basename file.path, file.buffer) :: P.quarantine })
    else (.ok, h', P)

def removePath (path : Str) : SftpReply × Honeypot :=
  (if (P.fs.remove path).1 then .ok else .error .noSuchFile, { P with fs := (P.fs.remove path).2 })

def renamePath (depth : ℕ) (oldpath newpath : Str) : SftpReply × Honeypot :=
  (match (P.fs.move depth oldpath newpath).1 with
    | .ok true => .ok
    | .ok false => .error .noSuchFile
    | .error _ => .error .failure,
    { P with fs := (P.fs.move depth oldpath newpath).2 })

/-- The answer to a request, with the handler and the honeypot after it. -/
def serve : SftpRequest → SftpReply × CyanideSFTPHandler × Honeypot
  | .open path flags => h.openFile P path flags
  | .read handle offset size => (h.readFile handle offset size, h, P)
  | .write handle offset data => ((h.writeFile handle offset data).1, (h.writeFile handle offset data).2, P)
  | .close handle => h.closeFile P handle
  | .mkdir path => (.ok, h, { P with fs := P.fs.mkdirP path })
  | .remove path => ((removePath P path).1, h, (removePath P path).2)
  | .rmdir path => ((removePath P path).1, h, (removePath P path).2)
  | .rename depth oldpath newpath => ((renamePath P depth oldpath newpath).1, h, (renamePath P depth oldpath newpath).2)

/-! ### The operations of a request -/

/-- The read of `open`. -/
def openOps (path : Str) (flags : ℕ) : List Op :=
  if (h.openError P path flags).isNone && opensContent P path flags then [.getContent path ∅] else []

/-- The `mkfile` of `close`. -/
def closeOps (handle : Handle) : List Op :=
  match h.fileHandles.lookup handle with
  | none => []
  | some file =>
    if file.isWrite then [.mkfile file.path (.bytes file.buffer) root root "-rw-r--r--".toList] else []

/-- The operations that a request makes. -/
def ops : SftpRequest → List Op
  | .open path flags => h.openOps P path flags
  | .read .. => []
  | .write .. => []
  | .close handle => h.closeOps handle
  | .mkdir path => [.mkdirP path root root "drwxr-xr-x".toList]
  | .remove path => [.remove path]
  | .rmdir path => [.remove path]
  | .rename depth oldpath newpath => P.fs.moveOps depth oldpath newpath

private theorem openFile_eq_run (path : Str) (flags : ℕ) :
    (h.openFile P path flags).2.2.fs = run Op.apply P.fs (h.openOps P path flags) := by
  unfold openFile openOps
  cases h.openError P path flags with
  | some e => rfl
  | none => cases hc : opensContent P path flags <;> simp [Op.apply]

private theorem closeFile_eq_run (handle : Handle) :
    (h.closeFile P handle).2.2.fs = run Op.apply P.fs (h.closeOps handle) := by
  unfold closeFile closeOps
  cases h.fileHandles.lookup handle with
  | none => rfl
  | some file => cases hw : file.isWrite <;> simp [hw, Op.apply]

/-- A request leaves the filesystem that its operations leave. -/
theorem serve_eq_run (r : SftpRequest) : (h.serve P r).2.2.fs = run Op.apply P.fs (h.ops P r) := by
  cases r with
  | «open» path flags => exact openFile_eq_run h P path flags
  | close handle => exact closeFile_eq_run h P handle
  | rename depth oldpath newpath => exact P.fs.move_eq_run depth oldpath newpath
  | _ => rfl

end CyanideSFTPHandler

end Cyanide
