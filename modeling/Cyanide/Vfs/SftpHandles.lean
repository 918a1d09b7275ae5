import Mathlib.Data.UInt
import Cyanide.Lib.SparseArray
import Cyanide.Vfs.Sftp

/-!
# The handles of an SFTP session

What a client may expect of its handles: the exchanges of a session so far give the file behind each handle, a byte
array with the path and the mode of its `open` (`fileOf`), and every reply follows from these files (`Conforms`).
`buffers_refine` says that the buffers of `CyanideSFTPHandler` are these arrays in every session.
-/

namespace Cyanide

open PosixPath PyText

/-- A request with its reply, and the honeypot before and after it. -/
structure Exchange where
  request : SftpRequest
  reply : SftpReply
  before : Honeypot
  after : Honeypot

/-- The file behind an open handle. -/
structure OpenFile where
  path : Str
  array : SparseArray UInt8
  isWrite : Bool

namespace OpenFile

def toSftpFile (f : OpenFile) : SftpFile := ⟨f.path, f.array.toList, f.isWrite⟩

open CyanideSFTPHandler in
/-- What `open` hands out: the bytes that it reads, or none. -/
def opened (P : Honeypot) (path : Str) (flags : ℕ) : OpenFile where
  path := path
  array := .ofList (if opensContent P path flags then nodeContent P path else [])
  isWrite := isWriteFlags flags

/-- The file behind a handle after an exchange; a rejected request leaves it. -/
def next (handle : Handle) (file : Option OpenFile) (e : Exchange) : Option OpenFile :=
  match e.request, e.reply with
  | .open path flags, .handle new => if new = handle then some (opened e.before path flags) else file
  | .write written offset data, .written _ =>
    if written = handle then file.map fun f => { f with array := f.array.write offset data } else file
  | .close closed, .ok => if closed = handle then none else file
  | _, _ => file

end OpenFile

/-- The file behind a handle after the exchanges of a session. -/
def fileOf (E : List Exchange) (handle : Handle) : Option OpenFile := E.foldl (OpenFile.next handle) none

/-- The handles that were ever returned. -/
def issued (E : List Exchange) : List Handle :=
  E.filterMap fun e => match e.reply with
    | .handle h => some h
    | _ => none

namespace Exchange

variable (config : SftpConfig) (E : List Exchange)

/-- What `read` answers. -/
def readReply (handle : Handle) (offset size : ℕ) : SftpReply :=
  match fileOf E handle with
  | none => .error CyanideSFTPHandler.invalidHandle
  | some f => .data (f.array.slice offset size)

/-- What `write` answers. -/
def writeReply (handle : Handle) (data : List UInt8) : SftpReply :=
  match fileOf E handle with
  | none => .error CyanideSFTPHandler.invalidHandle
  | some f =>
    if f.isWrite = false then .error (.permissionDenied "File not open for writing".toList)
    else if config.maxTotalUploadMbPerSession * 1024 * 1024 < f.array.length + data.length then
      .error (.permissionDenied "Session upload limit exceeded".toList)
    else .written data.length

/-- What `close` leaves: the array of a handle that was opened for writing goes to the filesystem and, once, to the
quarantine. -/
def closed (handle : Handle) (P : Honeypot) : Honeypot :=
  match fileOf E handle with
  | none => P
  | some f =>
    if f.isWrite then
      { fs := (P.fs.mkfile f.path (.bytes f.array.toList)).2
        quarantine := (basename f.path, f.array.toList) :: P.quarantine }
    else P

/-- An exchange is what the client may expect after the exchanges `E`. -/
def Conforms (e : Exchange) : Prop :=
  match e.request with
  | .open .. =>
    ((∃ handle, e.reply = .handle handle ∧ handle ∉ issued E) ∨ ∃ error, e.reply = .error error) ∧
      e.after.quarantine = e.before.quarantine
  | .read handle offset size => e.reply = readReply E handle offset size ∧ e.after = e.before
  | .write handle _ data => e.reply = writeReply config E handle data ∧ e.after = e.before
  | .close handle => e.reply = .ok ∧ e.after = closed E handle e.before
  | _ => (∀ handle, e.reply ≠ .handle handle) ∧ e.after.quarantine = e.before.quarantine

end Exchange

namespace CyanideSFTPHandler

/-- The handler of a new session. -/
def start (config : SftpConfig) : CyanideSFTPHandler := ⟨config, ∅, 0⟩

/-- The exchange of a request. -/
def exchange (h : CyanideSFTPHandler) (P : Honeypot) (r : SftpRequest) : Exchange :=
  ⟨r, (h.serve P r).1, P, (h.serve P r).2.2⟩

/-- The exchanges of the requests of a session. -/
def exchanges : CyanideSFTPHandler → Honeypot → List SftpRequest → List Exchange
  | _, _, [] => []
  | h, P, r :: rs => h.exchange P r :: exchanges (h.serve P r).2.1 (h.serve P r).2.2 rs

/-- The handler after the requests of a session. -/
def serveAll : CyanideSFTPHandler → Honeypot → List SftpRequest → CyanideSFTPHandler
  | h, _, [] => h
  | h, P, r :: rs => serveAll (h.serve P r).2.1 (h.serve P r).2.2 rs

/-- The buffers of the handler are the files of the exchanges, and the handles are numbered. -/
structure Refines (config : SftpConfig) (h : CyanideSFTPHandler) (E : List Exchange) : Prop where
  config_eq : h.config = config
  lookup : ∀ handle, h.fileHandles.lookup handle = (fileOf E handle).map OpenFile.toSftpFile
  issued_eq : issued E = (List.range h.nextHandleId).map handleName

theorem handleName_injective : Function.Injective handleName := by
  intro m n h
  have htext := Content.encode_text_inj h
  exact natText_injective (List.cons.inj htext).2

theorem fileOf_append (E : List Exchange) (e : Exchange) (handle : Handle) :
    fileOf (E ++ [e]) handle = OpenFile.next handle (fileOf E handle) e := by
  simp [fileOf]

theorem issued_append (E : List Exchange) (e : Exchange) :
    issued (E ++ [e]) = issued E ++ issued [e] := List.filterMap_append

theorem issued_of_ne {e : Exchange} (he : ∀ handle, e.reply ≠ .handle handle) : issued [e] = [] := by
  rcases e with ⟨r, reply, before, after⟩
  cases reply with
  | handle handle => exact absurd rfl (he handle)
  | _ => rfl

/-- The buffer after a write is the array after it. -/
theorem writeBuffer_toList (a : SparseArray UInt8) (offset : ℕ) (data : List UInt8) :
    writeBuffer a.toList offset data = (a.write offset data).toList := by
  rw [SparseArray.toList_write, writeBuffer, SparseArray.length_toList]

theorem read_toList (a : SparseArray UInt8) (offset size : ℕ) :
    (a.toList.drop offset).take size = a.slice offset size := by
  rw [← SparseArray.slice_ofList, SparseArray.ofList_toList]

/-- A write to the file is within the limit. -/
def Fits (config : SftpConfig) (data : List UInt8) (file : SftpFile) : Prop :=
  file.isWrite = true ∧ file.buffer.length + data.length ≤ config.maxTotalUploadMbPerSession * 1024 * 1024

instance (config : SftpConfig) (data : List UInt8) (file : SftpFile) : Decidable (Fits config data file) :=
  inferInstanceAs (Decidable (_ ∧ _))

/-- The file of a handle after a write to it. -/
def written (config : SftpConfig) (offset : ℕ) (data : List UInt8) (file : SftpFile) : SftpFile :=
  if Fits config data file then { file with buffer := writeBuffer file.buffer offset data } else file

/-- A write changes the file of its handle when it fits, and is acknowledged just then. -/
theorem writeFile_spec (h : CyanideSFTPHandler) (handle : Handle) (offset : ℕ) (data : List UInt8) :
    (h.writeFile handle offset data).2.config = h.config ∧
      (h.writeFile handle offset data).2.nextHandleId = h.nextHandleId ∧
      (∀ x, (h.writeFile handle offset data).2.fileHandles.lookup x =
        if x = handle then (h.fileHandles.lookup x).map (written h.config offset data) else h.fileHandles.lookup x) ∧
      ∀ file, h.fileHandles.lookup handle = some file →
        ((h.writeFile handle offset data).1 = .written data.length ↔ Fits h.config data file) := by
  unfold writeFile
  cases hfile : h.fileHandles.lookup handle with
  | none =>
    refine ⟨rfl, rfl, fun x => ?_, fun file hfile => by cases hfile⟩
    by_cases hx : x = handle
    · rw [if_pos hx, hx, hfile, Option.map_none]
    · rw [if_neg hx]
  | some file =>
    dsimp only
    have hleft : ¬Fits h.config data file → ∀ x, h.fileHandles.lookup x =
        if x = handle then (h.fileHandles.lookup x).map (written h.config offset data) else h.fileHandles.lookup x := by
      intro hfits x
      by_cases hx : x = handle
      · rw [if_pos hx, hx, hfile, Option.map_some, written, if_neg hfits]
      · rw [if_neg hx]
    by_cases hw : file.isWrite = false
    · have hfits : ¬Fits h.config data file := by simp [Fits, hw]
      rw [if_pos hw]
      refine ⟨rfl, rfl, hleft hfits, fun file' hfile' => ?_⟩
      obtain rfl := Option.some.inj hfile'
      exact iff_of_false (by simp) hfits
    rw [if_neg hw]
    by_cases hlimit : h.config.maxTotalUploadMbPerSession * 1024 * 1024 < file.buffer.length + data.length
    · have hfits : ¬Fits h.config data file := fun hfits => Nat.not_le.2 hlimit hfits.2
      rw [if_pos hlimit]
      refine ⟨rfl, rfl, hleft hfits, fun file' hfile' => ?_⟩
      obtain rfl := Option.some.inj hfile'
      exact iff_of_false (by simp) hfits
    · have hfits : Fits h.config data file := ⟨by simpa using hw, Nat.not_lt.1 hlimit⟩
      rw [if_neg hlimit]
      refine ⟨rfl, rfl, fun x => ?_, fun file' hfile' => ?_⟩
      · by_cases hx : x = handle
        · subst hx
          rw [if_pos rfl, AList.lookup_insert, hfile, Option.map_some, written, if_pos hfits]
        · rw [if_neg hx]
          exact AList.lookup_insert_ne hx
      · obtain rfl := Option.some.inj hfile'
        exact iff_of_true rfl hfits

section Steps

variable {config : SftpConfig} {h : CyanideSFTPHandler} {E : List Exchange} {P : Honeypot}

/-- A new handle was never returned. -/
theorem Refines.fresh (hR : Refines config h E) : handleName h.nextHandleId ∉ issued E := by
  rw [hR.issued_eq, List.mem_map]
  rintro ⟨i, hi, heq⟩
  have := handleName_injective heq
  simp only [List.mem_range] at hi
  omega

theorem refines_start (config : SftpConfig) : Refines config (start config) [] :=
  ⟨rfl, fun _ => rfl, rfl⟩

/-- An exchange that leaves the handler and the files. -/
private theorem Refines.idle (hR : Refines config h E) {e : Exchange}
    (hnext : ∀ handle, OpenFile.next handle (fileOf E handle) e = fileOf E handle)
    (hissued : issued [e] = []) : Refines config h (E ++ [e]) where
  config_eq := hR.config_eq
  lookup handle := by
    rw [fileOf_append, hnext]
    exact hR.lookup handle
  issued_eq := by rw [issued_append, hissued, List.append_nil, hR.issued_eq]

/-- What `open` does once it raises no error. -/
private theorem openFile_of_no_error {path : Str} {flags : ℕ} (he : h.openError P path flags = none) :
    (h.openFile P path flags).1 = .handle (handleName h.nextHandleId) ∧
      (h.openFile P path flags).2.1 = (h.addFile (OpenFile.opened P path flags).toSftpFile).2 ∧
      (h.openFile P path flags).2.2.quarantine = P.quarantine := by
  unfold openFile
  rw [he]
  cases hc : opensContent P path flags <;> simp [addFile, OpenFile.opened, OpenFile.toSftpFile, hc]

private theorem refines_open (hR : Refines config h E) (path : Str) (flags : ℕ) :
    Refines config (h.openFile P path flags).2.1 (E ++ [h.exchange P (.open path flags)]) ∧
      (h.exchange P (.open path flags)).Conforms config E := by
  cases he : h.openError P path flags with
  | some error =>
    have hopen : h.openFile P path flags = (.error error, h, P) := by simp [openFile, he]
    have hexchange : h.exchange P (.open path flags) = ⟨.open path flags, .error error, P, P⟩ := by
      simp [exchange, serve, hopen]
    rw [hexchange, hopen]
    exact ⟨hR.idle (fun _ => rfl) rfl, .inr ⟨error, rfl⟩, rfl⟩
  | none =>
    obtain ⟨hreply, hhandler, hquarantine⟩ := openFile_of_no_error he
    refine ⟨⟨?_, fun handle => ?_, ?_⟩, .inl ⟨_, hreply, hR.fresh⟩, hquarantine⟩
    · rw [hhandler]
      exact hR.config_eq
    · rw [fileOf_append, hhandler]
      simp only [OpenFile.next, exchange, serve, hreply, addFile]
      split_ifs with hnew
      · subst hnew
        exact AList.lookup_insert _
      · exact (AList.lookup_insert_ne (Ne.symm hnew)).trans (hR.lookup handle)
    · rw [issued_append, hhandler, hR.issued_eq]
      simp [issued, exchange, serve, hreply, addFile, List.range_succ]

private theorem refines_write (hR : Refines config h E) (handle : Handle) (offset : ℕ) (data : List UInt8) :
    Refines config (h.writeFile handle offset data).2 (E ++ [h.exchange P (.write handle offset data)]) ∧
      (h.exchange P (.write handle offset data)).Conforms config E := by
  have hlookup := hR.lookup handle
  have hreply : (h.writeFile handle offset data).1 = Exchange.writeReply config E handle data := by
    unfold writeFile Exchange.writeReply
    rw [hlookup]
    cases fileOf E handle with
    | none => rfl
    | some f =>
      simp only [Option.map_some, OpenFile.toSftpFile, SparseArray.length_toList, hR.config_eq]
      split_ifs <;> rfl
  refine ⟨?_, hreply, rfl⟩
  have hexchange : h.exchange P (.write handle offset data) =
      ⟨.write handle offset data, Exchange.writeReply config E handle data, P, P⟩ := by
    simp only [exchange, serve, hreply]
  rw [hexchange]
  unfold writeFile Exchange.writeReply
  rw [hlookup]
  cases hf : fileOf E handle with
  | none => exact hR.idle (fun _ => rfl) rfl
  | some f =>
    simp only [Option.map_some, OpenFile.toSftpFile, SparseArray.length_toList, hR.config_eq]
    split_ifs with hmode hlimit
    · exact hR.idle (fun _ => rfl) rfl
    · exact hR.idle (fun _ => rfl) rfl
    · refine ⟨rfl, fun handle' => ?_, ?_⟩
      · rw [fileOf_append]
        simp only [OpenFile.next]
        split_ifs with heq
        · subst heq
          rw [hf, AList.lookup_insert, writeBuffer_toList]
          rfl
        · exact (AList.lookup_insert_ne (Ne.symm heq)).trans (hR.lookup handle')
      · rw [issued_append]
        simpa [issued] using hR.issued_eq

private theorem refines_close (hR : Refines config h E) (handle : Handle) :
    Refines config (h.closeFile P handle).2.1 (E ++ [h.exchange P (.close handle)]) ∧
      (h.exchange P (.close handle)).Conforms config E := by
  have hlookup := hR.lookup handle
  have hclose : h.closeFile P handle =
      (.ok, { h with fileHandles := h.fileHandles.erase handle }, Exchange.closed E handle P) := by
    unfold closeFile Exchange.closed
    rw [hlookup]
    cases hf : fileOf E handle with
    | none =>
      rw [hf] at hlookup
      have herase : h.fileHandles.erase handle = h.fileHandles :=
        AList.ext (List.kerase_of_notMem_keys (AList.lookup_eq_none.1 hlookup))
      rw [herase]
      rfl
    | some f =>
      simp only [Option.map_some, OpenFile.toSftpFile]
      split_ifs <;> rfl
  have hexchange : h.exchange P (.close handle) = ⟨.close handle, .ok, P, Exchange.closed E handle P⟩ := by
    simp only [exchange, serve, hclose]
  rw [hexchange, hclose]
  refine ⟨⟨hR.config_eq, fun handle' => ?_, ?_⟩, rfl, rfl⟩
  · rw [fileOf_append]
    simp only [OpenFile.next]
    split_ifs with heq
    · subst heq
      exact AList.lookup_erase _ _
    · exact (AList.lookup_erase_ne (Ne.symm heq)).trans (hR.lookup handle')
  · rw [issued_append]
    simpa [issued] using hR.issued_eq

private theorem removePath_ne_handle (P : Honeypot) (path : Str) (handle : Handle) :
    (removePath P path).1 ≠ .handle handle := by
  unfold removePath
  split <;> simp

/-- Every request keeps the buffers equal to the files, and is answered as the client may expect. -/
theorem refines_serve (hR : Refines config h E) (r : SftpRequest) :
    Refines config (h.serve P r).2.1 (E ++ [h.exchange P r]) ∧ (h.exchange P r).Conforms config E := by
  cases r with
  | «open» path flags => exact refines_open hR path flags
  | write handle offset data => exact refines_write hR handle offset data
  | close handle => exact refines_close hR handle
  | read handle offset size =>
    have hreply : h.readFile handle offset size = Exchange.readReply E handle offset size := by
      unfold readFile Exchange.readReply
      rw [hR.lookup handle]
      cases fileOf E handle with
      | none => rfl
      | some f => simp [OpenFile.toSftpFile, read_toList]
    refine ⟨hR.idle (fun _ => rfl) ?_, hreply, rfl⟩
    unfold Exchange.readReply at hreply
    cases hf : fileOf E handle <;> simp [issued, exchange, serve, hreply, hf]
  | mkdir path => exact ⟨hR.idle (fun _ => rfl) rfl, by simp [exchange, serve], rfl⟩
  | remove path =>
    have hreply := removePath_ne_handle P path
    exact ⟨hR.idle (fun _ => rfl) (issued_of_ne hreply), hreply, rfl⟩
  | rmdir path =>
    have hreply := removePath_ne_handle P path
    exact ⟨hR.idle (fun _ => rfl) (issued_of_ne hreply), hreply, rfl⟩
  | rename depth oldpath newpath =>
    have hreply : ∀ handle, (renamePath P depth oldpath newpath).1 ≠ .handle handle := by
      intro handle
      unfold renamePath
      rcases (P.fs.move depth oldpath newpath).1 with _ | moved
      · simp
      · cases moved <;> simp
    exact ⟨hR.idle (fun _ => rfl) (issued_of_ne hreply), hreply, rfl⟩

end Steps

/-- What the exchanges of a session leave and what each of them is, from a handler that is as it should be. -/
private theorem refines_serveAll {config : SftpConfig} {h : CyanideSFTPHandler} {E : List Exchange} {P : Honeypot}
    (hR : Refines config h E) (rs : List SftpRequest) :
    Refines config (h.serveAll P rs) (E ++ h.exchanges P rs) ∧
      ∀ E₀ e E₁, h.exchanges P rs = E₀ ++ e :: E₁ → e.Conforms config (E ++ E₀) := by
  induction rs generalizing h E P with
  | nil => simpa [serveAll, exchanges] using hR
  | cons r rs ih =>
    obtain ⟨hstep, hconforms⟩ := refines_serve (P := P) hR r
    obtain ⟨hrest, hall⟩ := ih (P := (h.serve P r).2.2) hstep
    refine ⟨by simpa [serveAll, exchanges] using hrest, fun E₀ e E₁ hsplit => ?_⟩
    cases E₀ with
    | nil =>
      obtain ⟨rfl, -⟩ := List.cons.inj hsplit
      simpa using hconforms
    | cons e₀ E₀ =>
      obtain ⟨rfl, hsplit'⟩ := List.cons.inj hsplit
      simpa using hall E₀ e E₁ hsplit'

/-- In every session the buffer of a handle is the array that the exchanges of the handle give, all handles are
different, and every reply and every sample is the one that follows from the arrays. -/
theorem buffers_refine (config : SftpConfig) (P : Honeypot) (rs : List SftpRequest) :
    (∀ handle, ((start config).serveAll P rs).fileHandles.lookup handle =
        (fileOf ((start config).exchanges P rs) handle).map OpenFile.toSftpFile) ∧
      (issued ((start config).exchanges P rs)).Nodup ∧
      ∀ E₀ e E₁, (start config).exchanges P rs = E₀ ++ e :: E₁ → e.Conforms config E₀ := by
  obtain ⟨hR, hall⟩ := refines_serveAll (P := P) (refines_start config) rs
  refine ⟨hR.lookup, ?_, hall⟩
  have hissued : issued ((start config).exchanges P rs) = _ := hR.issued_eq
  rw [hissued]
  exact List.nodup_range.map handleName_injective

end CyanideSFTPHandler

end Cyanide
