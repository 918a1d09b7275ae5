import Cyanide.Lib.Tally
import Cyanide.Vfs.SftpHandles

/-!
# The upload limit of an SFTP session

What a session holds is the length of its write buffers that are open and of the files that its closed write handles
have uploaded.  `write` compares the limit with the buffer of its own handle and the data, wherever the data goes, and
`open` compares nothing.  `limit_kept_iff` says which requests keep what a session holds within the limit.
-/

namespace Cyanide

open PosixPath PyText Transition

namespace CyanideSFTPHandler

/-- The buffer that a request uploads, when it closes a handle that was opened for writing. -/
def uploadsOf (h : CyanideSFTPHandler) : SftpRequest → List (List UInt8)
  | .close handle =>
    match h.fileHandles.lookup handle with
    | some file => if file.isWrite then [file.buffer] else []
    | none => []
  | _ => []

end CyanideSFTPHandler

/-- A session in progress, with what its closed handles have uploaded. -/
structure SftpSession where
  handler : CyanideSFTPHandler
  honeypot : Honeypot
  uploads : List (List UInt8)

namespace SftpSession

def start (config : SftpConfig) (P : Honeypot) : SftpSession := ⟨.start config, P, []⟩

def step (σ : SftpSession) (r : SftpRequest) : SftpSession where
  handler := (σ.handler.serve σ.honeypot r).2.1
  honeypot := (σ.handler.serve σ.honeypot r).2.2
  uploads := σ.handler.uploadsOf r ++ σ.uploads

/-- The reply to a request. -/
def reply (σ : SftpSession) (r : SftpRequest) : SftpReply := (σ.handler.serve σ.honeypot r).1

variable (σ : SftpSession)

/-- What a handle counts. -/
def writeLength (file : SftpFile) : ℕ := if file.isWrite then file.buffer.length else 0

/-- The lengths of all open write buffers and of all uploads. -/
def total : ℕ := tally writeLength σ.handler.fileHandles + (σ.uploads.map List.length).sum

def limit : ℕ := σ.handler.config.maxTotalUploadMbPerSession * 2 ^ 20

/-- By how much a write makes the buffer of its handle longer. -/
def growth (file : SftpFile) (offset : ℕ) (data : List UInt8) : ℕ := offset + data.length - file.buffer.length

/-- A write to a handle that is open for writing is refused only if it would exceed the limit. -/
def RefusesFairly (r : SftpRequest) : Prop :=
  ∀ handle offset data file, r = .write handle offset data → σ.handler.fileHandles.lookup handle = some file →
    file.isWrite = true → σ.reply r ≠ .written data.length → σ.limit < σ.total + growth file offset data

/-- What `open` loads into a write buffer. -/
def loaded (path : Str) (flags : ℕ) : ℕ :=
  if CyanideSFTPHandler.isWriteFlags flags && CyanideSFTPHandler.opensContent σ.honeypot path flags then
    (CyanideSFTPHandler.nodeContent σ.honeypot path).length
  else 0

/-- An `open` loads no more than the limit has room for, and the comparison of a `write` comes out as it would for what
the session holds. -/
def Accounted : SftpRequest → Prop
  | .open path flags => σ.handler.openError σ.honeypot path flags = none → σ.total + σ.loaded path flags ≤ σ.limit
  | .write handle offset data =>
    ∀ file, σ.handler.fileHandles.lookup handle = some file → file.isWrite = true →
      (file.buffer.length + data.length ≤ σ.limit ↔ σ.total + growth file offset data ≤ σ.limit)
  | _ => True

/-! ### The quarantine -/

/-- What a request uploads is what the quarantine gets. -/
theorem quarantine_step (r : SftpRequest) :
    (σ.step r).honeypot.quarantine.map Prod.snd = σ.handler.uploadsOf r ++ σ.honeypot.quarantine.map Prod.snd := by
  cases r with
  | «open» path flags =>
    show ((σ.handler.openFile σ.honeypot path flags).2.2.quarantine.map Prod.snd) = _
    unfold CyanideSFTPHandler.openFile
    split
    · rfl
    · split <;> rfl
  | close handle =>
    show ((σ.handler.closeFile σ.honeypot handle).2.2.quarantine.map Prod.snd) = _
    unfold CyanideSFTPHandler.closeFile
    cases hfile : σ.handler.fileHandles.lookup handle with
    | none => simp [CyanideSFTPHandler.uploadsOf, hfile]
    | some file => cases hw : file.isWrite <;> simp [CyanideSFTPHandler.uploadsOf, hfile, hw]
  | _ => rfl

/-- The uploads of a session are what it has given to the quarantine. -/
theorem quarantine_run (config : SftpConfig) (P : Honeypot) (rs : List SftpRequest) :
    (run step (start config P) rs).honeypot.quarantine.map Prod.snd =
      (run step (start config P) rs).uploads ++ P.quarantine.map Prod.snd := by
  have hstep : ∀ σ r, σ.honeypot.quarantine.map Prod.snd = σ.uploads ++ P.quarantine.map Prod.snd →
      (step σ r).honeypot.quarantine.map Prod.snd = (step σ r).uploads ++ P.quarantine.map Prod.snd := by
    intro σ r h
    rw [quarantine_step, h, ← List.append_assoc]
    rfl
  exact invariant_of_steps (G := fun _ _ => True) (fun σ r h _ => hstep σ r h) rfl (meets_of_forall fun _ _ _ => trivial)

/-! ### What a request does to the total -/

/-- No handle has a number that is still to be handed out. -/
def Numbered : Prop := ∀ i, σ.handler.nextHandleId ≤ i → σ.handler.fileHandles.lookup (handleName i) = none

theorem length_writeBuffer (file : SftpFile) (offset : ℕ) (data : List UInt8) :
    (CyanideSFTPHandler.writeBuffer file.buffer offset data).length =
      file.buffer.length + growth file offset data := by
  simp only [CyanideSFTPHandler.writeBuffer, growth, List.length_append, List.length_take, List.length_drop,
    List.length_replicate]
  omega

section Steps

variable {σ}

/-- What `open` leaves when it raises no error: a new handle, with what it has loaded. -/
private theorem open_ok {path : Str} {flags : ℕ} (h : σ.handler.openError σ.honeypot path flags = none) :
    ∃ buffer : List UInt8, (σ.step (.open path flags)).handler = (σ.handler.addFile
        ⟨path, buffer, CyanideSFTPHandler.isWriteFlags flags⟩).2 ∧
      (if CyanideSFTPHandler.isWriteFlags flags then buffer.length else 0) = σ.loaded path flags ∧
      (σ.step (.open path flags)).uploads = σ.uploads := by
  have hhandler : (σ.step (.open path flags)).handler = (σ.handler.openFile σ.honeypot path flags).2.1 := rfl
  rw [hhandler]
  unfold CyanideSFTPHandler.openFile loaded
  rw [h]
  cases hc : CyanideSFTPHandler.opensContent σ.honeypot path flags with
  | true => exact ⟨_, rfl, by cases CyanideSFTPHandler.isWriteFlags flags <;> rfl, rfl⟩
  | false => exact ⟨[], rfl, by cases CyanideSFTPHandler.isWriteFlags flags <;> rfl, rfl⟩

private theorem open_error {path : Str} {flags : ℕ} {e : SftpError}
    (h : σ.handler.openError σ.honeypot path flags = some e) : σ.step (.open path flags) = σ := by
  have hserve : σ.handler.serve σ.honeypot (.open path flags) = (.error e, σ.handler, σ.honeypot) := by
    show σ.handler.openFile σ.honeypot path flags = _
    unfold CyanideSFTPHandler.openFile
    rw [h]
  unfold step
  rw [hserve]
  rfl

private theorem step_write (handle : Handle) (offset : ℕ) (data : List UInt8) :
    σ.step (.write handle offset data) = { σ with handler := (σ.handler.writeFile handle offset data).2 } := rfl

/-- A write is made when the buffer and the data are within the limit, and is refused without effect otherwise. -/
private theorem writeFile_eq {handle : Handle} {file : SftpFile}
    (hfile : σ.handler.fileHandles.lookup handle = some file) (hw : file.isWrite = true) (offset : ℕ)
    (data : List UInt8) :
    σ.handler.writeFile handle offset data =
      if file.buffer.length + data.length ≤ σ.limit then
        (.written data.length,
          { σ.handler with
            fileHandles := σ.handler.fileHandles.insert handle
              { file with buffer := CyanideSFTPHandler.writeBuffer file.buffer offset data } })
      else (.error (.permissionDenied "Session upload limit exceeded".toList), σ.handler) := by
  have hlimit : σ.handler.config.maxTotalUploadMbPerSession * 1024 * 1024 = σ.limit := by simp [limit, Nat.mul_assoc]
  unfold CyanideSFTPHandler.writeFile
  rw [hfile]
  simp only [hw, Bool.true_eq_false, if_false, hlimit]
  by_cases hle : file.buffer.length + data.length ≤ σ.limit
  · rw [if_pos hle, if_neg (Nat.not_lt.2 hle)]
  · rw [if_neg hle, if_pos (Nat.lt_of_not_le hle)]

private theorem total_write {handle : Handle} {file : SftpFile}
    (hfile : σ.handler.fileHandles.lookup handle = some file) (hw : file.isWrite = true) (offset : ℕ)
    (data : List UInt8) (hle : file.buffer.length + data.length ≤ σ.limit) :
    (σ.step (.write handle offset data)).total = σ.total + growth file offset data := by
  have htally := tally_insert_of_some writeLength hfile
    { file with buffer := CyanideSFTPHandler.writeBuffer file.buffer offset data }
  have hnew : writeLength { file with buffer := CyanideSFTPHandler.writeBuffer file.buffer offset data } =
      file.buffer.length + growth file offset data := by simp [writeLength, hw, length_writeBuffer]
  have hold : writeLength file = file.buffer.length := by simp [writeLength, hw]
  rw [step_write, writeFile_eq hfile hw, if_pos hle]
  unfold total
  dsimp only
  omega

/-- A handle that is not open for writing gets nothing. -/
private theorem step_write_of_not_write {handle : Handle} (offset : ℕ) (data : List UInt8)
    (h : ∀ file, σ.handler.fileHandles.lookup handle = some file → file.isWrite = false) :
    σ.step (.write handle offset data) = σ := by
  have hwrite : (σ.handler.writeFile handle offset data).2 = σ.handler := by
    unfold CyanideSFTPHandler.writeFile
    cases hfile : σ.handler.fileHandles.lookup handle with
    | none => rfl
    | some file => simp [h file hfile]
  rw [step_write, hwrite]

private theorem erase_of_none {handle : Handle} (h : σ.handler.fileHandles.lookup handle = none) :
    σ.handler.fileHandles.erase handle = σ.handler.fileHandles :=
  AList.ext (List.kerase_of_notMem_keys (AList.lookup_eq_none.1 h))

private theorem handler_close (handle : Handle) :
    (σ.step (.close handle)).handler.nextHandleId = σ.handler.nextHandleId ∧
      (σ.step (.close handle)).handler.fileHandles = σ.handler.fileHandles.erase handle := by
  show (σ.handler.closeFile σ.honeypot handle).2.1.nextHandleId = _ ∧
    (σ.handler.closeFile σ.honeypot handle).2.1.fileHandles = _
  unfold CyanideSFTPHandler.closeFile
  cases hfile : σ.handler.fileHandles.lookup handle with
  | none => exact ⟨rfl, (erase_of_none hfile).symm⟩
  | some file => cases hw : file.isWrite <;> simp [hw]

/-- A buffer that is closed is uploaded. -/
private theorem total_close (handle : Handle) : (σ.step (.close handle)).total = σ.total := by
  have huploads : (σ.step (.close handle)).uploads = σ.handler.uploadsOf (.close handle) ++ σ.uploads := rfl
  unfold total
  rw [(handler_close handle).2, huploads]
  cases hfile : σ.handler.fileHandles.lookup handle with
  | none =>
    simp [erase_of_none hfile, CyanideSFTPHandler.uploadsOf, hfile]
  | some file =>
    have htally := tally_erase writeLength hfile
    cases hw : file.isWrite
    · simp only [CyanideSFTPHandler.uploadsOf, hfile, hw, writeLength, if_false, Bool.false_eq_true,
        List.nil_append] at htally ⊢
      omega
    · simp only [CyanideSFTPHandler.uploadsOf, hfile, hw, writeLength, if_true, List.cons_append, List.nil_append,
        List.map_cons, List.sum_cons] at htally ⊢
      omega

private theorem Numbered.step (h : σ.Numbered) (r : SftpRequest) : (σ.step r).Numbered := by
  cases r with
  | «open» path flags =>
    cases he : σ.handler.openError σ.honeypot path flags with
    | some e =>
      rw [open_error he]
      exact h
    | none =>
      obtain ⟨buffer, hhandler, -, -⟩ := open_ok he
      intro i hi
      rw [hhandler] at hi ⊢
      have hlt : σ.handler.nextHandleId < i := hi
      have hne : handleName i ≠ handleName σ.handler.nextHandleId := fun heq => by
        have := CyanideSFTPHandler.handleName_injective heq
        omega
      exact (AList.lookup_insert_ne hne).trans (h i hlt.le)
  | write handle offset data =>
    by_cases hopen : ∃ file, σ.handler.fileHandles.lookup handle = some file ∧ file.isWrite = true
    · obtain ⟨file, hfile, hw⟩ := hopen
      rw [step_write, writeFile_eq hfile hw]
      split_ifs
      · intro i hi
        have hne : handleName i ≠ handle := fun heq => by
          rw [← heq, h i hi] at hfile
          cases hfile
        exact (AList.lookup_insert_ne hne).trans (h i hi)
      · exact h
    · rw [step_write_of_not_write]
      · exact h
      · simpa using hopen
  | close handle =>
    intro i hi
    rw [(handler_close handle).1] at hi
    rw [(handler_close handle).2]
    by_cases heq : handleName i = handle
    · rw [heq]
      exact AList.lookup_erase _ _
    · exact (AList.lookup_erase_ne heq).trans (h i hi)
  | _ => exact h

private theorem total_open (h : σ.Numbered) {path : Str} {flags : ℕ}
    (he : σ.handler.openError σ.honeypot path flags = none) :
    (σ.step (.open path flags)).total = σ.total + σ.loaded path flags := by
  obtain ⟨buffer, hhandler, hloaded, huploads⟩ := open_ok he
  have htally := tally_insert_of_none writeLength (h _ le_rfl)
    ⟨path, buffer, CyanideSFTPHandler.isWriteFlags flags⟩
  unfold total
  rw [hhandler, huploads, ← hloaded]
  unfold CyanideSFTPHandler.addFile
  dsimp only
  rw [htally]
  unfold writeLength
  dsimp only
  omega

/-- A request keeps the total within the limit, and refuses fairly, just when it is accounted for. -/
theorem keeps_limit_iff (h : σ.Numbered) (hle : σ.total ≤ σ.limit) (r : SftpRequest) :
    (σ.step r).total ≤ σ.limit ∧ σ.RefusesFairly r ↔ σ.Accounted r := by
  cases r with
  | «open» path flags =>
    have hfair : σ.RefusesFairly (.open path flags) := fun _ _ _ _ heq => by cases heq
    rw [and_iff_left hfair]
    cases he : σ.handler.openError σ.honeypot path flags with
    | some e => rw [open_error he]; simp [Accounted, he, hle]
    | none => rw [total_open h he]; simp [Accounted, he]
  | write handle offset data =>
    by_cases hopen : ∃ file, σ.handler.fileHandles.lookup handle = some file ∧ file.isWrite = true
    · obtain ⟨file, hfile, hw⟩ := hopen
      have hreply : σ.reply (.write handle offset data) = (σ.handler.writeFile handle offset data).1 := rfl
      have haccounted : σ.Accounted (.write handle offset data) ↔
          (file.buffer.length + data.length ≤ σ.limit ↔ σ.total + growth file offset data ≤ σ.limit) := by
        simp [Accounted, hfile, hw]
      have hfair : σ.RefusesFairly (.write handle offset data) ↔
          (σ.reply (.write handle offset data) ≠ .written data.length → σ.limit < σ.total + growth file offset data) := by
        constructor
        · exact fun hfair hrefused => hfair _ _ _ _ rfl hfile hw hrefused
        · intro hfair handle' offset' data' file' heq hfile' _ hrefused
          cases heq
          rw [hfile] at hfile'
          cases hfile'
          exact hfair hrefused
      rw [haccounted, hfair, hreply]
      -- the comparison of `write` decides both sides: what is written, or that the total stays
      by_cases hfits : file.buffer.length + data.length ≤ σ.limit
      · rw [total_write hfile hw offset data hfits, writeFile_eq hfile hw, if_pos hfits]
        simp [hfits]
      · rw [step_write, writeFile_eq hfile hw, if_neg hfits]
        simp [hfits, hle]
    · -- no handle for writing: refused for another reason, and nothing grows
      have hnone : ∀ file, σ.handler.fileHandles.lookup handle = some file → file.isWrite = false := by simpa using hopen
      rw [step_write_of_not_write offset data hnone]
      refine iff_of_true ⟨hle, ?_⟩ ?_
      · intro handle' offset' data' file' heq hfile' hw
        cases heq
        rw [hnone file' hfile'] at hw
        cases hw
      · intro file' hfile' hw
        rw [hnone file' hfile'] at hw
        cases hw
  | close handle =>
    rw [total_close]
    exact iff_of_true ⟨hle, fun _ _ _ _ heq => by cases heq⟩ trivial
  | _ => exact iff_of_true ⟨hle, fun _ _ _ _ heq => by cases heq⟩ trivial

private theorem config_step (r : SftpRequest) : (σ.step r).handler.config = σ.handler.config := by
  cases r with
  | «open» path flags =>
    cases he : σ.handler.openError σ.honeypot path flags with
    | some e => rw [open_error he]
    | none =>
      obtain ⟨buffer, hhandler, -, -⟩ := open_ok he
      rw [hhandler]
      rfl
  | write handle offset data =>
    show (σ.handler.writeFile handle offset data).2.config = _
    unfold CyanideSFTPHandler.writeFile
    split
    · rfl
    · split_ifs <;> rfl
  | close handle =>
    show (σ.handler.closeFile σ.honeypot handle).2.1.config = _
    unfold CyanideSFTPHandler.closeFile
    split
    · rfl
    · dsimp only
      split <;> rfl
  | _ => rfl

end Steps

/-- In every session the total stays within the limit, and no write is refused that would stay within it, just when
every request is accounted for. -/
theorem limit_kept_iff (config : SftpConfig) (P : Honeypot) (rs : List SftpRequest) :
    ((∀ bs, bs <+: rs → (run step (start config P) bs).total ≤ config.maxTotalUploadMbPerSession * 2 ^ 20) ∧
      ∀ bs r, bs ++ [r] <+: rs → (run step (start config P) bs).RefusesFairly r) ↔
      Meets step Accounted (start config P) rs := by
  have hkept : ∀ bs, (run step (start config P) bs).Numbered ∧
      (run step (start config P) bs).limit = config.maxTotalUploadMbPerSession * 2 ^ 20 := by
    intro bs
    refine invariant_of_steps (I := fun σ : SftpSession => σ.Numbered ∧ σ.limit = config.maxTotalUploadMbPerSession * 2 ^ 20)
      (G := fun _ _ => True) ?_ ⟨fun i _ => rfl, rfl⟩ (meets_of_forall fun _ _ _ => trivial)
    rintro σ r ⟨hn, hlimit⟩ -
    refine ⟨hn.step r, ?_⟩
    unfold limit at hlimit ⊢
    rwa [config_step]
  have hstep : ∀ bs r, (run step (start config P) (bs ++ [r])) = (run step (start config P) bs).step r := by
    intro bs r
    rw [run_append]
    rfl
  rw [meets_iff]
  constructor
  · rintro ⟨htotal, hfair⟩ bs r hp
    obtain ⟨hn, hlimit⟩ := hkept bs
    have hle := htotal bs ((List.prefix_append _ _).trans hp)
    have hle' := htotal (bs ++ [r]) hp
    rw [← hlimit] at hle hle'
    rw [hstep] at hle'
    exact (keeps_limit_iff hn hle r).1 ⟨hle', hfair bs r hp⟩
  · intro haccounted
    have htotal : ∀ bs, bs <+: rs →
        (run step (start config P) bs).total ≤ config.maxTotalUploadMbPerSession * 2 ^ 20 := by
      intro bs
      -- from the end, since the guard is asked in the state that the requests in front reach
      induction bs using List.reverseRecOn with
      | nil => exact fun _ => Nat.zero_le _
      | append_singleton bs r ih =>
        intro hp
        obtain ⟨hn, hlimit⟩ := hkept bs
        have hle := ih ((List.prefix_append _ _).trans hp)
        rw [← hlimit] at hle ⊢
        rw [hstep]
        exact ((keeps_limit_iff hn hle r).2 (haccounted bs r hp)).1
    refine ⟨htotal, fun bs r hp => ?_⟩
    obtain ⟨hn, hlimit⟩ := hkept bs
    have hle := htotal bs ((List.prefix_append _ _).trans hp)
    rw [← hlimit] at hle
    exact ((keeps_limit_iff hn hle r).2 (haccounted bs r hp)).2

/-- Within a limit of one mebibyte, a byte is written behind a gap of one mebibyte. -/
theorem not_limit_kept_gap :
    let rs := [SftpRequest.open "/f".toList fxfCreat, .write (handleName 0) (2 ^ 20) [1]]
    let σ := start { maxTotalUploadMbPerSession := 1 } ⟨bare, []⟩
    ¬((∀ bs, bs <+: rs → (run step σ bs).total ≤ 1 * 2 ^ 20) ∧
      ∀ bs r, bs ++ [r] <+: rs → (run step σ bs).RefusesFairly r) := by
  intro rs σ h
  have hfile : (run step σ [.open "/f".toList fxfCreat]).handler.fileHandles.lookup (handleName 0) =
      some ⟨"/f".toList, [], true⟩ := by decide +kernel
  have htotal : (run step σ [.open "/f".toList fxfCreat]).total = 0 := by decide +kernel
  have hlimit : (run step σ [.open "/f".toList fxfCreat]).limit = 2 ^ 20 := by decide +kernel
  have hwritten := total_write hfile rfl (2 ^ 20) [1] (by rw [hlimit]; decide)
  have hle := h.1 rs List.prefix_rfl
  have hrun : run step σ rs = (run step σ [.open "/f".toList fxfCreat]).step (.write (handleName 0) (2 ^ 20) [1]) := rfl
  rw [hrun, hwritten, htotal] at hle
  exact absurd hle (by decide)

end SftpSession

end Cyanide
