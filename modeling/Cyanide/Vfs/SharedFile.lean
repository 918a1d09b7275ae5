import Cyanide.Vfs.UploadPolicy

/-!
# Two handles on one file

Each handle works on a copy of the file that its `open` has read, and `close` replaces the whole file by this copy.
`stored_of_last_close` says what two handles on the same file leave behind: the file as it was, overwritten by the
acknowledged writes of the handle that is closed last, whatever has been written to the other one.
-/

namespace Cyanide

open PosixPath PyText Transition

/-- A handle of one of the sessions. -/
abbrev Descriptor := ℕ × Handle

namespace Transfers

variable (U : Unicode)

def file (σ : Transfers) (d : Descriptor) : Option SftpFile := (σ.sftp d.1).fileHandles.lookup d.2

def reply (σ : Transfers) (i : ℕ) (r : SftpRequest) : SftpReply := ((σ.sftp i).serve σ.honeypot r).1

/-- The offset and the data of a write to the descriptor that is acknowledged. -/
def acknowledges (d : Descriptor) (σ : Transfers) : TransferRequest → Option (ℕ × List UInt8)
  | .sftp i (.write handle offset data) =>
    if (i, handle) = d ∧ σ.reply i (.write handle offset data) = .written data.length then some (offset, data) else none
  | _ => none

/-- The writes to the descriptor that are acknowledged in a run. -/
def acknowledged (d : Descriptor) : Transfers → List TransferRequest → List (ℕ × List UInt8)
  | _, [] => []
  | σ, r :: rs => (σ.acknowledges d r).toList ++ acknowledged d (σ.step U r) rs

theorem acknowledged_append (d : Descriptor) (σ : Transfers) (rs rs' : List TransferRequest) :
    acknowledged U d σ (rs ++ rs') = acknowledged U d σ rs ++ acknowledged U d (run (step U) σ rs) rs' := by
  induction rs generalizing σ with
  | nil => rfl
  | cons r rs ih =>
    show _ ++ acknowledged U d (σ.step U r) (rs ++ rs') = (_ ++ acknowledged U d (σ.step U r) rs) ++ _
    rw [ih, List.append_assoc]
    rfl

/-- The requests are writes to the descriptors. -/
def Writes (ds : List Descriptor) (rs : List TransferRequest) : Prop :=
  ∀ r ∈ rs, ∃ d ∈ ds, ∃ offset data, r = .sftp d.1 (.write d.2 offset data)

/-! ### The copy of a handle -/

/-- The descriptor has been handed out for a write to the path, and has the array as its copy. -/
structure Holds (σ : Transfers) (d : Descriptor) (path : Str) (a : SparseArray UInt8) : Prop where
  file_eq : σ.file d = some ⟨path, a.toList, true⟩
  issued : ∃ m < (σ.sftp d.1).nextHandleId, d.2 = handleName m

section Steps

variable {U} {σ : Transfers} {d : Descriptor} {path : Str} {a : SparseArray UInt8}

/-- What a request leaves of an issued handle that it does not close. -/
private theorem lookup_serve {h : CyanideSFTPHandler} {P : Honeypot} {handle : Handle}
    (hissued : ∃ m < h.nextHandleId, handle = handleName m) {r : SftpRequest} (hr : r ≠ .close handle)
    (hwrite : ∀ offset data, r ≠ .write handle offset data) :
    (h.serve P r).2.1.fileHandles.lookup handle = h.fileHandles.lookup handle := by
  cases r with
  | «open» path flags =>
    obtain ⟨m, hm, rfl⟩ := hissued
    have hne : handleName m ≠ handleName h.nextHandleId := fun heq => by
      have := CyanideSFTPHandler.handleName_injective heq
      omega
    show (h.openFile P path flags).2.1.fileHandles.lookup (handleName m) = _
    unfold CyanideSFTPHandler.openFile
    split
    · rfl
    · split_ifs <;> exact AList.lookup_insert_ne hne
  | write handle' offset data =>
    obtain ⟨-, -, hlookup, -⟩ := h.writeFile_spec handle' offset data
    have hne : handle ≠ handle' := fun heq => hwrite offset data (by rw [heq])
    exact (hlookup handle).trans (if_neg hne)
  | close handle' =>
    have hne : handle ≠ handle' := fun heq => hr (by rw [heq])
    show (h.closeFile P handle').2.1.fileHandles.lookup handle = _
    unfold CyanideSFTPHandler.closeFile
    split
    · rfl
    · dsimp only
      split_ifs <;> exact AList.lookup_erase_ne hne
  | _ => rfl

private theorem nextHandleId_serve (h : CyanideSFTPHandler) (P : Honeypot) (r : SftpRequest) :
    h.nextHandleId ≤ (h.serve P r).2.1.nextHandleId := by
  cases r with
  | «open» path flags =>
    show _ ≤ (h.openFile P path flags).2.1.nextHandleId
    unfold CyanideSFTPHandler.openFile
    split
    · exact le_rfl
    · split_ifs <;> exact Nat.le_succ _
  | write handle offset data => exact ((h.writeFile_spec handle offset data).2.1).ge
  | close handle =>
    show _ ≤ (h.closeFile P handle).2.1.nextHandleId
    unfold CyanideSFTPHandler.closeFile
    split
    · exact le_rfl
    · dsimp only
      split_ifs <;> exact le_rfl
  | _ => exact le_rfl

/-- A write that is acknowledged is made, and another is not. -/
private theorem lookup_write (h : Holds σ d path a) (offset : ℕ) (data : List UInt8) :
    ((σ.sftp d.1).writeFile d.2 offset data).2.fileHandles.lookup d.2 =
      some ⟨path, (a.writeAll (σ.acknowledges d (.sftp d.1 (.write d.2 offset data))).toList).toList, true⟩ := by
  obtain ⟨-, -, hlookup, hreply⟩ := (σ.sftp d.1).writeFile_spec d.2 offset data
  have hfile : (σ.sftp d.1).fileHandles.lookup d.2 = some ⟨path, a.toList, true⟩ := h.file_eq
  have hacknowledges : σ.acknowledges d (.sftp d.1 (.write d.2 offset data)) =
      if CyanideSFTPHandler.Fits (σ.sftp d.1).config data ⟨path, a.toList, true⟩ then some (offset, data) else none := by
    have hiff := hreply _ hfile
    unfold acknowledges
    by_cases hfits : CyanideSFTPHandler.Fits (σ.sftp d.1).config data ⟨path, a.toList, true⟩
    · rw [if_pos hfits]
      exact if_pos ⟨rfl, hiff.2 hfits⟩
    · rw [if_neg hfits]
      exact if_neg fun hack => hfits (hiff.1 hack.2)
  rw [hlookup, if_pos rfl, hfile, Option.map_some, CyanideSFTPHandler.written, hacknowledges]
  split_ifs
  · rw [CyanideSFTPHandler.writeBuffer_toList]
    rfl
  · rfl

/-- A request that does not close the descriptor makes at most the write that it is acknowledged. -/
theorem Holds.step (h : Holds σ d path a) {r : TransferRequest} (hr : r ≠ .sftp d.1 (.close d.2)) :
    Holds (σ.step U r) d path (a.writeAll (σ.acknowledges d r).toList) := by
  obtain ⟨m, hm, hname⟩ := h.issued
  cases r with
  | setstat i path => exact h
  | fsetstat i handle => exact h
  | scp i r => exact ⟨h.file_eq, h.issued⟩
  | sftp i r =>
    by_cases hi : i = d.1
    · subst hi
      have hsession : (σ.step U (.sftp d.1 r)).sftp d.1 = ((σ.sftp d.1).serve σ.honeypot r).2.1 :=
        Function.update_self ..
      refine ⟨?_, m, ?_, hname⟩
      · unfold file
        rw [hsession]
        by_cases hwrite : ∃ offset data, r = .write d.2 offset data
        · obtain ⟨offset, data, rfl⟩ := hwrite
          exact lookup_write h offset data
        · have hnone : σ.acknowledges d (.sftp d.1 r) = none := by
            cases r with
            | write handle offset data =>
              refine if_neg fun hack => hwrite ⟨offset, data, ?_⟩
              rw [← hack.1]
            | _ => rfl
          rw [lookup_serve h.issued (fun heq => hr (by rw [heq])) fun offset data heq => hwrite ⟨offset, data, heq⟩,
            hnone]
          exact h.file_eq
      · rw [hsession]
        exact lt_of_lt_of_le hm (nextHandleId_serve _ _ _)
    · -- a request of another session
      have hsession : (σ.step U (.sftp i r)).sftp d.1 = σ.sftp d.1 := Function.update_of_ne (Ne.symm hi) ..
      have hnone : σ.acknowledges d (.sftp i r) = none := by
        cases r with
        | write handle offset data => exact if_neg fun hack => hi (by rw [← hack.1])
        | _ => rfl
      rw [hnone]
      refine ⟨?_, m, ?_, hname⟩
      · unfold file
        rw [hsession]
        exact h.file_eq
      · rwa [hsession]

theorem Holds.run (h : Holds σ d path a) {rs : List TransferRequest} (hrs : .sftp d.1 (.close d.2) ∉ rs) :
    Holds (run (Transfers.step U) σ rs) d path (a.writeAll (acknowledged U d σ rs)) := by
  induction rs generalizing σ a with
  | nil => exact h
  | cons r rs ih =>
    rw [List.mem_cons, not_or] at hrs
    rw [acknowledged, SparseArray.writeAll_append]
    exact ih (h.step (Ne.symm hrs.1)) hrs.2

/-! ### What is stored -/

/-- An `open` that loads the file hands out a descriptor with the content. -/
private theorem holds_open {i : ℕ} {flags : ℕ} {handle : Handle} (hfile : σ.honeypot.fs.pathExists path = true)
    (hwrite : CyanideSFTPHandler.isWriteFlags flags = true) (hkeep : flags &&& fxfTrunc = 0)
    (hreply : σ.reply i (.open path flags) = .handle handle) :
    handle = handleName (σ.sftp i).nextHandleId ∧
      Holds (σ.step U (.sftp i (.open path flags))) (i, handle) path
        (.ofList (CyanideSFTPHandler.nodeContent σ.honeypot path)) ∧
      SameStore σ.honeypot (σ.step U (.sftp i (.open path flags))).honeypot ∧
      σ.honeypot.fs.isDir path = false := by
  have hopens : CyanideSFTPHandler.opensContent σ.honeypot path flags = true := by
    simp [CyanideSFTPHandler.opensContent, hwrite, hkeep, hfile]
  have hreply' : ((σ.sftp i).openFile σ.honeypot path flags).1 = .handle handle := hreply
  have hnone : (σ.sftp i).openError σ.honeypot path flags = none := by
    cases herror : (σ.sftp i).openError σ.honeypot path flags with
    | none => rfl
    | some e =>
      rw [CyanideSFTPHandler.openFile, herror] at hreply'
      cases hreply'
  have hopen : (σ.sftp i).openFile σ.honeypot path flags =
      (.handle (handleName (σ.sftp i).nextHandleId),
        ((σ.sftp i).addFile ⟨path, CyanideSFTPHandler.nodeContent σ.honeypot path, true⟩).2,
        { σ.honeypot with fs := (σ.honeypot.fs.getContent path).2 }) := by
    rw [CyanideSFTPHandler.openFile, hnone, if_pos hopens, hwrite]
    rfl
  rw [hopen] at hreply'
  obtain rfl : handleName (σ.sftp i).nextHandleId = handle := SftpReply.handle.inj hreply'
  have hsession : (σ.step U (.sftp i (.open path flags))).sftp i =
      ((σ.sftp i).addFile ⟨path, CyanideSFTPHandler.nodeContent σ.honeypot path, true⟩).2 := by
    refine (Function.update_self ..).trans ?_
    show ((σ.sftp i).openFile σ.honeypot path flags).2.1 = _
    rw [hopen]
  refine ⟨rfl, ⟨?_, (σ.sftp i).nextHandleId, ?_, rfl⟩, ?_, ?_⟩
  · unfold file
    rw [hsession, SparseArray.toList_ofList]
    exact AList.lookup_insert _
  · rw [hsession]
    exact Nat.lt_succ_self _
  · show SameStore σ.honeypot ((σ.sftp i).openFile σ.honeypot path flags).2.2
    rw [hopen]
    refine ⟨?_, rfl⟩
    rcases σ.honeypot.fs.getContent_snd path ∅ with hs | ⟨op, hs⟩
    · exact ⟨σ.honeypot.fs.fileOps, hs⟩
    · exact ⟨_, hs⟩
  · unfold CyanideSFTPHandler.openError at hnone
    cases hcheck : (σ.sftp i).checkPermissions (CyanideSFTPHandler.isWriteFlags flags) with
    | some e => rw [hcheck] at hnone; cases hnone
    | none =>
      by_contra hdir
      rw [Bool.not_eq_false] at hdir
      rw [hcheck, hwrite, hdir] at hnone
      dsimp only at hnone
      rw [if_pos (show (true && true) = true from rfl)] at hnone
      cases hnone

private theorem close_step (h : Holds σ d path a) :
    (σ.step U (.sftp d.1 (.close d.2))).honeypot.fs = (σ.honeypot.fs.mkfile path (.bytes a.toList)).2 := by
  have hfile : (σ.sftp d.1).fileHandles.lookup d.2 = some ⟨path, a.toList, true⟩ := h.file_eq
  show ((σ.sftp d.1).closeFile σ.honeypot d.2).2.2.fs = _
  unfold CyanideSFTPHandler.closeFile
  rw [hfile]
  rfl

private theorem honeypot_writes {ds : List Descriptor} {rs : List TransferRequest} (hrs : Writes ds rs) :
    (run (step U) σ rs).honeypot = σ.honeypot := by
  induction rs generalizing σ with
  | nil => rfl
  | cons r rs ih =>
    obtain ⟨d, -, offset, data, rfl⟩ := hrs r (by simp)
    exact ih fun r hr => hrs r (by simp [hr])

private theorem root_of_not_dir {s : FakeFilesystem} (hfile : s.pathExists path = true) (hdir : s.isDir path = false) :
    resolve path ≠ ['/'] := by
  intro hroot
  rw [FakeFilesystem.pathExists_eq, hroot] at hfile
  rw [FakeFilesystem.isDir_eq, hroot] at hdir
  cases hlayer : s.layer ['/'] <;> simp [hlayer, Layer.present, Layer.dir] at hfile hdir

/-- Storing a file leaves its parent directory. -/
private theorem hasParent_mkfile {s : FakeFilesystem} (hroot : resolve path ≠ ['/']) (content : Content) :
    (s.mkfile path content).2.HasParent (resolve path) ↔ s.HasParent (resolve path) := by
  have hne : resolve (dirname (resolve path)) ≠ resolve path := parent_ne_self (resolve_resolve path) hroot
  unfold FakeFilesystem.HasParent
  rw [FakeFilesystem.pathExists_eq, FakeFilesystem.isDir_eq, FakeFilesystem.layer_mkfile, if_neg fun h => hne h.1,
    ← FakeFilesystem.pathExists_eq, ← FakeFilesystem.isDir_eq]

/-- What a stored file leaves at its path. -/
private theorem getContent_mkfile {s : FakeFilesystem} (content : Content) :
    ((s.mkfile path content).2.getContent path).1 =
      if s.HasParent (resolve path) then content else (s.getContent path).1 := by
  rw [FakeFilesystem.content_eq, FakeFilesystem.layer_mkfile, FakeFilesystem.profile_mkfile, FakeFilesystem.content_eq]
  by_cases hparent : s.HasParent (resolve path)
  · rw [if_pos ⟨rfl, hparent⟩, if_pos hparent]
    rfl
  · rw [if_neg fun h => hparent h.2, if_neg hparent]

private theorem notMem_of_writes {ds : List Descriptor} {rs : List TransferRequest} (hrs : Writes ds rs)
    (d : Descriptor) : .sftp d.1 (.close d.2) ∉ rs := by
  intro hmem
  obtain ⟨d', -, offset, data, heq⟩ := hrs _ hmem
  injection heq with _ hrequest
  cases hrequest

private theorem acknowledged_of_ne {d' : Descriptor} (hne : d' ≠ d) {rs : List TransferRequest} (hrs : Writes [d'] rs) :
    acknowledged U d σ rs = [] := by
  induction rs generalizing σ with
  | nil => rfl
  | cons r rs ih =>
    obtain ⟨e, he, offset, data, rfl⟩ := hrs r (by simp)
    obtain rfl := List.mem_singleton.1 he
    have hnone : σ.acknowledges d (.sftp e.1 (.write e.2 offset data)) = none := if_neg fun hack => hne hack.1
    rw [acknowledged, hnone, ih fun r hr => hrs r (by simp [hr])]
    rfl

/-- Both handles have their copies, and the file is as it was, when the first of them is closed. -/
private theorem holds_both {i j flags flags' : ℕ} {a b : Handle} {ws ws' : List TransferRequest}
    (hfile : σ.honeypot.fs.pathExists path = true)
    (hflags : CyanideSFTPHandler.isWriteFlags flags = true ∧ flags &&& fxfTrunc = 0)
    (hflags' : CyanideSFTPHandler.isWriteFlags flags' = true ∧ flags' &&& fxfTrunc = 0)
    (ha : σ.reply i (.open path flags) = .handle a) (hws : Writes [(i, a)] ws)
    (hb : (run (Transfers.step U) σ (.sftp i (.open path flags) :: ws)).reply j (.open path flags') = .handle b)
    (hws' : Writes [(i, a), (j, b)] ws') :
    let rs := TransferRequest.sftp i (.open path flags) :: ws ++ .sftp j (.open path flags') :: ws'
    (i, a) ≠ (j, b) ∧ σ.honeypot.fs.isDir path = false ∧ SameStore σ.honeypot (run (Transfers.step U) σ rs).honeypot ∧
      ∀ d ∈ [(i, a), (j, b)], Holds (run (Transfers.step U) σ rs) d path
        ((SparseArray.ofList (CyanideSFTPHandler.nodeContent σ.honeypot path)).writeAll (acknowledged U d σ rs)) := by
  intro rs
  obtain ⟨-, hholds₁, hsame₁, hdir⟩ := holds_open (U := U) hfile hflags.1 hflags.2 ha
  set σ₁ := σ.step U (.sftp i (.open path flags))
  have hholds₂ := hholds₁.run (U := U) (notMem_of_writes hws (i, a))
  have hhoneypot₂ := honeypot_writes (U := U) (σ := σ₁) hws
  set σ₂ := run (Transfers.step U) σ₁ ws
  have hsame₂ : SameStore σ.honeypot σ₂.honeypot := by rwa [hhoneypot₂]
  have hexists₂ : σ₂.honeypot.fs.pathExists path = true := by rw [(hsame₂.unchanged path).1, hfile]
  obtain ⟨hname, hholds₃, hsame₃, -⟩ := holds_open (U := U) hexists₂ hflags'.1 hflags'.2 hb
  have horiginal : CyanideSFTPHandler.nodeContent σ₂.honeypot path = CyanideSFTPHandler.nodeContent σ.honeypot path := by
    unfold CyanideSFTPHandler.nodeContent
    rw [(hsame₂.unchanged path).2.2]
  rw [horiginal] at hholds₃
  -- the second handle is newer than all that its session has handed out
  have hne : (i, a) ≠ (j, b) := by
    rintro ⟨⟩
    obtain ⟨m, hm, hname'⟩ := hholds₂.issued
    have hlt : m < (σ₂.sftp i).nextHandleId := hm
    have := CyanideSFTPHandler.handleName_injective (hname'.symm.trans hname)
    omega
  have hacknowledged : ∀ d, acknowledged U d σ rs = acknowledged U d σ₁ ws ++
      acknowledged U d σ₂ (.sftp j (.open path flags') :: ws') := fun d => acknowledged_append U d σ₁ ws _
  refine ⟨hne, hdir, ?_, fun d hd => ?_⟩
  · have hhoneypot₄ := honeypot_writes (U := U) (σ := σ₂.step U (.sftp j (.open path flags'))) hws'
    have hrun : run (Transfers.step U) σ rs =
        run (Transfers.step U) (σ₂.step U (.sftp j (.open path flags'))) ws' := run_append σ₁ ws _
    rw [hrun, hhoneypot₄]
    exact hsame₂.trans hsame₃
  · have hrun : run (Transfers.step U) σ rs =
        run (Transfers.step U) σ₂ (.sftp j (.open path flags') :: ws') := run_append σ₁ ws _
    rw [hrun, hacknowledged]
    rcases List.mem_pair.1 hd with rfl | rfl
    · rw [SparseArray.writeAll_append]
      refine hholds₂.run ?_
      rw [List.mem_cons, not_or]
      exact ⟨by simp, notMem_of_writes hws' _⟩
    · rw [acknowledged_of_ne hne hws]
      exact hholds₃.run (notMem_of_writes hws' _)

end Steps

/-- Two handles are opened on an existing file for writing and without truncation, written to in any order, and closed
in any order.  If the directory of the file is there, the file is then what it was, overwritten by the acknowledged
writes of the handle that was closed last. -/
theorem stored_of_last_close (σ : Transfers) {path : Str} {i j flags flags' : ℕ} {a b : Handle}
    {ws ws' ws'' : List TransferRequest} {first last : Descriptor}
    (hfile : σ.honeypot.fs.pathExists path = true)
    (hflags : CyanideSFTPHandler.isWriteFlags flags = true ∧ flags &&& fxfTrunc = 0)
    (hflags' : CyanideSFTPHandler.isWriteFlags flags' = true ∧ flags' &&& fxfTrunc = 0)
    (ha : σ.reply i (.open path flags) = .handle a) (hws : Writes [(i, a)] ws)
    (hb : (run (step U) σ (.sftp i (.open path flags) :: ws)).reply j (.open path flags') = .handle b)
    (hws' : Writes [(i, a), (j, b)] ws') (hws'' : Writes [(i, a), (j, b)] ws'')
    (hclose : first = (i, a) ∧ last = (j, b) ∨ first = (j, b) ∧ last = (i, a)) :
    let rs := TransferRequest.sftp i (.open path flags) :: ws ++ .sftp j (.open path flags') :: ws' ++
      .sftp first.1 (.close first.2) :: ws'' ++ [.sftp last.1 (.close last.2)]
    ((run (step U) σ rs).honeypot.fs.getContent path).1 =
      if σ.honeypot.fs.HasParent (resolve path) then
        .bytes (((SparseArray.ofList (CyanideSFTPHandler.nodeContent σ.honeypot path)).writeAll
          (acknowledged U last σ rs)).toList)
      else (σ.honeypot.fs.getContent path).1 := by
  intro rs
  -- the states in front of the first close, behind it, and in front of the last close
  obtain ⟨hne, hdir, hsame, hboth⟩ := holds_both hfile hflags hflags' ha hws hb hws'
  set rs₄ := TransferRequest.sftp i (.open path flags) :: ws ++ .sftp j (.open path flags') :: ws'
  set σ₄ := run (step U) σ rs₄
  have hroot : resolve path ≠ ['/'] := root_of_not_dir hfile hdir
  have hfirst := hboth first (by rcases hclose with ⟨rfl, -⟩ | ⟨rfl, -⟩ <;> simp)
  have hlast := hboth last (by rcases hclose with ⟨-, rfl⟩ | ⟨-, rfl⟩ <;> simp)
  have hother : TransferRequest.sftp first.1 (.close first.2) ≠ .sftp last.1 (.close last.2) := by
    rcases hclose with ⟨rfl, rfl⟩ | ⟨rfl, rfl⟩ <;> intro heq <;> cases heq <;> exact hne rfl
  have hholds₅ := hlast.step (U := U) hother
  have hfs₅ := close_step (U := U) hfirst
  set σ₅ := σ₄.step U (.sftp first.1 (.close first.2))
  have hholds₆ := hholds₅.run (U := U) (notMem_of_writes hws'' last)
  have hhoneypot₆ := honeypot_writes (U := U) (σ := σ₅) hws''
  set σ₆ := run (step U) σ₅ ws''
  have hrun : run (step U) σ rs = σ₆.step U (.sftp last.1 (.close last.2)) := by
    show run (step U) σ ((rs₄ ++ .sftp first.1 (.close first.2) :: ws'') ++ [.sftp last.1 (.close last.2)]) = _
    rw [run_append, run_append]
    rfl
  have hacknowledged : acknowledged U last σ rs = acknowledged U last σ rs₄ ++
      ((σ₄.acknowledges last (.sftp first.1 (.close first.2))).toList ++ acknowledged U last σ₅ ws'') := by
    show acknowledged U last σ ((rs₄ ++ .sftp first.1 (.close first.2) :: ws'') ++ [.sftp last.1 (.close last.2)]) = _
    rw [acknowledged_append, acknowledged_append]
    exact List.append_nil _
  have hparent : σ₄.honeypot.fs.HasParent (resolve path) ↔ σ.honeypot.fs.HasParent (resolve path) := by
    obtain ⟨⟨ops, hfs⟩, -⟩ := hsame
    rw [hfs]
    exact Iff.rfl
  rw [hrun, close_step hholds₆, getContent_mkfile, hhoneypot₆, hfs₅, hacknowledged, SparseArray.writeAll_append,
    SparseArray.writeAll_append]
  -- without the directory neither close stores anything
  by_cases hp : σ.honeypot.fs.HasParent (resolve path)
  · rw [if_pos hp, if_pos ((hasParent_mkfile hroot _).2 (hparent.2 hp))]
  · have hp₄ : ¬σ₄.honeypot.fs.HasParent (resolve path) := fun h => hp (hparent.1 h)
    rw [if_neg hp, if_neg fun h => hp₄ ((hasParent_mkfile hroot _).1 h), getContent_mkfile, if_neg hp₄]
    exact (hsame.unchanged path).2.2

/-- A session over an empty profile with a file of four bytes. -/
def withBytes : Transfers := start {} (fun _ => (root, "/".toList)) ⟨(bare.mkfile "/f".toList (.bytes [1, 2, 3, 4])).2, []⟩

/-- The handle that is opened first is closed last. -/
theorem stored_of_last_close_first :
    let rs := TransferRequest.sftp 0 (.open "/f".toList fxfWrite) :: [] ++ .sftp 0 (.open "/f".toList fxfWrite) ::
      [.sftp 0 (.write (handleName 1) 2 [9]), .sftp 0 (.write (handleName 0) 0 [8])] ++
      .sftp 0 (.close (handleName 1)) :: [] ++ [.sftp 0 (.close (handleName 0))]
    ((run (step ascii) withBytes rs).honeypot.fs.getContent "/f".toList).1 =
      if withBytes.honeypot.fs.HasParent (resolve "/f".toList) then
        .bytes (((SparseArray.ofList (CyanideSFTPHandler.nodeContent withBytes.honeypot "/f".toList)).writeAll
          (acknowledged ascii (0, handleName 0) withBytes rs)).toList)
      else (withBytes.honeypot.fs.getContent "/f".toList).1 := by
  refine @stored_of_last_close ascii withBytes "/f".toList 0 0 fxfWrite fxfWrite (handleName 0) (handleName 1) [] _ []
    (0, handleName 1) (0, handleName 0) (by decide +kernel) ⟨rfl, rfl⟩ ⟨rfl, rfl⟩ (by decide +kernel) ?_
    (by decide +kernel) ?_ ?_ (.inr ⟨rfl, rfl⟩)
  · exact fun r hr => absurd hr List.not_mem_nil
  · rintro r hr
    rcases List.mem_pair.1 hr with rfl | rfl
    · exact ⟨(0, handleName 1), by simp, 2, [9], rfl⟩
    · exact ⟨(0, handleName 0), by simp, 0, [8], rfl⟩
  · exact fun r hr => absurd hr List.not_mem_nil

/-- Two handles write different bytes of a file, and both writes are acknowledged, but only one is stored. -/
theorem not_merged :
    let rs := [TransferRequest.sftp 0 (.open "/f".toList fxfWrite), .sftp 0 (.open "/f".toList fxfWrite),
      .sftp 0 (.write (handleName 0) 0 [8]), .sftp 0 (.write (handleName 1) 2 [9]), .sftp 0 (.close (handleName 0)),
      .sftp 0 (.close (handleName 1))]
    acknowledged ascii (0, handleName 0) withBytes rs = [(0, [8])] ∧
      acknowledged ascii (0, handleName 1) withBytes rs = [(2, [9])] ∧
      ((run (step ascii) withBytes rs).honeypot.fs.getContent "/f".toList).1 ≠ .bytes [8, 2, 9, 4] := by
  decide +kernel

end Transfers

end Cyanide
