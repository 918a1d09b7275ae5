import Cyanide.Vfs.Contents
import Cyanide.Vfs.SftpHandles

/-!
# Downloads in an SFTP session

`allow_download` is checked by an `open` for reading.  An `open` for writing that does not truncate loads the file into
the buffer of the handle as well, and `read` serves the buffer of every handle.  `Owning` tells the buffers with bytes of
the client alone from those that were loaded from the filesystem, and `downloads_eq` says that reads of the former are
answered in the same way whatever the files contained before the session.
-/

namespace Cyanide

open PosixPath Transition FakeFilesystem

/-- What `read` answered in the exchanges of a session. -/
def downloads (E : List Exchange) : List SftpReply :=
  E.filterMap fun e => match e.request with
    | .read .. => some e.reply
    | _ => none

/-- The paths and the handles whose bytes all come from the client. -/
structure Owning where
  paths : Finset Str
  handles : Finset Handle

namespace Owning

open CyanideSFTPHandler

/-- After a request: the contents that it writes are own when they come from an own handle or an own path, and a handle
that it opens is own when it loads nothing or the content of an own path. -/
def next (o : Owning) (h : CyanideSFTPHandler) (P : Honeypot) (r : SftpRequest) : Owning where
  paths :=
    let read := match r with
      | .close handle => decide (handle ∈ o.handles)
      | _ => false
    (Provenance.after ⟨o.paths, read⟩ P.fs (h.ops P r)).paths
  handles :=
    match r with
    | .open path flags =>
      if (h.openError P path flags).isNone then
        Provenance.mark (!opensContent P path flags || resolve path ∈ o.paths) (handleName h.nextHandleId) o.handles
      else o.handles
    | _ => o.handles

end Owning

/-- A session in progress, with what it owns. -/
structure OwningSession where
  handler : CyanideSFTPHandler
  honeypot : Honeypot
  own : Owning

namespace OwningSession

def start (config : SftpConfig) (P : Honeypot) : OwningSession := ⟨.start config, P, ∅, ∅⟩

def step (σ : OwningSession) (r : SftpRequest) : OwningSession where
  handler := (σ.handler.serve σ.honeypot r).2.1
  honeypot := (σ.handler.serve σ.honeypot r).2.2
  own := σ.own.next σ.handler σ.honeypot r

/-- A `read` of an open handle asks for bytes of the client. -/
def ReadsOwn (σ : OwningSession) : SftpRequest → Prop
  | .read handle _ _ => handle ∈ σ.handler.fileHandles → handle ∈ σ.own.handles
  | _ => True

end OwningSession

/-! ### Two sessions with other contents -/

namespace CyanideSFTPHandler

/-- Two open files differ at most in their bytes, and not at all when they are own. -/
def SameFile (own : Prop) (file file' : Option SftpFile) : Prop :=
  file'.map (fun f => (f.path, f.isWrite)) = file.map (fun f => (f.path, f.isWrite)) ∧ (own → file' = file)

/-- Two sessions with the same requests, which may differ in the contents that are not own. -/
structure Twin (o : Owning) (h h' : CyanideSFTPHandler) (P P' : Honeypot) : Prop where
  config : h'.config = h.config
  nextHandleId : h'.nextHandleId = h.nextHandleId
  agreed : Agreed ⟨o.paths, false⟩ P.fs P'.fs
  file : ∀ handle, SameFile (handle ∈ o.handles) (h.fileHandles.lookup handle) (h'.fileHandles.lookup handle)

section Steps

variable {o : Owning} {h h' : CyanideSFTPHandler} {P P' : Honeypot}

/-- A request keeps two sessions twins. -/
private def StepsTwin (o : Owning) (h h' : CyanideSFTPHandler) (P P' : Honeypot) (r : SftpRequest) : Prop :=
  Twin (o.next h P r) (h.serve P r).2.1 (h'.serve P' r).2.1 (h.serve P r).2.2 (h'.serve P' r).2.2

private theorem agreed_of_paths {S : Finset Str} {b b' : Bool} {s s' : FakeFilesystem} (h : Agreed ⟨S, b⟩ s s') :
    Agreed ⟨S, b'⟩ s s' := ⟨h.shape, h.content⟩

private theorem Twin.openError_eq (hT : Twin o h h' P P') (path : Str) (flags : ℕ) :
    h'.openError P' path flags = h.openError P path flags := by
  unfold openError checkPermissions
  rw [hT.config, hT.agreed.shape.isDir, hT.agreed.shape.pathExists]

private theorem Twin.opensContent_eq (hT : Twin o h h' P P') (path : Str) (flags : ℕ) :
    opensContent P' path flags = opensContent P path flags := by
  unfold opensContent
  rw [hT.agreed.shape.pathExists]

/-- A handle gets a file in both sessions. -/
private theorem Twin.sameFile_insert (hT : Twin o h h' P P') (own : Bool) (handle : Handle) {file file' : SftpFile}
    (hpath : file'.path = file.path) (hmode : file'.isWrite = file.isWrite) (hfile : own = true → file' = file)
    (x : Handle) :
    SameFile (x ∈ Provenance.mark own handle o.handles) ((h.fileHandles.insert handle file).lookup x)
      ((h'.fileHandles.insert handle file').lookup x) := by
  rw [Provenance.mem_mark]
  by_cases hx : x = handle
  · subst hx
    rw [AList.lookup_insert, AList.lookup_insert, if_pos rfl]
    refine ⟨?_, fun hown => congrArg some (hfile hown)⟩
    simp only [Option.map_some, hpath, hmode]
  · rw [AList.lookup_insert_ne hx, AList.lookup_insert_ne hx, if_neg hx]
    exact hT.file x

private theorem twin_open (hT : Twin o h h' P P') (path : Str) (flags : ℕ) :
    StepsTwin o h h' P P' (.open path flags) := by
  have herror := hT.openError_eq path flags
  have hopens := hT.opensContent_eq path flags
  unfold StepsTwin Owning.next serve ops openFile openOps addFile
  dsimp only
  rw [herror, hopens, hT.nextHandleId]
  cases h.openError P path flags with
  | some e => exact hT
  | none =>
    cases opensContent P path flags with
    | false =>
      exact ⟨hT.config, rfl, hT.agreed, hT.sameFile_insert true _ rfl rfl fun _ => rfl⟩
    | true =>
      refine ⟨hT.config, rfl, agreed_of_paths (hT.agreed.getContent path ∅),
        hT.sameFile_insert (decide (resolve path ∈ o.paths)) _ rfl rfl fun hown => ?_⟩
      have hcontent : nodeContent P' path = nodeContent P path := by
        unfold nodeContent
        rw [hT.agreed.getContent_eq (of_decide_eq_true hown)]
      rw [hcontent]

private theorem twin_write (hT : Twin o h h' P P') (handle : Handle) (offset : ℕ) (data : List UInt8) :
    StepsTwin o h h' P P' (.write handle offset data) := by
  obtain ⟨hconfig, hnext, hlookup, -⟩ := writeFile_spec h handle offset data
  obtain ⟨hconfig', hnext', hlookup', -⟩ := writeFile_spec h' handle offset data
  refine ⟨?_, ?_, agreed_of_paths hT.agreed, fun x => ?_⟩
  · exact (hconfig'.trans hT.config).trans hconfig.symm
  · exact (hnext'.trans hT.nextHandleId).trans hnext.symm
  · show SameFile (x ∈ o.handles) ((h.writeFile handle offset data).2.fileHandles.lookup x)
      ((h'.writeFile handle offset data).2.fileHandles.lookup x)
    obtain ⟨hshape, hown⟩ := hT.file x
    rw [hlookup, hlookup', hT.config]
    by_cases hx : x = handle
    · have hkept : ∀ file, ((written h.config offset data file).path, (written h.config offset data file).isWrite) =
          (file.path, file.isWrite) := by
        intro file
        unfold written
        split <;> rfl
      rw [if_pos hx, if_pos hx]
      refine ⟨?_, fun hmem => by rw [hown hmem]⟩
      simpa only [Option.map_map, Function.comp_def, hkept] using hshape
    · rw [if_neg hx, if_neg hx]
      exact ⟨hshape, hown⟩

private theorem twin_close (hT : Twin o h h' P P') (handle : Handle) : StepsTwin o h h' P P' (.close handle) := by
  obtain ⟨hshape, hown⟩ := hT.file handle
  unfold StepsTwin Owning.next serve ops closeFile closeOps
  dsimp only
  cases hfile : h.fileHandles.lookup handle with
  | none =>
    cases hfile' : h'.fileHandles.lookup handle with
    | none => exact hT
    | some file' => rw [hfile, hfile'] at hshape; cases hshape
  | some file =>
    cases hfile' : h'.fileHandles.lookup handle with
    | none => rw [hfile, hfile'] at hshape; cases hshape
    | some file' =>
      rw [hfile, hfile'] at hshape hown
      simp only [Option.map_some, Option.some.injEq, Prod.mk.injEq] at hshape
      obtain ⟨hpath, hmode⟩ := hshape
      have hrest : ∀ x, SameFile (x ∈ o.handles) ((h.fileHandles.erase handle).lookup x)
          ((h'.fileHandles.erase handle).lookup x) := by
        intro x
        by_cases hx : x = handle
        · subst hx
          rw [AList.lookup_erase, AList.lookup_erase]
          exact ⟨rfl, fun _ => rfl⟩
        · rw [AList.lookup_erase_ne hx, AList.lookup_erase_ne hx]
          exact hT.file x
      dsimp only
      rw [hmode]
      cases hw : file.isWrite with
      | false => exact ⟨hT.config, hT.nextHandleId, hT.agreed, hrest⟩
      | true =>
        -- an own handle has the same buffer on both sides, so that the stored contents agree
        refine ⟨hT.config, hT.nextHandleId, ?_, hrest⟩
        have hstored : Agreed ⟨o.paths, decide (handle ∈ o.handles)⟩ P.fs P'.fs := agreed_of_paths hT.agreed
        rw [if_pos rfl, if_pos rfl, hpath]
        refine agreed_of_paths (hstored.mkfile file.path _ _ _ fun hmem => ?_)
        have heq := hown (by simpa using hmem)
        rw [Option.some.inj heq]

private theorem twin_serve (hT : Twin o h h' P P') (r : SftpRequest) : StepsTwin o h h' P P' r := by
  cases r with
  | «open» path flags => exact twin_open hT path flags
  | write handle offset data => exact twin_write hT handle offset data
  | close handle => exact twin_close hT handle
  | read handle offset size => exact hT
  | mkdir path => exact ⟨hT.config, hT.nextHandleId, hT.agreed.mkdirP path _ _ _, hT.file⟩
  | remove path => exact ⟨hT.config, hT.nextHandleId, hT.agreed.remove path, hT.file⟩
  | rmdir path => exact ⟨hT.config, hT.nextHandleId, hT.agreed.remove path, hT.file⟩
  | rename depth oldpath newpath =>
    exact ⟨hT.config, hT.nextHandleId, agreed_of_paths (hT.agreed.move depth oldpath newpath).2, hT.file⟩

end Steps

/-- Requests of twin sessions keep them twins, and reads of own handles are answered in the same way. -/
private theorem downloads_twin {o : Owning} {h h' : CyanideSFTPHandler} {P P' : Honeypot} (hT : Twin o h h' P P')
    (rs : List SftpRequest) (hown : Meets OwningSession.step OwningSession.ReadsOwn ⟨h, P, o⟩ rs) :
    downloads (h'.exchanges P' rs) = downloads (h.exchanges P rs) := by
  induction rs generalizing o h h' P P' with
  | nil => rfl
  | cons r rs ih =>
    obtain ⟨hreads, hrest⟩ := hown
    have htail := ih (twin_serve hT r) hrest
    cases r with
    | read handle offset size =>
      -- the only request whose answer has bytes of a file
      have hreply : h'.readFile handle offset size = h.readFile handle offset size := by
        obtain ⟨hshape, hsame⟩ := hT.file handle
        unfold readFile
        cases hfile : h.fileHandles.lookup handle with
        | none =>
          rw [hfile] at hshape
          rw [Option.map_eq_none_iff.1 hshape]
        | some file =>
          have hmem : handle ∈ h.fileHandles := AList.lookup_isSome.1 (by rw [hfile]; rfl)
          rw [hsame (hreads hmem), hfile]
      show (h'.readFile handle offset size) :: downloads _ = (h.readFile handle offset size) :: downloads _
      rw [hreply, htail]
    | _ => exact htail

/-- In two sessions with the same requests, over filesystems that differ in contents only, all reads are answered in
the same way if each of them is of a handle whose bytes come from the client. -/
theorem downloads_eq (config : SftpConfig) {P P' : Honeypot} (hP : SameShape P.fs P'.fs) {rs : List SftpRequest}
    (hown : Meets OwningSession.step OwningSession.ReadsOwn (.start config P) rs) :
    downloads ((start config).exchanges P' rs) = downloads ((start config).exchanges P rs) := by
  refine downloads_twin ⟨rfl, rfl, Agreed.of_shape hP, fun handle => ?_⟩ rs hown
  exact ⟨rfl, fun _ => rfl⟩

/-- The honeypot of an empty profile with one file. -/
def withFile (content : Str) : Honeypot := ⟨(bare.mkfile "/f".toList (.text content)).2, []⟩

theorem sameShape_withFile (content content' : Str) : SameShape (withFile content).fs (withFile content').fs :=
  (SameShape.refl bare).mkfile _ _ _ _ _ _

/-- A client uploads a file and reads it again. -/
theorem downloads_eq_own :
    let rs := [SftpRequest.open "/new".toList fxfCreat, .write (handleName 0) 0 [1, 2], .close (handleName 0),
      .open "/new".toList fxfWrite, .read (handleName 1) 0 2]
    downloads ((start { allowDownload := false }).exchanges (withFile "b".toList) rs) =
      downloads ((start { allowDownload := false }).exchanges (withFile "a".toList) rs) :=
  downloads_eq _ (sameShape_withFile _ _) ⟨trivial, trivial, trivial, trivial, fun _ => by decide +kernel, trivial⟩

/-- With downloads disabled, a handle for writing serves the file that was there before. -/
theorem not_downloads_eq :
    let config : SftpConfig := { allowDownload := false }
    let rs := [SftpRequest.open "/f".toList fxfWrite, .read (handleName 0) 0 1]
    SameShape (withFile "a".toList).fs (withFile "b".toList).fs ∧
      downloads ((start config).exchanges (withFile "b".toList) rs) ≠
        downloads ((start config).exchanges (withFile "a".toList) rs) :=
  ⟨sameShape_withFile _ _, by decide +kernel⟩

end CyanideSFTPHandler

end Cyanide
