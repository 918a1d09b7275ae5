import Cyanide.Vfs.Scp
import Cyanide.Vfs.SftpHandles

/-!
# The upload switch

`allow_upload` belongs to the SFTP and the SCP sessions of a client together.  It is checked by `open` of the SFTP
handler, and by nothing else: `mkdir`, `remove`, `rmdir` and `rename` change the filesystem, and so does a sink, which
also gives the files it receives to the quarantine.  `unchanged_run` says that sessions without effective requests of
these kinds leave the filesystem and the quarantine alone.
-/

namespace Cyanide

open PosixPath PyText Transition

/-- The sessions of a client, which share the honeypot. -/
structure Transfers where
  sftp : ℕ → CyanideSFTPHandler
  scp : ℕ → ScpSink
  honeypot : Honeypot

inductive TransferRequest where
  | sftp (session : ℕ) (r : SftpRequest)
  /-- `setstat` and `fsetstat`, which only log the attributes. -/
  | setstat (session : ℕ) (path : Str)
  | fsetstat (session : ℕ) (handle : Handle)
  /-- A record for a sink. -/
  | scp (session : ℕ) (r : ScpRecord)

namespace Transfers

variable (U : Unicode)

/-- New sessions; `destination` are the users and the paths of the sinks. -/
def start (config : SftpConfig) (destination : ℕ → Str × Str) (P : Honeypot) : Transfers where
  sftp _ := .start config
  scp i := ScpHandler.startSink (destination i).1 (destination i).2
  honeypot := P

def step (σ : Transfers) : TransferRequest → Transfers
  | .sftp i r =>
    { σ with
      sftp := Function.update σ.sftp i ((σ.sftp i).serve σ.honeypot r).2.1
      honeypot := ((σ.sftp i).serve σ.honeypot r).2.2 }
  | .setstat .. => σ
  | .fsetstat .. => σ
  | .scp i r =>
    { σ with
      scp := Function.update σ.scp i (ScpHandler.sinkRecord U (σ.scp i) σ.honeypot r).2.1
      honeypot := (ScpHandler.sinkRecord U (σ.scp i) σ.honeypot r).2.2 }

/-- Every path is as it was. -/
def Unchanged (s s' : FakeFilesystem) : Prop :=
  ∀ path, s'.pathExists path = s.pathExists path ∧ s'.getNode path = s.getNode path ∧
    (s'.getContent path).1 = (s.getContent path).1

/-- `mkdir_p` finds nothing to make. -/
def Walked (s : FakeFilesystem) (path : Str) : Prop :=
  ∀ q ∈ FakeFilesystem.walkFrom ['/'] (FakeFilesystem.mkdirParts path), s.pathExists q = true ∧ s.isFile q = false

instance (s : FakeFilesystem) (path : Str) : Decidable (Walked s path) :=
  inferInstanceAs (Decidable (∀ q ∈ FakeFilesystem.walkFrom ['/'] (FakeFilesystem.mkdirParts path), _))

/-- `remove` finds nothing to remove. -/
def Irremovable (s : FakeFilesystem) (path : Str) : Prop := resolve path = ['/'] ∨ s.pathExists path = false

/-- `rename` finds nothing to move, or no place for a directory. -/
def Immovable (s : FakeFilesystem) (src dst : Str) : Prop :=
  s.pathExists src = false ∨
    s.isDir src = true ∧ s.pathExists (s.copyTarget (resolve src) (resolve dst)) = true ∧
      s.isFile (s.copyTarget (resolve src) (resolve dst)) = true

/-- A request that is not guarded by the switch has nothing to do: no directory to make, no path to remove or to move,
and no file in a record. -/
def Ineffective (σ : Transfers) : TransferRequest → Prop
  | .sftp _ (.mkdir path) => Walked σ.honeypot.fs path
  | .sftp _ (.remove path) => Irremovable σ.honeypot.fs path
  | .sftp _ (.rmdir path) => Irremovable σ.honeypot.fs path
  | .sftp _ (.rename _ oldpath newpath) => Immovable σ.honeypot.fs oldpath newpath
  | .scp i r =>
    (σ.scp i).exit = none →
      (r.header.head? = some 'C' → ScpHandler.copyHeader U r.header = none) ∧
        (r.header.head? = some 'D' → ∀ groups, ScpHandler.dirHeader U r.header = some groups →
          Walked σ.honeypot.fs (join (σ.scp i).currentBase groups.2))
  | _ => True

/-! ### What requests leave -/

/-- Nothing but the log of the filesystem differs. -/
def SameStore (P P' : Honeypot) : Prop :=
  (∃ ops, P'.fs = { P.fs with fileOps := ops }) ∧ P'.quarantine = P.quarantine

theorem SameStore.refl (P : Honeypot) : SameStore P P := ⟨⟨P.fs.fileOps, rfl⟩, rfl⟩

theorem SameStore.trans {P P' P'' : Honeypot} (h : SameStore P P') (h' : SameStore P' P'') : SameStore P P'' := by
  obtain ⟨⟨ops, hfs⟩, hq⟩ := h
  obtain ⟨⟨ops', hfs'⟩, hq'⟩ := h'
  refine ⟨⟨ops', ?_⟩, hq'.trans hq⟩
  rw [hfs', hfs]

theorem SameStore.unchanged {P P' : Honeypot} (h : SameStore P P') : Unchanged P.fs P'.fs := by
  obtain ⟨⟨ops, hfs⟩, -⟩ := h
  rw [hfs]
  exact fun path => ⟨rfl, rfl, by rw [FakeFilesystem.content_eq, FakeFilesystem.content_eq]; rfl⟩

/-- A session with the configuration has no handle that is open for writing. -/
structure ReadOnly (config : SftpConfig) (h : CyanideSFTPHandler) : Prop where
  config_eq : h.config = config
  file : ∀ handle file, h.fileHandles.lookup handle = some file → file.isWrite = false

section Steps

variable {U} {config : SftpConfig} {h : CyanideSFTPHandler} {P : Honeypot}

private theorem mkdirP_of_walked {s : FakeFilesystem} {path : Str} (h : Walked s path) (owner group perm : Str) :
    s.mkdirP path owner group perm = s := by
  rw [FakeFilesystem.mkdirP_eq]
  exact FakeFilesystem.foldl_mkdirStep_eq_self owner group perm s h

private theorem remove_of_irremovable {s : FakeFilesystem} {path : Str} (h : Irremovable s path) :
    (s.remove path).2 = s := by
  unfold FakeFilesystem.remove
  dsimp only
  rw [FakeFilesystem.pathExists_resolve, if_pos (show _ ∨ _ from h)]

private theorem move_of_immovable {s : FakeFilesystem} {src dst : Str} (h : Immovable s src dst) (depth : ℕ) :
    (s.move depth src dst).2 = s := by
  unfold FakeFilesystem.move
  dsimp only
  rw [FakeFilesystem.pathExists_resolve]
  by_cases hmissing : s.pathExists src = false
  · rw [if_pos hmissing]
  obtain ⟨hdir, hexists, hfile⟩ := h.resolve_left hmissing
  have hcopy : s.copy depth (resolve src) (resolve dst) true = (.ok false, s) := by
    unfold FakeFilesystem.copy
    dsimp only
    rw [resolve_resolve, resolve_resolve, FakeFilesystem.pathExists_resolve, FakeFilesystem.isDir_resolve,
      if_neg hmissing, if_pos hdir, if_neg (by decide), if_pos (by rw [hexists, hfile]; rfl)]
  rw [if_neg hmissing, hcopy]

/-- An `open` opens no handle for writing, and at most reads. -/
private theorem openFile_readOnly (hconfig : config.allowUpload = false) (h' : ReadOnly config h) (path : Str)
    (flags : ℕ) : ReadOnly config (h.openFile P path flags).2.1 ∧ SameStore P (h.openFile P path flags).2.2 := by
  unfold CyanideSFTPHandler.openFile
  cases herror : h.openError P path flags with
  | some e => exact ⟨h', .refl P⟩
  | none =>
    have hflags : CyanideSFTPHandler.isWriteFlags flags = false := by
      by_contra hw
      rw [Bool.not_eq_false] at hw
      simp [CyanideSFTPHandler.openError, CyanideSFTPHandler.checkPermissions, hw, h'.config_eq, hconfig] at herror
    have hadd : ∀ buffer, ReadOnly config (h.addFile ⟨path, buffer, CyanideSFTPHandler.isWriteFlags flags⟩).2 := by
      refine fun buffer => ⟨h'.config_eq, fun handle file hfile => ?_⟩
      by_cases hx : handle = handleName h.nextHandleId
      · subst hx
        obtain rfl := Option.some.inj ((AList.lookup_insert _).symm.trans hfile)
        exact hflags
      · exact h'.file handle file ((AList.lookup_insert_ne hx).symm.trans hfile)
    cases hopens : CyanideSFTPHandler.opensContent P path flags with
    | false => exact ⟨hadd _, .refl P⟩
    | true =>
      refine ⟨hadd _, ?_, rfl⟩
      rcases P.fs.getContent_snd path ∅ with hs | ⟨op, hs⟩
      · exact ⟨P.fs.fileOps, hs⟩
      · exact ⟨_, hs⟩

private theorem serve_readOnly (hconfig : config.allowUpload = false) {σ : Transfers} {i : ℕ} {r : SftpRequest}
    (h : ReadOnly config (σ.sftp i)) (hr : σ.Ineffective U (.sftp i r)) :
    ReadOnly config ((σ.sftp i).serve σ.honeypot r).2.1 ∧
      SameStore σ.honeypot ((σ.sftp i).serve σ.honeypot r).2.2 := by
  cases r with
  | «open» path flags => exact openFile_readOnly hconfig h path flags
  | read handle offset size => exact ⟨h, .refl _⟩
  | write handle offset data =>
    have hwrite : ((σ.sftp i).writeFile handle offset data).2 = σ.sftp i := by
      unfold CyanideSFTPHandler.writeFile
      cases hfile : (σ.sftp i).fileHandles.lookup handle with
      | none => rfl
      | some file => simp [h.file handle file hfile]
    refine ⟨?_, .refl _⟩
    show ReadOnly config ((σ.sftp i).writeFile handle offset data).2
    rwa [hwrite]
  | close handle =>
    show ReadOnly config ((σ.sftp i).closeFile σ.honeypot handle).2.1 ∧
      SameStore σ.honeypot ((σ.sftp i).closeFile σ.honeypot handle).2.2
    unfold CyanideSFTPHandler.closeFile
    cases hfile : (σ.sftp i).fileHandles.lookup handle with
    | none => exact ⟨h, .refl _⟩
    | some file =>
      dsimp only
      rw [h.file handle file hfile]
      refine ⟨⟨h.config_eq, fun x file' hx => ?_⟩, .refl _⟩
      by_cases heq : x = handle
      · subst heq
        exact absurd (hx.symm.trans (AList.lookup_erase _ _)) (by simp)
      · exact h.file x file' ((AList.lookup_erase_ne heq).symm.trans hx)
  | mkdir path => exact ⟨h, ⟨_, mkdirP_of_walked hr _ _ _⟩, rfl⟩
  | remove path => exact ⟨h, ⟨_, remove_of_irremovable hr⟩, rfl⟩
  | rmdir path => exact ⟨h, ⟨_, remove_of_irremovable hr⟩, rfl⟩
  | rename depth oldpath newpath => exact ⟨h, ⟨_, move_of_immovable hr depth⟩, rfl⟩

private theorem sinkRecord_sameStore {σ : Transfers} {i : ℕ} {r : ScpRecord} (hr : σ.Ineffective U (.scp i r)) :
    SameStore σ.honeypot (ScpHandler.sinkRecord U (σ.scp i) σ.honeypot r).2.2 := by
  unfold ScpHandler.sinkRecord
  by_cases hexit : (σ.scp i).exit.isSome = true
  · rw [if_pos hexit]
    exact .refl _
  obtain ⟨hfile, hdir⟩ := hr (by simpa using hexit)
  rw [if_neg hexit]
  split
  · exact .refl _
  · rename_i hhead
    dsimp only
    unfold ScpHandler.handleCopyCommand
    rw [hfile hhead]
    exact .refl _
  · rename_i hhead
    dsimp only
    unfold ScpHandler.handleDirCommand
    cases hgroups : ScpHandler.dirHeader U r.header with
    | none => exact .refl _
    | some groups => exact ⟨⟨_, mkdirP_of_walked (hdir hhead groups hgroups) _ _ _⟩, rfl⟩
  · exact .refl _
  · exact .refl _
  · exact .refl _

end Steps

/-- The sessions are read-only, and the honeypot has its paths and its quarantine. -/
structure Still (config : SftpConfig) (P : Honeypot) (σ : Transfers) : Prop where
  readOnly : ∀ i, ReadOnly config (σ.sftp i)
  store : SameStore P σ.honeypot

theorem Still.step {U : Unicode} {config : SftpConfig} {P : Honeypot} {σ : Transfers}
    (hconfig : config.allowUpload = false) (h : Still config P σ) {r : TransferRequest} (hr : σ.Ineffective U r) :
    Still config P (σ.step U r) := by
  cases r with
  | sftp i r =>
    obtain ⟨hreadOnly, hstore⟩ := serve_readOnly hconfig (h.readOnly i) hr
    refine ⟨fun j => ?_, h.store.trans hstore⟩
    show ReadOnly config (Function.update σ.sftp i _ j)
    by_cases hj : j = i
    · subst hj
      rwa [Function.update_self]
    · rw [Function.update_of_ne hj]
      exact h.readOnly j
  | setstat i path => exact h
  | fsetstat i handle => exact h
  | scp i r => exact ⟨h.readOnly, h.store.trans (sinkRecord_sameStore hr)⟩

theorem still_start (config : SftpConfig) (destination : ℕ → Str × Str) (P : Honeypot) :
    Still config P (start config destination P) :=
  ⟨fun _ => ⟨rfl, fun _ _ hfile => by cases hfile⟩, .refl P⟩

/-- With uploads disabled, requests without effect of the kinds that are not guarded leave every path and the
quarantine as they were. -/
theorem unchanged_run (config : SftpConfig) (hconfig : config.allowUpload = false) (destination : ℕ → Str × Str)
    (P : Honeypot) {rs : List TransferRequest} (hrs : Meets (step U) (Ineffective U) (start config destination P) rs) :
    ∀ bs, bs <+: rs →
      Unchanged P.fs (run (step U) (start config destination P) bs).honeypot.fs ∧
        (run (step U) (start config destination P) bs).honeypot.quarantine = P.quarantine := by
  intro bs hbs
  have hstill : Still config P (run (step U) (start config destination P) bs) :=
    invariant_of_steps (G := Ineffective U) (fun σ r h hr => h.step hconfig hr) (still_start config destination P)
      (hrs.initial hbs)
  exact ⟨hstill.store.unchanged, hstill.store.2⟩

/-- An upload that is refused, and requests that find nothing to do. -/
theorem unchanged_run_idle :
    let config : SftpConfig := { allowUpload := false }
    let P : Honeypot := ⟨bare.mkdirP "/a".toList, []⟩
    let rs := [TransferRequest.sftp 0 (.open "/a/f".toList fxfCreat), .sftp 0 (.mkdir "/a".toList),
      .sftp 1 (.remove "/f".toList), .scp 0 ⟨"D0755 0 a".toList, []⟩]
    ∀ bs, bs <+: rs →
      Unchanged P.fs (run (step ascii) (start config (fun _ => (root, "/".toList)) P) bs).honeypot.fs ∧
        (run (step ascii) (start config (fun _ => (root, "/".toList)) P) bs).honeypot.quarantine = P.quarantine := by
  refine unchanged_run ascii _ rfl _ _ ⟨trivial, ?_, .inr ?_, fun _ => ⟨?_, fun _ groups hgroups => ?_⟩, trivial⟩
  · change Walked _ _
    decide +kernel
  · decide +kernel
  · decide
  · obtain rfl : ("0755".toList, ['a']) = groups := Option.some.inj (hgroups.symm.trans (by decide +kernel)).symm
    decide +kernel

/-- With uploads disabled, `mkdir` makes a directory and a sink stores a file. -/
theorem not_unchanged_upload :
    let config : SftpConfig := { allowUpload := false }
    let rs := [TransferRequest.sftp 0 (.mkdir "/x".toList), .scp 0 ⟨"C0644 1 f".toList, [1]⟩]
    let σ := start config (fun _ => (root, "/x".toList)) ⟨bare, []⟩
    ¬Unchanged bare (run (step ascii) σ rs).honeypot.fs ∧
      (run (step ascii) σ rs).honeypot.fs.pathExists "/x".toList = true ∧
      (run (step ascii) σ rs).honeypot.fs.pathExists "/x/f".toList = true ∧
      (run (step ascii) σ rs).honeypot.quarantine = [("f".toList, [1])] := by
  intro config rs σ
  have hmade : (run (step ascii) σ rs).honeypot.fs.pathExists "/x".toList = true := by decide +kernel
  refine ⟨fun h => ?_, hmade, by decide +kernel, by decide +kernel⟩
  have hnone : bare.pathExists "/x".toList = false := by decide +kernel
  rw [(h "/x".toList).1, hnone] at hmade
  cases hmade

end Transfers

end Cyanide
