import Cyanide.Vfs.Scp

/-!
# The attributes of a node

`_get_attrs` reports the size of a node as the node states it, and its mode as `_parse_mode` reads it off the permission
string.  What a client is served of a file, in an SFTP read and in an SCP download, is the content of the path as bytes
(`sftpServes_iff`, `scpServes_iff`), which need not have the size that the node states.
-/

namespace Cyanide

open PosixPath PyText Transition

/-- What `_get_attrs` fills in; both times are the one of the node. -/
structure SftpAttrs where
  size : ℕ
  permissions : ℕ
  mtime : Option ℕ
  uid : ℕ
  gid : ℕ
  deriving DecidableEq

def fxfRead : ℕ := 0x01

namespace CyanideSFTPHandler

variable (U : Unicode)

/-! ### Modes -/

/-- Octal digits with single underscores between them. -/
def octalDigitsFrom : (value : ℕ) → Str → Option ℕ
  | value, [] => some value
  | value, '_' :: c :: cs =>
    (U.decimal c).bind fun d => if d < 8 then octalDigitsFrom (8 * value + d) cs else none
  | value, c :: cs => (U.decimal c).bind fun d => if d < 8 then octalDigitsFrom (8 * value + d) cs else none

/-- Octal digits, at least one. -/
def octalDigits : Str → Option ℕ
  | [] => none
  | c :: cs => (U.decimal c).bind fun d => if d < 8 then octalDigitsFrom U d cs else none

/-- `int(text, 8)` on a text that begins with a digit, unless it raises. -/
def intBaseEight (text : Str) : Option ℕ :=
  match strip text with
  | '0' :: 'o' :: '_' :: cs | '0' :: 'O' :: '_' :: cs | '0' :: 'o' :: cs | '0' :: 'O' :: cs => octalDigits U cs
  | cs => octalDigits U cs

/-- The sum of the `mapping` of a chunk. -/
def chunkValue (chunk : Str) : ℕ :=
  (chunk.map fun c => if c = 'r' then 4 else if c = 'w' then 2 else if c = 'x' then 1 else 0).sum

/-- The loop over chunks of three letters. -/
def chunksMode : (res : ℕ) → Str → ℕ
  | res, a :: b :: c :: cs => chunksMode (res <<< 3 ||| chunkValue [a, b, c]) cs
  | res, [] => res
  | res, cs => res <<< 3 ||| chunkValue cs

/-- The bits of a file type. -/
def typeBits (isDir : Bool) : ℕ := if isDir then 0o40000 else 0o100000

/-- `_parse_mode`. -/
def parseMode (perm : Str) (isDir : Bool) : ℕ :=
  let start := if perm.head? = some 'd' ∨ perm.head? = some '-' then 1 else 0
  let letters := typeBits isDir ||| chunksMode 0 ((perm.drop start).take 9)
  if (perm ≠ [] ∧ perm.all U.isDigit) ∨ (perm.head? = some '0' ∧ 1 < perm.length) then
    (intBaseEight U perm).elim letters (typeBits isDir ||| ·)
  else letters

/-! ### Attributes -/

/-- `_get_attrs`. -/
def getAttrs (node : Node) : SftpAttrs where
  size := node.size
  permissions := parseMode U node.perm node.isDir
  mtime := match node.mtime with
    | .stamp t => some t
    | .iso _ => none
  uid := if node.owner = root then 0 else 1000
  gid := if node.group = root then 0 else 1000

/-- `stat` and `lstat`. -/
def stat (P : Honeypot) (path : Str) : Except SftpError SftpAttrs :=
  match P.fs.getNode path with
  | none => .error .noSuchFile
  | some node => .ok (getAttrs U node)

/-- `scandir`: the names, with empty attributes where there is no node. -/
def scandir (P : Honeypot) (path : Str) : List (Str × Option SftpAttrs) :=
  (P.fs.listDir path).map fun name => (name, (P.fs.getNode (join path name)).map (getAttrs U))

/-- `fstat`. -/
def fstat (h : CyanideSFTPHandler) (P : Honeypot) (handle : Handle) : Except SftpError (Option SftpAttrs) :=
  match h.fileHandles.lookup handle with
  | none => .error invalidHandle
  | some file => .ok ((P.fs.getNode file.path).map (getAttrs U))

end CyanideSFTPHandler

/-! ### What is served -/

/-- A client of SFTP opens the file for reading, and its reads are those of `b`. -/
def SftpServes (s : FakeFilesystem) (path : Str) (b : List UInt8) : Prop :=
  ∃ (h h' : CyanideSFTPHandler) (P P' : Honeypot) (handle : Handle), P.fs = s ∧
    h.openFile P path fxfRead = (.handle handle, h', P') ∧
      ∀ offset size, h'.readFile handle offset size = .data ((b.drop offset).take size)

/-- An SCP source that is sending sends `b` as the content of the file. -/
def ScpServes (s : FakeFilesystem) (path : Str) (node : Node) (b : List UInt8) : Prop :=
  ∃ (ack : ℕ → Bool) (t : ScpHandler.Sent), t.fs = s ∧
    .content b ∈ (ScpHandler.sendFile ack t path node).messages.drop t.messages.length

namespace CyanideSFTPHandler

/-- Reading is refused when downloads are, and otherwise hands out the content. -/
private theorem openFile_read (h : CyanideSFTPHandler) {P : Honeypot} {path : Str}
    (hpath : P.fs.pathExists path = true) :
    h.openFile P path fxfRead =
      if h.config.allowDownload then
        (.handle (handleName h.nextHandleId), (h.addFile ⟨path, nodeContent P path, false⟩).2,
          { P with fs := (P.fs.getContent path).2 })
      else (.error (.permissionDenied "Downloads disabled".toList), h, P) := by
  have hread : isWriteFlags fxfRead = false := by decide
  have hcontent : opensContent P path fxfRead = true := by rw [opensContent, if_neg (by rw [hread]; decide)]
  have herror : h.openError P path fxfRead =
      if h.config.allowDownload then none else some (.permissionDenied "Downloads disabled".toList) := by
    unfold openError checkPermissions
    rw [hread, hpath]
    cases h.config.allowDownload <;> rfl
  unfold openFile
  rw [herror, hcontent]
  cases h.config.allowDownload
  · rfl
  · rw [if_pos rfl, if_pos rfl, hread]
    rfl

end CyanideSFTPHandler

open CyanideSFTPHandler in
theorem sftpServes_iff {s : FakeFilesystem} {path : Str} (hpath : s.pathExists path = true) {b : List UInt8} :
    SftpServes s path b ↔ b = (s.getContent path).1.encode := by
  have hlookup : ∀ (h : CyanideSFTPHandler) (file : SftpFile) (offset size : ℕ),
      (h.addFile file).2.readFile (handleName h.nextHandleId) offset size =
        .data ((file.buffer.drop offset).take size) := by
    intro h file offset size
    unfold readFile addFile
    rw [AList.lookup_insert]
  constructor
  · rintro ⟨h, h', P, P', handle, rfl, hreply, hdata⟩
    rw [openFile_read h hpath] at hreply
    split at hreply
    · obtain ⟨hhandle, rfl, -⟩ := Prod.mk.injEq .. ▸ hreply
      obtain rfl := SftpReply.handle.inj hhandle
      have hall : ∀ size, (nodeContent P path).take size = b.take size := fun size => by
        have := hdata 0 size
        rw [hlookup] at this
        exact SftpReply.data.inj this
      have hlong := hall ((nodeContent P path).length + b.length)
      rw [List.take_of_length_le (by omega), List.take_of_length_le (by omega)] at hlong
      exact hlong.symm
    · cases hreply
  · rintro rfl
    let h : CyanideSFTPHandler := ⟨{}, ∅, 0⟩
    refine ⟨h, _, ⟨s, []⟩, _, _, rfl, (openFile_read h hpath).trans (if_pos rfl), fun offset size => ?_⟩
    rw [hlookup]
    rfl

theorem scpServes_iff {s : FakeFilesystem} {path : Str} {node : Node} {b : List UInt8} :
    ScpServes s path node b ↔ b = (s.getContent path).1.encode := by
  constructor
  · rintro ⟨ack, t, rfl, hmem⟩
    unfold ScpHandler.sendFile at hmem
    dsimp only at hmem
    split_ifs at hmem <;> simp at hmem
    exact hmem
  · rintro rfl
    refine ⟨fun _ => true, ⟨[], 0, s, false⟩, rfl, ?_⟩
    simp [ScpHandler.sendFile]

end Cyanide
