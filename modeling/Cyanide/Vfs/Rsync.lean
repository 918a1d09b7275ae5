import Cyanide.Lib.ShortReads
import Cyanide.Lib.PyText
import Cyanide.Vfs.Nodes

/-!
# The file list of an rsync upload

`_read_file_list` reads each field of an entry by one read of the channel, which may return less than it asks for.
`encodeList` is the format that it reads, and `filesOf` the list that such bytes stand for.
-/

namespace Cyanide

open PosixPath PyText ShortReads

/-- An entry of a file list as it is logged. -/
structure RsyncFile where
  name : Str
  size : Int
  mode : Int
  mtime : Int
deriving DecidableEq

namespace RsyncHandler

abbrev Reader := StateM (ShortReads UInt8)

/-- `_read`: one read of the channel. -/
def read (n : Int) : Reader (List UInt8) := if n ≤ 0 then pure [] else ShortReads.read n.toNat

/-- `struct.unpack` of four bytes, the lowest first. -/
def unpack (data : List UInt8) : BitVec 32 := BitVec.ofNat 32 (data.foldr (fun b n => b.toNat + 256 * n) 0)

/-- `_read_int`. -/
def readInt : Reader Int := do
  let data ← read 4
  if data.length < 4 then return -1
  return (unpack data).toInt

/-- `_read_byte`. -/
def readByte : Reader Int := do
  let data ← read 1
  match data with
  | [] => return -1
  | b :: _ => return b.toNat

/-- `_read_varint`. -/
def readVarint : Reader Int := do
  let b ← readByte
  if b = -1 then return -1
  if b ≠ 0xff then return b
  let data ← read 4
  if data.length < 4 then return -1
  return (unpack data).toNat

/-- The slice `s[:i]`, which counts a negative `i` from the end. -/
def sliceTo (s : Str) (i : Int) : Str := if 0 ≤ i then s.take i.toNat else s.take (s.length - i.natAbs)

/-- The name of an entry, or `none` when the stream ends before it. -/
def readName (flags : Int) (lastName : Str) : Reader (Option Str) := do
  let l1 ← (if flags.toNat &&& 0x04 ≠ 0 then readByte else pure 0)
  let l2 ← readByte
  if l2 = -1 then return none
  let suffix ← read l2
  return some (sliceTo lastName l1 ++ decodeIgnore suffix)

/-- The numbers of an entry. -/
def readNumbers (flags : Int) (name : Str) : Reader RsyncFile := do
  let size ← readVarint
  let mtime ← (if flags.toNat &&& 0x08 = 0 then readInt else pure 0)
  let mode ← (if flags.toNat &&& 0x10 = 0 then readInt else pure 0)
  return ⟨name, size, mode, mtime⟩

/-- A round of the loop: the next entry, or `none` when the loop ends. -/
def readEntry (lastName : Str) : Reader (Option RsyncFile) := do
  let flags ← readByte
  if flags ≤ 0 then return none
  let name ← readName flags lastName
  match name with
  | none => return none
  | some name =>
    let file ← readNumbers flags name
    return some file

/-- The rounds of the loop, of which `room` may still add an entry. -/
def readFiles : (room : ℕ) → (lastName : Str) → Reader (List RsyncFile)
  | 0, _ => pure []
  | room + 1, lastName => do
    let file ← readEntry lastName
    match file with
    | none => return []
    | some file =>
      let files ← readFiles room file.name
      return file :: files

/-- `_read_file_list`: the loop ends when it has more than 1000 entries. -/
def readFileList : Reader (List RsyncFile) := readFiles 1001 []

/-! ### The format -/

/-- `struct.pack` into four bytes, the lowest first. -/
def pack (w : BitVec 32) : List UInt8 :=
  [.ofNat w.toNat, .ofNat (w.toNat / 256), .ofNat (w.toNat / 65536), .ofNat (w.toNat / 16777216)]

/-- A number of variable length as it is sent: in one byte, or in four bytes behind `ff`. -/
inductive VarInt
  | byte (b : UInt8) (h : b ≠ 0xff)
  | long (w : BitVec 32)

namespace VarInt

def value : VarInt → Int
  | byte b _ => b.toNat
  | long w => w.toNat

def bytes : VarInt → List UInt8
  | byte b _ => [b]
  | long w => 0xff :: pack w

end VarInt

/-- An entry as it is sent.  What its flags leave out stands for nothing. -/
structure WireEntry where
  flags : UInt8
  l1 : UInt8
  suffix : Str
  size : VarInt
  mtime : BitVec 32
  mode : BitVec 32
  flags_ne : flags ≠ 0
  length_suffix : (Content.text suffix).encode.length < 256

namespace WireEntry

variable (e : WireEntry)

def hasPrefix : Prop := e.flags.toNat &&& 0x04 ≠ 0

def hasMtime : Prop := e.flags.toNat &&& 0x08 = 0

def hasMode : Prop := e.flags.toNat &&& 0x10 = 0

instance : Decidable e.hasPrefix := inferInstanceAs (Decidable (_ ≠ _))

instance : Decidable e.hasMtime := inferInstanceAs (Decidable (_ = _))

instance : Decidable e.hasMode := inferInstanceAs (Decidable (_ = _))

def suffixBytes : List UInt8 := (Content.text e.suffix).encode

/-- The fields of the name. -/
def nameBytes : List UInt8 :=
  (if e.hasPrefix then [e.l1] else []) ++ .ofNat e.suffixBytes.length :: e.suffixBytes

/-- The fields of the numbers. -/
def numberBytes : List UInt8 :=
  e.size.bytes ++ (if e.hasMtime then pack e.mtime else []) ++ if e.hasMode then pack e.mode else []

def bytes : List UInt8 := e.flags :: e.nameBytes ++ e.numberBytes

def name (lastName : Str) : Str := (if e.hasPrefix then lastName.take e.l1.toNat else []) ++ e.suffix

/-- The entry that is encoded, behind one with the name `lastName`. -/
def file (lastName : Str) : RsyncFile where
  name := e.name lastName
  size := e.size.value
  mode := if e.hasMode then e.mode.toInt else 0
  mtime := if e.hasMtime then e.mtime.toInt else 0

end WireEntry

/-- The encoding of a file list, which ends with a zero. -/
def encodeList (entries : List WireEntry) : List UInt8 := entries.flatMap WireEntry.bytes ++ [0]

/-- The file list that is encoded. -/
def filesOf : (lastName : Str) → List WireEntry → List RsyncFile
  | _, [] => []
  | lastName, e :: es => e.file lastName :: filesOf (e.name lastName) es

end RsyncHandler

end Cyanide
