import Mathlib.Algebra.GroupWithZero.Nat
import Cyanide.Lib.Utf8
import Cyanide.Vfs.Nodes

/-!
# The channel of an SCP session

The SSH channel is opened with the encoding UTF-8 and exchanges texts with the handler, and the handler turns them to
bytes and back as if they were Latin-1.  `channel_transparent_iff` says which bytes come through: those below `0x80`.
-/

namespace Cyanide

open PosixPath PyText

namespace ScpHandler

/-- `data.decode("latin-1")`. -/
def latin1Decode (data : List UInt8) : Str := data.map fun b => Char.ofNat b.toNat

/-- `data.encode("latin-1")`, unless it raises. -/
def latin1Encode (data : Str) : Option (List UInt8) :=
  if data.all (·.toNat < 256) then some (data.map fun c => UInt8.ofNat c.toNat) else none

/-- What `_write` puts on the wire. -/
def write (data : List UInt8) : List UInt8 := (Content.text (latin1Decode data)).encode

/-- What `_read` returns for a text from the channel; the exception of the encoding is caught. -/
def read (data : Str) : List UInt8 := (latin1Encode data).getD []

/-- The text that the channel gives for received bytes: what they encode, and if they are no UTF-8, what a part in
front of the malformed one encodes, before the reads fail. -/
def Received (b : List UInt8) (s : Str) : Prop :=
  (Content.text s).encode = b ∨ (∀ t, (Content.text t).encode ≠ b) ∧ (Content.text s).encode <+: b

/-- Successive calls of `read(n)` on the stream, each with its count and the text it returns, until all is read. -/
def ReadCalls (s : Str) (calls : List (ℕ × Str)) : Prop :=
  (calls.map Prod.snd).flatten = s ∧ ∀ call ∈ calls, call.2 ≠ [] ∧ call.2.length ≤ call.1

/-- The bytes of successive calls of `_read`. -/
def readBytes (calls : List (ℕ × Str)) : List UInt8 := calls.flatMap fun call => read call.2

/-- The calls return the received bytes, each no more than it asked for and none only at the end. -/
def Transparent (b : List UInt8) (calls : List (ℕ × Str)) : Prop :=
  readBytes calls = b ∧ ∀ call ∈ calls, 1 ≤ (read call.2).length ∧ (read call.2).length ≤ call.1

def IsAscii (b : List UInt8) : Prop := ∀ x ∈ b, x < 0x80

/-! ### Writing -/

theorem length_encode_text (s : Str) : (Content.text s).encode.length = (s.map Char.utf8Size).sum := by
  simp [Content.encode, List.length_flatMap]

theorem length_le_length_encode (s : Str) : s.length ≤ (Content.text s).encode.length := by
  induction s with
  | nil => simp
  | cons c s ih =>
    have := c.utf8Size_pos
    simp only [length_encode_text, List.map_cons, List.sum_cons, List.length_cons] at ih ⊢
    omega

/-- A text takes one byte a character just when it is in ASCII. -/
theorem length_eq_length_encode_iff (s : Str) :
    (Content.text s).encode.length = s.length ↔ ∀ c ∈ s, c.toNat < 0x80 := by
  induction s with
  | nil => simp [Content.encode]
  | cons c s ih =>
    have hle := length_le_length_encode s
    simp only [length_encode_text, List.map_cons, List.sum_cons, List.length_cons, List.mem_cons, forall_eq_or_imp]
      at ih hle ⊢
    constructor
    · intro h
      have hpos := c.utf8Size_pos
      exact ⟨(utf8Size_eq_one_iff c).1 (by omega), ih.1 (by omega)⟩
    · rintro ⟨hc, hs⟩
      have hone := (utf8Size_eq_one_iff c).2 hc
      have := ih.2 hs
      omega

/-- A text in ASCII is encoded by the numbers of its characters. -/
theorem encode_text_ascii {s : Str} (hs : ∀ c ∈ s, c.toNat < 0x80) :
    (Content.text s).encode = s.map fun c => UInt8.ofNat c.toNat := by
  induction s with
  | nil => rfl
  | cons c s ih =>
    rw [List.forall_mem_cons] at hs
    have hs' := ih hs.2
    simp only [Content.encode, List.flatMap_cons, List.map_cons, utf8EncodeChar_ascii hs.1] at hs' ⊢
    rw [hs']
    rfl

theorem forall_latin1Decode_iff (data : List UInt8) : (∀ c ∈ latin1Decode data, c.toNat < 0x80) ↔ IsAscii data := by
  simp [latin1Decode, IsAscii, toNat_ofNat_byte, UInt8.lt_iff_toNat_lt]

theorem encode_latin1Decode {data : List UInt8} (h : IsAscii data) : write data = data := by
  rw [write, encode_text_ascii ((forall_latin1Decode_iff data).2 h), latin1Decode, List.map_map]
  exact (List.map_congr_left fun b _ => by simp [toNat_ofNat_byte]).trans (List.map_id data)

/-- `_write` puts the bytes on the wire that it was given, just when they are in ASCII. -/
theorem write_eq_iff (data : List UInt8) : write data = data ↔ IsAscii data := by
  constructor
  · intro h
    rw [← forall_latin1Decode_iff, ← length_eq_length_encode_iff]
    have hlength : (write data).length = data.length := congrArg List.length h
    rw [latin1Decode, List.length_map]
    exact hlength
  · exact encode_latin1Decode

/-! ### Reading -/

theorem length_read_le (s : Str) : (read s).length ≤ s.length := by
  unfold read latin1Encode
  split_ifs <;> simp

theorem read_ascii {s : Str} (hs : ∀ c ∈ s, c.toNat < 0x80) : read s = (Content.text s).encode := by
  have hlatin : s.all (·.toNat < 256) = true := by
    simp only [List.all_eq_true, decide_eq_true_eq]
    intro c hc
    have := hs c hc
    omega
  rw [encode_text_ascii hs, read, latin1Encode, if_pos hlatin]
  rfl

theorem length_readBytes_le {s : Str} {calls : List (ℕ × Str)} (hcalls : ReadCalls s calls) :
    (readBytes calls).length ≤ s.length := by
  rw [← hcalls.1]
  clear hcalls
  induction calls with
  | nil => simp [readBytes]
  | cons call calls ih =>
    have := length_read_le call.2
    simp only [readBytes, List.flatMap_cons, List.map_cons, List.flatten_cons, List.length_append] at ih ⊢
    omega

theorem isAscii_encode_iff (s : Str) : IsAscii (Content.text s).encode ↔ ∀ c ∈ s, c.toNat < 0x80 := by
  constructor
  · intro h
    have heq : s = latin1Decode (Content.text s).encode :=
      Content.encode_text_inj (encode_latin1Decode h).symm
    rw [heq, forall_latin1Decode_iff]
    exact h
  · intro hs x hx
    rw [encode_text_ascii hs, List.mem_map] at hx
    obtain ⟨c, hc, rfl⟩ := hx
    have := hs c hc
    rw [UInt8.lt_iff_toNat_lt, UInt8.toNat_ofNat']
    exact lt_of_le_of_lt (Nat.mod_le _ _) this

/-- The calls give what was received just when that is in ASCII, however they cut the text. -/
theorem transparent_iff {b : List UInt8} {s : Str} {calls : List (ℕ × Str)} (hb : Received b s)
    (hcalls : ReadCalls s calls) : Transparent b calls ↔ IsAscii b := by
  constructor
  · rintro ⟨hbytes, -⟩
    have hle := length_readBytes_le hcalls
    have hchars := length_le_length_encode s
    rw [hbytes] at hle
    have hprefix : (Content.text s).encode <+: b := by
      rcases hb with rfl | ⟨-, hprefix⟩
      · exact List.prefix_rfl
      · exact hprefix
    have heq : (Content.text s).encode = b := hprefix.eq_of_length_le (hle.trans hchars)
    rw [← heq, isAscii_encode_iff, ← length_eq_length_encode_iff]
    have := congrArg List.length heq
    omega
  · intro h
    have heq : (Content.text s).encode = b := by
      rcases hb with rfl | ⟨hbad, -⟩
      · rfl
      · exact absurd (encode_latin1Decode h) (hbad _)
    have hs : ∀ c ∈ s, c.toNat < 0x80 := (isAscii_encode_iff s).1 (heq ▸ h)
    have hcall : ∀ call ∈ calls, ∀ c ∈ call.2, c.toNat < 0x80 := by
      intro call hmem c hc
      refine hs c ?_
      rw [← hcalls.1]
      exact List.mem_flatten_of_mem (List.mem_map_of_mem hmem) hc
    refine ⟨?_, fun call hmem => ?_⟩
    · rw [← heq, ← hcalls.1, ← List.flatMap_def, Content.encode, List.flatMap_assoc, readBytes]
      exact List.flatMap_congr fun call hmem => read_ascii (hcall call hmem)
    · rw [read_ascii (hcall call hmem), (length_eq_length_encode_iff _).2 (hcall call hmem)]
      exact ⟨List.length_pos_iff.2 (hcalls.2 call hmem).1, (hcalls.2 call hmem).2⟩

/-- The bytes that come through the channel are those in ASCII, in both directions. -/
theorem channel_transparent_iff (b : List UInt8) :
    (write b = b ↔ IsAscii b) ∧
      ∀ s calls, Received b s → ReadCalls s calls → (Transparent b calls ↔ IsAscii b) :=
  ⟨write_eq_iff b, fun _ _ hb hcalls => transparent_iff hb hcalls⟩

/-- A header in one call comes through. -/
theorem channel_transparent_iff_end : Transparent [0x45, 0x0a] [(2, ['E', '\n'])] :=
  ((channel_transparent_iff [0x45, 0x0a]).2 ['E', '\n'] [(2, ['E', '\n'])] (.inl (by decide)) ⟨rfl, by simp⟩).2
    (by simp [IsAscii])

/-- A client sends `é` in UTF-8. -/
theorem not_transparent_acute :
    write [0xe9] = [0xc3, 0xa9] ∧ Received [0xc3, 0xa9] ['é'] ∧ ReadCalls ['é'] [(1, ['é'])] ∧
      readBytes [(1, ['é'])] = [0xe9] ∧ ¬Transparent [0xc3, 0xa9] [(1, ['é'])] := by
  have hread : readBytes [(1, ['é'])] = [0xe9] := by decide
  refine ⟨by decide, .inl (by decide), ⟨rfl, by simp⟩, hread, fun h => ?_⟩
  have hbytes := hread.symm.trans h.1
  exact absurd hbytes (by decide)

end ScpHandler

end Cyanide
