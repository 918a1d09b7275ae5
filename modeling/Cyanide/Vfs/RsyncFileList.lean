import Cyanide.Lib.Utf8
import Cyanide.Vfs.Rsync

/-!
# File lists in short reads

`readFileList_faithful_iff` says for which file lists it does not matter how the channel cuts the reads: those with at
most 1001 entries, none of which takes a read of more than one byte.  The rules of the section `ReadRule` hold for
reads that cannot be cut and for reads that happen not to be; the rest is what a cut read does to an entry.
-/

namespace Cyanide

open PosixPath PyText ShortReads
namespace RsyncHandler

/-! ### Reads that are not cut -/

theorem length_pack (w : BitVec 32) : (pack w).length = 4 := rfl

theorem unpack_pack (w : BitVec 32) : unpack (pack w) = w := by
  have hw := w.isLt
  apply BitVec.eq_of_toNat_eq
  simp only [unpack, pack, List.foldr_cons, List.foldr_nil, BitVec.toNat_ofNat, UInt8.toNat_ofNat']
  omega

/-- The longest read that a number of variable length takes. -/
def VarInt.width : VarInt → ℕ
  | byte _ _ => 1
  | long _ => 4

/-- No field of the entry takes a longer read. -/
structure WireEntry.FitsIn (width : ℕ) (e : WireEntry) : Prop where
  one : 1 ≤ width
  suffix : e.suffixBytes.length ≤ width
  size : e.size.width ≤ width
  mtime : e.hasMtime → 4 ≤ width
  mode : e.hasMode → 4 ≤ width

theorem flags_pos {flags : UInt8} (h : flags ≠ 0) : ¬(flags.toNat : Int) ≤ 0 := by
  have : flags.toNat ≠ 0 := fun h0 => h (UInt8.toNat_inj.1 h0)
  omega

section ReadRule

variable {width : ℕ} {Q : {β : Type} → Reader β → List UInt8 → β → List UInt8 → Prop} (hQ : ReadRule width Q)
  (l : List UInt8)

include hQ

theorem rule_readByte (hw : 1 ≤ width) (b : UInt8) : Q readByte (b :: l) b.toNat l :=
  hQ.bind (hQ.read [b] l Nat.one_pos hw) (hQ.pure _ _)

theorem rule_readInt (hw : 4 ≤ width) (w : BitVec 32) : Q readInt (pack w ++ l) w.toInt l := by
  refine hQ.bind (hQ.read (pack w) l (by simp [pack]) hw) ?_
  rw [if_neg (by simp [length_pack]), unpack_pack]
  exact hQ.pure _ _

theorem rule_readVarint {v : VarInt} (hw : v.width ≤ width) (hw1 : 1 ≤ width) :
    Q readVarint (v.bytes ++ l) v.value l := by
  cases v with
  | byte b h =>
    have hne : (b.toNat : Int) ≠ -1 := by omega
    have hff : (b.toNat : Int) ≠ 0xff := fun heq => h (UInt8.toNat_inj.1 (by exact_mod_cast heq))
    refine hQ.bind (rule_readByte hQ l hw1 b) ?_
    rw [if_neg hne, if_pos hff]
    exact hQ.pure _ _
  | long w =>
    refine hQ.bind (rule_readByte hQ (pack w ++ l) hw1 0xff) ?_
    rw [if_neg (by decide), if_neg (by decide)]
    refine hQ.bind (hQ.read (pack w) l (by simp [pack]) hw) ?_
    rw [if_neg (by simp [length_pack]), unpack_pack]
    exact hQ.pure _ _

theorem rule_read {xs : List UInt8} (hw : xs.length ≤ width) : Q (read xs.length) (xs ++ l) xs l := by
  unfold read
  split_ifs with h
  · obtain rfl : xs = [] := List.length_eq_zero_iff.1 (by omega)
    exact hQ.pure _ _
  · exact hQ.read xs l (by omega) hw

/-- The name that a suffix gives. -/
theorem rule_readName_of_suffix {e : WireEntry} (hw : 1 ≤ width) (lastName : Str) {xs l' : List UInt8}
    (h : Q (read e.suffixBytes.length) (e.suffixBytes ++ l) xs l') :
    Q (readName e.flags.toNat lastName) (e.nameBytes ++ l)
      (some ((if e.hasPrefix then lastName.take e.l1.toNat else []) ++ decodeIgnore xs)) l' := by
  have hl1 : Q (if (e.flags.toNat : Int).toNat &&& 0x04 ≠ 0 then readByte else pure 0) (e.nameBytes ++ l)
      (if e.hasPrefix then e.l1.toNat else 0) (.ofNat e.suffixBytes.length :: e.suffixBytes ++ l) := by
    by_cases hp : e.hasPrefix
    · have hp' : (e.flags.toNat : Int).toNat &&& 0x04 ≠ 0 := hp
      rw [if_pos hp', WireEntry.nameBytes, if_pos hp, if_pos hp]
      exact rule_readByte hQ _ hw e.l1
    · have hp' : ¬((e.flags.toNat : Int).toNat &&& 0x04 ≠ 0) := hp
      rw [if_neg hp', WireEntry.nameBytes, if_neg hp, if_neg hp]
      exact hQ.pure _ _
  have hlen : (UInt8.ofNat e.suffixBytes.length).toNat = e.suffixBytes.length := by
    rw [UInt8.toNat_ofNat']
    exact Nat.mod_eq_of_lt e.length_suffix
  have hslice : sliceTo lastName (if e.hasPrefix then e.l1.toNat else 0) =
      if e.hasPrefix then lastName.take e.l1.toNat else [] := by
    split_ifs <;> simp [sliceTo]
  refine hQ.bind hl1 (hQ.bind (rule_readByte hQ _ hw _) ?_)
  rw [if_neg (by omega), hlen]
  refine hQ.bind h ?_
  rw [hslice]
  exact hQ.pure _ _

theorem rule_readName {e : WireEntry} (hw : 1 ≤ width) (hlen : e.suffixBytes.length ≤ width) (lastName : Str) :
    Q (readName e.flags.toNat lastName) (e.nameBytes ++ l) (some (e.name lastName)) l := by
  have hname := rule_readName_of_suffix hQ l hw lastName (rule_read hQ l hlen)
  have hsuffix : decodeIgnore e.suffixBytes = e.suffix := decodeFrom_encode [] e.suffix
  rwa [hsuffix] at hname

/-- An integer that may be left out. -/
theorem rule_field {p : Prop} [Decidable p] (hp : p → 4 ≤ width) (w : BitVec 32) :
    Q (if p then readInt else pure 0) ((if p then pack w else []) ++ l) (if p then w.toInt else 0) l := by
  by_cases hp' : p
  · simp only [if_pos hp']
    exact rule_readInt hQ l (hp hp') w
  · simp only [if_neg hp']
    exact hQ.pure _ _

theorem rule_readNumbers {e : WireEntry} (h : e.FitsIn width) (lastName : Str) :
    Q (readNumbers e.flags.toNat (e.name lastName)) (e.numberBytes ++ l) (e.file lastName) l := by
  rw [WireEntry.numberBytes, List.append_assoc, List.append_assoc]
  refine hQ.bind (rule_readVarint hQ _ h.size h.one) ?_
  exact hQ.bind (rule_field hQ _ h.mtime e.mtime) (hQ.bind (rule_field hQ _ h.mode e.mode) (hQ.pure _ _))

theorem rule_readEntry_of_numbers {e : WireEntry} (h : e.FitsIn width) {lastName : Str} {file : RsyncFile}
    {l' : List UInt8} (hnumbers : Q (readNumbers e.flags.toNat (e.name lastName)) (e.numberBytes ++ l) file l') :
    Q (readEntry lastName) (e.bytes ++ l) (some file) l' := by
  simp only [WireEntry.bytes, List.cons_append, List.append_assoc]
  refine hQ.bind (rule_readByte hQ _ h.one e.flags) ?_
  rw [if_neg (flags_pos e.flags_ne)]
  exact hQ.bind (rule_readName hQ _ h.one h.suffix lastName) (hQ.bind hnumbers (hQ.pure _ _))

/-- An entry whose reads are not cut is read as it was encoded. -/
theorem rule_readEntry {e : WireEntry} (h : e.FitsIn width) (lastName : Str) :
    Q (readEntry lastName) (e.bytes ++ l) (some (e.file lastName)) l :=
  rule_readEntry_of_numbers hQ l h (rule_readNumbers hQ l h lastName)

/-- The zero ends the list. -/
theorem rule_readEntry_end (hw : 1 ≤ width) (lastName : Str) : Q (readEntry lastName) (0 :: l) none l :=
  hQ.bind (rule_readByte hQ l hw 0) (hQ.pure _ _)

end ReadRule

/-! ### Reads that are cut -/

/-- An integer field that is left out or is the `-1` that a short read stands for. -/
structure WireEntry.Settled (e : WireEntry) : Prop where
  suffix : e.suffixBytes.length ≤ 1
  size : e.size.width ≤ 1
  mtime : e.hasMtime → e.mtime.toInt = -1
  mode : e.hasMode → e.mode.toInt = -1

theorem WireEntry.FitsIn.settled {e : WireEntry} (h : e.FitsIn 1) : e.Settled where
  suffix := h.suffix
  size := h.size
  mtime hm := absurd (h.mtime hm) (by omega)
  mode hm := absurd (h.mode hm) (by omega)

/-- Reads that return what they ask for. -/
theorem fitsIn_full (e : WireEntry) : e.FitsIn 255 where
  one := by omega
  suffix := Nat.le_of_lt_succ e.length_suffix
  size := by cases e.size <;> simp [VarInt.width]
  mtime _ := by omega
  mode _ := by omega

/-- A reader whose reads are not cut. -/
theorem fullRule : ReadRule 255 (MayReturn (α := UInt8)) := readRule_mayReturn 255

variable (l : List UInt8)

/-- Four bytes of which only some arrive. -/
theorem mayReturn_readInt {k : ℕ} (hk : 0 < k) (hk4 : k < 4) : MayReturn readInt l (-1) (l.drop k) := by
  refine fullRule.bind (mayReturn_read hk hk4.le l) ?_
  rw [if_pos (by rw [List.length_take]; omega)]
  exact fullRule.pure _ _

theorem mayReturn_readVarint (w : BitVec 32) :
    MayReturn readVarint (0xff :: pack w ++ l) (-1) ((pack w ++ l).drop 1) := by
  refine fullRule.bind (rule_readByte fullRule (pack w ++ l) (by omega) 0xff) ?_
  rw [if_neg (by decide), if_neg (by decide)]
  refine fullRule.bind (mayReturn_read Nat.one_pos (by omega) _) ?_
  rw [if_pos (by rw [List.length_take]; omega)]
  exact fullRule.pure _ _

theorem pack_of_toInt {w : BitVec 32} (hw : w.toInt = -1) : pack w = [0xff, 0xff, 0xff, 0xff] := by
  obtain rfl : w = BitVec.ofInt 32 (-1) := BitVec.eq_of_toInt_eq (hw.trans (by decide))
  decide

theorem length_readFiles_le (room : ℕ) (lastName : Str) (i : ShortReads UInt8) :
    (readFiles room lastName i).1.length ≤ room := by
  induction room generalizing lastName i with
  | zero => exact Nat.zero_le _
  | succ room ih =>
    rw [readFiles, bind_apply]
    generalize readEntry lastName i = r
    obtain ⟨file, i'⟩ := r
    cases file with
    | none => exact Nat.zero_le _
    | some file => exact Nat.succ_le_succ (ih file.name i')

/-- The numbers of an entry come with the name that was read. -/
theorem name_readNumbers (flags : Int) (name : Str) (i : ShortReads UInt8) :
    (readNumbers flags name i).1.name = name := by
  rw [readNumbers, bind_apply, bind_apply, bind_apply]
  rfl

variable {e : WireEntry}

/-- A round that may find a name. -/
theorem readEntry_of_name {flags : UInt8} (hflags : flags ≠ 0) {lastName name : Str} {l l' : List UInt8}
    (h : MayReturn (readName flags.toNat lastName) l (some name) l') (cuts' : ℕ → ℕ) :
    ∃ cuts, (readEntry lastName ⟨flags :: l, cuts⟩).1 = some (readNumbers flags.toNat name ⟨l', cuts'⟩).1 := by
  obtain ⟨cuts, hname⟩ := h.bind_eq cuts'
  obtain ⟨cuts₀, hbyte⟩ := MayReturn.bind_eq (rule_readByte fullRule l (by omega) flags) cuts
  refine ⟨cuts₀, ?_⟩
  rw [readEntry, hbyte, if_neg (flags_pos hflags), hname]
  rfl

private theorem mayReturn_name (e : WireEntry) (lastName : Str) (l : List UInt8) :
    MayReturn (readName e.flags.toNat lastName) (e.nameBytes ++ l) (some (e.name lastName)) l :=
  rule_readName fullRule l (fitsIn_full e).one (fitsIn_full e).suffix lastName

/-- A suffix that is cut gives another name. -/
theorem exists_name_ne (lastName : Str) (h : 1 < e.suffixBytes.length) :
    ∃ name ≠ e.name lastName, ∃ l', MayReturn (readName e.flags.toNat lastName) (e.nameBytes ++ l) (some name) l' := by
  obtain ⟨x, y, bs, hbytes⟩ : ∃ x y bs, e.suffixBytes = x :: y :: bs := by
    match hbytes : e.suffixBytes, h with
    | x :: y :: bs, _ => exact ⟨x, y, bs, rfl⟩
  have hread : MayReturn (read e.suffixBytes.length) (e.suffixBytes ++ l) [x] (y :: bs ++ l) := by
    have := mayReturn_read (n := e.suffixBytes.length) Nat.one_pos h.le (e.suffixBytes ++ l)
    rw [read, if_neg (by omega)]
    rw [hbytes] at this ⊢
    exact this
  refine ⟨_, fun heq => ?_, _, rule_readName_of_suffix fullRule l (by omega) lastName hread⟩
  have hsuffix : decodeIgnore [x] = e.suffix := List.append_cancel_left heq
  rw [WireEntry.suffixBytes, ← hsuffix, decodeIgnore_singleton] at hbytes
  split_ifs at hbytes with hx
  · rw [Content.encode, List.flatMap_singleton, utf8EncodeChar_ofNat hx] at hbytes
    cases hbytes
  · cases hbytes

/-- An integer field that is cut. -/
theorem mayReturn_field {l : List UInt8} {p : Prop} [Decidable p] (hp : p) (w : BitVec 32) :
    MayReturn (if p then readInt else pure 0) ((if p then pack w else []) ++ l) (-1) ((pack w ++ l).drop 1) := by
  rw [if_pos hp, if_pos hp]
  exact mayReturn_readInt _ Nat.one_pos (by omega)

/-- The size of the entry, read in full. -/
private theorem mayReturn_size (e : WireEntry) (l : List UInt8) :
    MayReturn readVarint (e.size.bytes ++ l) e.size.value l :=
  rule_readVarint fullRule l (fitsIn_full e).size (fitsIn_full e).one

private theorem mayReturn_mtime (e : WireEntry) (l : List UInt8) :
    MayReturn (if e.hasMtime then readInt else pure 0) ((if e.hasMtime then pack e.mtime else []) ++ l)
      (if e.hasMtime then e.mtime.toInt else 0) l :=
  rule_field fullRule l (fitsIn_full e).mtime e.mtime

/-- A number that is cut is not as it was encoded. -/
theorem exists_file_ne (lastName : Str) (h : e.suffixBytes.length ≤ 1) (hs : ¬e.Settled) :
    ∃ cuts, (readNumbers e.flags.toNat (e.name lastName) ⟨e.numberBytes ++ l, cuts⟩).1 ≠ e.file lastName := by
  rw [WireEntry.numberBytes, List.append_assoc, List.append_assoc]
  by_cases hsize : e.size.width ≤ 1
  · by_cases hmtime : e.hasMtime → e.mtime.toInt = -1
    · have hmode : ¬(e.hasMode → e.mode.toInt = -1) := fun hmode => hs ⟨h, hsize, hmtime, hmode⟩
      rw [Classical.not_imp] at hmode
      have hcut : MayReturn (readNumbers e.flags.toNat (e.name lastName)) _
          ⟨e.name lastName, e.size.value, -1, if e.hasMtime then e.mtime.toInt else 0⟩ _ :=
        fullRule.bind (mayReturn_size e _) (fullRule.bind (mayReturn_mtime e _)
          (fullRule.bind (mayReturn_field (l := l) hmode.1 e.mode) (fullRule.pure _ _)))
      obtain ⟨cuts, hrun⟩ := hcut fun _ => 0
      refine ⟨cuts, fun heq => hmode.2 ?_⟩
      have := congrArg RsyncFile.mode ((congrArg Prod.fst hrun).symm.trans heq)
      simpa [WireEntry.file, hmode.1] using this.symm
    · rw [Classical.not_imp] at hmtime
      obtain ⟨cuts', hrun'⟩ := (mayReturn_field (l := (if e.hasMode then pack e.mode else []) ++ l) hmtime.1
        e.mtime).bind_eq fun _ => 0
      obtain ⟨cuts, hrun⟩ := (mayReturn_size e _).bind_eq cuts'
      refine ⟨cuts, fun heq => hmtime.2 ?_⟩
      have : -1 = (e.file lastName).mtime :=
        congrArg RsyncFile.mtime ((congrArg Prod.fst (hrun.trans hrun')).symm.trans heq)
      simpa [WireEntry.file, hmtime.1] using this.symm
  · cases hlong : e.size with
    | byte b hb => exact absurd (by rw [hlong]; exact le_rfl) hsize
    | long w =>
      obtain ⟨cuts, hrun⟩ := (mayReturn_readVarint ((if e.hasMtime then pack e.mtime else []) ++
        ((if e.hasMode then pack e.mode else []) ++ l)) w).bind_eq fun _ => 0
      refine ⟨cuts, fun heq => ?_⟩
      have := congrArg RsyncFile.size ((congrArg Prod.fst hrun).symm.trans heq)
      rw [WireEntry.file, hlong] at this
      have hneg : (-1 : Int) = w.toNat := this
      omega

/-- Three bytes of an integer are left for the next entry. -/
theorem mayReturn_readNumbers_left (lastName : Str) (hs : e.Settled) (h : ¬e.FitsIn 1) :
    MayReturn (readNumbers e.flags.toNat (e.name lastName)) (e.numberBytes ++ l) (e.file lastName)
      (0xff :: 0xff :: 0xff :: l) := by
  rw [WireEntry.numberBytes, List.append_assoc, List.append_assoc]
  refine fullRule.bind (mayReturn_size e _) ?_
  by_cases hmode : e.hasMode
  · have hcut := mayReturn_field (l := l) hmode e.mode
    rw [pack_of_toInt (hs.mode hmode)] at hcut ⊢
    refine fullRule.bind (mayReturn_mtime e _) (fullRule.bind hcut ?_)
    have hfile : e.file lastName = ⟨e.name lastName, e.size.value, -1, if e.hasMtime then e.mtime.toInt else 0⟩ := by
      simp [WireEntry.file, hmode, hs.mode hmode]
    rw [hfile]
    exact fullRule.pure _ _
  · have hmtime : e.hasMtime := by
      by_contra hmtime
      exact h ⟨le_rfl, hs.suffix, hs.size, fun hm => absurd hm hmtime, fun hm => absurd hm hmode⟩
    have hcut := mayReturn_field (l := l) hmtime e.mtime
    rw [pack_of_toInt (hs.mtime hmtime)] at hcut ⊢
    have hnone : (if e.hasMode then pack e.mode else []) ++ l = l := by
      rw [if_neg hmode]
      rfl
    rw [hnone]
    refine fullRule.bind hcut ?_
    have hmode' : MayReturn (if e.hasMode then readInt else pure 0) (0xff :: 0xff :: 0xff :: l) 0
        (0xff :: 0xff :: 0xff :: l) := by
      rw [if_neg hmode]
      exact fullRule.pure _ _
    refine fullRule.bind hmode' ?_
    have hfile : e.file lastName = ⟨e.name lastName, e.size.value, 0, -1⟩ := by
      simp [WireEntry.file, hmode, hmtime, hs.mtime hmtime]
    rw [hfile]
    exact fullRule.pure _ _

/-- The bytes left over begin an entry whose name takes up what comes next. -/
theorem mayReturn_readName_left (lastName : Str) {k : ℕ} (hk : 0 < k) (hk' : k ≤ 255) :
    MayReturn (readName (0xff : UInt8).toNat lastName) (0xff :: 0xff :: l)
      (some (lastName.take 255 ++ decodeIgnore (l.take k))) (l.drop k) := by
  refine fullRule.bind (b := 255) (rule_readByte fullRule _ (by omega) 0xff) ?_
  refine fullRule.bind (rule_readByte fullRule _ (by omega) 0xff) ?_
  rw [if_neg (by decide)]
  refine fullRule.bind (mayReturn_read hk hk' l) (fullRule.pure _ _)

/-- The bytes of an entry have a character behind something. -/
theorem exists_bytes_eq (e : WireEntry) : ∃ a c b, e.bytes = a ++ String.utf8EncodeChar c ++ b ∧
    0 < a.length ∧ (a ++ String.utf8EncodeChar c).length ≤ 255 := by
  have hprefix : (if e.hasPrefix then [e.l1] else []).length ≤ 1 := by split_ifs <;> simp
  cases hsuffix : e.suffix with
  | nil =>
    have hnil : e.suffixBytes = [] := by
      rw [WireEntry.suffixBytes, hsuffix]
      rfl
    have hzero : String.utf8EncodeChar (Char.ofNat 0) = [0] := by decide
    refine ⟨e.flags :: (if e.hasPrefix then [e.l1] else []), Char.ofNat 0, e.numberBytes, ?_, by simp, ?_⟩
    · rw [WireEntry.bytes, WireEntry.nameBytes, hnil, hzero]
      simp
    · rw [hzero, List.length_append, List.length_cons, List.length_singleton]
      omega
  | cons c s =>
    have hcons : e.suffixBytes = String.utf8EncodeChar c ++ (Content.text s).encode := by
      rw [WireEntry.suffixBytes, hsuffix]
      rfl
    have hc := c.utf8Size_le_four
    refine ⟨e.flags :: (if e.hasPrefix then [e.l1] else []) ++ [.ofNat e.suffixBytes.length], c,
      (Content.text s).encode ++ e.numberBytes, ?_, by simp, ?_⟩
    · rw [WireEntry.bytes, WireEntry.nameBytes, hcons]
      simp
    · simp
      omega

/-- What comes next can be cut so that it is not the name of the next entry. -/
theorem exists_take_ne (lastName : Str) (es : List WireEntry) (rest : List UInt8) :
    ∃ k, 0 < k ∧ k ≤ 255 ∧ ∀ f files, filesOf lastName es = f :: files →
      lastName.take 255 ++ decodeIgnore ((encodeList es ++ rest).take k) ≠ f.name := by
  cases es with
  | nil => exact ⟨1, by omega, by omega, fun _ _ h => by cases h⟩
  | cons e es =>
    obtain ⟨a, c, b, hbytes, ha, hc⟩ := exists_bytes_eq e
    have hshape : encodeList (e :: es) ++ rest = a ++ String.utf8EncodeChar c ++ (b ++ (encodeList es ++ rest)) := by
      simp [encodeList, hbytes]
    rw [hshape]
    by_cases hname : lastName.take 255 ++ decodeIgnore a = e.name lastName
    · refine ⟨(a ++ String.utf8EncodeChar c).length, ?_, hc, ?_⟩
      · rw [List.length_append]
        omega
      · rintro f files ⟨⟩
        rw [List.take_left, decodeIgnore, decodeFrom_append_utf8EncodeChar, ← List.append_assoc]
        intro heq
        have := congrArg List.length (heq.trans hname.symm)
        simp [decodeIgnore] at this
    · refine ⟨a.length, ha, ?_, ?_⟩
      · rw [List.length_append] at hc
        omega
      · rintro f files ⟨⟩
        rwa [List.append_assoc, List.take_left]

/-- An entry that is not settled can be cut so that another one is read. -/
theorem exists_entry_ne (lastName : Str) (hs : ¬e.Settled) :
    ∃ cuts file, (readEntry lastName ⟨e.bytes ++ l, cuts⟩).1 = some file ∧ file ≠ e.file lastName := by
  rw [WireEntry.bytes, List.cons_append, List.cons_append, List.append_assoc]
  by_cases hsuffix : e.suffixBytes.length ≤ 1
  · obtain ⟨cuts', hne⟩ := exists_file_ne l lastName hsuffix hs
    obtain ⟨cuts, hrun⟩ := readEntry_of_name e.flags_ne (mayReturn_name e lastName (e.numberBytes ++ l)) cuts'
    exact ⟨cuts, _, hrun, hne⟩
  · obtain ⟨name, hname, l', hread⟩ := exists_name_ne (e.numberBytes ++ l) lastName
      (Nat.lt_of_not_le hsuffix)
    obtain ⟨cuts, hrun⟩ := readEntry_of_name e.flags_ne hread fun _ => 0
    refine ⟨cuts, _, hrun, fun heq => hname ?_⟩
    exact (name_readNumbers _ _ _).symm.trans (congrArg RsyncFile.name heq)

/-- The integers of a settled entry are `-1` however they are cut, and only bytes `ff` are left of them. -/
theorem readInt_replicate {l : List UInt8} (n : ℕ) (cuts : ℕ → ℕ) : ∃ n' cuts',
    readInt ⟨List.replicate (n + 4) 0xff ++ l, cuts⟩ = (-1, ⟨List.replicate n' 0xff ++ l, cuts'⟩) := by
  obtain ⟨k, hk, hk4, hread⟩ : ∃ k, 0 < k ∧ k ≤ 4 ∧ read 4 ⟨List.replicate (n + 4) 0xff ++ l, cuts⟩ =
      (List.replicate k 0xff, ⟨List.replicate (n + 4 - k) 0xff ++ l, fun j => cuts (j + 1)⟩) := by
    refine ⟨min 4 (max 1 (cuts 0)), by omega, by omega, ?_⟩
    show ShortReads.read 4 _ = _
    rw [ShortReads.read]
    rw [List.take_append_of_le_length (by simp), List.drop_append_of_le_length (by simp),
      List.take_replicate, List.drop_replicate, min_eq_left (by omega)]
  refine ⟨n + 4 - k, fun j => cuts (j + 1), (bind_eq hread).trans ?_⟩
  rw [List.length_replicate]
  split_ifs with hlt
  · rfl
  · obtain rfl : k = 4 := by omega
    rfl

theorem readField_settled {l : List UInt8} {p : Prop} [Decidable p] {w : BitVec 32} (n : ℕ) (hw : p → w.toInt = -1)
    (cuts : ℕ → ℕ) :
    ∃ n' cuts', (if p then readInt else pure 0) ⟨List.replicate n 0xff ++ ((if p then pack w else []) ++ l), cuts⟩ =
      (if p then w.toInt else 0, ⟨List.replicate n' 0xff ++ l, cuts'⟩) := by
  by_cases hp : p
  · rw [if_pos hp, if_pos hp, if_pos hp, hw hp, pack_of_toInt (hw hp)]
    have hshape : List.replicate n 0xff ++ ([0xff, 0xff, 0xff, 0xff] ++ l) = List.replicate (n + 4) 0xff ++ l := by
      rw [List.replicate_add, List.append_assoc]
      rfl
    rw [hshape]
    exact readInt_replicate n cuts
  · rw [if_neg hp, if_neg hp, if_neg hp]
    exact ⟨n, cuts, rfl⟩

theorem readNumbers_settled {lastName : Str} {l : List UInt8} (hs : e.Settled) (cuts : ℕ → ℕ) :
    (readNumbers e.flags.toNat (e.name lastName) ⟨e.numberBytes ++ l, cuts⟩).1 = e.file lastName := by
  rw [WireEntry.numberBytes, List.append_assoc, List.append_assoc]
  obtain ⟨cuts₁, hsize⟩ := rule_readVarint readRule_returns ((if e.hasMtime then pack e.mtime else []) ++
    ((if e.hasMode then pack e.mode else []) ++ l)) hs.size le_rfl cuts
  obtain ⟨n, cuts₂, hmtime⟩ := readField_settled (l := (if e.hasMode then pack e.mode else []) ++ l) 0 hs.mtime cuts₁
  obtain ⟨_, _, hmode⟩ := readField_settled (l := l) n hs.mode cuts₂
  rw [List.replicate_zero, List.nil_append] at hmtime
  have hrest := bind_eq (f := fun mtime => (if e.hasMode then readInt else pure 0) >>= fun mode =>
    (pure ⟨e.name lastName, e.size.value, mode, mtime⟩ : Reader RsyncFile)) hmtime
  rw [bind_eq hmode] at hrest
  rw [readNumbers, bind_eq hsize]
  exact congrArg Prod.fst hrest

theorem readEntry_settled (lastName : Str) {l : List UInt8} (hs : e.Settled) (cuts : ℕ → ℕ) :
    (readEntry lastName ⟨e.bytes ++ l, cuts⟩).1 = some (e.file lastName) := by
  rw [WireEntry.bytes, List.cons_append, List.cons_append, List.append_assoc]
  obtain ⟨cuts₁, hbyte⟩ := Returns.bind_eq (rule_readByte readRule_returns (e.nameBytes ++ (e.numberBytes ++ l)) le_rfl
    e.flags) cuts
  obtain ⟨cuts₂, hname⟩ := Returns.bind_eq (rule_readName readRule_returns (e.numberBytes ++ l) le_rfl hs.suffix
    lastName) cuts₁
  rw [readEntry, hbyte, if_neg (flags_pos e.flags_ne), hname]
  exact congrArg some (readNumbers_settled hs cuts₂)

/-- The result does not depend on the cuts and is what was encoded. -/
def Faithful (room : ℕ) (lastName : Str) (es : List WireEntry) (rest : List UInt8) : Prop :=
  ∀ cuts, (readFiles room lastName ⟨encodeList es ++ rest, cuts⟩).1 = filesOf lastName es

variable {room : ℕ} {lastName : Str} {es : List WireEntry} {rest : List UInt8}

private theorem encodeList_cons (e : WireEntry) (es : List WireEntry) (rest : List UInt8) :
    encodeList (e :: es) ++ rest = e.bytes ++ (encodeList es ++ rest) := by
  simp [encodeList]

theorem length_filesOf (lastName : Str) (es : List WireEntry) : (filesOf lastName es).length = es.length := by
  induction es generalizing lastName with
  | nil => rfl
  | cons e es ih => exact congrArg (· + 1) (ih _)

theorem faithful_of_fitsIn (hlen : es.length ≤ room + 1) (hfits : ∀ e ∈ es.take room, e.FitsIn 1)
    (hlast : ∀ e ∈ es.drop room, e.Settled) : Faithful (room + 1) lastName es rest := by
  intro cuts
  induction es generalizing room lastName cuts with
  | nil =>
    obtain ⟨cuts', hend⟩ := (rule_readEntry_end readRule_returns rest le_rfl lastName).bind_eq cuts
    exact congrArg Prod.fst hend
  | cons e es ih =>
    rw [encodeList_cons]
    cases room with
    | zero =>
      obtain rfl : es = [] := List.length_eq_zero_iff.1 (by simpa using hlen)
      have hfile := readEntry_settled lastName (l := encodeList [] ++ rest) (hlast e (by simp)) cuts
      rw [readFiles, bind_apply, hfile]
      rfl
    | succ room =>
      rw [List.take_succ_cons, List.forall_mem_cons] at hfits
      rw [List.length_cons] at hlen
      obtain ⟨cuts', hentry⟩ := (rule_readEntry readRule_returns (encodeList es ++ rest) hfits.1 lastName).bind_eq cuts
      rw [readFiles, hentry]
      exact congrArg (e.file lastName :: ·) (ih (by omega) hfits.2 hlast cuts')

theorem settled_of_faithful (h : Faithful (room + 1) lastName (e :: es) rest) : e.Settled := by
  by_contra hs
  obtain ⟨cuts, file, hrun, hne⟩ := exists_entry_ne (encodeList es ++ rest) lastName hs
  have hfiles := h cuts
  rw [encodeList_cons, readFiles, bind_apply, hrun] at hfiles
  exact hne (List.cons.inj hfiles).1

theorem fitsIn_of_faithful (h : Faithful (room + 2) lastName (e :: es) rest) : e.FitsIn 1 := by
  by_contra hfits
  have hs := settled_of_faithful h
  obtain ⟨k, hk, hk', hne⟩ := exists_take_ne (e.name lastName) es rest
  -- the name of the entry that the bytes left over begin
  obtain ⟨cuts', hleft⟩ := readEntry_of_name (by decide)
    (mayReturn_readName_left (encodeList es ++ rest) (e.name lastName) hk hk') fun _ => 0
  obtain ⟨cuts, hentry⟩ := (rule_readEntry_of_numbers fullRule _ (fitsIn_full e)
    (mayReturn_readNumbers_left (encodeList es ++ rest) lastName hs hfits)).bind_eq cuts'
  have hfiles := h cuts
  rw [encodeList_cons, readFiles, hentry] at hfiles
  have htail : (readFiles (room + 1) (e.name lastName) ⟨0xff :: 0xff :: 0xff :: (encodeList es ++ rest), cuts'⟩).1 =
      filesOf (e.name lastName) es := (List.cons.inj hfiles).2
  rw [readFiles, bind_apply, hleft] at htail
  refine hne _ _ htail.symm ?_
  exact (name_readNumbers _ _ _).symm

theorem faithful_tail (h : Faithful (room + 1) lastName (e :: es) rest) : Faithful room (e.name lastName) es rest := by
  intro cuts'
  obtain ⟨cuts, hentry⟩ := (rule_readEntry fullRule (encodeList es ++ rest) (fitsIn_full e) lastName).bind_eq cuts'
  have hfiles := h cuts
  rw [encodeList_cons, readFiles, hentry] at hfiles
  exact (List.cons.inj hfiles).2

theorem fitsIn_of_faithful_list (h : Faithful (room + 1) lastName es rest) :
    es.length ≤ room + 1 ∧ (∀ e ∈ es.take room, e.FitsIn 1) ∧ ∀ e ∈ es.drop room, e.Settled := by
  have hlen : es.length ≤ room + 1 := by
    have hle := length_readFiles_le (room + 1) lastName ⟨encodeList es ++ rest, fun _ => 0⟩
    rwa [h, length_filesOf] at hle
  refine ⟨hlen, ?_⟩
  induction es generalizing room lastName with
  | nil => simp
  | cons e es ih =>
    cases room with
    | zero =>
      obtain rfl : es = [] := List.length_eq_zero_iff.1 (by simpa using hlen)
      simpa using settled_of_faithful h
    | succ room =>
      rw [List.length_cons] at hlen
      obtain ⟨hfits, hlast⟩ := ih (faithful_tail h) (by omega)
      rw [List.take_succ_cons, List.forall_mem_cons, List.drop_succ_cons]
      exact ⟨⟨fitsIn_of_faithful h, hfits⟩, hlast⟩

/-- The bytes of a file list are read as they were encoded, in any two cuttings, just when the list has at most 1001
entries, and no entry takes a read of more than one byte but the last of 1001, whose integers may be `-1`. -/
theorem readFileList_faithful_iff (es : List WireEntry) (rest : List UInt8) :
    (∀ cuts cuts', (readFileList ⟨encodeList es ++ rest, cuts⟩).1 = (readFileList ⟨encodeList es ++ rest, cuts'⟩).1 ∧
      (readFileList ⟨encodeList es ++ rest, cuts⟩).1 = filesOf [] es) ↔
      es.length ≤ 1001 ∧ (∀ e ∈ es.take 1000, e.FitsIn 1) ∧ ∀ e ∈ es.drop 1000, e.Settled := by
  constructor
  · intro h
    exact fitsIn_of_faithful_list fun cuts => (h cuts cuts).2
  · rintro ⟨hlen, hfits, hlast⟩ cuts cuts'
    have hfaithful : Faithful 1001 [] es rest := faithful_of_fitsIn hlen hfits hlast
    exact ⟨(hfaithful cuts).trans (hfaithful cuts').symm, hfaithful cuts⟩

/-- A file list with one file. -/
def oneFile : WireEntry where
  flags := 1
  l1 := 0
  suffix := "test1".toList
  size := .byte 10 (by decide)
  mtime := 1234567
  mode := 0o644
  flags_ne := by decide
  length_suffix := by decide

/-- The file list arrives in whole fields, and byte by byte. -/
theorem not_faithful_oneFile :
    (readFileList ⟨encodeList [oneFile] ++ [], fun _ => 255⟩).1 = [⟨"test1".toList, 10, 0o644, 1234567⟩] ∧
      filesOf [] [oneFile] = [⟨"test1".toList, 10, 0o644, 1234567⟩] ∧
      (readFileList ⟨encodeList [oneFile] ++ [], fun _ => 1⟩).1 ≠ [⟨"test1".toList, 10, 0o644, 1234567⟩] := by
  decide +kernel

end RsyncHandler

end Cyanide
