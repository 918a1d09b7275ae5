import Mathlib.Data.UInt
import Cyanide.Lib.PyText

/-!
# Decoding what UTF-8 encodes

`decodeFrom` reads back the characters of a text from its UTF-8 bytes, whatever it does with malformed ones.
-/

namespace PyText

private theorem toNat_ofNat_lt {n : ℕ} (h : n < 256) : (UInt8.ofNat n).toNat = n := by
  rw [UInt8.toNat_ofNat']
  exact Nat.mod_eq_of_lt h

/-- The last byte of a character. -/
private theorem decodeFrom_last (bad : List Char) {lo hi : UInt8} {m : ℕ} (value : ℕ) (bs : List UInt8) (hm : m < 256)
    (hlo : lo.toNat ≤ m) (hhi : m ≤ hi.toNat) :
    decodeFrom bad 1 lo hi value (UInt8.ofNat m :: bs) =
      Char.ofNat (64 * value + m % 64) :: decodeFrom bad 0 0 0 0 bs := by
  have hbounds : lo ≤ UInt8.ofNat m ∧ UInt8.ofNat m ≤ hi := by
    rw [UInt8.le_iff_toNat_le, UInt8.le_iff_toNat_le, toNat_ofNat_lt hm]
    exact ⟨hlo, hhi⟩
  rw [decodeFrom, if_pos hbounds, if_pos rfl, toNat_ofNat_lt hm]

/-- A byte in the middle of a character. -/
private theorem decodeFrom_middle (bad : List Char) (k : ℕ) {lo hi : UInt8} {m : ℕ} (value : ℕ) (bs : List UInt8)
    (hm : m < 256) (hlo : lo.toNat ≤ m) (hhi : m ≤ hi.toNat) :
    decodeFrom bad (k + 2) lo hi value (UInt8.ofNat m :: bs) =
      decodeFrom bad (k + 1) 0x80 0xbf (64 * value + m % 64) bs := by
  have hbounds : lo ≤ UInt8.ofNat m ∧ UInt8.ofNat m ≤ hi := by
    rw [UInt8.le_iff_toNat_le, UInt8.le_iff_toNat_le, toNat_ofNat_lt hm]
    exact ⟨hlo, hhi⟩
  rw [decodeFrom, if_pos hbounds, if_neg (Nat.succ_ne_zero k), toNat_ofNat_lt hm]

/-- The table of first bytes, on numbers. -/
private theorem leadByte_ofNat {m : ℕ} (hm : m < 256) : leadByte (UInt8.ofNat m) =
    if 0xc2 ≤ m ∧ m ≤ 0xdf then some (1, 0x80, 0xbf)
    else if m = 0xe0 then some (2, 0xa0, 0xbf)
    else if m = 0xed then some (2, 0x80, 0x9f)
    else if 0xe1 ≤ m ∧ m ≤ 0xef then some (2, 0x80, 0xbf)
    else if m = 0xf0 then some (3, 0x90, 0xbf)
    else if 0xf1 ≤ m ∧ m ≤ 0xf3 then some (3, 0x80, 0xbf)
    else if m = 0xf4 then some (3, 0x80, 0x8f)
    else none := by
  unfold leadByte
  simp only [UInt8.le_iff_toNat_le, ← UInt8.toNat_inj, toNat_ofNat_lt hm]
  rfl

/-- The first byte of a character of more than one. -/
private theorem decodeFrom_first (bad : List Char) {m k : ℕ} {lo hi : UInt8} (bs : List UInt8) (hm : m < 256)
    (h80 : 0x80 ≤ m) (hlead : leadByte (UInt8.ofNat m) = some (k, lo, hi)) :
    decodeFrom bad 0 0 0 0 (UInt8.ofNat m :: bs) = decodeFrom bad k lo hi (m % 2 ^ (6 - k)) bs := by
  have hlt : ¬UInt8.ofNat m < 0x80 := by
    rw [UInt8.lt_iff_toNat_lt, toNat_ofNat_lt hm]
    exact Nat.not_lt.2 h80
  rw [decodeFrom, if_neg hlt, hlead, toNat_ofNat_lt hm]

/-- The bytes of a character are decoded to it. -/
theorem decodeFrom_utf8EncodeChar (bad : List Char) (c : Char) (bs : List UInt8) :
    decodeFrom bad 0 0 0 0 (String.utf8EncodeChar c ++ bs) = c :: decodeFrom bad 0 0 0 0 bs := by
  have hc : Char.ofNat c.val.toNat = c := Char.ofNat_toNat c
  have hvalid : c.val.toNat < 0xd800 ∨ 0xdfff < c.val.toNat ∧ c.val.toNat < 0x110000 := c.valid
  generalize hn : c.val.toNat = n at hc hvalid
  unfold String.utf8EncodeChar
  simp only [hn]
  split_ifs with h1 h2 h3
  · have hlt : UInt8.ofNat n < 0x80 := by
      rw [UInt8.lt_iff_toNat_lt, toNat_ofNat_lt (by omega)]
      exact Nat.lt_succ_of_le h1
    rw [List.singleton_append, decodeFrom, if_pos hlt, toNat_ofNat_lt (by omega), hc]
  · have hlead : leadByte (UInt8.ofNat (n / 64 % 32 + 0xc0)) = some (1, 0x80, 0xbf) := by
      rw [leadByte_ofNat (by omega), if_pos (by omega)]
    have hvalue : 64 * ((n / 64 % 32 + 0xc0) % 2 ^ (6 - 1)) + (n % 64 + 0x80) % 64 = n := by omega
    rw [List.cons_append, decodeFrom_first bad _ (by omega) (by omega) hlead, List.singleton_append,
      decodeFrom_last bad _ _ (by omega) (by simp) (by simp; omega), hvalue, hc]
  · have hvalue : 64 * (64 * ((n / 4096 % 16 + 0xe0) % 2 ^ (6 - 2)) + (n / 64 % 64 + 0x80) % 64) +
        (n % 64 + 0x80) % 64 = n := by omega
    obtain ⟨lo, hi, hlead, hlo, hhi⟩ : ∃ lo hi, leadByte (UInt8.ofNat (n / 4096 % 16 + 0xe0)) = some (2, lo, hi) ∧
        lo.toNat ≤ n / 64 % 64 + 0x80 ∧ n / 64 % 64 + 0x80 ≤ hi.toNat := by
      rw [leadByte_ofNat (by omega), if_neg (by omega)]
      -- no overlong form behind `e0`, no surrogate behind `ed`
      split_ifs
      · exact ⟨_, _, rfl, by simp; omega, by simp; omega⟩
      · exact ⟨_, _, rfl, by simp, by simp; omega⟩
      · exact ⟨_, _, rfl, by simp, by simp; omega⟩
      all_goals omega
    simp only [List.cons_append, List.nil_append]
    rw [decodeFrom_first bad _ (by omega) (by omega) hlead, decodeFrom_middle bad 0 _ _ (by omega) hlo hhi,
      decodeFrom_last bad _ _ (by omega) (by simp) (by simp; omega), hvalue, hc]
  · have hvalue : 64 * (64 * (64 * ((n / 262144 % 8 + 0xf0) % 2 ^ (6 - 3)) + (n / 4096 % 64 + 0x80) % 64) +
        (n / 64 % 64 + 0x80) % 64) + (n % 64 + 0x80) % 64 = n := by omega
    obtain ⟨lo, hi, hlead, hlo, hhi⟩ : ∃ lo hi, leadByte (UInt8.ofNat (n / 262144 % 8 + 0xf0)) = some (3, lo, hi) ∧
        lo.toNat ≤ n / 4096 % 64 + 0x80 ∧ n / 4096 % 64 + 0x80 ≤ hi.toNat := by
      rw [leadByte_ofNat (by omega), if_neg (by omega), if_neg (by omega), if_neg (by omega), if_neg (by omega)]
      -- no overlong form behind `f0`, nothing above `10ffff` behind `f4`
      split_ifs
      · exact ⟨_, _, rfl, by simp; omega, by simp; omega⟩
      · exact ⟨_, _, rfl, by simp, by simp; omega⟩
      · exact ⟨_, _, rfl, by simp, by simp; omega⟩
      all_goals omega
    simp only [List.cons_append, List.nil_append]
    rw [decodeFrom_first bad _ (by omega) (by omega) hlead, decodeFrom_middle bad 1 _ _ (by omega) hlo hhi,
      decodeFrom_middle bad 0 _ _ (by omega) (by simp) (by simp; omega),
      decodeFrom_last bad _ _ (by omega) (by simp) (by simp; omega), hvalue, hc]

/-- A byte below `0x80` is a character of its own. -/
theorem eq_of_mem_utf8EncodeChar {c : Char} {x : UInt8} (hx : x ∈ String.utf8EncodeChar c) (h : x < 0x80) :
    c.toNat = x.toNat := by
  rw [UInt8.lt_iff_toNat_lt] at h
  have h' : x.toNat < 128 := h
  show c.val.toNat = x.toNat
  unfold String.utf8EncodeChar at hx
  dsimp only at hx
  split_ifs at hx
  · rw [List.mem_singleton.1 hx, toNat_ofNat_lt (by omega)]
  all_goals
    simp only [List.mem_cons, List.not_mem_nil, or_false] at hx
    exfalso
  · rcases hx with rfl | rfl <;> rw [toNat_ofNat_lt (by omega)] at h' <;> omega
  · rcases hx with rfl | rfl | rfl <;> rw [toNat_ofNat_lt (by omega)] at h' <;> omega
  · rcases hx with rfl | rfl | rfl | rfl <;> rw [toNat_ofNat_lt (by omega)] at h' <;> omega

theorem newline_notMem_encode {s : List Char} (h : '\n' ∉ s) : 10 ∉ s.flatMap String.utf8EncodeChar := by
  intro hmem
  obtain ⟨c, hc, hx⟩ := List.mem_flatMap.1 hmem
  have heq : c = '\n' := Char.toNat_inj.1 (eq_of_mem_utf8EncodeChar hx (by decide))
  exact h (heq ▸ hc)

/-! ### Characters of one byte -/

theorem toNat_ofNat_byte (b : UInt8) : (Char.ofNat b.toNat).toNat = b.toNat := by
  have hb := b.toNat_lt
  have hvalid : b.toNat.isValidChar := .inl (by omega)
  rw [Char.ofNat, dif_pos hvalid]
  rfl

theorem utf8Size_eq_one_iff (c : Char) : c.utf8Size = 1 ↔ c.toNat < 0x80 := by
  rw [Char.utf8Size_eq_one_iff, UInt32.le_iff_toNat_le]
  exact Nat.lt_succ_iff.symm

theorem utf8EncodeChar_ascii {c : Char} (hc : c.toNat < 0x80) : String.utf8EncodeChar c = [UInt8.ofNat c.toNat] :=
  String.utf8EncodeChar_eq_singleton ((utf8Size_eq_one_iff c).2 hc)

theorem utf8EncodeChar_ofNat {x : UInt8} (hx : x < 0x80) : String.utf8EncodeChar (Char.ofNat x.toNat) = [x] := by
  have hchar : (Char.ofNat x.toNat).toNat < 0x80 := by
    rw [toNat_ofNat_byte]
    exact UInt8.lt_iff_toNat_lt.1 hx
  rw [utf8EncodeChar_ascii hchar, toNat_ofNat_byte, UInt8.ofNat_toNat]

theorem decodeIgnore_singleton (x : UInt8) : decodeIgnore [x] = if x < 0x80 then [Char.ofNat x.toNat] else [] := by
  rw [decodeIgnore, decodeFrom]
  split_ifs
  · rfl
  · cases leadByte x with
    | none => rfl
    | some lead =>
      obtain ⟨need, lo, hi⟩ := lead
      cases need <;> rfl

/-! ### Texts -/

/-- Decoding, with any handling of errors, is inverse to encoding. -/
theorem decodeFrom_encode (bad : List Char) (s : List Char) :
    decodeFrom bad 0 0 0 0 (s.flatMap String.utf8EncodeChar) = s := by
  induction s with
  | nil => rfl
  | cons c s ih => rw [List.flatMap_cons, decodeFrom_utf8EncodeChar, ih]

/-- A byte that cannot go on ends the malformed part and is read again as a first byte. -/
private theorem decodeFrom_restart (bad : List Char) (k : ℕ) {lo hi : UInt8} {x : UInt8} (value : ℕ) (bs : List UInt8)
    (hx : ¬(lo ≤ x ∧ x ≤ hi)) :
    decodeFrom bad (k + 1) lo hi value (x :: bs) = bad ++ decodeFrom bad 0 0 0 0 (x :: bs) := by
  conv_lhs => rw [decodeFrom, if_neg hx]
  rw [decodeFrom]
  by_cases h80 : x < 0x80
  · rw [if_pos h80, if_pos h80]
  · rw [if_neg h80, if_neg h80]
    cases leadByte x with
    | none => simp
    | some lead => rfl

/-- The bytes that may stand inside a character. -/
private def Inside (lo hi : UInt8) : Prop := 0x80 ≤ lo ∧ hi ≤ 0xbf

private theorem inside_leadByte {x : UInt8} {k : ℕ} {lo hi : UInt8} (h : leadByte x = some (k, lo, hi)) :
    Inside lo hi := by
  unfold leadByte at h
  split_ifs at h
  all_goals
    simp only [Option.some.injEq, Prod.mk.injEq] at h
    obtain ⟨-, rfl, rfl⟩ := h
    exact ⟨by decide, by decide⟩

/-- What stands in front of a byte that is not inside a character does not matter to it. -/
theorem decodeFrom_append_cons (bad : List Char) {x : UInt8} (hx : x < 0x80 ∨ 0xbf < x) (bs : List UInt8)
    (a : List UInt8) {need : ℕ} {lo hi : UInt8} (value : ℕ) (hstate : need = 0 ∨ Inside lo hi) :
    decodeFrom bad need lo hi value (a ++ x :: bs) =
      decodeFrom bad need lo hi value a ++ decodeFrom bad 0 0 0 0 (x :: bs) := by
  induction a generalizing need lo hi value with
  | nil =>
    cases need with
    | zero => rfl
    | succ k =>
      obtain ⟨hlo, hhi⟩ := hstate.resolve_left (Nat.succ_ne_zero k)
      refine decodeFrom_restart bad k value bs fun h => ?_
      simp only [UInt8.lt_iff_toNat_lt, UInt8.le_iff_toNat_le] at hx hlo hhi h
      omega
  | cons y a ih =>
    have hfirst : ∀ lo hi value, decodeFrom bad 0 lo hi value (y :: a ++ x :: bs) =
        decodeFrom bad 0 lo hi value (y :: a) ++ decodeFrom bad 0 0 0 0 (x :: bs) := by
      intro lo hi value
      rw [List.cons_append, decodeFrom, decodeFrom]
      by_cases h80 : y < 0x80
      · rw [if_pos h80, if_pos h80, ih _ (.inl rfl), List.cons_append]
      · rw [if_neg h80, if_neg h80]
        cases hlead : leadByte y with
        | none => simp only [ih _ (.inl rfl), List.append_assoc]
        | some lead => exact ih _ (.inr (inside_leadByte hlead))
    cases need with
    | zero => exact hfirst lo hi value
    | succ k =>
      by_cases hy : lo ≤ y ∧ y ≤ hi
      · have hnext : ∀ bs, decodeFrom bad (k + 1) lo hi value (y :: bs) =
            if k = 0 then Char.ofNat (64 * value + y.toNat % 64) :: decodeFrom bad 0 0 0 0 bs
            else decodeFrom bad k 0x80 0xbf (64 * value + y.toNat % 64) bs := fun bs => by
          rw [decodeFrom, if_pos hy]
        rw [List.cons_append, hnext, hnext]
        split_ifs with hk
        · rw [ih _ (.inl rfl), List.cons_append]
        · exact ih _ (.inr ⟨by decide, by decide⟩)
      · rw [List.cons_append, decodeFrom_restart bad k value _ hy, decodeFrom_restart bad k value _ hy,
          ← List.cons_append, hfirst, List.append_assoc]

/-- A byte of ASCII or the first byte of a longer sequence starts a character. -/
private theorem exists_cons_utf8EncodeChar (c : Char) :
    ∃ x bs, String.utf8EncodeChar c = x :: bs ∧ (x < 0x80 ∨ 0xbf < x) := by
  have hvalid : c.val.toNat < 0xd800 ∨ 0xdfff < c.val.toNat ∧ c.val.toNat < 0x110000 := c.valid
  unfold String.utf8EncodeChar
  dsimp only
  generalize c.val.toNat = n at hvalid
  split_ifs with h1 h2 h3
  · exact ⟨_, _, rfl, .inl (by rw [UInt8.lt_iff_toNat_lt, toNat_ofNat_lt (by omega)]; exact Nat.lt_succ_of_le h1)⟩
  all_goals
    refine ⟨_, _, rfl, .inr ?_⟩
    rw [UInt8.lt_iff_toNat_lt, toNat_ofNat_lt (by omega)]
    show 191 < _
    omega

/-- The bytes of a character behind others are decoded to it. -/
theorem decodeFrom_append_utf8EncodeChar (bad : List Char) (a : List UInt8) (c : Char) :
    decodeFrom bad 0 0 0 0 (a ++ String.utf8EncodeChar c) = decodeFrom bad 0 0 0 0 a ++ [c] := by
  have hself := decodeFrom_utf8EncodeChar bad c []
  rw [List.append_nil] at hself
  obtain ⟨x, bs, hx, hstart⟩ := exists_cons_utf8EncodeChar c
  rw [hx] at hself ⊢
  rw [decodeFrom_append_cons bad hstart bs a 0 (.inl rfl), hself, decodeFrom]

end PyText
