import Mathlib.Tactic.IntervalCases
import Cyanide.Shell.Emulator
import Cyanide.Vfs.SftpAttrs

/-!
# Permission strings

A permission string of the right form is the letter of the kind followed by the letters of nine bits
(`permFormat_iff`), and `check_permission`, `_parse_mode` and `_perm_to_mode` then read the same nine bits off it
(`readAs_permString`).  The modes of `chmod` keep the form (`chmodPerms_keeps`): an octal one
gives its last three digits (`chmodPerms_octal`), and a symbolic one sets letters in their places
(`applyRelativeMode_keeps`).
-/

namespace Cyanide

open PosixPath PyText

/-! ### The form -/

/-- `r`, `w` and `x` in their places, or dashes. -/
def isTriple : Str → Bool
  | [r, w, x] => (r = 'r' || r = '-') && (w = 'w' || w = '-') && (x = 'x' || x = '-')
  | _ => false

/-- The letter of a kind of node. -/
def kindLetter (dir : Bool) : Char := if dir then 'd' else '-'

/-- Ten characters: the letter of the kind, and three triples. -/
structure PermFormat (dir : Bool) (perm : Str) : Prop where
  length : perm.length = 10
  kind : perm.head? = some (kindLetter dir)
  triples : ∀ i < 3, isTriple ((perm.drop (1 + 3 * i)).take 3) = true

/-- The letters of an octal digit. -/
def digitLetters (digit : ℕ) : Str :=
  [if digit / 4 % 2 = 1 then 'r' else '-', if digit / 2 % 2 = 1 then 'w' else '-', if digit % 2 = 1 then 'x' else '-']

/-- The permission string with the nine bits `m`. -/
def permString (dir : Bool) (m : ℕ) : Str := kindLetter dir :: octalToStr m

theorem octalToStr_eq (m : ℕ) :
    octalToStr m = digitLetters (m / 64 % 8) ++ (digitLetters (m / 8 % 8) ++ digitLetters (m % 8)) := by
  have hzero : m / 8 ^ 0 % 8 = m % 8 := by rw [pow_zero, Nat.div_one]
  simp only [octalToStr, List.flatMap_cons, List.flatMap_nil, List.append_nil, digitLetters, hzero, pow_one]
  rfl

@[simp] theorem length_digitLetters (digit : ℕ) : (digitLetters digit).length = 3 := rfl

@[simp] theorem isTriple_digitLetters (digit : ℕ) : isTriple (digitLetters digit) = true := by
  unfold digitLetters isTriple
  split_ifs <;> rfl

theorem isTriple_iff {t : Str} : isTriple t = true ↔ ∃ digit < 8, t = digitLetters digit := by
  constructor
  · intro h
    obtain ⟨r, w, x, rfl⟩ : ∃ r w x, t = [r, w, x] := by
      unfold isTriple at h
      split at h
      · exact ⟨_, _, _, rfl⟩
      · cases h
    simp only [isTriple, Bool.and_eq_true, Bool.or_eq_true, decide_eq_true_eq] at h
    obtain ⟨⟨hr, hw⟩, hx⟩ := h
    rcases hr with rfl | rfl <;> rcases hw with rfl | rfl <;> rcases hx with rfl | rfl
    · exact ⟨7, by decide, rfl⟩
    · exact ⟨6, by decide, rfl⟩
    · exact ⟨5, by decide, rfl⟩
    · exact ⟨4, by decide, rfl⟩
    · exact ⟨3, by decide, rfl⟩
    · exact ⟨2, by decide, rfl⟩
    · exact ⟨1, by decide, rfl⟩
    · exact ⟨0, by decide, rfl⟩
  · rintro ⟨digit, -, rfl⟩
    exact isTriple_digitLetters digit

theorem permFormat_permString (dir : Bool) (m : ℕ) : PermFormat dir (permString dir m) where
  length := by rw [permString, octalToStr_eq]; rfl
  kind := rfl
  triples i hi := by
    rw [permString, octalToStr_eq, Nat.add_comm, List.drop_succ_cons]
    match i, hi with
    | 0, _ => exact isTriple_digitLetters _
    | 1, _ => exact isTriple_digitLetters _
    | 2, _ => exact isTriple_digitLetters _

/-- A permission string of the right form is that of nine bits. -/
theorem permFormat_iff {dir : Bool} {perm : Str} : PermFormat dir perm ↔ ∃ m < 0o1000, perm = permString dir m := by
  constructor
  · rintro ⟨hlength, hkind, htriples⟩
    obtain ⟨rest, rfl⟩ : ∃ rest, perm = kindLetter dir :: rest := by
      cases perm with
      | nil => cases hkind
      | cons c rest =>
        obtain rfl := Option.some.inj hkind
        exact ⟨rest, rfl⟩
    have hnine : rest.length = 9 := Nat.succ.inj hlength
    obtain ⟨a, ha, hrest0⟩ := isTriple_iff.1 (htriples 0 (by decide))
    obtain ⟨b, hb, hrest1⟩ := isTriple_iff.1 (htriples 1 (by decide))
    obtain ⟨c, hc, hrest2⟩ := isTriple_iff.1 (htriples 2 (by decide))
    simp only [Nat.add_comm 1, List.drop_succ_cons, Nat.mul_zero, Nat.mul_one, List.drop_zero] at hrest0 hrest1 hrest2
    -- the three digits that the triples are the letters of
    refine ⟨64 * a + 8 * b + c, by omega, ?_⟩
    have hsplit : rest = rest.take 3 ++ ((rest.drop 3).take 3 ++ (rest.drop 6).take 3) := by
      rw [List.take_of_length_le (l := rest.drop 6) (by rw [List.length_drop]; omega),
        ← List.drop_drop (i := 3) (j := 3), List.take_append_drop, List.take_append_drop]
    rw [permString, octalToStr_eq, hsplit, hrest0, hrest1, hrest2]
    have h0 : (64 * a + 8 * b + c) / 64 % 8 = a := by omega
    have h1 : (64 * a + 8 * b + c) / 8 % 8 = b := by omega
    have h2 : (64 * a + 8 * b + c) % 8 = c := by omega
    rw [h0, h1, h2]
  · rintro ⟨m, -, rfl⟩
    exact permFormat_permString dir m

theorem permString_mod (dir : Bool) (m : ℕ) : permString dir m = permString dir (m % 0o1000) := by
  have h0 : m % 0o1000 / 64 % 8 = m / 64 % 8 := by omega
  have h1 : m % 0o1000 / 8 % 8 = m / 8 % 8 := by omega
  have h2 : m % 0o1000 % 8 = m % 8 := by omega
  rw [permString, permString, octalToStr_eq, octalToStr_eq, h0, h1, h2]

/-! ### The readers -/

/-- The tables say of the ASCII characters what they are. -/
structure AsciiTables (U : Unicode) : Prop where
  isDigit : ∀ c : Char, c.toNat < 0x80 → U.isDigit c = c.isDigit
  decimal : ∀ c : Char, c.toNat < 0x80 → U.decimal c = ascii.decimal c

theorem asciiTables_ascii : AsciiTables ascii := ⟨fun _ _ => rfl, fun _ _ => rfl⟩

/-- Which of the three triples `check_permission` looks at. -/
def ShellEmulator.scope (e : ShellEmulator) (node : Node) : ℕ :=
  if e.username = node.owner then 2 else if e.username = node.group then 1 else 0

/-- The three readers of the permission string of a node see the nine bits `m`: `check_permission`, of those who are not
root and a path that is not root's, `_parse_mode` behind the type bits, and `_perm_to_mode`. -/
structure ReadAs (U : Unicode) (node : Node) (m : ℕ) : Prop where
  bound : m < 0o1000
  check : ∀ (e : ShellEmulator) (path mode : Str), e.fs.getNode path = some node → e.username ≠ root →
    inRoot (resolvePath e.cwd path) = false →
      checkPermission e path mode = [('r', 2), ('w', 1), ('x', 0)].all fun (c, i) =>
        !mode.contains c || m.testBit (3 * e.scope node + i)
  sftp : CyanideSFTPHandler.parseMode U node.perm node.isDir = CyanideSFTPHandler.typeBits node.isDir + m
  scp : ScpHandler.permToMode node.perm = m

/-- The three triples of a permission string. -/
theorem triples_permString (dir : Bool) (m : ℕ) :
    ((permString dir m).drop 7).take 3 = digitLetters (m % 8) ∧
      ((permString dir m).drop 4).take 3 = digitLetters (m / 8 % 8) ∧
        ((permString dir m).drop 1).take 3 = digitLetters (m / 64 % 8) := by
  rw [permString, octalToStr_eq]
  exact ⟨rfl, rfl, rfl⟩

theorem contains_digitLetters (digit : ℕ) :
    (digitLetters digit).contains 'r' = digit.testBit 2 ∧ (digitLetters digit).contains 'w' = digit.testBit 1 ∧
      (digitLetters digit).contains 'x' = digit.testBit 0 := by
  simp only [Nat.testBit_eq_decide_div_mod_eq, digitLetters, pow_zero, pow_one, Nat.div_one]
  have hfour : 2 ^ 2 = 4 := rfl
  rw [hfour]
  refine ⟨?_, ?_, ?_⟩ <;> split_ifs <;> simp_all

/-- The answer of `check_permission` is that of the digit of the scope. -/
private theorem checkPermission_permString {e : ShellEmulator} {path mode : Str} {node : Node} {dir : Bool} {m : ℕ}
    (hnode : e.fs.getNode path = some node) (hperm : node.perm = permString dir m) (huser : e.username ≠ root)
    (hroot : inRoot (resolvePath e.cwd path) = false) :
    checkPermission e path mode = [('r', 2), ('w', 1), ('x', 0)].all fun (c, i) =>
      !mode.contains c || m.testBit (3 * e.scope node + i) := by
  obtain ⟨hother, hgroup, howner⟩ := triples_permString dir m
  have hbits : ∀ k i, i < 3 → (m / 8 ^ k % 8).testBit i = m.testBit (3 * k + i) := by
    intro k i hi
    have hpow : 2 ^ (3 * k + i) = 8 ^ k * 2 ^ i := by rw [pow_add, pow_mul]; rfl
    rw [Nat.testBit_eq_decide_div_mod_eq, Nat.testBit_eq_decide_div_mod_eq, hpow, ← Nat.div_div_eq_div_mul]
    generalize m / 8 ^ k = n
    have : n % 8 / 2 ^ i % 2 = n / 2 ^ i % 2 := by
      match i, hi with
      | 0, _ => omega
      | 1, _ => omega
      | 2, _ => omega
    rw [this]
  have hscope : ∀ k, (['r', 'w', 'x'].all fun c =>
      !mode.contains c || (digitLetters (m / 8 ^ k % 8)).contains c) =
      [('r', 2), ('w', 1), ('x', 0)].all fun (c, i) => !mode.contains c || m.testBit (3 * k + i) := by
    intro k
    obtain ⟨hr, hw, hx⟩ := contains_digitLetters (m / 8 ^ k % 8)
    simp only [List.all_cons, List.all_nil, hr, hw, hx, hbits k _ (by decide : 2 < 3), hbits k _ (by decide : 1 < 3),
      hbits k _ (by decide : 0 < 3)]
  unfold checkPermission ShellEmulator.scope
  rw [if_neg huser, hroot, if_neg Bool.false_ne_true, hnode]
  dsimp only
  rw [hperm, hother, hgroup, howner]
  split_ifs
  · exact hscope 2
  · exact hscope 1
  · have hlast := hscope 0
    rw [pow_zero, Nat.div_one] at hlast
    exact hlast

open CyanideSFTPHandler in
private theorem chunkValue_digitLetters {digit : ℕ} (hdigit : digit < 8) : chunkValue (digitLetters digit) = digit := by
  interval_cases digit <;> rfl

/-- Nine bits are put together from their octal digits. -/
private theorem lor_digits {m : ℕ} (hm : m < 0o1000) : ((m / 64 % 8) <<< 3 ||| m / 8 % 8) <<< 3 ||| m % 8 = m := by
  have hor : ∀ n d, d < 8 → n <<< 3 ||| d = 8 * n + d := by
    intro n d hd
    rw [← Nat.shiftLeft_add_eq_or_of_lt (i := 3) hd, Nat.shiftLeft_eq]
    omega
  rw [hor _ _ (Nat.mod_lt _ (by decide)), hor _ _ (Nat.mod_lt _ (by decide))]
  omega

open CyanideSFTPHandler in
/-- The chunks of a permission string are its octal digits. -/
private theorem chunksMode_permString {m : ℕ} (hm : m < 0o1000) : chunksMode 0 (octalToStr m) = m := by
  have hchunks : ∀ a b c, chunksMode 0 (digitLetters a ++ (digitLetters b ++ digitLetters c)) =
      ((0 <<< 3 ||| chunkValue (digitLetters a)) <<< 3 ||| chunkValue (digitLetters b)) <<< 3 |||
        chunkValue (digitLetters c) := fun _ _ _ => rfl
  have hdigit : ∀ n, n % 8 < 8 := fun n => Nat.mod_lt n (by decide)
  rw [octalToStr_eq, hchunks, chunkValue_digitLetters (hdigit _), chunkValue_digitLetters (hdigit _),
    chunkValue_digitLetters (hdigit _), Nat.zero_shiftLeft, Nat.zero_or, lor_digits hm]

open CyanideSFTPHandler in
private theorem parseMode_permString {U : Unicode} (hU : AsciiTables U) (dir isDir : Bool) {m : ℕ}
    (hm : m < 0o1000) : parseMode U (permString dir m) isDir = typeBits isDir + m := by
  have hnine : (octalToStr m).take 9 = octalToStr m := by
    rw [octalToStr_eq]
    rfl
  -- the type bits are above the nine bits
  have hletters : typeBits isDir ||| m = typeBits isDir + m := by
    cases isDir
    · exact (Nat.two_pow_add_eq_or_of_lt (i := 15) (by omega) 1).symm
    · exact (Nat.two_pow_add_eq_or_of_lt (i := 14) (by omega) 1).symm
  have hkind : U.isDigit (kindLetter dir) = false := by
    rw [hU.isDigit _ (by cases dir <;> decide)]
    cases dir <;> rfl
  -- a letter of a kind is no digit, so that the text is not taken for a number
  have hdigits : ¬((permString dir m ≠ [] ∧ (permString dir m).all U.isDigit) ∨
      ((permString dir m).head? = some '0' ∧ 1 < (permString dir m).length)) := by
    rintro (⟨-, hall⟩ | ⟨hzero, -⟩)
    · rw [permString, List.all_cons, hkind] at hall
      cases hall
    · cases dir <;> cases hzero
  unfold parseMode
  dsimp only
  rw [if_neg hdigits, if_pos (by cases dir; exacts [.inr rfl, .inl rfl]), permString, List.drop_succ_cons, List.drop_zero,
    hnine, chunksMode_permString hm, hletters]

/-- The loop of `_perm_to_mode` over the letters of a digit. -/
private theorem foldl_digitLetters {digit : ℕ} (hdigit : digit < 8) (mode j : ℕ) :
    ((digitLetters digit).zipIdx (3 * j)).foldl (fun mode (c, i) =>
      let bit := if c = 'r' then 4 else if c = 'w' then 2 else if c = 'x' then 1 else 0
      mode ||| bit <<< (3 * (2 - i / 3))) mode = mode ||| digit <<< (3 * (2 - j)) := by
  have h0 : 3 * j / 3 = j := by omega
  have h1 : (3 * j + 1) / 3 = j := by omega
  have h2 : (3 * j + 1 + 1) / 3 = j := by omega
  interval_cases digit <;>
    simp [digitLetters, List.zipIdx_cons, h0, h1, h2, Nat.or_assoc, ← Nat.shiftLeft_or_distrib]

open ScpHandler in
private theorem permToMode_permString (dir : Bool) {m : ℕ} (hm : m < 0o1000) : permToMode (permString dir m) = m := by
  have hlength : (permString dir m).length = 10 := (permFormat_permString dir m).length
  have hnine : ((permString dir m).drop 1).take 9 = octalToStr m := by
    rw [permString, octalToStr_eq]
    rfl
  have hdigit : ∀ n, n % 8 < 8 := fun n => Nat.mod_lt n (by decide)
  have hbits : ((0 ||| (m / 64 % 8) <<< (3 * (2 - 0))) ||| (m / 8 % 8) <<< (3 * (2 - 1))) ||| (m % 8) <<< (3 * (2 - 2)) =
      m := by
    have hshift : (m / 64 % 8) <<< (3 * (2 - 0)) = (m / 64 % 8) <<< 3 <<< 3 := Nat.shiftLeft_add _ 3 3
    rw [Nat.zero_or, hshift]
    exact (congrArg (· ||| m % 8) (Nat.shiftLeft_or_distrib (i := 3)).symm).trans (lor_digits hm)
  unfold permToMode
  rw [if_neg (by omega), hnine, octalToStr_eq, List.zipIdx_append, List.zipIdx_append, List.foldl_append,
    List.foldl_append, length_digitLetters, length_digitLetters, foldl_digitLetters (hdigit _) 0 0,
    foldl_digitLetters (hdigit _) _ 1, foldl_digitLetters (hdigit _) _ 2, hbits]

/-- The readers agree on every permission string of the right form. -/
theorem readAs_permString {U : Unicode} (hU : AsciiTables U) {node : Node} {dir : Bool} {m : ℕ} (hm : m < 0o1000)
    (hperm : node.perm = permString dir m) : ReadAs U node m where
  bound := hm
  check _ _ _ hnode huser hroot := checkPermission_permString hnode hperm huser hroot
  sftp := by rw [hperm, parseMode_permString hU dir node.isDir hm]
  scp := by rw [hperm, permToMode_permString dir hm]

/-! ### The modes of `chmod` -/

/-- The letter of a place in a triple. -/
def placeLetter (i : ℕ) : Char := if i % 3 = 0 then 'r' else if i % 3 = 1 then 'w' else 'x'

/-- The characters behind the letter of the kind. -/
structure PermLetters (perms : Str) : Prop where
  length : perms.length = 9
  letter : ∀ i c, perms[i]? = some c → c = '-' ∨ c = placeLetter i

theorem PermLetters.triple {perms : Str} (h : PermLetters perms) {k : ℕ} (hk : k < 3) :
    isTriple ((perms.drop (3 * k)).take 3) = true := by
  have hlength := h.length
  have hplace : ∀ j < 3, perms[3 * k + j]? = some '-' ∨ perms[3 * k + j]? = some (placeLetter j) := by
    intro j hj
    obtain ⟨c, hc⟩ : ∃ c, perms[3 * k + j]? = some c := ⟨_, List.getElem?_eq_getElem (by omega)⟩
    have hletter : placeLetter (3 * k + j) = placeLetter j := by
      rw [placeLetter, placeLetter, Nat.mul_add_mod]
    rcases h.letter _ c hc with rfl | rfl
    · exact .inl hc
    · exact .inr (hletter ▸ hc)
  have htriple : (perms.drop (3 * k)).take 3 =
      (perms[3 * k + 0]?.toList ++ perms[3 * k + 1]?.toList ++ perms[3 * k + 2]?.toList) := by
    rw [List.drop_eq_getElem_cons (by omega), List.drop_eq_getElem_cons (by omega),
      List.drop_eq_getElem_cons (by omega), List.getElem?_eq_getElem (by omega), List.getElem?_eq_getElem (by omega),
      List.getElem?_eq_getElem (by omega)]
    rfl
  rw [htriple]
  rcases hplace 0 (by decide) with h0 | h0 <;> rcases hplace 1 (by decide) with h1 | h1 <;>
    rcases hplace 2 (by decide) with h2 | h2 <;> rw [h0, h1, h2] <;> rfl

theorem permLetters_octalToStr (m : ℕ) : PermLetters (octalToStr m) where
  length := by rw [octalToStr_eq]; rfl
  letter i c hc := by
    rw [octalToStr_eq] at hc
    have hi : i < 9 := (List.getElem?_eq_some_iff.1 hc).1
    interval_cases i <;> obtain rfl := Option.some.inj hc <;> split_ifs <;> simp [placeLetter]

theorem permFormat_cons_iff {dir : Bool} {perms : Str} :
    PermFormat dir (kindLetter dir :: perms) ↔ PermLetters perms := by
  constructor
  · intro h
    obtain ⟨m, -, hm⟩ := permFormat_iff.1 h
    obtain rfl := (List.cons.inj hm).2
    exact permLetters_octalToStr m
  · intro h
    refine ⟨by rw [List.length_cons, h.length], rfl, fun i hi => ?_⟩
    rw [Nat.add_comm, List.drop_succ_cons]
    exact h.triple hi

/-- A loop that never fails keeps what its steps keep. -/
private theorem foldlM_keeps {α β : Type} {P : β → Prop} {f : β → α → Option β} {l : List α}
    (h : ∀ a ∈ l, ∀ b, P b → ∃ b', f b a = some b' ∧ P b') {b : β} (hb : P b) :
    ∃ b', l.foldlM f b = some b' ∧ P b' := by
  induction l generalizing b with
  | nil => exact ⟨b, rfl, hb⟩
  | cons a l ih =>
    obtain ⟨b', hstep, hb'⟩ := h a (by simp) b hb
    obtain ⟨b'', hrest, hb''⟩ := ih (fun a ha => h a (by simp [ha])) hb'
    refine ⟨b'', ?_, hb''⟩
    rw [List.foldlM_cons, hstep]
    exact hrest

theorem PermLetters.set {perms : Str} (h : PermLetters perms) (i : ℕ) {c : Char} (hc : c = '-' ∨ c = placeLetter i) :
    PermLetters (perms.set i c) where
  length := by rw [List.length_set, h.length]
  letter j d hd := by
    rw [List.getElem?_set] at hd
    split_ifs at hd with hij hlt
    · obtain rfl := Option.some.inj hd
      exact hij ▸ hc
    · exact h.letter j d hd

/-- An operator sets the letters of a group in their places. -/
theorem updatePermGroup_keeps (who : Char) (op : Char) (what : Str) {perms : Str} (h : PermLetters perms) :
    ∃ perms', updatePermGroup (groupStart who) op what perms = some perms' ∧ PermLetters perms' := by
  have hstart : groupStart who % 3 = 0 ∧ groupStart who ≤ 6 := by
    unfold groupStart
    split_ifs <;> decide
  refine foldlM_keeps (fun p hp perms h => ?_) h
  obtain ⟨i, c⟩ := p
  have hplace : i < 3 ∧ c = placeLetter i := by
    simp only [List.mem_cons, Prod.mk.injEq, List.not_mem_nil, or_false] at hp
    rcases hp with ⟨rfl, rfl⟩ | ⟨rfl, rfl⟩ | ⟨rfl, rfl⟩ <;> decide
  have hletter : placeLetter (groupStart who + i) = c := by
    rw [hplace.2, placeLetter, placeLetter, Nat.add_mod, hstart.1, Nat.zero_add, Nat.mod_mod]
  have hbound : groupStart who + i < perms.length := by
    have := h.length
    omega
  have hset : ∀ l, l = '-' ∨ l = c → ∃ perms', (if groupStart who + i < perms.length then
      some (perms.set (groupStart who + i) l) else none) = some perms' ∧ PermLetters perms' := by
    intro l hl
    exact ⟨_, if_pos hbound, h.set _ (by rw [hletter]; exact hl)⟩
  dsimp only
  -- an operator other than the three, or `+` and `-` with a letter that is not given, leaves the place alone
  split
  · exact ⟨perms, rfl, h⟩
  · rename_i l hl
    refine hset l ?_
    split_ifs at hl
    · exact .inr (Option.some.inj hl).symm
    · exact .inl (Option.some.inj hl).symm
    · exact .inl (Option.some.inj hl).symm

theorem applyRelativeMode_keeps (mode : Str) {perms : Str} (h : PermLetters perms) :
    ∃ perms', applyRelativeMode mode perms = some perms' ∧ PermLetters perms' := by
  unfold applyRelativeMode
  dsimp only
  split
  · exact ⟨perms, rfl, h⟩
  · split_ifs
    · exact foldlM_keeps (fun who _ _ h => updatePermGroup_keeps who _ _ h) h
    · exact foldlM_keeps (fun who _ _ h => updatePermGroup_keeps who _ _ h) h
    · exact ⟨perms, rfl, h⟩

/-- Every mode of `chmod` keeps the form. -/
theorem chmodPerms_keeps (W : World) (mode : Str) {perms : Str} (h : PermLetters perms) :
    ∃ perms', chmodPerms W mode perms = some perms' ∧ PermLetters perms' := by
  unfold chmodPerms
  split_ifs
  · cases readOctal W mode with
    | none => exact ⟨perms, rfl, h⟩
    | some octal => exact ⟨octalToStr octal, rfl, permLetters_octalToStr octal⟩
  · exact applyRelativeMode_keeps mode h

/-- A text of octal digits. -/
def IsOctal (mode : Str) : Prop := mode ≠ [] ∧ ∀ c ∈ mode, '0' ≤ c ∧ c ≤ '7'

/-- The number that octal digits are the digits of. -/
def octalValue (mode : Str) : ℕ := mode.foldl (fun n c => 8 * n + (c.toNat - '0'.toNat)) 0

/-- A valid octal mode gives its number. -/
theorem chmodPerms_octal {W : World} (hU : AsciiTables W.unicode) {mode : Str} (hmode : IsOctal mode) (perms : Str) :
    chmodPerms W mode perms = some (octalToStr (octalValue mode)) := by
  have hbounds : ∀ c : Char, '0' ≤ c → c ≤ '7' → 48 ≤ c.toNat ∧ c.toNat ≤ 55 := fun c h0 h7 => ⟨h0, h7⟩
  have hdigit : ∀ c ∈ mode, c.isDigit = true ∧ c.toNat < 0x80 ∧ c.toNat - '0'.toNat < 8 := by
    intro c hc
    obtain ⟨hlow, hhigh⟩ := hbounds c (hmode.2 c hc).1 (hmode.2 c hc).2
    have hzero : '0'.toNat = 48 := rfl
    have hnine : '9'.toNat = 57 := rfl
    refine ⟨?_, by omega, by omega⟩
    rw [Char.isDigit_iff_toNat]
    omega
  have hread : ∀ (l : Str) (n : ℕ), (∀ c ∈ l, c ∈ mode) →
      l.foldlM (fun n c => (W.unicode.decimal c).bind fun d => if d < 8 then some (8 * n + d) else none) n =
        some (l.foldl (fun n c => 8 * n + (c.toNat - '0'.toNat)) n) := by
    intro l
    induction l with
    | nil => exact fun _ _ => rfl
    | cons c l ih =>
      intro n hl
      obtain ⟨hc, hascii, hlt⟩ := hdigit c (hl c (by simp))
      have hdecimal : W.unicode.decimal c = some (c.toNat - '0'.toNat) := by
        rw [hU.decimal c hascii]
        exact if_pos hc
      rw [List.foldlM_cons, hdecimal, Option.bind_some, if_pos hlt, List.foldl_cons]
      exact ih _ fun c hc => hl c (by simp [hc])
  have hall : mode.all W.unicode.isDigit = true := by
    rw [List.all_eq_true]
    intro c hc
    rw [hU.isDigit c (hdigit c hc).2.1]
    exact (hdigit c hc).1
  unfold chmodPerms readOctal
  rw [if_pos ⟨hmode.1, hall⟩, hread mode 0 fun _ hc => hc]
  rfl

end Cyanide
