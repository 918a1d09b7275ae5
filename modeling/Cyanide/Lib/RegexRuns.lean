import Cyanide.Lib.Regex

/-!
# Runs of characters

An expression that is repeated over some characters matches runs of them, and what is found goes as far as it can
(`Chars.head?_ends_star`).  Matches of plain characters are prefixes of the rest of the text, and what a match covers has
only characters that some class of the expression accepts.
-/

namespace Regex

variable {A : Alphabet} {text : List Char} {r s : Regex} {i j : ℕ}

/-- The expression matches runs of these characters, and each of them alone. -/
structure Chars (A : Alphabet) (r : Regex) (p : Char → Bool) : Prop where
  run : ∀ {text : List Char} {i j : ℕ}, MatchesAt A text r i j →
    i < j ∧ ∀ n, i ≤ n → n < j → (text[n]?).any p = true
  single : ∀ {text : List Char} {i : ℕ}, (text[i]?).any p = true → MatchesAt A text r i (i + 1)

variable {p q : Char → Bool}

theorem Chars.char (A : Alphabet) (k : CharClass) : Chars A (char k) (k.accepts A) where
  run h := by
    cases h with
    | char hc hacc =>
      refine ⟨Nat.lt_succ_self _, fun n hin hnj => ?_⟩
      obtain rfl : n = _ := Nat.le_antisymm (Nat.lt_succ_iff.1 hnj) hin
      rw [hc]
      exact hacc
  single h := by
    obtain ⟨c, hc, hacc⟩ := (Option.any_eq_true _ _).1 h
    exact .char hc hacc

theorem Chars.congr (hr : Chars A r p) (h : ∀ c, p c = q c) : Chars A r q := by
  obtain rfl : p = q := funext h
  exact hr

theorem Chars.star_iff (h : Chars A r p) (hi : i ≤ text.length) : MatchesAt A text (star r) i j ↔
    i ≤ j ∧ j ≤ text.length ∧ ∀ n, i ≤ n → n < j → (text[n]?).any p = true := by
  constructor
  · intro hm
    refine ⟨hm.le.1, hm.le.2 hi, ?_⟩
    generalize hq : star r = s at hm
    induction hm with
    | stop r i =>
      intro n hin hni
      omega
    | @next r' i k j hr hs ihr ihs =>
      obtain rfl := Regex.star.inj hq
      intro n hin hnj
      by_cases hnk : n < k
      · exact (h.run hr).2 n hin hnk
      · exact ihs (hr.le.2 hi) rfl n (not_lt.1 hnk) hnj
    | empty i => cases hq
    | char hc h => cases hq
    | boundary h => cases hq
    | seq hr hs _ _ => cases hq
    | left s h _ => cases hq
    | right r h _ => cases hq
  · rintro ⟨hij, hj, hrun⟩
    obtain ⟨d, rfl⟩ := Nat.exists_eq_add_of_le hij
    induction d generalizing i with
    | zero => exact .stop r i
    | succ d ih =>
      refine .next (h.single (hrun i le_rfl (by omega))) ?_
      have hrest := ih (i := i + 1) (by omega) (by omega) (by omega) fun n hin hnj =>
        hrun n (by omega) (by omega)
      rwa [Nat.add_assoc, Nat.add_comm 1] at hrest

/-- One or more of the characters, as in `+`. -/
theorem Chars.plus_iff (h : Chars A r p) (hi : i ≤ text.length) : MatchesAt A text (Regex.seq r (star r)) i j ↔
    i < j ∧ j ≤ text.length ∧ ∀ n, i ≤ n → n < j → (text[n]?).any p = true := by
  constructor
  · intro hm
    cases hm with
    | @seq _ _ _ k _ hr hs =>
      obtain ⟨hik, hrun⟩ := h.run hr
      obtain ⟨hkj, hj, hrest⟩ := (h.star_iff (hr.le.2 hi)).1 hs
      refine ⟨by omega, hj, fun n hin hnj => ?_⟩
      by_cases hnk : n < k
      · exact hrun n hin hnk
      · exact hrest n (not_lt.1 hnk) hnj
  · rintro ⟨hij, hj, hrun⟩
    refine .seq (h.single (hrun i le_rfl hij)) ((h.star_iff (by omega)).2 ⟨hij, hj, fun n hin hnj => ?_⟩)
    exact hrun n (by omega) hnj

/-- What repetition finds first cannot be gone on with. -/
private theorem head?_repeated {step : ℕ → List ℕ} {N : ℕ} (hstep : ∀ i, i ≤ N → ∀ e ∈ step i, e ≤ N) {fuel : ℕ}
    (hi : i ≤ N) (hfuel : N ≤ i + fuel) (h : (repeated step fuel i).head? = some j) :
    j ≤ N ∧ ∀ e ∈ step j, e ≤ j := by
  induction fuel generalizing i with
  | zero =>
    rw [repeated, List.head?_cons, Option.some.injEq] at h
    subst h
    refine ⟨hi, fun e he => ?_⟩
    have hle := hstep i hi e he
    omega
  | succ fuel ih =>
    rw [repeated] at h
    cases hF : (step i).filter (i < ·) with
    | nil =>
      rw [hF, List.flatMap_nil, List.nil_append, List.head?_cons, Option.some.injEq] at h
      subst h
      refine ⟨hi, fun e he => ?_⟩
      simpa using List.filter_eq_nil_iff.1 hF e he
    | cons e es =>
      obtain ⟨he, hlt⟩ := List.mem_filter.1 (hF ▸ List.mem_cons_self : e ∈ (step i).filter (i < ·))
      have hlt' : i < e := by simpa using hlt
      have hne : repeated step fuel e ≠ [] := by cases fuel <;> simp [repeated]
      rw [hF, List.flatMap_cons, List.append_assoc, List.head?_append_of_ne_nil _ hne] at h
      exact ih (hstep i hi e he) (by omega) h

theorem head?_ends_seq (h : (ends A text (Regex.seq r s) i).head? = some j) :
    ∃ m ∈ ends A text r i, (ends A text s m).head? = some j := by
  rw [ends, List.head?_flatMap] at h
  exact List.exists_of_findSome?_eq_some h

/-- A run that is found goes as far as it can. -/
theorem Chars.head?_ends_star (h : Chars A r p) (hi : i ≤ text.length)
    (hj : (ends A text (star r) i).head? = some j) : (text[j]?).any p = false := by
  rw [ends] at hj
  obtain ⟨hle, hstuck⟩ := head?_repeated (fun i hi e he => ((mem_ends hi).1 he).le.2 hi) hi (by omega) hj
  by_contra hany
  rw [Bool.not_eq_false] at hany
  have hmem := (mem_ends hle).2 (h.single hany)
  have hstop := hstuck (j + 1) hmem
  omega

/-! ### Literal texts -/

/-- Plain characters in front of an expression. -/
def literal (s : List Char) (r : Regex) : Regex := s.foldr (fun c r => seq (char (.set false [.letter c])) r) r

/-- Letters are told apart. -/
def Exact (A : Alphabet) : Prop := ∀ c d, A.sameLetter c d = true ↔ c = d

theorem accepts_letter (hA : Exact A) (c d : Char) :
    (CharClass.set false [.letter c]).accepts A d = true ↔ c = d := by
  simp [CharClass.accepts, ClassItem.accepts, hA c d]

theorem matchesAt_literal (hA : Exact A) {t : List Char} : MatchesAt A text (literal t r) i j ↔
    t <+: text.drop i ∧ MatchesAt A text r (i + t.length) j := by
  induction t generalizing i with
  | nil => simp [literal]
  | cons c t ih =>
    show MatchesAt A text (Regex.seq _ (literal t r)) i j ↔ _
    constructor
    · rintro (_ | _ | _ | ⟨hc, hrest⟩)
      cases hc with
      | @char _ _ d hd hacc =>
        obtain rfl := (accepts_letter hA c d).1 hacc
        obtain ⟨hbegin, hr⟩ := ih.1 hrest
        obtain ⟨hlt, heq⟩ := List.getElem?_eq_some_iff.1 hd
        refine ⟨?_, by rwa [List.length_cons, ← Nat.add_assoc, Nat.add_right_comm]⟩
        rw [List.drop_eq_getElem_cons hlt, heq]
        exact List.cons_prefix_cons.2 ⟨rfl, hbegin⟩
    · rintro ⟨hbegin, hr⟩
      have hlt : i < text.length := by
        by_contra hge
        rw [List.drop_eq_nil_of_le (not_lt.1 hge)] at hbegin
        cases List.prefix_nil.1 hbegin
      rw [List.drop_eq_getElem_cons hlt, List.cons_prefix_cons] at hbegin
      obtain ⟨heq, hbegin⟩ := hbegin
      refine .seq (.char (List.getElem?_eq_some_iff.2 ⟨hlt, heq.symm⟩) ((accepts_letter hA c c).2 rfl))
        (ih.2 ⟨hbegin, ?_⟩)
      rwa [List.length_cons, ← Nat.add_assoc, Nat.add_right_comm] at hr

theorem exists_head?_seq (hi : i ≤ text.length) (h : (ends A text (Regex.seq r s) i).head? = some j) :
    ∃ m ≤ text.length, (ends A text s m).head? = some j := by
  obtain ⟨m, hm, hj⟩ := head?_ends_seq h
  exact ⟨m, ((mem_ends hi).1 hm).le.2 hi, hj⟩

theorem exists_head?_literal {t : List Char} (hi : i ≤ text.length)
    (h : (ends A text (literal t r) i).head? = some j) : ∃ m ≤ text.length, (ends A text r m).head? = some j := by
  induction t generalizing i with
  | nil => exact ⟨i, hi, h⟩
  | cons c t ih =>
    obtain ⟨m, hm, hj⟩ := exists_head?_seq hi h
    exact ih hm hj

theorem ends_seq_empty : ends A text (Regex.seq r .empty) i = ends A text r i := by
  rw [ends]
  exact List.flatMap_singleton' _

/-! ### Pieces -/

theorem piece_eq {u v w : List Char} (htext : text = u ++ v ++ w) : piece text (u.length, u.length + v.length) = v := by
  subst htext
  simp [piece]

/-- A piece of a piece. -/
theorem piece_infix {a b : ℕ} (ha : a ≤ i) (hb : j ≤ b) : piece text (i, j) <:+: piece text (a, b) := by
  have hdrop : text.drop i = (text.drop a).drop (i - a) := by rw [List.drop_drop, Nat.add_sub_cancel' ha]
  have htake : (text.drop i).take (j - i) = ((piece text (a, b)).drop (i - a)).take (j - i) := by
    rw [piece, List.drop_take, hdrop, List.take_take, min_eq_left (by omega)]
  rw [piece, htake]
  exact (List.take_prefix _ _).isInfix.trans (List.drop_suffix _ _).isInfix

theorem eq_piece (hij : i ≤ j) (hj : j ≤ text.length) :
    text = text.take i ++ piece text (i, j) ++ text.drop j := by
  have hlen : (piece text (i, j)).length = j - i := by
    rw [piece, List.length_take, List.length_drop]
    omega
  conv_lhs => rw [← List.take_append_drop i text, ← List.take_append_drop (j - i) (text.drop i), List.drop_drop]
  rw [List.append_assoc, Nat.add_sub_cancel' hij]
  rfl

theorem all_piece_iff (hj : j ≤ text.length) {p : Char → Bool} :
    (∀ c ∈ piece text (i, j), p c = true) ↔ ∀ n, i ≤ n → n < j → (text[n]?).any p = true := by
  constructor
  · intro h n hin hnj
    have hlt : n < text.length := by omega
    rw [List.getElem?_eq_getElem hlt]
    refine h _ (List.mem_iff_getElem?.2 ⟨n - i, ?_⟩)
    have hn : n - i < j - i := by omega
    rw [piece, List.getElem?_take_of_lt hn, List.getElem?_drop, Nat.add_sub_cancel' hin, List.getElem?_eq_getElem hlt]
  · intro h c hc
    obtain ⟨m, hm⟩ := List.mem_iff_getElem?.1 hc
    rw [piece, List.getElem?_take] at hm
    split at hm
    · rename_i hlt
      rw [List.getElem?_drop] at hm
      have hany := h (i + m) (Nat.le_add_right i m) (by omega)
      rw [hm] at hany
      exact hany
    · cases hm

/-- The classes of an expression. -/
def classes : Regex → List CharClass
  | empty | boundary => []
  | char k => [k]
  | seq r s | alt r s => classes r ++ classes s
  | star r => classes r

/-- What is matched has only characters that some class of the expression accepts. -/
theorem MatchesAt.any_classes (h : MatchesAt A text r i j) :
    ∀ n, i ≤ n → n < j → (text[n]?).any (fun c => r.classes.any (·.accepts A c)) = true := by
  have mono : ∀ {ks ks' : List CharClass} {n : ℕ}, (∀ k ∈ ks, k ∈ ks') →
      (text[n]?).any (fun c => ks.any (·.accepts A c)) = true →
      (text[n]?).any (fun c => ks'.any (·.accepts A c)) = true := by
    intro ks ks' n hsub hany
    obtain ⟨c, hc, hks⟩ := (Option.any_eq_true _ _).1 hany
    obtain ⟨k, hk, hacc⟩ := List.any_eq_true.1 hks
    exact (Option.any_eq_true _ _).2 ⟨c, hc, List.any_eq_true.2 ⟨k, hsub k hk, hacc⟩⟩
  induction h with
  | empty i => intro n hin hni; omega
  | boundary h => intro n hin hni; omega
  | stop r i => intro n hin hni; omega
  | char hc hacc =>
    intro n hin hnj
    obtain rfl : n = _ := Nat.le_antisymm (Nat.lt_succ_iff.1 hnj) hin
    simp [classes, hc, hacc]
  | @seq r s i k j hr hs ihr ihs =>
    intro n hin hnj
    by_cases hnk : n < k
    · exact mono (fun _ => List.mem_append_left _) (ihr n hin hnk)
    · exact mono (fun _ => List.mem_append_right _) (ihs n (not_lt.1 hnk) hnj)
  | left s h ih => exact fun n hin hnj => mono (fun _ => List.mem_append_left _) (ih n hin hnj)
  | right r h ih => exact fun n hin hnj => mono (fun _ => List.mem_append_right _) (ih n hin hnj)
  | @next r i k j hr hs ihr ihs =>
    intro n hin hnj
    by_cases hnk : n < k
    · exact ihr n hin hnk
    · exact ihs n (not_lt.1 hnk) hnj

/-- The class has no other patterns than that of the digits, and not this character. -/
def avoids (c : Char) : CharClass → Bool
  | .set false items => items.all fun
    | .letter d => d ≠ c
    | .digit => true
    | .word | .space => false
  | _ => false

theorem notMem_of_avoids (hA : Exact A) {c : Char} (hdigit : A.isDigit c = false)
    (hr : ∀ k ∈ classes r, avoids c k = true) {x : List Char} (hx : x ∈ findall A r text) : c ∉ x := by
  obtain ⟨⟨i, j⟩, hspan, rfl⟩ := List.mem_map.1 hx
  obtain ⟨hi, -, hm⟩ := mem_spans hspan
  intro hc
  have hany := (all_piece_iff (hm.le.2 hi)).2 hm.any_classes c hc
  obtain ⟨k, hk, hacc⟩ := List.any_eq_true.1 hany
  match k, hr k hk with
  | .set false items, havoid =>
    obtain ⟨item, hitem, hone⟩ := List.any_eq_true.1 ((Bool.bne_false _).symm.trans hacc)
    have hother := List.all_eq_true.1 havoid item hitem
    cases item with
    | letter d => exact of_decide_eq_true hother ((hA d c).1 hone)
    | digit =>
      have hone' : A.isDigit c = true := hone
      rw [hdigit] at hone'
      cases hone'
    | word => cases hother
    | space => cases hother

/-! ### Alternatives of one character -/

/-- No match is empty. -/
def consumes : Regex → Bool
  | empty | boundary | star _ => false
  | char _ => true
  | seq r s => consumes r || consumes s
  | alt r s => consumes r && consumes s

theorem MatchesAt.lt (h : MatchesAt A text r i j) (hr : consumes r = true) : i < j := by
  induction h with
  | empty | boundary | stop | next => cases hr
  | char => exact Nat.lt_succ_self _
  | seq h₁ h₂ ih₁ ih₂ =>
    rcases Bool.or_eq_true_iff.1 hr with hr | hs
    · exact (ih₁ hr).trans_le h₂.le.1
    · exact h₁.le.1.trans_lt (ih₂ hs)
  | left s h ih => exact ih (Bool.and_eq_true_iff.1 hr).1
  | right r h ih => exact ih (Bool.and_eq_true_iff.1 hr).2

/-- The classes that are alternatives of their own. -/
def singles : Regex → List CharClass
  | char k => [k]
  | seq r empty => singles r
  | alt r s => singles r ++ singles s
  | _ => []

theorem matchesAt_of_singles {c : Char} (hc : text[i]? = some c) {k : CharClass} (hk : k ∈ singles r)
    (hacc : k.accepts A c = true) : MatchesAt A text r i (i + 1) := by
  induction r using singles.induct with
  | case1 k' =>
    rw [singles, List.mem_singleton] at hk
    subst hk
    exact .char hc hacc
  | case2 r ih => exact .seq (ih hk) (.empty _)
  | case3 r s ihr ihs =>
    rcases List.mem_append.1 hk with hk | hk
    · exact .left s (ihr hk)
    · exact .right r (ihs hk)
  | case4 r hchar hseq halt =>
    rw [singles] at hk
    · cases hk
    all_goals simpa using by assumption

/-- What a class accepts is listed in some of the others. -/
def within (ks : List CharClass) : CharClass → Bool
  | .set false items => items.all fun item => ks.any fun k => match k with
    | .set false others => others.contains item
    | _ => false
  | _ => false

theorem any_of_within {ks : List CharClass} {k : CharClass} (h : within ks k = true) {c : Char}
    (hacc : k.accepts A c = true) : ks.any (·.accepts A c) = true := by
  match k, h with
  | .set false items, h =>
    obtain ⟨item, hitem, hc⟩ := List.any_eq_true.1 ((Bool.bne_false _).symm.trans hacc)
    obtain ⟨k', hk', hlisted⟩ := List.any_eq_true.1 (List.all_eq_true.1 h item hitem)
    match k', hlisted with
    | .set false others, hlisted =>
      refine List.any_eq_true.2 ⟨_, hk', (Bool.bne_false _).trans (List.any_eq_true.2 ⟨item, ?_, hc⟩)⟩
      exact List.contains_iff_mem.1 hlisted

/-- Alternatives of one character, with others that only match what is a run of these. -/
theorem Chars.of_singles (A : Alphabet) (hr : consumes r = true)
    (hwithin : ∀ k ∈ classes r, within (singles r) k = true) :
    Chars A r fun c => (singles r).any (·.accepts A c) where
  run h := by
    refine ⟨h.lt hr, fun n hin hnj => ?_⟩
    obtain ⟨c, hc, hany⟩ := (Option.any_eq_true _ _).1 (h.any_classes n hin hnj)
    obtain ⟨k, hk, hacc⟩ := List.any_eq_true.1 hany
    exact (Option.any_eq_true _ _).2 ⟨c, hc, any_of_within (hwithin k hk) hacc⟩
  single h := by
    obtain ⟨c, hc, hany⟩ := (Option.any_eq_true _ _).1 h
    obtain ⟨k, hk, hacc⟩ := List.any_eq_true.1 hany
    exact matchesAt_of_singles hc hk hacc

end Regex
