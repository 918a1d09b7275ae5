import Cyanide.Shell.CommandLine

/-!
# Expansion of variables

`_expand_vars` replaces the braced references of a line first, and then the simple references of the text that has
their values, wherever they stand.  `expandOnce` is the expansion in one pass over the line that knows single quotes.
They agree where no reference is quoted and where the values of the braced references form no reference
(`expandVars_once`).
-/

namespace Cyanide

open PosixPath PyText Shlex

section

variable (U : Unicode)

/-- A reference behind a dollar sign, of either form. -/
def reference (s : Str) : Option (Str × ℕ) := (bracedReference U s).or (simpleReference U s)

/-- What the expansion is meant to be: each reference outside of single quotes is replaced once. -/
def expandOnce (env : Dict Str) : Quoting → (skip : ℕ) → Str → Str
  | _, _, [] => []
  | x, skip + 1, c :: cs => expandOnce env (x.next c) skip cs
  | x, 0, c :: cs =>
    match if c = '$' ∧ x ≠ .quoted '\'' then reference U cs else none with
    | some (name, length) => (env.lookup name).getD [] ++ expandOnce env (x.next c) length cs
    | none => c :: expandOnce env (x.next c) 0 cs

/-- A reference stands inside single quotes. -/
def QuotedReference (x : Quoting) (line : Str) : Prop :=
  ∃ before after, line = before ++ '$' :: after ∧ quotingAfter x before = .quoted '\'' ∧ (reference U after).isSome

def BracedReference (line : Str) : Prop :=
  ∃ before after, line = before ++ '$' :: after ∧ (bracedReference U after).isSome

/-- The line with the values of the braced references.  A character is marked when the character before it is the one
that it follows in the line. -/
def bracedValues (env : Dict Str) : (joined : Bool) → (skip : ℕ) → Str → List (Char × Bool)
  | _, _, [] => []
  | joined, skip + 1, _ :: cs => bracedValues env joined skip cs
  | joined, 0, c :: cs =>
    match if c = '$' then bracedReference U cs else none with
    | some (name, length) => ((env.lookup name).getD []).map (·, false) ++ bracedValues env false length cs
    | none => (c, joined) :: bracedValues env true 0 cs

/-- A name behind a dollar sign goes on over the edge of a value, or is inside of one. -/
def FormsReference (t : List (Char × Bool)) : Prop :=
  ∃ before x after, t = before ++ x :: after ∧ x.1 = '$' ∧
    ∃ y ∈ after.take (varName U (after.map Prod.fst)).length, y.2 = false

/-- The tables have the word characters of ASCII. -/
def AgreesOnAscii : Prop := ∀ c : Char, c.toNat < 128 → U.isWord c = ascii.isWord c

end

variable {U : Unicode} {env : Dict Str}

/-! ### Names -/

theorem varName_isPrefix (U : Unicode) (s : Str) : varName U s <+: s := by
  cases s with
  | nil => exact List.nil_prefix
  | cons c cs =>
    rw [varName]
    split_ifs
    · exact List.cons_prefix_cons.2 ⟨rfl, List.takeWhile_prefix _⟩
    · exact List.nil_prefix

theorem isWord_dollar (hU : AgreesOnAscii U) : U.isWord '$' = false := hU '$' (by decide)

theorem dollar_notMem_varName (hU : AgreesOnAscii U) (s : Str) : '$' ∉ varName U s := by
  cases s with
  | nil => exact List.not_mem_nil
  | cons c cs =>
    rw [varName]
    split_ifs with hc
    · intro hmem
      rcases List.mem_cons.1 hmem with rfl | hmem
      · revert hc
        decide
      · have hword := List.mem_takeWhile_imp hmem
        rw [isWord_dollar hU] at hword
        cases hword
    · exact List.not_mem_nil

theorem simpleReference_eq_none_iff {s : Str} : simpleReference U s = none ↔ varName U s = [] := by
  simp [simpleReference]

theorem simpleReference_eq_some {s name : Str} {n : ℕ} (h : simpleReference U s = some (name, n)) :
    varName U s = name ∧ s.take n = name := by
  simp only [simpleReference] at h
  split_ifs at h
  cases h
  exact ⟨rfl, List.prefix_iff_eq_take.1 (varName_isPrefix U s) ▸ rfl⟩

theorem bracedReference_eq_some {s name : Str} {n : ℕ} (h : bracedReference U s = some (name, n)) :
    (∃ cs, s = '{' :: cs ∧ varName U cs = name) ∧ s.take n = '{' :: (name ++ ['}']) := by
  unfold bracedReference at h
  split at h
  · next cs =>
    simp only at h
    split_ifs at h with hname
    cases h
    refine ⟨⟨cs, rfl, rfl⟩, ?_⟩
    obtain ⟨rest, hrest⟩ := varName_isPrefix U cs
    generalize varName U cs = name at hname hrest
    subst hrest
    rw [List.drop_left] at hname
    have hclose : rest.take 1 = ['}'] := by
      cases rest with
      | nil => cases hname.2
      | cons d rest => rw [Option.some.inj hname.2, List.take_succ_cons, List.take_zero]
    rw [List.take_succ_cons, List.take_length_add_append, hclose]
  · cases h

/-- A reference has one dollar sign, the one in front. -/
theorem dollar_notMem_take (hU : AgreesOnAscii U) {s name : Str} {n : ℕ} (h : reference U s = some (name, n)) :
    '$' ∉ s.take n := by
  rw [reference, Option.or_eq_some_iff] at h
  rcases h with h | ⟨-, h⟩
  · obtain ⟨⟨cs, -, rfl⟩, htake⟩ := bracedReference_eq_some h
    rw [htake, List.mem_cons, List.mem_append, List.mem_singleton]
    rintro (h | h | h)
    · cases h
    · exact dollar_notMem_varName hU cs h
    · cases h
  · obtain ⟨rfl, htake⟩ := simpleReference_eq_some h
    rw [htake]
    exact dollar_notMem_varName hU s

/-! ### Passes -/

theorem replaceReferences_append (r : Str → Option (Str × ℕ)) (env : Dict Str) {w : Str} (hw : '$' ∉ w) (t : Str) :
    replaceReferences r env 0 (w ++ t) = w ++ replaceReferences r env 0 t := by
  induction w with
  | nil => rfl
  | cons c w ih =>
    rw [List.mem_cons, not_or] at hw
    rw [List.cons_append, replaceReferences, if_neg (Ne.symm hw.1), List.cons_append]
    exact congrArg (c :: ·) (ih hw.2)

theorem replaceReferences_drop (r : Str → Option (Str × ℕ)) (env : Dict Str) (n : ℕ) (s : Str) :
    replaceReferences r env n s = replaceReferences r env 0 (s.drop n) := by
  induction s generalizing n with
  | nil => rw [List.drop_nil, replaceReferences, replaceReferences]
  | cons c cs ih =>
    cases n with
    | zero => rfl
    | succ n => exact ih n

theorem bracedValues_drop (env : Dict Str) (joined : Bool) (n : ℕ) (s : Str) :
    bracedValues U env joined n s = bracedValues U env joined 0 (s.drop n) := by
  induction s generalizing n with
  | nil => rw [List.drop_nil, bracedValues, bracedValues]
  | cons c cs ih =>
    cases n with
    | zero => rfl
    | succ n => exact ih n

theorem bracedValues_append (env : Dict Str) {w : Str} (hw : '$' ∉ w) (t : Str) :
    bracedValues U env true 0 (w ++ t) = w.map (·, true) ++ bracedValues U env true 0 t := by
  induction w with
  | nil => rfl
  | cons c w ih =>
    rw [List.mem_cons, not_or] at hw
    rw [List.cons_append, bracedValues, if_neg (Ne.symm hw.1)]
    exact congrArg ((c, true) :: ·) (ih hw.2)

theorem map_fst_unjoined (v : Str) : (v.map (·, false)).map Prod.fst = v := by
  rw [List.map_map]
  exact List.map_id v

/-- The first pass, without the marks. -/
theorem map_fst_bracedValues (env : Dict Str) (joined : Bool) (n : ℕ) (s : Str) :
    (bracedValues U env joined n s).map Prod.fst = replaceReferences (bracedReference U) env n s := by
  induction s generalizing joined n with
  | nil => rw [bracedValues, replaceReferences, List.map_nil]
  | cons c cs ih =>
    cases n with
    | succ n => exact ih joined n
    | zero =>
      rw [bracedValues, replaceReferences]
      cases if c = '$' then bracedReference U cs else none with
      | none => exact congrArg (c :: ·) (ih true 0)
      | some r =>
        rw [List.map_append, map_fst_unjoined, ih]

theorem head_bracedValues (env : Dict Str) (n : ℕ) (s : Str) :
    ∀ y ∈ (bracedValues U env false n s).head?, y.2 = false := by
  induction s generalizing n with
  | nil => simp [bracedValues]
  | cons c cs ih =>
    cases n with
    | succ n => exact ih n
    | zero =>
      rw [bracedValues]
      split
      · next name length _ =>
        cases hv : (env.lookup name).getD [] with
        | nil => exact ih length
        | cons d v => simp
      · simp

theorem FormsReference.append {t : List (Char × Bool)} (h : FormsReference U t) (a : List (Char × Bool)) :
    FormsReference U (a ++ t) := by
  obtain ⟨before, x, after, rfl, hx⟩ := h
  exact ⟨a ++ before, x, after, (List.append_assoc _ _ _).symm, hx⟩

/-! ### The second pass -/

/-- Nothing that is joined is read from an edge on. -/
theorem eq_nil_of_edge {t : List (Char × Bool)} {w : Str} (hw : w <+: t.map Prod.fst)
    (hedge : ∀ y ∈ t.head?, y.2 = false) (h : ∀ y ∈ t.take w.length, y.2 = true) : w = [] := by
  cases t with
  | nil => exact List.prefix_nil.1 hw
  | cons y t =>
    cases w with
    | nil => rfl
    | cons c w =>
      have htrue := h y (by simp)
      rw [hedge y rfl] at htrue
      cases htrue

theorem edge_of_reference {c : Char} {cs name : Str} {n : ℕ}
    (h : (if c = '$' then bracedReference U cs else none) = some (name, n)) (env : Dict Str) (joined : Bool) :
    c = '$' ∧ ∀ y ∈ (bracedValues U env joined 0 (c :: cs)).head?, y.2 = false := by
  have hc : c = '$' := by
    by_contra hne
    rw [if_neg hne] at h
    cases h
  have hfalse : bracedValues U env joined 0 (c :: cs) = bracedValues U env false 0 (c :: cs) := by
    rw [bracedValues, bracedValues, h]
  exact ⟨hc, hfalse ▸ head_bracedValues env 0 (c :: cs)⟩

/-- In front of the edge of a value the words are those of the line. -/
theorem takeWhile_bracedValues (hU : AgreesOnAscii U) {s : Str}
    (h : ∀ y ∈ (bracedValues U env true 0 s).take
      (((bracedValues U env true 0 s).map Prod.fst).takeWhile U.isWord).length, y.2 = true) :
    ((bracedValues U env true 0 s).map Prod.fst).takeWhile U.isWord = s.takeWhile U.isWord := by
  induction s with
  | nil => rfl
  | cons c cs ih =>
    cases hr : if c = '$' then bracedReference U cs else none with
    | some r =>
      obtain ⟨rfl, hedge⟩ := edge_of_reference hr env true
      rw [eq_nil_of_edge (List.takeWhile_prefix _) hedge h, List.takeWhile_cons_of_neg (by simp [isWord_dollar hU])]
    | none =>
      rw [bracedValues, hr] at h ⊢
      by_cases hc : U.isWord c = true
      · simp only [List.map_cons, List.takeWhile_cons, hc, if_true, List.length_cons, List.take_succ_cons,
          List.forall_mem_cons] at h ⊢
        rw [ih h.2]
      · simp only [List.map_cons, List.takeWhile_cons, hc, Bool.false_eq_true, if_false]

theorem varName_bracedValues (hU : AgreesOnAscii U) {s : Str}
    (h : ∀ y ∈ (bracedValues U env true 0 s).take (varName U ((bracedValues U env true 0 s).map Prod.fst)).length,
      y.2 = true) :
    varName U ((bracedValues U env true 0 s).map Prod.fst) = varName U s := by
  cases s with
  | nil => rfl
  | cons c cs =>
    cases hr : if c = '$' then bracedReference U cs else none with
    | some r =>
      obtain ⟨rfl, hedge⟩ := edge_of_reference hr env true
      rw [eq_nil_of_edge (varName_isPrefix U _) hedge h]
      rfl
    | none =>
      rw [bracedValues, hr] at h ⊢
      simp only [List.map_cons, varName] at h ⊢
      split_ifs at h ⊢
      · rw [List.length_cons, List.take_succ_cons, List.forall_mem_cons] at h
        rw [takeWhile_bracedValues hU h.2]
      · rfl

/-- The second pass keeps a value that forms no reference. -/
theorem replaceReferences_value (env : Dict Str) {v : Str} {t : List (Char × Bool)} (hedge : ∀ y ∈ t.head?, y.2 = false)
    (h : ¬FormsReference U (v.map (·, false) ++ t)) :
    replaceReferences (simpleReference U) env 0 (v ++ t.map Prod.fst) =
      v ++ replaceReferences (simpleReference U) env 0 (t.map Prod.fst) := by
  induction v with
  | nil => rfl
  | cons d v ih =>
    have hnone : (if d = '$' then simpleReference U (v ++ t.map Prod.fst) else none) = none := by
      split_ifs with hd
      · have hmap : (v.map (·, false) ++ t).map Prod.fst = v ++ t.map Prod.fst := by
          rw [List.map_append, map_fst_unjoined]
        have hedge' : ∀ y ∈ (v.map (·, false) ++ t).head?, y.2 = false := by
          cases v with
          | nil => exact hedge
          | cons c v => simp
        rw [simpleReference_eq_none_iff, ← hmap]
        refine eq_nil_of_edge (varName_isPrefix U _) hedge' fun y hy => ?_
        by_contra hfalse
        exact h ⟨[], (d, false), _, rfl, hd, y, hy, Bool.eq_false_iff.2 hfalse⟩
      · rfl
    rw [List.cons_append, replaceReferences, hnone]
    exact congrArg (d :: ·) (ih fun hforms => h (hforms.append [(d, false)]))

/-! ### One pass -/

theorem not_quotedReference_nil (U : Unicode) (x : Quoting) : ¬QuotedReference U x [] := by
  rintro ⟨before, after, heq, -⟩
  simp at heq

theorem not_bracedReference_nil (U : Unicode) : ¬BracedReference U [] := by
  rintro ⟨before, after, heq, -⟩
  simp at heq

theorem quotedReference_cons_iff {x : Quoting} {c : Char} {cs : Str} :
    QuotedReference U x (c :: cs) ↔
      (c = '$' ∧ x = .quoted '\'' ∧ (reference U cs).isSome) ∨ QuotedReference U (x.next c) cs := by
  constructor
  · rintro ⟨before, after, heq, hx, href⟩
    cases before with
    | nil =>
      cases heq
      exact .inl ⟨rfl, hx, href⟩
    | cons d before =>
      cases heq
      exact .inr ⟨before, after, rfl, hx, href⟩
  · rintro (⟨rfl, hx, href⟩ | ⟨before, after, rfl, hx⟩)
    · exact ⟨[], cs, rfl, hx, href⟩
    · exact ⟨c :: before, after, rfl, hx⟩

theorem bracedReference_cons_iff {c : Char} {cs : Str} :
    BracedReference U (c :: cs) ↔ (c = '$' ∧ (bracedReference U cs).isSome) ∨ BracedReference U cs := by
  constructor
  · rintro ⟨before, after, heq, href⟩
    cases before with
    | nil =>
      cases heq
      exact .inl ⟨rfl, href⟩
    | cons d before =>
      cases heq
      exact .inr ⟨before, after, rfl, href⟩
  · rintro (⟨rfl, href⟩ | ⟨before, after, rfl, href⟩)
    · exact ⟨[], cs, rfl, href⟩
    · exact ⟨c :: before, after, rfl, href⟩

theorem formsReference_cons_iff {x : Char × Bool} {t : List (Char × Bool)} :
    FormsReference U (x :: t) ↔
      (x.1 = '$' ∧ ∃ y ∈ t.take (varName U (t.map Prod.fst)).length, y.2 = false) ∨ FormsReference U t := by
  constructor
  · rintro ⟨before, y, after, heq, hy⟩
    cases before with
    | nil =>
      cases heq
      exact .inl hy
    | cons d before =>
      cases heq
      exact .inr ⟨before, y, after, rfl, hy⟩
  · rintro (hx | h)
    · exact ⟨[], x, t, rfl, hx⟩
    · exact h.append [x]

instance decidableQuotedReference (U : Unicode) : (x : Quoting) → (line : Str) → Decidable (QuotedReference U x line)
  | x, [] => isFalse (not_quotedReference_nil U x)
  | x, c :: cs =>
    have := decidableQuotedReference U (x.next c) cs
    decidable_of_iff' _ quotedReference_cons_iff

instance decidableFormsReference (U : Unicode) : (t : List (Char × Bool)) → Decidable (FormsReference U t)
  | [] => isFalse fun ⟨before, x, after, heq, _⟩ => by simp at heq
  | x :: t =>
    have := decidableFormsReference U t
    decidable_of_iff' _ formsReference_cons_iff

/-- Where nothing is formed, a reference that the second pass finds is one of the line. -/
theorem simpleReference_bracedValues (hU : AgreesOnAscii U) {joined : Bool} {cs : Str}
    (h : ¬FormsReference U (('$', joined) :: bracedValues U env true 0 cs)) :
    simpleReference U ((bracedValues U env true 0 cs).map Prod.fst) = simpleReference U cs := by
  have hname : varName U ((bracedValues U env true 0 cs).map Prod.fst) = varName U cs := by
    refine varName_bracedValues hU fun y hy => ?_
    by_contra hfalse
    exact h ⟨[], ('$', joined), _, rfl, rfl, y, hy, Bool.eq_false_iff.2 hfalse⟩
  rw [simpleReference, simpleReference, hname]

/-- The first pass leaves the characters of a simple reference alone. -/
theorem bracedValues_skip (hU : AgreesOnAscii U) (env : Dict Str) {cs name : Str} {n : ℕ}
    (h : simpleReference U cs = some (name, n)) :
    bracedValues U env true 0 cs = name.map (·, true) ++ bracedValues U env true n cs ∧ name.length = n := by
  obtain ⟨rfl, htake⟩ := simpleReference_eq_some h
  have hlen : (varName U cs).length = n := by
    simp only [simpleReference] at h
    split_ifs at h
    cases h
    rfl
  refine ⟨?_, hlen⟩
  have happend := bracedValues_append (U := U) env (dollar_notMem_varName hU cs) (cs.drop n)
  rw [← htake, List.take_append_drop, htake] at happend
  rw [bracedValues_drop env true n, ← happend]

/-- The two passes are one where no reference is quoted and none is formed. -/
theorem replaceReferences_eq_expandOnce (hU : AgreesOnAscii U) {x : Quoting} {joined : Bool} {n : ℕ} {s : Str}
    (hquoted : ¬QuotedReference U x s) (hforms : ¬FormsReference U (bracedValues U env joined n s)) :
    replaceReferences (simpleReference U) env 0 ((bracedValues U env joined n s).map Prod.fst) =
      expandOnce U env x n s := by
  induction s generalizing x joined n with
  | nil => cases n <;> rfl
  | cons c cs ih =>
    rw [quotedReference_cons_iff, not_or] at hquoted
    obtain ⟨hhere, hrest⟩ := hquoted
    cases n with
    | succ n => exact ih hrest hforms
    | zero =>
      by_cases hc : c = '$'
      · subst hc
        rw [expandOnce]
        cases hb : bracedReference U cs with
        | some r =>
          have hopen : x ≠ .quoted '\'' := fun hx => hhere ⟨rfl, hx, by simp [reference, hb]⟩
          rw [bracedValues, if_pos rfl, hb] at hforms ⊢
          rw [if_pos ⟨rfl, hopen⟩, reference, hb, Option.some_or]
          change ¬FormsReference U (_ ++ bracedValues U env false r.2 cs) at hforms
          change replaceReferences _ env 0 (List.map Prod.fst (_ ++ bracedValues U env false r.2 cs)) = _ ++ _
          have hvalue := replaceReferences_value env (head_bracedValues env r.2 cs) hforms
          rw [List.map_append, map_fst_unjoined, hvalue, ih hrest fun h => hforms (h.append _)]
        | none =>
          rw [bracedValues, if_pos rfl, hb] at hforms ⊢
          have hsame := simpleReference_bracedValues hU hforms
          rw [List.map_cons, replaceReferences, if_pos rfl, hsame]
          cases hs : simpleReference U cs with
          | some r =>
            have hopen : x ≠ .quoted '\'' := fun hx => hhere ⟨rfl, hx, by simp [reference, hb, hs]⟩
            obtain ⟨hskip, hlen⟩ := bracedValues_skip hU env hs
            have hdrop : ((bracedValues U env true 0 cs).map Prod.fst).drop r.2 =
                (bracedValues U env true r.2 cs).map Prod.fst := by
              rw [hskip, List.map_append, ← hlen]
              exact List.drop_left' (by rw [List.length_map, List.length_map])
            rw [if_pos ⟨rfl, hopen⟩, reference, hb, hs, Option.none_or]
            change _ ++ replaceReferences _ env r.2 _ = _ ++ _
            rw [replaceReferences_drop, hdrop, ih hrest fun h => hforms ?_]
            rw [hskip]
            exact (h.append _).append [_]
          | none =>
            have hnone : (if '$' = '$' ∧ x ≠ .quoted '\'' then reference U cs else none) = none := by
              rw [reference, hb, hs]
              exact ite_self _
            rw [hnone]
            exact congrArg ('$' :: ·) (ih hrest fun h => hforms (h.append [_]))
      · rw [bracedValues, if_neg hc] at hforms ⊢
        rw [expandOnce, if_neg (fun h => hc h.1), List.map_cons, replaceReferences, if_neg hc]
        exact congrArg (c :: ·) (ih hrest fun h => hforms (h.append [(c, joined)]))

/-! ### Every environment -/

theorem name_isInfix {s name : Str} {n : ℕ} (h : reference U s = some (name, n)) : name <:+: s := by
  rw [reference, Option.or_eq_some_iff] at h
  rcases h with h | ⟨-, h⟩
  · obtain ⟨⟨cs, rfl, rfl⟩, -⟩ := bracedReference_eq_some h
    exact List.infix_cons (varName_isPrefix U cs).isInfix
  · obtain ⟨rfl, -⟩ := simpleReference_eq_some h
    exact (varName_isPrefix U s).isInfix

theorem count_append_of_notMem {w : Str} (hw : '$' ∉ w) (t : Str) : (w ++ t).count '$' = t.count '$' := by
  rw [List.count_append, List.count_eq_zero.2 hw, Nat.zero_add]

theorem count_replaceReferences_skip (r : Str → Option (Str × ℕ)) (env : Dict Str) {n : ℕ} {s : Str}
    (h : '$' ∉ s.take n) :
    (replaceReferences r env n s).count '$' = (replaceReferences r env 0 s).count '$' := by
  have happend := replaceReferences_append r env h (s.drop n)
  rw [List.take_append_drop] at happend
  rw [replaceReferences_drop, happend, count_append_of_notMem h]

theorem count_expandVars_skip (env : Dict Str) {n : ℕ} {s : Str} (h : '$' ∉ s.take n) :
    (replaceReferences (simpleReference U) env 0 (replaceReferences (bracedReference U) env n s)).count '$' =
      (expandVars U env s).count '$' := by
  have happend := replaceReferences_append (bracedReference U) env h (s.drop n)
  rw [List.take_append_drop] at happend
  rw [expandVars, happend, replaceReferences_append _ env h, count_append_of_notMem h, replaceReferences_drop _ env n]

theorem count_expandOnce_skip (env : Dict Str) (x : Quoting) {n : ℕ} {s : Str} (h : '$' ∉ s.take n) :
    (expandOnce U env x n s).count '$' = (expandOnce U env x 0 s).count '$' := by
  induction s generalizing x n with
  | nil => cases n <;> rfl
  | cons c cs ih =>
    cases n with
    | zero => rfl
    | succ n =>
      rw [List.take_succ_cons, List.mem_cons, not_or] at h
      have hc : ¬(c = '$' ∧ x ≠ .quoted '\'') := fun hc => h.1 hc.1.symm
      rw [expandOnce, expandOnce, if_neg hc, List.count_cons_of_ne (Ne.symm h.1)]
      exact ih (x.next c) h.2

/-- A simple reference of the line is still one, perhaps with a longer name, behind the first pass. -/
theorem simpleReference_isSome (env : Dict Str) {cs : Str}
    (h : (simpleReference U cs).isSome) :
    (simpleReference U (replaceReferences (bracedReference U) env 0 cs)).isSome := by
  rw [Option.isSome_iff_ne_none, Ne, simpleReference_eq_none_iff] at h ⊢
  cases cs with
  | nil => exact absurd rfl h
  | cons c cs =>
    rw [varName] at h
    split_ifs at h with hc
    · have hne : c ≠ '$' := by
        rintro rfl
        revert hc
        decide
      rw [replaceReferences, if_neg hne, varName, if_pos hc]
      exact List.cons_ne_nil _ _
    · exact absurd rfl h

/-- An environment whose values have as many dollar signs as it says for the names of the line, and go away when they
are read again. -/
structure DollarCounts (U : Unicode) (env : Dict Str) (k : ℕ) (s : Str) : Prop where
  le_one : k ≤ 1
  le : ∀ name, ((env.lookup name).getD []).count '$' ≤ k
  eq : ∀ name, name <:+: s → ((env.lookup name).getD []).count '$' = k
  read : ∀ name, name <:+: s → ∀ t : Str,
    (replaceReferences (simpleReference U) env 0 ((env.lookup name).getD [] ++ t)).count '$' =
      (replaceReferences (simpleReference U) env 0 t).count '$'

theorem DollarCounts.tail {k : ℕ} {c : Char} {cs : Str} (h : DollarCounts U env k (c :: cs)) :
    DollarCounts U env k cs where
  le_one := h.le_one
  le := h.le
  eq name hname := h.eq name (List.infix_cons hname)
  read name hname := h.read name (List.infix_cons hname)

/-- The second pass at a dollar sign. -/
theorem count_simple_dollar (hU : AgreesOnAscii U) {k : ℕ} {s : Str} (h : DollarCounts U env k s) (cs : Str) :
    (replaceReferences (simpleReference U) env 0 ('$' :: cs)).count '$' ≤
      (if (simpleReference U cs).isSome then k else 1) +
        (replaceReferences (simpleReference U) env 0 cs).count '$' := by
  rw [replaceReferences, if_pos rfl]
  cases hs : simpleReference U cs with
  | none =>
    rw [List.count_cons_self, Nat.add_comm]
    rfl
  | some r =>
    have hskip : '$' ∉ cs.take r.2 := by
      rw [(simpleReference_eq_some hs).2, ← (simpleReference_eq_some hs).1]
      exact dollar_notMem_varName hU cs
    change (_ ++ replaceReferences _ env r.2 cs).count '$' ≤ _
    rw [List.count_append, count_replaceReferences_skip _ env hskip]
    exact Nat.add_le_add_right (h.le r.1) _

theorem count_expandVars_dollar (hU : AgreesOnAscii U) {k : ℕ} {cs : Str} (h : DollarCounts U env k ('$' :: cs)) :
    (expandVars U env ('$' :: cs)).count '$' ≤
      (if (bracedReference U cs).isSome then 0 else if (simpleReference U cs).isSome then k else 1) +
        (expandVars U env cs).count '$' := by
  cases hb : bracedReference U cs with
  | some r =>
    have href : reference U cs = some r := by rw [reference, hb, Option.some_or]
    have hpass : replaceReferences (bracedReference U) env 0 ('$' :: cs) =
        (env.lookup r.1).getD [] ++ replaceReferences (bracedReference U) env r.2 cs := by
      rw [replaceReferences, if_pos rfl, hb]
    rw [expandVars, hpass, h.read r.1 (List.infix_cons (name_isInfix href)),
      count_expandVars_skip env (dollar_notMem_take hU href), if_pos (by rfl), Nat.zero_add]
  | none =>
    have hpass : replaceReferences (bracedReference U) env 0 ('$' :: cs) =
        '$' :: replaceReferences (bracedReference U) env 0 cs := by
      rw [replaceReferences, if_pos rfl, hb]
    rw [expandVars, hpass, if_neg (by simp)]
    refine (count_simple_dollar hU h _).trans (Nat.add_le_add_right ?_ _)
    have hk := h.le_one
    cases hs : (simpleReference U cs).isSome with
    | true => rw [simpleReference_isSome env hs]
    | false => split_ifs <;> simp_all

theorem count_expandOnce_dollar (hU : AgreesOnAscii U) {k : ℕ} {cs : Str} (h : DollarCounts U env k ('$' :: cs))
    (x : Quoting) :
    (expandOnce U env x 0 ('$' :: cs)).count '$' =
      (if x ≠ .quoted '\'' ∧ (reference U cs).isSome then k else 1) +
        (expandOnce U env (x.next '$') 0 cs).count '$' := by
  rw [expandOnce]
  by_cases hx : x = .quoted '\''
  · rw [if_neg (fun h => h.2 hx), if_neg (fun h => h.1 hx), List.count_cons_self, Nat.add_comm]
  · rw [if_pos ⟨rfl, hx⟩]
    cases href : reference U cs with
    | none =>
      rw [if_neg (by simp), List.count_cons_self, Nat.add_comm]
    | some r =>
      change (_ ++ expandOnce U env _ r.2 cs).count '$' = _
      rw [if_pos ⟨hx, rfl⟩, List.count_append, count_expandOnce_skip env _ (dollar_notMem_take hU href),
        h.eq r.1 (List.infix_cons (name_isInfix href))]

theorem count_expandVars_le (hU : AgreesOnAscii U) {k : ℕ} {s : Str} (h : DollarCounts U env k s) (x : Quoting) :
    (expandVars U env s).count '$' ≤ (expandOnce U env x 0 s).count '$' ∧
      ((k = 0 ∧ QuotedReference U x s) ∨ (k = 1 ∧ BracedReference U s) →
        (expandVars U env s).count '$' < (expandOnce U env x 0 s).count '$') := by
  induction s generalizing x with
  | nil =>
    refine ⟨le_rfl, ?_⟩
    rintro (⟨-, hquoted⟩ | ⟨-, hbraced⟩)
    · exact absurd hquoted (not_quotedReference_nil U x)
    · exact absurd hbraced (not_bracedReference_nil U)
  | cons c cs ih =>
    obtain ⟨hle, hlt⟩ := ih h.tail (x.next c)
    have hk := h.le_one
    rw [quotedReference_cons_iff, bracedReference_cons_iff]
    by_cases hc : c = '$'
    · subst hc
      have hcode := count_expandVars_dollar hU h
      have honce := count_expandOnce_dollar hU h x
      rw [reference, Option.isSome_or] at honce ⊢
      generalize (bracedReference U cs).isSome = braced at hcode honce ⊢
      generalize (simpleReference U cs).isSome = simple at hcode honce ⊢
      clear ih h
      -- what is left is about the counts
      generalize (expandVars U env ('$' :: cs)).count '$' = left at hcode ⊢
      generalize (expandOnce U env x 0 ('$' :: cs)).count '$' = right at honce ⊢
      generalize (expandVars U env cs).count '$' = left' at hcode hle hlt
      generalize (expandOnce U env (x.next '$') 0 cs).count '$' = right' at honce hle hlt
      constructor
      · grind
      · intro hstrict
        by_cases hrest : (k = 0 ∧ QuotedReference U (x.next '$') cs) ∨ (k = 1 ∧ BracedReference U cs)
        · have hlt := hlt hrest
          grind
        · have hhere : (k = 0 ∧ x = .quoted '\'' ∧ (braced || simple) = true) ∨ (k = 1 ∧ braced = true) := by tauto
          grind
    · have hplain : (if c = '$' ∧ x ≠ .quoted '\'' then reference U cs else none) = none :=
        if_neg fun h => hc h.1
      have hpass : expandVars U env (c :: cs) = c :: expandVars U env cs := by
        rw [expandVars, expandVars, replaceReferences, if_neg hc]
        change replaceReferences _ env 0 (c :: _) = _
        rw [replaceReferences, if_neg hc]
      rw [hpass, expandOnce, hplain, List.count_cons_of_ne hc, List.count_cons_of_ne hc]
      refine ⟨hle, fun hstrict => hlt ?_⟩
      simpa [hc] using hstrict

theorem dollarCounts_empty (U : Unicode) (s : Str) : DollarCounts U ∅ 0 s where
  le_one := Nat.zero_le 1
  le _ := le_rfl
  eq _ _ := rfl
  read _ _ _ := rfl

/-- Every text that stands in the line names a reference to a longer name. -/
def nestedEnv (line : Str) : Dict Str :=
  (line.tails.flatMap List.inits).foldl
    (fun env name => env.insert name ('$' :: List.replicate (line.length + 1) 'b')) ∅

theorem lookup_nestedEnv (line name : Str) :
    (nestedEnv line).lookup name =
      if name <:+: line then some ('$' :: List.replicate (line.length + 1) 'b') else none := by
  have hfold : ∀ (names : List Str) (env : Dict Str) (v : Str),
      (names.foldl (fun env name => env.insert name v) env).lookup name =
        if name ∈ names then some v else env.lookup name := by
    intro names env v
    induction names generalizing env with
    | nil => simp
    | cons n names ih =>
      rw [List.foldl_cons, ih]
      by_cases hn : name = n
      · subst hn
        simp [AList.lookup_insert]
      · simp [hn, AList.lookup_insert_ne hn]
  have hmem : name ∈ line.tails.flatMap List.inits ↔ name <:+: line := by
    rw [List.mem_flatMap, List.infix_iff_prefix_suffix]
    simp only [List.mem_tails, List.mem_inits]
    exact exists_congr fun t => and_comm
  rw [nestedEnv, hfold]
  simp only [hmem]
  rfl

theorem dollarCounts_nested (hU : AgreesOnAscii U) (line : Str) : DollarCounts U (nestedEnv line) 1 line := by
  have hb : '$' ∉ List.replicate (line.length + 1) 'b' := by simp
  have hcount : ('$' :: List.replicate (line.length + 1) 'b').count '$' = 1 := by
    rw [List.count_cons_self, List.count_eq_zero.2 hb]
  have heq : ∀ name, name <:+: line →
      ((nestedEnv line).lookup name).getD [] = '$' :: List.replicate (line.length + 1) 'b' := by
    intro name hname
    rw [lookup_nestedEnv, if_pos hname, Option.getD_some]
  refine ⟨le_rfl, fun name => ?_, fun name hname => ?_, fun name hname' t => ?_⟩
  · rw [lookup_nestedEnv]
    split_ifs
    · exact hcount.le
    · exact Nat.zero_le 1
  · rw [heq name hname, hcount]
  · -- the name that is read is longer than the line
    have hword : ∀ c ∈ List.replicate line.length 'b', U.isWord c = true := by
      intro c hc
      rw [List.eq_of_mem_replicate hc]
      exact hU 'b' (by decide)
    have hname : varName U (List.replicate (line.length + 1) 'b' ++ t) =
        List.replicate (line.length + 1) 'b' ++ t.takeWhile U.isWord := by
      rw [List.replicate_succ, List.cons_append, varName, if_pos (by decide), List.takeWhile_append_of_pos hword]
      rfl
    have hlong : ¬(varName U (List.replicate (line.length + 1) 'b' ++ t) <:+: line) := fun hwithin => by
      have hle := hwithin.length_le
      rw [hname, List.length_append, List.length_replicate] at hle
      omega
    have hsimple : simpleReference U (List.replicate (line.length + 1) 'b' ++ t) =
        some (varName U (List.replicate (line.length + 1) 'b' ++ t),
          (varName U (List.replicate (line.length + 1) 'b' ++ t)).length) := by
      have hne : varName U (List.replicate (line.length + 1) 'b' ++ t) ≠ [] := fun hnil =>
        hlong (by rw [hnil]; exact List.nil_infix)
      simp only [simpleReference, if_neg hne]
    rw [heq name hname', List.cons_append, replaceReferences, if_pos rfl, hsimple]
    change (_ ++ replaceReferences _ _ _ _).count '$' = _
    have hnotMem : '$' ∉ (List.replicate (line.length + 1) 'b' ++ t).take
        (varName U (List.replicate (line.length + 1) 'b' ++ t)).length := by
      rw [← List.prefix_iff_eq_take.1 (varName_isPrefix U _)]
      exact dollar_notMem_varName hU _
    rw [lookup_nestedEnv, if_neg hlong, Option.getD_none, List.nil_append,
      count_replaceReferences_skip _ _ hnotMem, replaceReferences_append _ _ hb, count_append_of_notMem hb]

/-! ### The law -/

theorem bracedValues_of_not_braced (env : Dict Str) {s : Str} (h : ¬BracedReference U s) :
    bracedValues U env true 0 s = s.map (·, true) := by
  induction s with
  | nil => rfl
  | cons c cs ih =>
    rw [bracedReference_cons_iff, not_or] at h
    have hnone : (if c = '$' then bracedReference U cs else none) = none := by
      split_ifs with hc
      · exact Option.not_isSome_iff_eq_none.1 fun hsome => h.1 ⟨hc, hsome⟩
      · rfl
    rw [bracedValues, hnone]
    exact congrArg ((c, true) :: ·) (ih h.2)

/-- Without braced references nothing is formed. -/
theorem not_formsReference (env : Dict Str) {line : Str} (h : ¬BracedReference U line) :
    ¬FormsReference U (bracedValues U env true 0 line) := by
  rintro ⟨before, x, after, heq, -, y, hy, hfalse⟩
  have hmem : y ∈ line.map (·, true) := by
    rw [← bracedValues_of_not_braced env h, heq]
    exact List.mem_append_right _ (List.mem_cons_of_mem _ (List.mem_of_mem_take hy))
  obtain ⟨c, -, rfl⟩ := List.mem_map.1 hmem
  cases hfalse

/-- The expansion is the one in a single pass for an environment and a line where no reference is quoted and the values
of the braced references form none, and for a line in every environment when no reference is quoted or braced. -/
theorem expandVars_once (hU : AgreesOnAscii U) (line : Str) :
    (∀ env : Dict Str, ¬QuotedReference U .plain line → ¬FormsReference U (bracedValues U env true 0 line) →
      expandVars U env line = expandOnce U env .plain 0 line) ∧
    ((∀ env : Dict Str, expandVars U env line = expandOnce U env .plain 0 line) ↔
      ¬QuotedReference U .plain line ∧ ¬BracedReference U line) := by
  have honce : ∀ env : Dict Str, ¬QuotedReference U .plain line →
      ¬FormsReference U (bracedValues U env true 0 line) →
        expandVars U env line = expandOnce U env .plain 0 line := by
    intro env hquoted hforms
    rw [expandVars, ← map_fst_bracedValues env true 0 line]
    exact replaceReferences_eq_expandOnce hU hquoted hforms
  refine ⟨honce, fun h => ⟨fun hquoted => ?_, fun hbraced => ?_⟩, ?_⟩
  · have hlt := (count_expandVars_le hU (dollarCounts_empty U line) .plain).2 (.inl ⟨rfl, hquoted⟩)
    rw [h ∅] at hlt
    exact lt_irrefl _ hlt
  · have hlt := (count_expandVars_le hU (dollarCounts_nested hU line) .plain).2 (.inr ⟨rfl, hbraced⟩)
    rw [h (nestedEnv line)] at hlt
    exact lt_irrefl _ hlt
  · rintro ⟨hquoted, hbraced⟩ env
    exact honce env hquoted (not_formsReference env hbraced)

/-- Two references, one of them braced. -/
theorem expandVars_once_braced :
    expandVars ascii ((∅ : Dict Str).insert "A".toList "b".toList) "$\x7bA\x7d-$A".toList =
      expandOnce ascii ((∅ : Dict Str).insert "A".toList "b".toList) .plain 0 "$\x7bA\x7d-$A".toList :=
  (expandVars_once (fun _ _ => rfl) _).1 _ (by decide +kernel) (by decide +kernel)

/-- A reference inside single quotes, and a value that is read again. -/
theorem not_expandOnce_quoted :
    expandVars ascii ((∅ : Dict Str).insert "A".toList "b".toList) "'$A'".toList ≠
      expandOnce ascii ((∅ : Dict Str).insert "A".toList "b".toList) .plain 0 "'$A'".toList ∧
    expandVars ascii ((∅ : Dict Str).insert "A".toList "$B".toList) "$\x7bA\x7d".toList ≠
      expandOnce ascii ((∅ : Dict Str).insert "A".toList "$B".toList) .plain 0 "$\x7bA\x7d".toList := by
  decide +kernel

end Cyanide
