import Mathlib.Data.List.DropRight
import Mathlib.Data.List.Basic

/-!
# POSIX path strings

The string functions of `posixpath` (`normpath`, `join`, `dirname`, `basename`) on strings given as lists of
characters, and their behaviour on normalised paths.  A normalised absolute path is the string `str p` of a list `p`
of names, and everything is read through it: `dirname` drops the last name (`dirname_str_concat`), `join` appends one
(`join_str`), `normpath` fixes `str p` (`normpath_str`), and the strings that start with `str p` and a slash are those
of the lists that properly extend `p` (`prefix_str_iff`).  A normalised relative path is a run of `..` followed by
names (`relStr`).
-/

namespace PosixPath

abbrev Str := List Char

/-! ### The functions -/

/-- The number of slashes `normpath` keeps in front: two for exactly two, else at most one. -/
def initialSlashes : Str → Nat
  | '/' :: '/' :: '/' :: _ => 1
  | '/' :: '/' :: _ => 2
  | '/' :: _ => 1
  | _ => 0

/-- One turn of the loop of `normpath`; the components kept so far are stacked, the last one on top. -/
def pushComp (rooted : Bool) (kept : List Str) (comp : Str) : List Str :=
  if comp = [] ∨ comp = ['.'] then kept
  else if comp ≠ ['.', '.'] ∨ (rooted = false ∧ kept = []) ∨ kept.head? = some ['.', '.'] then comp :: kept
  else kept.tail

def normComps (rooted : Bool) (comps : List Str) : List Str :=
  (comps.foldl (pushComp rooted) []).reverse

def normpath (path : Str) : Str :=
  if path = [] then ['.']
  else
    let slashes := initialSlashes path
    let res := List.replicate slashes '/' ++
      List.intercalate ['/'] (normComps (slashes != 0) (path.splitOn '/'))
    if res = [] then ['.'] else res

def join (a b : Str) : Str :=
  if b.head? = some '/' ∨ a = [] then b
  else if a.getLast? = some '/' then a ++ b
  else a ++ '/' :: b

/-- `s.rstrip("/")`. -/
def rstripSlash (s : Str) : Str := s.rdropWhile (· = '/')

def dirname (p : Str) : Str :=
  let head := p.rdropWhile (· ≠ '/')
  if head.all (· = '/') then head else rstripSlash head

def basename (p : Str) : Str := p.rtakeWhile (· ≠ '/')

/-! ### Names and normalised paths -/

/-- A component that normalisation keeps as it is. -/
def IsName (c : Str) : Prop := c ≠ [] ∧ '/' ∉ c ∧ c ≠ ['.'] ∧ c ≠ ['.', '.']

instance (c : Str) : Decidable (IsName c) := inferInstanceAs (Decidable (_ ∧ _ ∧ _ ∧ _))

@[ext] structure Name where
  val : Str
  isName : IsName val
  deriving DecidableEq

/-- The names of `p`, each with a slash in front. -/
def flat (p : List Name) : Str := p.flatMap fun n => '/' :: n.1

/-- The absolute path with the names `p`. -/
def str (p : List Name) : Str := if p = [] then ['/'] else flat p

/-- The relative path with `k` components `..` and then the names `p`. -/
def relStr (k : Nat) (p : List Name) : Str :=
  if k = 0 ∧ p = [] then ['.']
  else List.intercalate ['/'] (List.replicate k ['.', '.'] ++ p.map Name.val)

namespace Name

theorem ne_nil (n : Name) : n.1 ≠ [] := n.2.1

theorem slash_notMem (n : Name) : '/' ∉ n.1 := n.2.2.1

theorem ne_dot (n : Name) : n.1 ≠ ['.'] := n.2.2.2.1

theorem ne_dotdot (n : Name) : n.1 ≠ ['.', '.'] := n.2.2.2.2

theorem exists_cons (n : Name) : ∃ c cs, n.1 = c :: cs ∧ c ≠ '/' := by
  obtain ⟨c, cs, h⟩ := List.exists_cons_of_ne_nil n.ne_nil
  refine ⟨c, cs, h, ?_⟩
  rintro rfl
  exact n.slash_notMem (by simp [h])

end Name

@[simp] theorem flat_nil : flat [] = [] := rfl

@[simp] theorem flat_cons (n : Name) (p : List Name) : flat (n :: p) = '/' :: (n.1 ++ flat p) := rfl

@[simp] theorem flat_append (p q : List Name) : flat (p ++ q) = flat p ++ flat q := by
  simp [flat]

@[simp] theorem str_nil : str [] = ['/'] := rfl

theorem str_of_ne_nil {p : List Name} (h : p ≠ []) : str p = flat p := if_neg h

theorem str_concat (p : List Name) (n : Name) : str (p ++ [n]) = flat p ++ '/' :: n.1 := by
  rw [str_of_ne_nil (by simp)]
  simp

theorem head?_str (p : List Name) : (str p).head? = some '/' := by
  cases p <;> rfl

@[simp] theorem str_ne_nil (p : List Name) : str p ≠ [] := by
  cases p <;> simp [str, flat]

/-- The first component of a string is what stands before its first slash. -/
theorem head?_splitOn_append {a t : Str} (ha : '/' ∉ a) (ht : t = [] ∨ t.head? = some '/') :
    ((a ++ t).splitOn '/').head? = some a := by
  rcases ht with rfl | ht
  · rw [List.append_nil, List.splitOn_eq_singleton ha]
    rfl
  · cases t with
    | nil => cases ht
    | cons c t =>
      simp only [List.head?_cons, Option.some.injEq] at ht
      rw [ht, List.splitOn_append_cons_self_of_not_mem ha]
      rfl

theorem name_append_inj {m n : Name} {s t : Str} (hs : s = [] ∨ s.head? = some '/')
    (ht : t = [] ∨ t.head? = some '/') (h : m.1 ++ s = n.1 ++ t) : m = n ∧ s = t := by
  have e : m.1 = n.1 := by
    have hm := head?_splitOn_append m.slash_notMem hs
    rw [h, head?_splitOn_append n.slash_notMem ht, Option.some.injEq] at hm
    exact hm.symm
  refine ⟨Name.ext e, ?_⟩
  rw [e] at h
  exact List.append_cancel_left h

theorem flat_eq_nil_or_head (p : List Name) : flat p = [] ∨ (flat p).head? = some '/' := by
  cases p <;> simp

theorem flat_injective : Function.Injective flat := by
  intro p
  induction p with
  | nil =>
    intro q h
    cases q with
    | nil => rfl
    | cons n q => simp at h
  | cons m p ih =>
    intro q h
    cases q with
    | nil => simp at h
    | cons n q =>
      simp only [flat_cons, List.cons.injEq, true_and] at h
      obtain ⟨rfl, hpq⟩ := name_append_inj (flat_eq_nil_or_head p) (flat_eq_nil_or_head q) h
      rw [ih hpq]

theorem flat_ne_slash (p : List Name) : flat p ≠ ['/'] := by
  cases p with
  | nil => simp
  | cons n p =>
    intro h
    simp only [flat_cons, List.cons.injEq, true_and, List.append_eq_nil_iff] at h
    exact n.ne_nil h.1

theorem str_injective : Function.Injective str := by
  intro p q h
  unfold str at h
  split at h <;> split at h
  · simp_all
  · exact absurd h.symm (flat_ne_slash q)
  · exact absurd h (flat_ne_slash p)
  · exact flat_injective h

@[simp] theorem str_inj {p q : List Name} : str p = str q ↔ p = q := str_injective.eq_iff

@[simp] theorem str_eq_slash {p : List Name} : str p = ['/'] ↔ p = [] := by
  rw [← str_nil, str_inj]

theorem flat_getLast? (p : List Name) (h : p ≠ []) : (flat p).getLast? ≠ some '/' := by
  obtain ⟨q, n, rfl⟩ := List.eq_nil_or_concat p |>.resolve_left h
  intro hl
  obtain ⟨c, cs, hn⟩ := List.exists_cons_of_ne_nil n.ne_nil
  have : (n.1).getLast? = some '/' := by
    simpa [List.getLast?_append, hn] using hl
  exact n.slash_notMem (List.mem_of_getLast? this)

/-- The strings of the lists below `p` are those that start with `p` and a slash. -/
theorem prefix_str_iff {p q : List Name} :
    flat p ++ ['/'] <+: str q ↔ (∃ n r, q = p ++ n :: r) ∨ (p = [] ∧ q = []) := by
  induction p generalizing q with
  | nil =>
    cases q with
    | nil => simp
    | cons n q => simp [str]
  | cons m p ih =>
    cases q with
    | nil =>
      obtain ⟨c, cs, hm, -⟩ := m.exists_cons
      simp [str, hm]
    | cons n q =>
      rw [str_of_ne_nil (by simp)]
      constructor
      · rintro ⟨t, ht⟩
        simp only [flat_cons, List.cons_append, List.append_assoc, List.cons.injEq, true_and,
          List.nil_append] at ht
        have hhead : (flat p ++ '/' :: t).head? = some '/' := by
          rcases flat_eq_nil_or_head p with h | h <;> simp [h]
        obtain ⟨rfl, hpq⟩ := name_append_inj (.inr hhead) (flat_eq_nil_or_head q) ht
        have hq : q ≠ [] := by
          rintro rfl
          simp at hpq
        have hpre : flat p ++ ['/'] <+: str q := ⟨t, by rw [str_of_ne_nil hq]; simpa using hpq⟩
        rcases ih.1 hpre with ⟨k, r, rfl⟩ | ⟨-, rfl⟩
        · exact .inl ⟨k, r, rfl⟩
        · exact absurd rfl hq
      · rintro (⟨k, r, h⟩ | ⟨h, -⟩)
        · simp only [List.cons_append, List.cons.injEq] at h
          obtain ⟨rfl, rfl⟩ := h
          exact ⟨k.1 ++ flat r, by simp⟩
        · cases h

/-! ### `dirname`, `basename` and `join` -/

private theorem rdropWhile_append_slash (s : Str) {t : Str} (ht : '/' ∉ t) :
    (s ++ '/' :: t).rdropWhile (· ≠ '/') = s ++ ['/'] := by
  induction t using List.reverseRecOn with
  | nil => rw [List.rdropWhile_concat_neg _ _ _ (by simp)]
  | append_singleton t c ih =>
    simp only [List.mem_append, not_or] at ht
    rw [← List.cons_append, ← List.append_assoc, List.rdropWhile_concat_pos, ih ht.1]
    simpa using fun h : c = '/' => ht.2 (by simp [h])

private theorem rtakeWhile_append_slash (s : Str) {t : Str} (ht : '/' ∉ t) :
    (s ++ '/' :: t).rtakeWhile (· ≠ '/') = t := by
  induction t using List.reverseRecOn with
  | nil => rw [List.rtakeWhile_concat_neg _ _ _ (by simp)]
  | append_singleton t c ih =>
    simp only [List.mem_append, not_or] at ht
    rw [← List.cons_append, ← List.append_assoc, List.rtakeWhile_concat_pos, ih ht.1]
    simpa using fun h : c = '/' => ht.2 (by simp [h])

theorem rstripSlash_of_getLast? {s : Str} (h : s.getLast? ≠ some '/') : rstripSlash s = s := by
  rw [rstripSlash, List.rdropWhile_eq_self_iff]
  intro hne hl
  refine h ?_
  rw [List.getLast?_eq_some_getLast hne]
  exact congrArg some (of_decide_eq_true hl)

private theorem rstripSlash_append_slash {s : Str} (h : s.getLast? ≠ some '/') : rstripSlash (s ++ ['/']) = s := by
  rw [rstripSlash, List.rdropWhile_concat_pos _ _ _ (by simp)]
  exact rstripSlash_of_getLast? h

theorem rstripSlash_str (p : List Name) : rstripSlash (str p) = flat p := by
  cases p with
  | nil => decide
  | cons n p =>
    rw [str_of_ne_nil (by simp)]
    exact rstripSlash_of_getLast? (flat_getLast? _ (by simp))

/-- The part before the last slash, when it ends in something else. -/
theorem dirname_append_slash {s t : Str} (hs : s ≠ []) (h : s.getLast? ≠ some '/') (ht : '/' ∉ t) :
    dirname (s ++ '/' :: t) = s := by
  have hall : (s ++ ['/']).all (· = '/') = false := by
    rw [List.all_eq_false]
    rw [List.getLast?_eq_some_getLast hs] at h
    exact ⟨s.getLast hs, by simp, by simpa using h⟩
  unfold dirname
  simp only [rdropWhile_append_slash s ht, hall, rstripSlash_append_slash h]
  rfl

theorem dirname_str_concat (p : List Name) (n : Name) : dirname (str (p ++ [n])) = str p := by
  rw [str_concat]
  cases p with
  | nil =>
    unfold dirname
    rw [rdropWhile_append_slash _ n.slash_notMem]
    decide
  | cons m p =>
    rw [str_of_ne_nil (by simp)]
    exact dirname_append_slash (by simp) (flat_getLast? _ (by simp)) n.slash_notMem

@[simp] theorem dirname_slash : dirname ['/'] = ['/'] := by decide

@[simp] theorem basename_slash : basename ['/'] = [] := by decide

theorem basename_str_concat (p : List Name) (n : Name) : basename (str (p ++ [n])) = n.1 := by
  rw [basename, str_concat, rtakeWhile_append_slash _ n.slash_notMem]

@[simp] theorem join_str (p : List Name) (n : Name) : join (str p) n.1 = str (p ++ [n]) := by
  obtain ⟨c, cs, hn, hc⟩ := n.exists_cons
  have hhead : ¬((n.1).head? = some '/' ∨ str p = []) := by
    simp [hn, hc, str_ne_nil]
  rw [join, if_neg hhead, str_concat]
  cases p with
  | nil => simp
  | cons m p =>
    rw [str_of_ne_nil (by simp), if_neg (flat_getLast? _ (by simp))]

/-- The first component after the prefix of a directory. -/
theorem basename_join (path : Str) (n : Name) : basename (join path n.1) = n.1 := by
  have hall : basename n.1 = n.1 := by
    rw [basename, List.rtakeWhile_eq_self_iff]
    intro c hc
    simpa using fun h : c = '/' => n.slash_notMem (h ▸ hc)
  unfold join
  split_ifs with hrel hlast
  · exact hall
  · obtain ⟨q, rfl⟩ := List.getLast?_eq_some_iff.1 hlast
    rw [List.append_assoc, List.singleton_append]
    exact rtakeWhile_append_slash q n.slash_notMem
  · exact rtakeWhile_append_slash path n.slash_notMem

theorem head_splitOn_drop (p : List Name) (n : Name) (r : List Name) :
    (((str (p ++ n :: r)).drop (flat p ++ ['/']).length).splitOn '/').head? = some n.1 := by
  have hdrop : (str (p ++ n :: r)).drop (flat p ++ ['/']).length = n.1 ++ flat r := by
    rw [str_of_ne_nil (by simp), flat_append, flat_cons,
      show flat p ++ '/' :: (n.1 ++ flat r) = (flat p ++ ['/']) ++ (n.1 ++ flat r) by simp,
      List.drop_left]
  rw [hdrop, head?_splitOn_append n.slash_notMem (flat_eq_nil_or_head r)]

/-! ### `normpath` -/

/-- A stack of components on which the loop of `normpath` has settled: `..` at the bottom, names above. -/
def Settled (rooted : Bool) (kept : List Str) : Prop :=
  ∃ (k : Nat) (p : List Name), kept = (p.map Name.val).reverse ++ List.replicate k ['.', '.'] ∧
    (rooted = true → k = 0)

private theorem settled_nil (rooted : Bool) : Settled rooted [] := ⟨0, [], rfl, fun _ => rfl⟩

private theorem pushComp_name (rooted : Bool) (kept : List Str) (n : Name) :
    pushComp rooted kept n.1 = n.1 :: kept := by
  rw [pushComp, if_neg (by simp [n.ne_nil, n.ne_dot]), if_pos (.inl n.ne_dotdot)]

private theorem pushComp_settled {rooted : Bool} {kept : List Str} {comp : Str} (hc : '/' ∉ comp)
    (h : Settled rooted kept) : Settled rooted (pushComp rooted kept comp) := by
  obtain ⟨k, p, rfl, hk⟩ := h
  unfold pushComp
  split
  · exact ⟨k, p, rfl, hk⟩
  · rename_i hdot
    simp only [not_or] at hdot
    by_cases hdd : comp = ['.', '.']
    · subst hdd
      rcases List.eq_nil_or_concat p with rfl | ⟨p, n, rfl⟩
      · -- only `..` on the stack: it is extended, unless the path is absolute and the stack empty
        cases k with
        | zero =>
          cases rooted with
          | false => exact ⟨1, [], by simp, by simp⟩
          | true => exact ⟨0, [], by simp, fun _ => rfl⟩
        | succ k => exact ⟨k + 2, [], by simp [List.replicate_succ], fun hr => absurd (hk hr) (by simp)⟩
      · -- a name is on top and is dropped
        refine ⟨k, p, ?_, hk⟩
        simp [n.ne_dotdot]
    · rw [if_pos (.inl hdd)]
      exact ⟨k, p ++ [⟨comp, hdot.1, hc, hdot.2, hdd⟩], by simp, hk⟩

private theorem foldl_pushComp_settled {rooted : Bool} {comps kept : List Str}
    (hc : ∀ comp ∈ comps, '/' ∉ comp) (h : Settled rooted kept) :
    Settled rooted (comps.foldl (pushComp rooted) kept) := by
  induction comps generalizing kept with
  | nil => exact h
  | cons comp comps ih =>
    simp only [List.mem_cons, forall_eq_or_imp] at hc
    exact ih hc.2 (pushComp_settled hc.1 h)

private theorem foldl_pushComp_names (rooted : Bool) (kept : List Str) (p : List Name) :
    (p.map Name.val).foldl (pushComp rooted) kept = (p.map Name.val).reverse ++ kept := by
  induction p generalizing kept with
  | nil => rfl
  | cons n p ih =>
    rw [List.map_cons, List.foldl_cons, pushComp_name, ih]
    simp

private theorem foldl_pushComp_dots (k : Nat) :
    (List.replicate k ['.', '.']).foldl (pushComp false) [] = List.replicate k ['.', '.'] := by
  have hpush : ∀ j, pushComp false (List.replicate j ['.', '.']) ['.', '.'] =
      List.replicate (j + 1) ['.', '.'] := by
    intro j
    cases j <;> simp [pushComp, List.replicate_succ]
  induction k with
  | zero => rfl
  | succ k ih =>
    rw [List.replicate_succ', List.foldl_append, ih, List.foldl_cons, List.foldl_nil, hpush,
      ← List.replicate_succ']

theorem normComps_eq (rooted : Bool) (comps : List Str) (hc : ∀ comp ∈ comps, '/' ∉ comp) :
    ∃ (k : Nat) (p : List Name), normComps rooted comps = List.replicate k ['.', '.'] ++ p.map Name.val ∧
      (rooted = true → k = 0) := by
  obtain ⟨k, p, h, hk⟩ := foldl_pushComp_settled hc (settled_nil rooted)
  exact ⟨k, p, by simp [normComps, h], hk⟩

/-- A name behind other components is kept. -/
theorem normComps_append_name (rooted : Bool) (comps : List Str) (n : Name) :
    normComps rooted (comps ++ [n.1]) = normComps rooted comps ++ [n.1] := by
  rw [normComps, List.foldl_append, List.foldl_cons, List.foldl_nil, pushComp_name, List.reverse_cons]
  rfl

theorem normComps_append_nil (rooted : Bool) (comps : List Str) :
    normComps rooted (comps ++ [[]]) = normComps rooted comps := by
  rw [normComps, List.foldl_append, List.foldl_cons, List.foldl_nil, pushComp, if_pos (.inl rfl)]
  rfl

/-- A name joined to a path is one more component. -/
theorem normComps_join (rooted : Bool) {path : Str} (hne : path ≠ []) (n : Name) :
    normComps rooted ((join path n.1).splitOn '/') = normComps rooted (path.splitOn '/') ++ [n.1] := by
  obtain ⟨c, cs, hn, hc⟩ := n.exists_cons
  have hjoin : join path n.1 = if path.getLast? = some '/' then path ++ n.1 else path ++ '/' :: n.1 := by
    rw [join, if_neg]
    simp [hn, hc, hne]
  rw [hjoin]
  split
  · rename_i hlast
    obtain ⟨q, rfl⟩ := List.getLast?_eq_some_iff.1 hlast
    rw [List.append_assoc, List.singleton_append, List.splitOn_append_cons_self, List.splitOn_append_cons_self,
      List.splitOn_eq_singleton n.slash_notMem, List.splitOn_nil, normComps_append_name, normComps_append_nil]
  · rw [List.splitOn_append_cons_self, List.splitOn_eq_singleton n.slash_notMem, normComps_append_name]

theorem head?_join {path : Str} (hne : path ≠ []) (n : Name) : (join path n.1).head? = path.head? := by
  obtain ⟨c, cs, hn, hc⟩ := n.exists_cons
  obtain ⟨d, ds, rfl⟩ := List.exists_cons_of_ne_nil hne
  rw [join, if_neg (by simp [hn, hc])]
  split <;> rfl

theorem normComps_names (rooted : Bool) (p : List Name) :
    normComps rooted (p.map Name.val) = p.map Name.val := by
  rw [normComps, foldl_pushComp_names]
  simp

theorem normComps_dots_names (k : Nat) (p : List Name) :
    normComps false (List.replicate k ['.', '.'] ++ p.map Name.val) =
      List.replicate k ['.', '.'] ++ p.map Name.val := by
  rw [normComps, List.foldl_append, foldl_pushComp_dots, foldl_pushComp_names]
  simp

theorem slash_notMem_of_mem_splitOn {s c : Str} (hc : c ∈ s.splitOn '/') : '/' ∉ c := by
  induction s generalizing c with
  | nil =>
    simp only [List.splitOn_nil, List.mem_singleton] at hc
    simp [hc]
  | cons a s ih =>
    rw [List.splitOn_cons_eq_if_modifyHead] at hc
    split at hc
    · rcases List.mem_cons.1 hc with rfl | hc
      · simp
      · exact ih hc
    · rename_i ha
      obtain ⟨d, ds, hd⟩ := List.exists_cons_of_ne_nil (List.splitOn_ne_nil '/' s)
      rw [hd] at hc ih
      rcases List.mem_cons.1 hc with rfl | hc
      · have := ih (c := d) (by simp)
        simp only [beq_iff_eq] at ha
        simp [this, Ne.symm ha]
      · exact ih (by simp [hc])

theorem intercalate_names (p : List Name) : '/' :: List.intercalate ['/'] (p.map Name.val) = str p := by
  cases p with
  | nil => rfl
  | cons n p =>
    rw [str_of_ne_nil (by simp)]
    induction p generalizing n with
    | nil => simp
    | cons m p ih =>
      rw [List.map_cons, List.map_cons, List.intercalate_cons_cons, flat_cons, ← ih m]
      simp

theorem initialSlashes_of_head {path : Str} (h : path.head? = some '/') :
    initialSlashes path = 1 ∨ initialSlashes path = 2 := by
  cases path with
  | nil => cases h
  | cons c path =>
    simp only [List.head?_cons, Option.some.injEq] at h
    subst h
    unfold initialSlashes
    split <;> simp_all

theorem initialSlashes_of_not_head {path : Str} (h : path.head? ≠ some '/') : initialSlashes path = 0 := by
  unfold initialSlashes
  split <;> simp_all

/-- An absolute path is normalised to the path of a list of names, up to a second slash in front. -/
theorem normpath_rooted {path : Str} (h : path.head? = some '/') :
    ∃ p : List Name, normComps true (path.splitOn '/') = p.map Name.val ∧
      normpath path = List.replicate (initialSlashes path - 1) '/' ++ str p := by
  have hne : path ≠ [] := by rintro rfl; cases h
  obtain ⟨k, p, hp, hk⟩ := normComps_eq true (path.splitOn '/') fun _ => slash_notMem_of_mem_splitOn
  obtain rfl := hk rfl
  rw [List.replicate_zero, List.nil_append] at hp
  refine ⟨p, hp, ?_⟩
  rcases initialSlashes_of_head h with h1 | h2
  · simp [normpath, hne, hp, h1, intercalate_names]
  · simp [normpath, hne, hp, h2, List.replicate_succ, intercalate_names]

/-- A relative path is normalised to a run of `..` followed by names. -/
theorem normpath_relative {path : Str} (hne : path ≠ []) (h : path.head? ≠ some '/') :
    ∃ (k : Nat) (p : List Name), normComps false (path.splitOn '/') = List.replicate k ['.', '.'] ++ p.map Name.val ∧
      normpath path = relStr k p := by
  obtain ⟨k, p, hp, -⟩ := normComps_eq false (path.splitOn '/') fun _ => slash_notMem_of_mem_splitOn
  refine ⟨k, p, hp, ?_⟩
  simp only [normpath, hne, if_false, initialSlashes_of_not_head h, bne_self_eq_false, hp, List.replicate_zero,
    List.nil_append, relStr]
  by_cases hkp : k = 0 ∧ p = []
  · simp [hkp]
  · have hcons : List.replicate k ['.', '.'] ++ p.map Name.val ≠ [] := by
      simpa using hkp
    rw [if_neg, if_neg hkp]
    obtain ⟨c, cs, hc⟩ := List.exists_cons_of_ne_nil hcons
    have hcne : c ≠ [] := by
      have : c ∈ List.replicate k ['.', '.'] ++ p.map Name.val := by simp [hc]
      rcases List.mem_append.1 this with hm | hm
      · rw [List.eq_of_mem_replicate hm]; simp
      · obtain ⟨n, -, rfl⟩ := List.mem_map.1 hm
        exact n.ne_nil
    rw [hc]
    cases cs with
    | nil => simpa using hcne
    | cons d ds => simp [List.intercalate_cons_cons, hcne]

theorem mem_relComps {k : Nat} {p : List Name} {d : Str} (h : d ∈ List.replicate k ['.', '.'] ++ p.map Name.val) :
    d ≠ [] ∧ '/' ∉ d := by
  rcases List.mem_append.1 h with hm | hm
  · rw [List.eq_of_mem_replicate hm]; simp
  · obtain ⟨n, -, rfl⟩ := List.mem_map.1 hm
    exact ⟨n.ne_nil, n.slash_notMem⟩

theorem head?_relStr (k : Nat) (p : List Name) : (relStr k p).head? ≠ some '/' ∧ relStr k p ≠ [] := by
  unfold relStr
  split
  · simp
  · rename_i h
    cases k with
    | succ k =>
      rw [List.replicate_succ, List.cons_append]
      cases (List.replicate k ['.', '.'] ++ p.map Name.val) <;> simp [List.intercalate_cons_cons]
    | zero =>
      cases p with
      | nil => simp at h
      | cons n p =>
        obtain ⟨c, cs, hn, hc⟩ := n.exists_cons
        cases p <;> simp [List.intercalate_cons_cons, hn, hc]

theorem splitOn_str (n : Name) (p : List Name) : (str (n :: p)).splitOn '/' = [] :: (n :: p).map Name.val := by
  have hnames : ∀ l ∈ [] :: (n :: p).map Name.val, '/' ∉ l := by
    simpa using ⟨n.slash_notMem, fun a _ => a.slash_notMem⟩
  have hsplit := List.splitOn_intercalate '/' hnames (by simp)
  rwa [List.map_cons, List.intercalate_cons_cons, List.nil_append, List.singleton_append,
    ← List.map_cons, intercalate_names] at hsplit

@[simp] theorem normpath_str (p : List Name) : normpath (str p) = str p := by
  cases p with
  | nil => decide
  | cons n p =>
    obtain ⟨c, cs, hn, hc⟩ := n.exists_cons
    have hslashes : initialSlashes (str (n :: p)) = 1 := by
      simp [str, hn, initialSlashes, hc]
    have hcomps : normComps true ((str (n :: p)).splitOn '/') = (n :: p).map Name.val := by
      rw [splitOn_str]
      exact normComps_names true (n :: p)
    have hjoin := intercalate_names (n :: p)
    simp only [normpath, str_ne_nil, if_false, hslashes, List.replicate_one, List.singleton_append, Nat.reduceBneDiff,
      hcomps, hjoin]

@[simp] theorem normpath_relStr (k : Nat) (p : List Name) : normpath (relStr k p) = relStr k p := by
  obtain ⟨hhead, hne⟩ := head?_relStr k p
  by_cases hkp : k = 0 ∧ p = []
  · obtain ⟨rfl, rfl⟩ := hkp
    decide
  · have hrel : relStr k p = List.intercalate ['/'] (List.replicate k ['.', '.'] ++ p.map Name.val) :=
      if_neg hkp
    have hsplit : (relStr k p).splitOn '/' = List.replicate k ['.', '.'] ++ p.map Name.val := by
      rw [hrel]
      exact List.splitOn_intercalate '/' (fun c hc => (mem_relComps hc).2) (by simpa using hkp)
    simp only [normpath, hne, if_false, initialSlashes_of_not_head hhead, bne_self_eq_false, hsplit,
      normComps_dots_names, List.replicate_zero, List.nil_append, ← hrel]

private theorem intercalate_concat (ds : List Str) (c : Str) (hds : ds ≠ []) :
    List.intercalate ['/'] (ds ++ [c]) = List.intercalate ['/'] ds ++ '/' :: c := by
  induction ds with
  | nil => exact absurd rfl hds
  | cons d ds ih =>
    cases ds with
    | nil => simp [List.intercalate_cons_cons]
    | cons e ds =>
      rw [List.cons_append, List.cons_append, List.intercalate_cons_cons, ← List.cons_append, ih (by simp),
        List.intercalate_cons_cons]
      simp

private theorem getLast?_intercalate_concat (ds : List Str) {c : Str} (hc : c ≠ []) :
    (List.intercalate ['/'] (ds ++ [c])).getLast? = c.getLast? := by
  by_cases hds : ds = []
  · simp [hds]
  · obtain ⟨b, bs, rfl⟩ := List.exists_cons_of_ne_nil hc
    rw [intercalate_concat _ _ hds]
    simp [List.getLast?_append, List.getLast?_eq_some_getLast (List.cons_ne_nil b bs)]

private theorem dirname_intercalate_concat {ds : List Str} {c : Str} (hds : ∀ d ∈ ds ++ [c], d ≠ [] ∧ '/' ∉ d) :
    (ds = [] ∧ dirname (List.intercalate ['/'] (ds ++ [c])) = []) ∨
      (ds ≠ [] ∧ dirname (List.intercalate ['/'] (ds ++ [c])) = List.intercalate ['/'] ds ∧
        List.intercalate ['/'] (ds ++ [c]) = List.intercalate ['/'] ds ++ '/' :: c) := by
  have hc := (hds c (by simp)).2
  rcases List.eq_nil_or_concat ds with rfl | ⟨es, e, rfl⟩
  · refine .inl ⟨rfl, ?_⟩
    have hall : c.rdropWhile (· ≠ '/') = [] := by
      rw [List.rdropWhile_eq_nil_iff]
      intro x hx
      simpa using fun h : x = '/' => hc (h ▸ hx)
    simp only [List.nil_append, List.intercalate_singleton, dirname, hall]
    rfl
  · rw [List.concat_eq_append] at hds ⊢
    obtain ⟨hene, he⟩ := hds e (by simp)
    have heq := intercalate_concat (es ++ [e]) c (by simp)
    have hlast := getLast?_intercalate_concat es hene
    refine .inr ⟨by simp, ?_, heq⟩
    rw [heq]
    refine dirname_append_slash (fun hnil => ?_) (fun h => ?_) hc
    · rw [hnil, List.getLast?_nil] at hlast
      exact hene (List.getLast?_eq_none_iff.1 hlast.symm)
    · rw [hlast] at h
      exact he (List.mem_of_getLast? h)

/-- The last component of a relative path is a name, or `..` when there is none. -/
private theorem relComps_concat {k : Nat} {p : List Name} (h : ¬(k = 0 ∧ p = [])) :
    ∃ (k' : Nat) (p' : List Name) (c : Str), List.replicate k ['.', '.'] ++ p.map Name.val =
      (List.replicate k' ['.', '.'] ++ p'.map Name.val) ++ [c] := by
  rcases List.eq_nil_or_concat p with rfl | ⟨q, n, rfl⟩
  · cases k with
    | zero => exact absurd ⟨rfl, rfl⟩ h
    | succ k => exact ⟨k, [], ['.', '.'], by simp [List.replicate_succ']⟩
  · exact ⟨k, q, n.1, by simp⟩

theorem relStr_getLast? (k : Nat) (p : List Name) : (relStr k p).getLast? ≠ some '/' := by
  by_cases hkp : k = 0 ∧ p = []
  · obtain ⟨rfl, rfl⟩ := hkp
    decide
  · obtain ⟨k', p', c, hc⟩ := relComps_concat hkp
    obtain ⟨hne, hslash⟩ := mem_relComps (k := k) (p := p) (d := c) (by rw [hc]; simp)
    rw [relStr, if_neg hkp, hc, getLast?_intercalate_concat _ hne]
    exact fun h => hslash (List.mem_of_getLast? h)

/-- The directory part of a relative path is empty or a shorter relative path. -/
theorem dirname_relStr (k : Nat) (p : List Name) :
    dirname (relStr k p) = [] ∨
      ∃ k' p' c, dirname (relStr k p) = relStr k' p' ∧ relStr k p = relStr k' p' ++ '/' :: c := by
  by_cases hkp : k = 0 ∧ p = []
  · obtain ⟨rfl, rfl⟩ := hkp
    exact .inl (by decide)
  · obtain ⟨k', p', c, hc⟩ := relComps_concat hkp
    rw [relStr, if_neg hkp, hc]
    rcases dirname_intercalate_concat (fun d hd => mem_relComps (hc ▸ hd)) with ⟨-, h⟩ | ⟨hne, h, heq⟩
    · exact .inl h
    · have hkp' : ¬(k' = 0 ∧ p' = []) := by
        rintro ⟨rfl, rfl⟩
        exact hne (by simp)
      refine .inr ⟨k', p', c, ?_, ?_⟩ <;> rw [relStr, if_neg hkp']
      · exact h
      · exact heq

end PosixPath
