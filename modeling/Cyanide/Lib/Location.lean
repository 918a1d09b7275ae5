import Cyanide.Lib.PosixPath

/-!
# Where a path leads

The components at the end of a path, with a relative path taken from the root: what `..` undoes is left out, and a
`..` at the root does nothing.
-/

namespace PosixPath

/-- The components that a path leads to, from the root. -/
def location (path : Str) : List Str := normComps true (path.splitOn '/')

@[simp] theorem location_str (p : List Name) : location (str p) = p.map Name.val := by
  cases p with
  | nil => decide
  | cons n p =>
    rw [location, splitOn_str]
    exact normComps_names true (n :: p)

/-- A relative path goes on from where the path in front of it leads. -/
theorem location_join (a : Str) {b : Str} (hb : b.head? ≠ some '/') :
    location (join a b) = ((b.splitOn '/').foldl (pushComp true) (location a).reverse).reverse := by
  have happend : ∀ xs ys : List Str,
      normComps true (xs ++ ys) = (ys.foldl (pushComp true) (normComps true xs).reverse).reverse := by
    intro xs ys
    simp [normComps, List.foldl_append]
  by_cases ha : a = []
  · subst ha
    rw [join, if_pos (.inr rfl)]
    rfl
  rw [join, if_neg (by simp [hb, ha])]
  split_ifs with hlast
  · obtain ⟨q, rfl⟩ := List.getLast?_eq_some_iff.1 hlast
    rw [location, location, List.append_assoc, List.singleton_append, List.splitOn_append_cons_self,
      List.splitOn_append_cons_self, List.splitOn_nil, normComps_append_nil, happend]
  · rw [location, List.splitOn_append_cons_self, happend]
    rfl

/-- Components without `..` are put behind those that were kept. -/
theorem suffix_foldl_pushComp {comps : List Str} (hc : ['.', '.'] ∉ comps) (kept : List Str) :
    kept <:+ comps.foldl (pushComp true) kept := by
  induction comps generalizing kept with
  | nil => exact List.suffix_rfl
  | cons c comps ih =>
    simp only [List.mem_cons, not_or] at hc
    refine List.IsSuffix.trans ?_ (ih hc.2 (pushComp true kept c))
    unfold pushComp
    split_ifs with h1 h2
    · exact List.suffix_rfl
    · exact List.suffix_cons c kept
    · exact absurd (.inl (Ne.symm hc.1)) h2

/-- A path that is neither absolute nor goes up through `..`. -/
def Inward (path : Str) : Prop := path.head? ≠ some '/' ∧ ['.', '.'] ∉ path.splitOn '/'

instance (path : Str) : Decidable (Inward path) := inferInstanceAs (Decidable (_ ∧ _))

theorem Inward.location_prefix {b : Str} (hb : Inward b) (a : Str) : location a <+: location (join a b) := by
  rw [location_join a hb.1, ← List.reverse_suffix, List.reverse_reverse]
  exact suffix_foldl_pushComp hb.2 _

/-- One more component. -/
theorem location_join_comp (a : Str) {c : Str} (hc : '/' ∉ c) :
    location (join a c) = (pushComp true (location a).reverse c).reverse := by
  have hhead : c.head? ≠ some '/' := fun h => hc (List.mem_of_head? h)
  rw [location_join a hhead, List.splitOn_eq_singleton hc]
  rfl

private theorem pushComp_rooted {c : Str} (hc : '/' ∉ c) (k : ℕ) (p : List Name) :
    ∃ (k' : ℕ) (p' : List Name),
      pushComp false ((p.map Name.val).reverse ++ List.replicate k ['.', '.']) c =
          (p'.map Name.val).reverse ++ List.replicate k' ['.', '.'] ∧
        pushComp true (p.map Name.val).reverse c = (p'.map Name.val).reverse := by
  by_cases hdot : c = [] ∨ c = ['.']
  · exact ⟨k, p, by rw [pushComp, if_pos hdot], by rw [pushComp, if_pos hdot]⟩
  by_cases hdd : c = ['.', '.']
  · subst hdd
    rcases List.eq_nil_or_concat p with rfl | ⟨p, n, rfl⟩
    · -- the relative path keeps the `..`, at the root it does nothing
      refine ⟨k + 1, [], ?_, by simp [pushComp]⟩
      cases k <;> simp [pushComp, List.replicate_succ]
    · exact ⟨k, p, by simp [pushComp, n.ne_dotdot], by simp [pushComp, n.ne_dotdot]⟩
  · rw [not_or] at hdot
    refine ⟨k, p ++ [⟨c, hdot.1, hc, hdot.2, hdd⟩], ?_, ?_⟩ <;> simp [pushComp, hdot, hdd]

private theorem foldl_pushComp_rooted {comps : List Str} (hc : ∀ c ∈ comps, '/' ∉ c) (k : ℕ) (p : List Name) :
    ∃ (k' : ℕ) (p' : List Name),
      comps.foldl (pushComp false) ((p.map Name.val).reverse ++ List.replicate k ['.', '.']) =
          (p'.map Name.val).reverse ++ List.replicate k' ['.', '.'] ∧
        comps.foldl (pushComp true) (p.map Name.val).reverse = (p'.map Name.val).reverse := by
  induction comps generalizing k p with
  | nil => exact ⟨k, p, rfl, rfl⟩
  | cons c comps ih =>
    simp only [List.mem_cons, forall_eq_or_imp] at hc
    obtain ⟨k', p', hfalse, htrue⟩ := pushComp_rooted hc.1 k p
    rw [List.foldl_cons, List.foldl_cons, hfalse, htrue]
    exact ih hc.2 k' p'

/-- From the root, the leading `..` of a relative path do nothing. -/
theorem location_eq {path : Str} {k : ℕ} {p : List Name}
    (h : normComps false (path.splitOn '/') = List.replicate k ['.', '.'] ++ p.map Name.val) :
    location path = p.map Name.val := by
  obtain ⟨k', p', hfalse, htrue⟩ :=
    foldl_pushComp_rooted (fun c => slash_notMem_of_mem_splitOn (s := path) (c := c)) 0 []
  simp only [List.map_nil, List.reverse_nil, List.nil_append, List.replicate_zero] at hfalse htrue
  have hnames : ∀ (j : ℕ) (q : List Name),
      (List.replicate j ['.', '.'] ++ q.map Name.val).filter (· ≠ ['.', '.']) = q.map Name.val := by
    intro j q
    rw [List.filter_append, List.filter_eq_nil_iff.2 (by simp), List.filter_eq_self.2, List.nil_append]
    intro c hc
    obtain ⟨n, -, rfl⟩ := List.mem_map.1 hc
    simpa using n.ne_dotdot
  rw [normComps, hfalse, List.reverse_append, List.reverse_reverse, List.reverse_replicate] at h
  rw [location, normComps, htrue, List.reverse_reverse, ← hnames k' p', h, hnames]

theorem location_relStr (k : ℕ) (p : List Name) : location (relStr k p) = p.map Name.val := by
  by_cases hkp : k = 0 ∧ p = []
  · obtain ⟨rfl, rfl⟩ := hkp
    decide
  · have hsplit : (relStr k p).splitOn '/' = List.replicate k ['.', '.'] ++ p.map Name.val := by
      rw [relStr, if_neg hkp]
      exact List.splitOn_intercalate '/' (fun c hc => (mem_relComps hc).2) (by simpa using hkp)
    refine location_eq (k := k) ?_
    rw [hsplit, normComps_dots_names]

end PosixPath
