import Cyanide.Vfs.ParentClosed

/-!
# Directory listings

`list_dir` collects its names from rows and from keys, and not from the paths that exist.  `Listable` says when the two
agree: the keys are canonical paths below `/`, a directory that is known through an entry below it has an entry of its
own, and no relative path is a directory.  A profile has this when its paths are canonical and the parents of its rows
are rows (`Profile.WellFormed`); a step loses it by writing an entry for `/`, or by a `mkdir_p` that walks up with `..`
and creates a directory there (`KeepsListing`).
-/

namespace Cyanide

open PosixPath Transition

namespace FakeFilesystem

variable {s : FakeFilesystem}

/-! ### The names of a listing -/

/-- The names that `list_dir` finds, deleted or not. -/
def Offers (s : FakeFilesystem) (path c : Str) : Prop :=
  (∃ b, s.profile.backend = some b ∧ c ∈ b.listDir path) ∨
    ∃ key, (key ∈ s.profile.dynamicFiles ∨ key ∈ s.memoryOverlay) ∧ childOf (rstripSlash path ++ ['/']) key = some c

theorem mem_listing {path c : Str} : c ∈ s.listing path ↔ s.Offers path c ∧ join path c ∉ s.deletedPaths := by
  have hback : c ∈ s.profile.backend.elim [] (·.listDir path) ↔
      ∃ b, s.profile.backend = some b ∧ c ∈ b.listDir path := by
    cases s.profile.backend <;> simp
  simp only [listing, List.mem_insertionSort, List.mem_filter, List.mem_dedup, List.mem_append, hback,
    List.mem_filterMap, AList.mem_keys, decide_eq_true_eq, Offers, or_and_right, exists_or, or_assoc]

theorem listing_sorted (s : FakeFilesystem) (path : Str) : (s.listing path).Pairwise (· < ·) := by
  have hle : (s.listing path).Pairwise (· ≤ ·) := List.pairwise_insertionSort _ _
  have hnodup : (s.listing path).Nodup :=
    ((List.perm_insertionSort _ _).nodup_iff).2 ((List.nodup_dedup _).filter _)
  exact (hle.and hnodup).imp fun h => (lt_or_eq_of_le h.1).resolve_right h.2

theorem listDir_eq (s : FakeFilesystem) (path : Str) :
    s.listDir path = if s.isDir path = true then s.listing (resolve path) else [] := by
  have hnot : resolve path ∈ s.deletedPaths → s.isDir path = false := by
    intro h
    rw [isDir_eq, layer_eq_deleted.2 h]
    rfl
  unfold listDir
  dsimp only
  rw [isDir_resolve]
  cases hd : s.isDir path with
  | false => simp
  | true =>
    have : resolve path ∉ s.deletedPaths := fun h => by simp [hnot h] at hd
    simp [this]

theorem childOf_str {p r : List Name} {c : Str} (hr : r ≠ []) :
    childOf (flat p ++ ['/']) (str r) = some c ↔ ∃ n r', r = p ++ n :: r' ∧ c = n.1 := by
  unfold childOf
  by_cases hpre : flat p ++ ['/'] <+: str r
  · obtain ⟨n, r', rfl⟩ := (prefix_str_iff.1 hpre).resolve_right (fun h => hr h.2)
    have hhead := head_splitOn_drop p n r'
    rw [if_pos (by simpa using hpre), List.headD_eq_head?_getD, hhead]
    simp only [Option.getD_some, Option.some.injEq, List.append_cancel_left_eq, List.cons.injEq]
    constructor
    · rintro rfl
      exact ⟨n, r', ⟨rfl, rfl⟩, rfl⟩
    · rintro ⟨m, q, ⟨rfl, -⟩, rfl⟩
      rfl
  · rw [if_neg (by simpa using hpre)]
    simp only [reduceCtorEq, false_iff, not_exists, not_and]
    rintro n r' rfl -
    exact hpre (prefix_str_iff.2 (.inl ⟨n, r', rfl⟩))

theorem childOf_relative {pre key : Str} (hpre : pre.head? = some '/') (h : key.head? ≠ some '/') :
    childOf pre key = none := by
  unfold childOf
  rw [if_neg]
  intro hp
  obtain ⟨t, rfl⟩ := List.isPrefixOf_iff_prefix.1 hp
  cases pre with
  | nil => cases hpre
  | cons a pre => exact h hpre

/-! ### Listable filesystems -/

end FakeFilesystem

/-- The paths of the profile are canonical, and the parents of its rows are rows. -/
structure Profile.WellFormed (pr : Profile) : Prop where
  rows : ∀ b, pr.backend = some b → ∀ r ∈ b.rows, ∃ p n, r.path = str (p ++ [n]) ∧
    (p = [] ∨ ∃ r' ∈ b.rows, r'.path = str p)
  dynamic : ∀ key ∈ pr.dynamicFiles, ∃ p n, key = str (p ++ [n])

namespace FakeFilesystem

variable {s : FakeFilesystem}

structure Listable (s : FakeFilesystem) : Prop where
  profile : s.profile.WellFormed
  overlay : ∀ key ∈ s.memoryOverlay, key.head? ≠ some '/' ∨ ∃ p n, key = str (p ++ [n])
  known : ∀ p n m, s.layer (str (p ++ [n, m])) ≠ .missing → s.layer (str (p ++ [n])) ≠ .missing
  relative : ∀ k p, (s.layer (relStr k p)).dir (relStr k p) = false

/-- The steps that write no entry for `/` and none for a path that is not canonical. -/
def KeepsListing (s : FakeFilesystem) : Op → Prop
  | .mkfile path .. => resolve path ≠ ['/']
  | .mkdirP path .. => ∀ q ∈ walkFrom ['/'] (mkdirParts path), resolve q ≠ q →
      s.pathExists q = true ∧ s.isFile q = false
  | .chmod path _ => resolve path ≠ ['/']
  | .chown path .. => resolve path ≠ ['/']
  | .remove _ => True
  | .getContent .. => True
  | .tick _ => True

/-- Listings are sorted, and have the names of the existing entries. -/
def ListsChildren (s : FakeFilesystem) : Prop :=
  ∀ d, s.isDir d = true → (s.listDir d).Pairwise (· < ·) ∧
    ∀ n, n ∈ s.listDir d ↔ IsName n ∧ s.pathExists (join (resolve d) n) = true

private theorem layer_of_row {b : Backend} {r : Row} (hb : s.profile.backend = some b) (hr : r ∈ b.rows) :
    s.layer r.path ≠ .missing := by
  intro h
  have := (layer_eq_missing.1 h).2.2.2
  simp only [backendExists, hb, Option.any_some, Backend.pathExists, Bool.or_eq_false_iff, List.any_eq_false] at this
  exact this.1 r hr (by simp)

private theorem layer_ne_implicit (hw : s.profile.WellFormed) (p : List Name) (n : Name) :
    s.layer (str (p ++ [n])) ≠ .implicit := by
  intro h
  obtain ⟨hc, hx⟩ := layer_eq_implicit h
  cases hb : s.profile.backend with
  | none => simp [backendExists, hb] at hx
  | some b =>
    simp only [backendConfig, hb, Option.bind_some, Backend.getConfig, Option.map_eq_none_iff, Backend.row,
      List.find?_eq_none, decide_eq_true_eq] at hc
    simp only [backendExists, hb, Option.any_some, Backend.pathExists, Bool.or_eq_true, List.any_eq_true,
      decide_eq_true_eq] at hx
    rcases hx with ⟨r, hr, hp⟩ | ⟨r, hr, hp⟩
    · exact hc r hr hp
    · obtain ⟨q, m, hq, hpar⟩ := hw.rows b hb r hr
      rw [(b.placed r hr).1, hq, dirname_str_concat, str_inj] at hp
      subst hp
      obtain ⟨r', hr', hp'⟩ := hpar.resolve_left (by simp)
      exact hc r' hr' hp'

private theorem known_append (h : Listable s) (p : List Name) (n : Name) (r : List Name)
    (hk : s.layer (str (p ++ n :: r)) ≠ .missing) : s.layer (str (p ++ [n])) ≠ .missing := by
  induction r using List.reverseRecOn with
  | nil => exact hk
  | append_singleton r m ih =>
    refine ih ?_
    rcases List.eq_nil_or_concat (n :: r) with hnil | ⟨q, a, ha⟩
    · cases hnil
    · rw [List.concat_eq_append] at ha
      rw [ha, ← List.append_assoc]
      refine h.known (p ++ q) a m ?_
      have heq : p ++ n :: (r ++ [m]) = p ++ q ++ [a, m] := by
        rw [← List.cons_append, ha]
        simp
      rwa [← heq]

/-- The names found for a directory are those of known entries. -/
private theorem known_of_offers (h : Listable s) {p : List Name} {c : Str} (ho : s.Offers (str p) c) :
    ∃ n : Name, c = n.1 ∧ s.layer (str (p ++ [n])) ≠ .missing := by
  rcases ho with ⟨b, hb, hc⟩ | ⟨key, hkey, hc⟩
  · simp only [Backend.listDir, List.mem_map, List.mem_filter, decide_eq_true_eq] at hc
    obtain ⟨r, ⟨hr, hpar⟩, rfl⟩ := hc
    obtain ⟨q, n, hq, -⟩ := h.profile.rows b hb r hr
    obtain ⟨hpl, hn⟩ := b.placed r hr
    rw [hpl, hq, dirname_str_concat, str_inj] at hpar
    subst hpar
    refine ⟨n, ?_, hq ▸ layer_of_row hb hr⟩
    rw [hn, nameOf, hq, basename_str_concat, if_neg n.ne_nil]
  · have hlayer : s.layer key ≠ .missing := by
      intro hm
      rw [layer_eq_missing] at hm
      rcases hkey with hkey | hkey
      · exact hm.2.2.1 hkey
      · exact hm.2.1 hkey
    have hcanon : key.head? ≠ some '/' ∨ ∃ p n, key = str (p ++ [n]) := by
      rcases hkey with hkey | hkey
      · exact .inr (h.profile.dynamic key hkey)
      · exact h.overlay key hkey
    rw [rstripSlash_str] at hc
    rcases hcanon with hrel | ⟨q, m, rfl⟩
    · rw [childOf_relative (by cases p <;> simp) hrel] at hc
      cases hc
    · obtain ⟨n, r, hr, rfl⟩ := (childOf_str (by simp)).1 hc
      rw [hr] at hlayer
      exact ⟨n, rfl, known_append h p n r hlayer⟩

/-- An existing entry is found. -/
private theorem offers_of_present (h : Listable s) {p : List Name} {n : Name}
    (hx : (s.layer (str (p ++ [n]))).present (str (p ++ [n])) = true) : s.Offers (str p) n.1 := by
  have hchild : childOf (rstripSlash (str p) ++ ['/']) (str (p ++ [n])) = some n.1 := by
    rw [rstripSlash_str]
    exact (childOf_str (by simp)).2 ⟨n, [], by simp, rfl⟩
  by_cases hov : str (p ++ [n]) ∈ s.memoryOverlay
  · exact .inr ⟨_, .inr hov, hchild⟩
  by_cases hdy : str (p ++ [n]) ∈ s.profile.dynamicFiles
  · exact .inr ⟨_, .inl hdy, hchild⟩
  have hno := layer_ne_implicit h.profile p n
  unfold layer at hx hno
  rw [AList.lookup_eq_none.2 hov, AList.lookup_eq_none.2 hdy] at hx hno
  split at hx
  · cases hx
  rename_i hd
  rw [if_neg hd] at hno
  cases hc : s.backendConfig (str (p ++ [n])) with
  | none =>
    rw [hc] at hx hno
    cases he : s.backendExists (str (p ++ [n])) with
    | true => simp [he] at hno
    | false => simp [he, Layer.present] at hx
  | some config =>
    cases hb : s.profile.backend with
    | none => simp [backendConfig, hb] at hc
    | some b =>
      simp only [backendConfig, hb, Option.bind_some, Backend.getConfig, Option.map_eq_some_iff] at hc
      obtain ⟨r, hr, -⟩ := hc
      have hm := List.mem_of_find?_eq_some hr
      have hp : r.path = str (p ++ [n]) := by simpa using List.find?_some hr
      obtain ⟨hpl, hn⟩ := b.placed r hm
      refine .inl ⟨b, hb, List.mem_map.2 ⟨r, List.mem_filter.2 ⟨hm, ?_⟩, ?_⟩⟩
      · simp [hpl, hp, dirname_str_concat]
      · rw [hn, nameOf, hp, basename_str_concat, if_neg n.ne_nil]

/-- The names listed in a directory of a listable filesystem are those of its existing entries. -/
theorem mem_listing_str (h : Listable s) (p : List Name) (c : Str) :
    c ∈ s.listing (str p) ↔ ∃ n : Name, c = n.1 ∧ s.pathExists (str (p ++ [n])) = true := by
  rw [mem_listing]
  constructor
  · rintro ⟨ho, hd⟩
    obtain ⟨n, rfl, hk⟩ := known_of_offers h ho
    rw [join_str, ← layer_eq_deleted] at hd
    refine ⟨n, rfl, ?_⟩
    rw [pathExists_eq, resolve_str]
    revert hk hd
    cases s.layer (str (p ++ [n])) <;> simp [Layer.present]
  · rintro ⟨n, rfl, hx⟩
    rw [pathExists_eq, resolve_str] at hx
    refine ⟨offers_of_present h hx, ?_⟩
    rw [join_str, ← layer_eq_deleted]
    intro hl
    rw [hl] at hx
    cases hx

theorem resolve_of_isDir (h : Listable s) {d : Str} (hd : s.isDir d = true) : ∃ p, resolve d = str p := by
  rcases resolve_cases d with hp | ⟨k, p, hp⟩
  · exact hp
  · rw [isDir_eq, hp, h.relative k p] at hd
    cases hd

theorem Listable.listsChildren (h : Listable s) : s.ListsChildren := by
  intro d hd
  obtain ⟨p, hp⟩ := resolve_of_isDir h hd
  rw [listDir_eq, if_pos hd, hp]
  refine ⟨s.listing_sorted _, fun n => ?_⟩
  rw [mem_listing_str h]
  constructor
  · rintro ⟨m, rfl, hx⟩
    exact ⟨m.isName, by rwa [join_str]⟩
  · rintro ⟨hn, hx⟩
    exact ⟨⟨n, hn⟩, rfl, by rwa [← join_str]⟩

/-! ### One step -/

/-- `mkfile` and `mkdir_p` make no directory of a relative path. -/
theorem relative_apply (h : ∀ k p, (s.layer (relStr k p)).dir (relStr k p) = false) {o : Op} (ho : o.IsWrite)
    (k : Nat) (p : List Name) : ((o.apply s).layer (relStr k p)).dir (relStr k p) = false := by
  cases o with
  | getContent path args =>
    rw [Op.apply, layer_getContent]
    exact h k p
  | mkfile path content owner group perm =>
    rw [Op.apply, layer_mkfile]
    split
    · have hne : relStr k p ≠ ['/'] := relStr_ne_str k p []
      simp [Layer.dir, fileConfig, hne]
    · exact h k p
  | mkdirP path owner group perm =>
    rw [Op.apply, layer_mkdirP _ _ _ _ (resolve_relStr k p), if_neg]
    · exact h k p
    · rintro ⟨hw, -⟩
      obtain ⟨-, d, -, -, -, heq⟩ := mem_walk (resolve_relStr k p) hw
      exact relStr_ne_str k p d heq
  | chmod path perm => cases ho
  | chown path owner group => cases ho
  | remove path => cases ho
  | tick now => cases ho

private theorem listable_mkfile (h : Listable s) {path : Str} (hne : resolve path ≠ ['/']) (content : Content)
    (owner group perm : Str) : Listable (s.mkfile path content owner group perm).2 where
  profile := by
    rw [profile_mkfile]
    exact h.profile
  overlay := by
    intro key hkey
    rcases mem_overlay_mkfile hkey with rfl | hkey
    · rcases resolve_cases path with ⟨p, hp⟩ | ⟨k, p, hp⟩
      · rcases List.eq_nil_or_concat p with rfl | ⟨q, n, rfl⟩
        · exact absurd hp hne
        · exact .inr ⟨q, n, by rw [hp, List.concat_eq_append]⟩
      · exact .inl (hp ▸ (head?_relStr k p).1)
    · exact h.overlay key hkey
  known := by
    intro p n m hk
    rw [layer_mkfile] at hk ⊢
    split
    · simp
    split at hk
    · rename_i hnm
      -- the new entry has an existing parent
      obtain ⟨heq, hpar⟩ := hnm
      rw [← heq, show p ++ [n, m] = p ++ [n] ++ [m] by simp, HasParent, dirname_str_concat] at hpar
      have hx := (hpar.resolve_left (by simp)).1
      rw [pathExists_eq, resolve_str] at hx
      intro hm
      simp [hm, Layer.present] at hx
    · exact h.known p n m hk
  relative := relative_apply h.relative (o := .mkfile path content owner group perm) trivial

private theorem listable_mkdirP (h : Listable s) {path : Str} (owner group perm : Str)
    (hghost : ∀ q ∈ walkFrom ['/'] (mkdirParts path), resolve q ≠ q → s.pathExists q = true ∧ s.isFile q = false) :
    Listable (s.mkdirP path owner group perm) := by
  rcases mkdirParts_cases path with ⟨p, hp⟩ | hno
  · refine ⟨?_, ?_, ?_, ?_⟩
    · rw [profile_mkdirP]
      exact h.profile
    · intro key hkey
      by_cases hw : key ∈ walkFrom ['/'] (mkdirParts path)
      · rw [hp] at hw
        obtain ⟨d, hne, -, rfl⟩ := (mem_walkFrom_names (p := [])).1 hw
        rcases List.eq_nil_or_concat d with rfl | ⟨q, n, rfl⟩
        · exact absurd rfl hne
        · exact .inr ⟨q, n, by rw [List.concat_eq_append]; rfl⟩
      · exact h.overlay key ((mem_foldl_mkdirStep_of_notMem _ _ _ _ _ hw).1.1 hkey)
    · intro q n m hk
      rw [layer_mkdirP _ _ _ _ (resolve_str _)] at hk ⊢
      split
      · simp
      rename_i hn
      split at hk
      · rename_i hm
        -- the entry made below is on the walk, and so is its parent
        have hpar := parent_mem_walk (resolve_str _) hm.1
        rw [show q ++ [n, m] = q ++ [n] ++ [m] by simp, parent_str_concat] at hpar
        have hx : s.pathExists (str (q ++ [n])) = true := by
          simp only [hpar.resolve_left (by simp), true_and, not_or, Bool.not_eq_false] at hn
          exact hn.1
        rw [pathExists_eq, resolve_str] at hx
        intro hm
        simp [hm, Layer.present] at hx
      · exact h.known q n m hk
    · exact relative_apply h.relative (o := .mkdirP path owner group perm) trivial
  · rw [mkdirP_eq, foldl_mkdirStep_eq_self _ _ _ _ fun q hq => hghost q hq (hno q hq)]
    exact h

private theorem listable_touched {s' : FakeFilesystem} {path : Str} (h : Listable s) (hne : resolve path ≠ ['/'])
    (ht : Touched s s' (resolve path)) : Listable s' := by
  obtain ⟨config, htype, hl⟩ := ht.layer
  have hold : s.layer (resolve path) ≠ .missing := by
    intro hm
    have := ht.node
    simp [hm, Layer.nodeDir, hne] at this
  refine ⟨?_, ?_, ?_, ?_⟩
  · rw [ht.profile]
    exact h.profile
  · intro key hkey
    rcases (ht.overlay key).1 hkey with rfl | hkey
    · rcases resolve_cases path with ⟨p, hp⟩ | ⟨k, p, hp⟩
      · rcases List.eq_nil_or_concat p with rfl | ⟨q, n, rfl⟩
        · exact absurd hp hne
        · exact .inr ⟨q, n, by rw [hp, List.concat_eq_append]⟩
      · exact .inl (hp ▸ (head?_relStr k p).1)
    · exact h.overlay key hkey
  · intro p n m hk
    rw [hl] at hk ⊢
    split
    · simp
    · refine h.known p n m ?_
      split at hk
      · rename_i heq
        rw [heq]
        exact hold
      · exact hk
  · intro k p
    have hrel := h.relative k p
    rw [hl]
    split
    · rename_i heq
      -- the type written is that of a node which is no directory
      have hroot : relStr k p ≠ ['/'] := relStr_ne_str k p []
      have hty : s.nodeType (relStr k p) ≠ some typeDir := by
        unfold nodeType
        revert hrel
        cases s.layer (relStr k p) <;> simp [Layer.dir, Layer.nodeDir, hroot]
      simp [Layer.dir, hroot, htype, ← heq, hty]
    · exact hrel

private theorem listable_remove (h : Listable s) (path : Str) : Listable (s.remove path).2 where
  profile := by
    rw [profile_remove]
    exact h.profile
  overlay := fun key hkey => h.overlay key (mem_overlay_remove hkey)
  known := by
    intro p n m hk
    rw [layer_remove] at hk ⊢
    split
    · simp
    · refine h.known p n m ?_
      split at hk
      · rename_i hrm
        have hx := hrm.2.2
        rw [pathExists_eq, ← hrm.1] at hx
        intro hm
        simp [hm, Layer.present] at hx
      · exact hk
  relative := by
    intro k p
    rw [layer_remove]
    split
    · rfl
    · exact h.relative k p

/-- Steps that write canonical entries below `/` keep a filesystem listable. -/
theorem listable_apply (h : Listable s) {o : Op} (hG : s.KeepsListing o) : Listable (o.apply s) := by
  have htouch : ∀ {s' : FakeFilesystem} {path : Str}, resolve path ≠ ['/'] →
      (s.getNode path = none ∧ s' = s) ∨ Touched s s' (resolve path) → Listable s' := by
    rintro s' path hne (⟨-, rfl⟩ | ht)
    · exact h
    · exact listable_touched h hne ht
  cases o with
  | getContent path args =>
    rcases s.getContent_snd path args with hs | ⟨op, hs⟩ <;> rw [Op.apply, hs]
    · exact h
    · exact ⟨h.profile, h.overlay, h.known, h.relative⟩
  | mkfile path content owner group perm => exact listable_mkfile h hG content owner group perm
  | mkdirP path owner group perm => exact listable_mkdirP h owner group perm hG
  | chmod path perm => exact htouch hG (s.chmod_touched path perm)
  | chown path owner group => exact htouch hG (s.chown_touched path owner group)
  | remove path => exact listable_remove h path
  | tick now => exact ⟨h.profile, h.overlay, h.known, h.relative⟩

/-! ### Runs -/

/-- A parent-closed filesystem with nothing but a well-formed profile is listable. -/
theorem listable_of_profile (hd : s.deletedPaths = ∅) (ho : s.memoryOverlay = ∅) (hp : s.ParentClosed)
    (hw : s.profile.WellFormed) : Listable s where
  profile := hw
  overlay := by
    intro key hkey
    simp [ho] at hkey
  known := by
    intro p n m hk hm
    have hx : s.pathExists (str (p ++ [n, m])) = true := by
      have hdel : s.layer (str (p ++ [n, m])) ≠ .deleted := by simp [layer_eq_deleted, hd]
      rw [pathExists_eq, resolve_str]
      revert hk hdel
      cases s.layer (str (p ++ [n, m])) <;> simp [Layer.present]
    have := (hp _ hx (by simp)).1
    rw [resolve_str, show p ++ [n, m] = p ++ [n] ++ [m] by simp, dirname_str_concat, pathExists_eq, resolve_str, hm]
      at this
    simp [Layer.present] at this
  relative := by
    intro k p
    have hm : s.layer (relStr k p) = .missing := by
      rw [layer_eq_missing]
      refine ⟨by simp [hd], by simp [ho], fun hdy => ?_, ?_⟩
      · obtain ⟨q, n, hq⟩ := hw.dynamic _ hdy
        exact relStr_ne_str k p _ hq
      · cases hb : s.profile.backend with
        | none => simp [backendExists, hb]
        | some b =>
          simp only [backendExists, hb, Option.any_some, Backend.pathExists, Bool.or_eq_false_iff, List.any_eq_false,
            decide_eq_true_eq]
          refine ⟨fun r hr heq => ?_, fun r hr heq => ?_⟩ <;> obtain ⟨q, n, hq, -⟩ := hw.rows b hb r hr
          · exact relStr_ne_str k p _ (heq.symm.trans hq)
          · rw [(b.placed r hr).1, hq, dirname_str_concat] at heq
            exact relStr_ne_str k p _ heq.symm
    have hne : relStr k p ≠ ['/'] := relStr_ne_str k p []
    simp [hm, Layer.dir, hne]

theorem wellFormed_bare : bare.profile.WellFormed where
  rows := by
    intro b hb
    cases hb
  dynamic := by
    intro key hkey
    simp [bare] at hkey

end FakeFilesystem

end Cyanide
