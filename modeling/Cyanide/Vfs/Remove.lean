import Cyanide.Vfs.Listing

/-!
# Removing a path

`remove` puts one path among the deleted ones and drops one overlay entry; it does not look below that path.  So it
removes a tree exactly when nothing exists below the path before (`removesTree_iff`), and a directory made again at the
path lists what the profile and the overlay have for it.
-/

namespace Cyanide

open PosixPath Transition

/-- `x` is strictly below `q`, both resolved. -/
def Below (q x : Str) : Prop := q ++ ['/'] <+: x

instance (q x : Str) : Decidable (Below q x) := inferInstanceAs (Decidable (_ <+: _))

namespace FakeFilesystem

variable {s : FakeFilesystem}

/-- The existence, the type and the content of a path are the same in both filesystems. -/
structure Same (s s' : FakeFilesystem) (path : Str) : Prop where
  pathExists : s'.pathExists path = s.pathExists path
  isDir : s'.isDir path = s.isDir path
  isFile : s'.isFile path = s.isFile path
  content : (s'.getContent path).1 = (s.getContent path).1

theorem same_of_layer {s' : FakeFilesystem} {path : Str} (hp : s'.profile = s.profile)
    (hl : s'.layer (resolve path) = s.layer (resolve path)) : Same s s' path where
  pathExists := by rw [pathExists_eq, pathExists_eq, hl]
  isDir := by rw [isDir_eq, isDir_eq, hl]
  isFile := by rw [isFile_eq, isFile_eq, hl]
  content := by rw [content_eq, content_eq, hl, hp]

/-- What `rm -r path`, and a later `mkdir -p path` with any owner, group and mode, are to do. -/
structure RemovesTree (s : FakeFilesystem) (path owner group perm : Str) : Prop where
  gone : ∀ x, resolve x = resolve path ∨ Below (resolve path) (resolve x) → (s.remove path).2.pathExists x = false
  kept : ∀ x, ¬(resolve x = resolve path ∨ Below (resolve path) (resolve x)) → Same s (s.remove path).2 x
  emptied : ((s.remove path).2.mkdirP path owner group perm).listDir path = []
  staysGone : ∀ x, Below (resolve path) (resolve x) → s.pathExists x = true →
    ((s.remove path).2.mkdirP path owner group perm).pathExists x = false

/-! ### The listing after `mkdir_p` -/

theorem below_str_length {p d : List Name} (hd : d ≠ []) (h : Below (str p) (str d)) : p.length < d.length := by
  have hp : flat p ++ ['/'] <+: str d := by
    by_cases hp : p = []
    · subst hp
      exact (List.prefix_append ['/'] ['/']).trans h
    · rwa [Below, str_of_ne_nil hp] at h
  obtain ⟨n, r, rfl⟩ := (prefix_str_iff.1 hp).resolve_right (fun h => hd h.2)
  simp

private theorem not_below_walk {p : List Name} {q : Str} (h : q ∈ walkFrom ['/'] (p.map Name.val)) :
    ¬Below (str p) q := by
  obtain ⟨d, hd, hpre, rfl⟩ := (mem_walkFrom_names (p := [])).1 h
  intro hb
  have := below_str_length (by simpa using hd) hb
  simp only [List.nil_append] at this
  exact absurd hpre.length_le (by omega)

/-- A name found for a directory has no slash, or is that of a row whose path ends in one. -/
private theorem slash_of_offers {path c : Str} (h : s.Offers path c) : c = ['/'] ∨ '/' ∉ c := by
  rcases h with ⟨b, -, hc⟩ | ⟨key, -, hc⟩
  · obtain ⟨r, hr, rfl⟩ := List.mem_map.1 hc
    rw [(b.placed r (List.mem_filter.1 hr).1).2, nameOf]
    split
    · exact .inl rfl
    · refine .inr fun h => ?_
      simpa [basename] using List.mem_rtakeWhile_imp h
  · unfold childOf at hc
    split at hc
    · rw [Option.some.injEq] at hc
      refine .inr ?_
      rw [← hc, List.headD_eq_head?_getD]
      cases hsplit : (key.drop (rstripSlash path ++ ['/']).length).splitOn '/' with
      | nil => simp
      | cons a l => exact slash_notMem_of_mem_splitOn (hsplit ▸ List.mem_cons_self)
    · cases hc

/-- `remove` and then `mkdir_p` change nothing of what is listed. -/
private theorem mem_listing_remove_mkdirP {path owner group perm : Str} {p : List Name} (hp : p ≠ [])
    (hq : resolve path = str p) (c : Str) :
    c ∈ ((s.remove path).2.mkdirP path owner group perm).listing (str p) ↔ c ∈ s.listing (str p) := by
  have hparts := mkdirParts_of_str hq
  have hout : ∀ key, key ≠ str p → key ∉ walkFrom ['/'] (p.map Name.val) →
      (key ∈ ((s.remove path).2.mkdirP path owner group perm).memoryOverlay ↔ key ∈ s.memoryOverlay) ∧
        (key ∈ ((s.remove path).2.mkdirP path owner group perm).deletedPaths ↔ key ∈ s.deletedPaths) := by
    intro key hne hw
    obtain ⟨hov, hdel⟩ := mem_foldl_mkdirStep_of_notMem owner group perm (mkdirParts path)
      (['/'], (s.remove path).2) (hparts ▸ hw)
    obtain ⟨hov', hdel'⟩ := mem_remove_of_ne (s := s) (hq ▸ hne)
    exact ⟨hov.trans hov', hdel.trans hdel'⟩
  have hbelow : ∀ key, Below (str p) key → key ≠ str p ∧ key ∉ walkFrom ['/'] (p.map Name.val) := by
    refine fun key hb => ⟨?_, fun hw => not_below_walk hw hb⟩
    rintro rfl
    exact absurd (below_str_length hp hb) (by omega)
  have hoffers : ((s.remove path).2.mkdirP path owner group perm).Offers (str p) c ↔ s.Offers (str p) c := by
    unfold Offers
    rw [profile_mkdirP, profile_remove]
    refine or_congr Iff.rfl (exists_congr fun key => and_congr_left fun hc => or_congr Iff.rfl ?_)
    have hb : Below (str p) key := by
      unfold childOf at hc
      split at hc
      · rename_i hpre
        rw [rstripSlash_str, ← str_of_ne_nil hp] at hpre
        exact List.isPrefixOf_iff_prefix.1 hpre
      · cases hc
    exact (hout key (hbelow key hb).1 (hbelow key hb).2).1
  rw [mem_listing, mem_listing, hoffers]
  refine and_congr_right fun ho => not_congr ?_
  rcases slash_of_offers ho with rfl | hc
  · have hjoin : join (str p) ['/'] = ['/'] := by simp [join]
    rw [hjoin]
    refine (hout _ (fun h => hp (str_eq_slash.1 h.symm)) fun hw => ?_).2
    obtain ⟨d, hd, -, heq⟩ := (mem_walkFrom_names (p := [])).1 hw
    exact hd (str_eq_slash.1 heq.symm)
  · have hjoin : join (str p) c = str p ++ '/' :: c := by
      rw [join, if_neg, str_of_ne_nil hp, if_neg (flat_getLast? p hp)]
      rintro (h | h)
      · exact hc (List.mem_of_mem_head? (by simp [h]))
      · exact str_ne_nil p h
    have hb : Below (str p) (join (str p) c) := ⟨c, by rw [hjoin]; simp⟩
    exact (hout _ (hbelow _ hb).1 (hbelow _ hb).2).2

private theorem listing_remove_mkdirP {path owner group perm : Str} {p : List Name} (hp : p ≠ [])
    (hq : resolve path = str p) :
    ((s.remove path).2.mkdirP path owner group perm).listing (str p) = [] ↔ s.listing (str p) = [] := by
  simp only [List.eq_nil_iff_forall_not_mem, mem_listing_remove_mkdirP hp hq]

/-! ### Removing -/

theorem layer_remove_of_exists {path : Str} (hx : s.pathExists path = true) (hne : resolve path ≠ ['/'])
    (x : Str) : (s.remove path).2.layer x = if x = resolve path then .deleted else s.layer x := by
  rw [layer_remove]
  simp [hx, hne]

/-- Removing an existing path removes the tree at it, so that a directory made there again is empty, if and only if
nothing exists below the path and nothing is listed in it. -/
theorem removesTree_iff {path : Str} (hx : s.pathExists path = true) (hne : resolve path ≠ ['/'])
    (owner group perm : Str) :
    s.RemovesTree path owner group perm ↔
      (∀ x, Below (resolve path) (resolve x) → s.pathExists x = false) ∧
        ((resolve path).head? = some '/' → s.listing (resolve path) = []) := by
  have hl := layer_remove_of_exists hx hne
  have hself : ∀ x, Below (resolve path) (resolve x) → resolve x ≠ resolve path := by
    rintro x ⟨t, ht⟩ heq
    simpa [heq] using congrArg List.length ht
  -- the listing of the directory made again
  have hempty : ((s.remove path).2.mkdirP path owner group perm).listDir path = [] ↔
      ((resolve path).head? = some '/' → s.listing (resolve path) = []) := by
    have hdir := layer_mkdirP (s := (s.remove path).2) path owner group perm (resolve_resolve path)
    have hgone : (s.remove path).2.pathExists (resolve path) = false := by
      rw [pathExists_eq, hl, if_pos (resolve_resolve path)]
      rfl
    rcases resolve_cases path with ⟨p, hp⟩ | ⟨k, p, hp⟩
    · have hpne : p ≠ [] := fun h => hne (by rw [hp, h]; rfl)
      have hw : resolve path ∈ walkFrom ['/'] (mkdirParts path) := by
        rw [mkdirParts_of_str hp, hp]
        exact (mem_walkFrom_names (p := [])).2 ⟨p, hpne, List.prefix_refl p, rfl⟩
      rw [if_pos ⟨hw, .inl hgone⟩] at hdir
      rw [listDir_eq, isDir_eq, hdir, if_pos (by simp [Layer.dir, dirConfig]), hp, listing_remove_mkdirP hpne hp]
      simp [head?_str]
    · have hw : resolve path ∉ walkFrom ['/'] (mkdirParts path) := by
        intro hw
        obtain ⟨-, d, -, -, -, heq⟩ := mem_walk (resolve_resolve path) hw
        exact relStr_ne_str k p d (hp ▸ heq)
      rw [if_neg (fun h => hw h.1), hl, if_pos rfl] at hdir
      rw [listDir_eq, isDir_eq, hdir, if_neg (by simp [Layer.dir])]
      simp [hp, (head?_relStr k p).1]
  constructor
  · intro h
    refine ⟨fun x hb => ?_, hempty.1 h.emptied⟩
    have := h.gone x (.inr hb)
    rwa [pathExists_eq, hl, if_neg (hself x hb), ← pathExists_eq] at this
  · rintro ⟨hbelow, hlist⟩
    refine ⟨?_, ?_, hempty.2 hlist, ?_⟩
    · rintro x (heq | hb) <;> rw [pathExists_eq, hl]
      · rw [if_pos heq]
        rfl
      · rw [if_neg (hself x hb), ← pathExists_eq, hbelow x hb]
    · intro x hno
      refine same_of_layer (profile_remove path) ?_
      rw [hl, if_neg (fun heq => hno (.inl heq))]
    · intro x hb hxx
      rw [hbelow x hb] at hxx
      cases hxx

/-- A file in `/` is removed for good. -/
theorem removesTree_file :
    (bare.mkfile "/a".toList).2.RemovesTree "/a".toList root root "drwxr-xr-x".toList := by
  refine (removesTree_iff (s := (bare.mkfile "/a".toList).2) (by decide) (by decide) _ _ _).2
    ⟨fun x hb => ?_, fun _ => by decide⟩
  by_contra hx
  rw [Bool.not_eq_false, pathExists_eq, layer_mkfile, bare_layer] at hx
  split at hx
  · rename_i heq
    rw [heq.1] at hb
    exact absurd hb (by decide)
  · rw [Layer.present, decide_eq_true_eq] at hx
    rw [hx] at hb
    exact absurd hb (by decide)

/-- The file of a removed directory still exists. -/
theorem not_removesTree_directory :
    Reachable ((bare.mkdirP "/a".toList).mkfile "/a/b".toList).2 ∧
      ¬((bare.mkdirP "/a".toList).mkfile "/a/b".toList).2.RemovesTree "/a".toList root root "drwxr-xr-x".toList := by
  refine ⟨⟨bare, [.op (.mkdirP "/a".toList root root "drwxr-xr-x".toList),
    .op (.mkfile "/a/b".toList (.text []) root root "-rw-r--r--".toList)], rfl, rfl⟩, fun h => ?_⟩
  exact absurd (h.gone "/a/b".toList (.inr (by decide))) (by decide)

end FakeFilesystem

end Cyanide
