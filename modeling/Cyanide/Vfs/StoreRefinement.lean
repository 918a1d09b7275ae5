import Cyanide.Lib.FileStore
import Cyanide.Vfs.FrameLaws
import Cyanide.Vfs.Move

/-!
# The filesystem as a store of files and directories

The layers of the fake filesystem are meant to look like one tree.  `store` is that tree, and an operation on resolved
absolute paths means one operation of the store (`Means`).  On a filesystem that is in order (`TreeLike`) each allowed
operation answers what the store answers and leaves the store's next tree (`refines_step`), so a run of them does
(`refines_run`): deleted paths, overlay, dynamic files and profile rows cannot be told apart from a plain tree.
-/

namespace Cyanide

open PosixPath Transition

def Entry.node : Entry → StoreNode Content
  | .dir => .dir
  | .file content => .file content
  | .other => .special

@[simp] theorem Entry.node_inj {e e' : Entry} : e.node = e'.node ↔ e = e' := by
  cases e <;> cases e' <;> simp [Entry.node]

namespace FakeFilesystem

variable {s s' : FakeFilesystem}

/-- What a user sees of a filesystem. -/
def store (s : FakeFilesystem) : FileStore Name Content := fun p => (s.tree p).map Entry.node

theorem store_eq_some {p : List Name} {e : Entry} : s.store p = some e.node ↔ s.tree p = some e := by
  simp [store]

theorem store_eq_none {p : List Name} : s.store p = none ↔ s.tree p = none := Option.map_eq_none_iff

theorem store_eq_dir {p : List Name} : s.store p = some .dir ↔ s.tree p = some .dir := store_eq_some (e := .dir)

theorem store_eq_file {p : List Name} {content : Content} :
    s.store p = some (.file content) ↔ s.tree p = some (.file content) := store_eq_some (e := .file content)

theorem store_eq_special {p : List Name} : s.store p = some .special ↔ s.tree p = some .other :=
  store_eq_some (e := .other)

theorem isDir_store (s : FakeFilesystem) (p : List Name) : s.store.isDir p = s.isDir (str p) := by
  rw [Bool.eq_iff_iff, FileStore.isDir_iff, store_eq_dir, tree, entry_eq_dir]

/-- A tidy-looking filesystem: `/` is there, the listings are exact, every entry is in a directory, and no dynamic file
is a directory. -/
structure TreeLike (s : FakeFilesystem) : Prop where
  root : ['/'] ∉ s.deletedPaths
  listable : Listable s
  proper : FileStore.Proper s.store
  dynamic : ∀ key config, s.profile.dynamicFiles.lookup key = some config → config.type ≠ some typeDir

theorem TreeLike.rooted (h : TreeLike s) : Rooted s where
  root := h.root
  above p n hx := .inl (store_eq_dir.1 (h.proper.parent p n fun hno => hx (store_eq_none.1 hno)))
  listable := h.listable

theorem Tidy.regular (h : Tidy s)
    (hdyn : ∀ key config, s.profile.dynamicFiles.lookup key = some config → config.type ≠ some typeDir) :
    TreeLike s where
  root := h.root
  listable := h.listable
  proper := by
    refine ⟨store_eq_dir.2 (entry_eq_dir.2 (root_isDir h.root)), fun p n hx => store_eq_dir.2 (entry_eq_dir.2 ?_)⟩
    rw [ne_eq, store_eq_none, tree, entry_eq_none, Bool.not_eq_false] at hx
    have hparent := (h.closed _ hx (by simp)).2
    rwa [resolve_str, dirname_str_concat] at hparent
  dynamic := hdyn

/-- What an allowed operation of the store keeps, when the filesystem keeps up with it. -/
theorem TreeLike.next (h : TreeLike s) {o : StoreOp Name Content} (ho : s.store.Allowed o)
    (hroot : ['/'] ∉ s'.deletedPaths) (hlist : Listable s') (hprofile : s'.profile = s.profile)
    (hstore : s'.store = s.store.apply o) : TreeLike s' where
  root := hroot
  listable := hlist
  proper := by
    rw [hstore]
    exact FileStore.proper_apply h.proper ho
  dynamic := by
    rw [hprofile]
    exact h.dynamic

/-- The same for an operation that is made at one path. -/
theorem TreeLike.apply (h : TreeLike s) {o : StoreOp Name Content} (ho : s.store.Allowed o) (op : Op)
    (hlist : s.KeepsListing op) (hprofile : (op.apply s).profile = s.profile)
    (hstore : (op.apply s).store = s.store.apply o) : TreeLike (op.apply s) ∧ (op.apply s).store = s.store.apply o :=
  ⟨h.next ho (root_notMem_deleted_apply h.root op) (listable_apply h.listable hlist) hprofile hstore, hstore⟩

/-! ### Writing, making directories and removing -/

theorem store_of_entry {p : List Name} (h : s'.entry (str p) = s.entry (str p)) : s'.store p = s.store p := by
  rw [store, store, tree, tree, h]

theorem hasParent_store (s : FakeFilesystem) {p : List Name} (hp : p ≠ []) :
    s.store.hasParent p = true ↔ s.HasParent (str p) := by
  obtain ⟨r, n, rfl⟩ := (List.eq_nil_or_concat p).resolve_left hp
  rw [List.concat_eq_append, FileStore.hasParent_concat, isDir_store, HasParent, dirname_str_concat]
  constructor
  · exact fun hd => .inr ⟨pathExists_of_isDir hd, hd⟩
  · rintro (heq | ⟨-, hd⟩)
    · simp at heq
    · exact hd

theorem isSome_mkfile (path : Str) (content : Content) (owner group perm : Str) :
    (s.mkfile path content owner group perm).1.isSome = true ↔ s.HasParent (resolve path) := by
  by_cases h : s.HasParent (resolve path)
  · exact iff_of_true (mkfile_of_parent h content owner group perm).1 h
  · rw [mkfile_of_not_parent h]
    simp [h]

theorem TreeLike.write (h : TreeLike s) {path : Str} {p : List Name} (hp : resolve path = str p) (content : Content)
    (owner group perm : Str) (ho : s.store.Allowed (.write p content)) :
    (s.mkfile path content owner group perm).1.isSome = s.store.hasParent p ∧
      TreeLike (s.mkfile path content owner group perm).2 ∧
      (s.mkfile path content owner group perm).2.store = s.store.write p content := by
  have hroot : resolve path ≠ ['/'] := by
    rw [hp, ne_eq, str_eq_slash]
    exact ho.1
  refine ⟨?_, h.apply ho (.mkfile path content owner group perm) hroot (profile_mkfile ..) ?_⟩
  · rw [Bool.eq_iff_iff, isSome_mkfile, hp, hasParent_store s ho.1]
  funext x
  have hlayer := s.layer_mkfile path content owner group perm (str x)
  rw [hp] at hlayer
  refine Eq.trans ?_ (FileStore.write_apply h.proper ho.2 content x).symm
  split
  · rename_i hx
    rw [hasParent_store s ho.1] at hx
    rw [if_pos ⟨congrArg str hx.1, hx.2⟩] at hlayer
    refine store_eq_file.2 (entry_of_overlay_file ?_ ((congrArg _ (resolve_str x)).trans hlayer) rfl rfl)
    rw [resolve_str, hx.1, ← hp]
    exact hroot
  · rename_i hx
    rw [hasParent_store s ho.1] at hx
    rw [if_neg fun hw => hx ⟨str_injective hw.1, hw.2⟩] at hlayer
    exact store_of_entry (entry_of_layer (profile_mkfile ..) (by rw [resolve_str]; exact hlayer))

theorem mkdirP_resolve (s : FakeFilesystem) (path owner group perm : Str) :
    s.mkdirP (resolve path) owner group perm = s.mkdirP path owner group perm := by
  unfold mkdirP
  rw [resolve_resolve]

theorem store_mkdirP (h : TreeLike s) {p : List Name} (ho : s.store.Allowed (.makeDirs p)) (owner group perm : Str) :
    (s.mkdirP (str p) owner group perm).store = s.store.makeDirs p := by
  funext x
  rw [store, h.rooted.tree_mkdirP, FileStore.makeDirs]
  by_cases hx : x <+: p
  · have hno : s.tree x ≠ some .other := fun heq => ho x hx (store_eq_special.2 heq)
    simp [hx, hno, Entry.node]
  · simp [hx, store]

theorem TreeLike.makeDirs (h : TreeLike s) {path : Str} {p : List Name} (hp : resolve path = str p)
    (owner group perm : Str) (ho : s.store.Allowed (.makeDirs p)) :
    TreeLike (s.mkdirP path owner group perm) ∧ (s.mkdirP path owner group perm).store = s.store.makeDirs p := by
  rw [← mkdirP_resolve, hp]
  exact ⟨h.next ho (h.rooted.mkdirP p ..).root (h.rooted.mkdirP p ..).listable (profile_mkdirP ..)
    (store_mkdirP h ho ..), store_mkdirP h ho ..⟩

theorem TreeLike.remove (h : TreeLike s) {path : Str} {p : List Name} (hp : resolve path = str p)
    (ho : s.store.Allowed (.remove p)) :
    (s.remove path).1 = (!p.isEmpty && (s.store p).isSome) ∧ TreeLike (s.remove path).2 ∧
      (s.remove path).2.store = s.store.remove p := by
  have hx : s.pathExists path = (s.store p).isSome := by
    rw [Bool.eq_iff_iff, Option.isSome_iff_ne_none, ne_eq, store_eq_none, tree, entry_eq_none, Bool.not_eq_false,
      ← hp, pathExists_resolve]
  have hroot : resolve path = ['/'] ↔ p = [] := by rw [hp, str_eq_slash]
  refine ⟨?_, h.apply ho (.remove path) trivial (profile_remove path) ?_⟩
  · unfold FakeFilesystem.remove
    dsimp only
    rw [pathExists_resolve, hx]
    simp only [hroot]
    by_cases hne : p = []
    · simp [hne]
    · cases hs : (s.store p).isSome <;> simp [hne]
  funext x
  refine Eq.trans ?_ (FileStore.remove_apply h.proper ho x).symm
  by_cases hgo : s.pathExists path = true ∧ p ≠ []
  · have hentry := entry_remove path hgo.1 (fun heq => hgo.2 (hroot.1 heq)) (str x)
    simp only [resolve_str, hp, str_inj] at hentry
    split
    · rename_i hxp
      rw [if_pos hxp.1] at hentry
      exact store_eq_none.2 hentry
    · rename_i hxp
      rw [if_neg fun heq => hxp ⟨heq, hgo.2⟩] at hentry
      exact store_of_entry hentry
  · have hsame : (s.remove path).2 = s := by
      unfold FakeFilesystem.remove
      dsimp only
      rw [pathExists_resolve]
      simp only [hroot]
      rw [if_pos]
      by_cases hne : p = []
      · exact .inl hne
      · exact .inr (by simpa [hne] using hgo)
    show (s.remove path).2.store x = _
    rw [hsame]
    split
    · rename_i hxp
      obtain rfl := hxp.1
      rw [hx] at hgo
      simpa [hxp.2] using hgo
    · rfl

/-! ### Copying and moving -/

/-- Reading changes nothing that a user sees. -/
theorem TreeLike.getContent (h : TreeLike s) (path : Str) (args : Dict Str) :
    TreeLike (s.getContent path args).2 ∧ (s.getContent path args).2.store = s.store := by
  have hprofile : (s.getContent path args).2.profile = s.profile := by
    rcases s.getContent_snd path args with heq | ⟨op, heq⟩ <;> rw [heq]
    rfl
  refine h.apply (o := .idle) trivial (.getContent path args) trivial hprofile (funext fun x => ?_)
  exact store_of_entry (entry_of_layer hprofile (layer_getContent ..))

theorem profile_copy (depth : Nat) (s : FakeFilesystem) (src dst : Str) (recursive : Bool) :
    (FakeFilesystem.copy depth s src dst recursive).2.profile = s.profile := by
  refine invariant_of_copy (I := fun t => t.profile = s.profile) (fun t o ht ho => ?_) rfl depth src dst recursive
  cases o with
  | getContent path args =>
    show (t.getContent path args).2.profile = s.profile
    rcases t.getContent_snd path args with heq | ⟨op, heq⟩ <;> rw [heq]
    · exact ht
    · exact ht
  | mkfile path content owner group perm => exact (profile_mkfile ..).trans ht
  | mkdirP path owner group perm => exact (profile_mkdirP ..).trans ht
  | _ => exact absurd ho id

theorem isFile_store_of_ne {p : List Name} (hp : p ≠ []) : s.store.isFile p = s.isFile (str p) := by
  rw [Bool.eq_iff_iff, FileStore.isFile_iff]
  constructor
  · rintro ⟨content, hc⟩
    exact (entry_eq_file.1 (store_eq_file.1 hc)).2.1
  · intro hf
    have hd : s.isDir (str p) = false := by
      by_contra hd
      rw [isFile_of_isDir (by simpa using hp) (by simpa using hd)] at hf
      exact Bool.false_ne_true hf
    exact ⟨_, store_eq_file.2 (entry_eq_file.2 ⟨hd, hf, rfl⟩)⟩

theorem pathExists_store (s : FakeFilesystem) (p : List Name) : s.pathExists (str p) = (s.store p).isSome := by
  rw [Bool.eq_iff_iff, Option.isSome_iff_ne_none, ne_eq, store_eq_none, tree, entry_eq_none, Bool.not_eq_false]

/-- The path that `copy` writes to, for a source with a name. -/
theorem copyTarget_store {p q : List Name} (h : p ≠ [] ∨ s.store.isDir q = false) :
    s.copyTarget (str p) (str q) = str (s.store.target p q) := by
  unfold copyTarget FileStore.target
  rw [isDir_store] at h ⊢
  by_cases hd : s.isDir (str q) = true
  · obtain ⟨r, n, rfl⟩ := (List.eq_nil_or_concat p).resolve_left (h.resolve_right (by simp [hd]))
    rw [if_pos hd, if_pos (by simp [pathExists_of_isDir hd, hd]), List.concat_eq_append, basename_str_concat, join_str,
      List.getLast?_concat]
    rfl
  · rw [if_neg hd, if_neg (by simp [hd])]

theorem store_graft (t u : PathTree Name Entry) (d x : List Name) :
    (t.graft d u x).map Entry.node =
      PathTree.graft (fun x => (t x).map Entry.node) d (fun x => (u x).map Entry.node) x := by
  unfold PathTree.graft
  split <;> rfl

private theorem copy_absent (h : TreeLike s) {src dst : Str} {p q : List Name} (hp : resolve src = str p)
    (hq : resolve dst = str q) (hdir : s.store p = some .dir) (habs : s.store (s.store.target p q) = none)
    (hpd : ¬p <+: s.store.target p q) (habove : ∀ x, x <+: s.store.target p q → s.store x ≠ some .special)
    (hreg : ∀ r, s.store (p ++ r) ≠ some .special) {depth : Nat} (hdepth : s.store.Bounded depth) :
    ∃ s', copy depth s src dst true = (.ok true, s') ∧ Rooted s' ∧ s'.profile = s.profile ∧
      s'.store = (s.store.makeDirs (s.store.target p q)).graft (s.store.target p q) (s.store.sub p) := by
  have hpne : p ≠ [] := by
    rintro rfl
    exact hpd List.nil_prefix
  have htarget := copyTarget_store (s := s) (q := q) (.inl hpne)
  generalize s.store.target p q = d at htarget habs hpd habove
  have hr := h.rooted
  have hdir' := store_eq_dir.1 hdir
  have hd : s.isDir src = true := by rwa [← isDir_resolve, hp, ← isDir_store, FileStore.isDir_iff]
  have hdp : ¬d <+: p := by
    rintro ⟨r, rfl⟩
    exact h.proper.closed.append (by rw [hdir]; simp) habs
  have hdx : s.pathExists (str d) = false := by rw [pathExists_store, habs]; rfl
  have hdest : s.destination src dst = str d := by rw [destination, hp, hq, htarget, resolve_str]
  have htree := hr.tree_mkdirP d root root "drwxr-xr-x".toList
  have hsub : (s.mkdirP (str d)).tree.sub p = s.tree.sub p := by
    funext r
    exact (htree (p ++ r)).trans (if_neg fun hle => hpd ((List.prefix_append p r).trans hle.1))
  have hleaf : (s.mkdirP (str d)).tree.sub d = .leaf .dir := by
    funext r
    have habs' := store_eq_none.1 habs
    cases r with
    | nil => exact (htree _).trans (if_pos (by simp [habs']))
    | cons m r =>
      refine (htree _).trans ((if_neg fun hle => absurd hle.1.length_le (by simp)).trans ?_)
      by_contra hno
      exact hr.tree_closed.append hno habs'
  obtain ⟨s', hs', hrooted, hs'tree⟩ := copyDir_graft (copyRecursive depth) hpd hdp (hr.mkdirP d ..)
    hsub hdir' (fun r heq => hreg r (store_eq_special.2 heq))
    (fun r hr => by
      have := hdepth (p ++ r) fun hno => hr (store_eq_none.1 hno)
      rw [List.length_append] at this
      omega)
    hleaf (copyRecursive_graft depth)
  have hcopy : copy depth s src dst true = (.ok true, s') := by
    rw [copy_dir (pathExists_of_isDir hd) hd (by simp [hdest, hdx]), hp, hq, htarget]
    simp only [hdx, Bool.false_eq_true, if_false]
    exact hs'
  refine ⟨s', hcopy, hrooted, ?_, ?_⟩
  · have := profile_copy depth s src dst true
    rwa [hcopy] at this
  · funext x
    rw [store, hs'tree, store_graft]
    refine congrFun (congrArg (fun t => PathTree.graft t d (s.store.sub p)) ?_) x
    exact store_mkdirP h habove ..

/-- A copy of the store is made by a copy whose recursion limit the store does not reach. -/
theorem TreeLike.copy (h : TreeLike s) {src dst : Str} {p q : List Name} {recursive : Bool} (hp : resolve src = str p)
    (hq : resolve dst = str q) (ho : s.store.AllowedCopy p q recursive) {depth : Nat}
    (hdepth : s.store.Bounded depth) :
    ∃ s', FakeFilesystem.copy depth s src dst recursive = (.ok (s.store.copy p q recursive).1, s') ∧ TreeLike s' ∧
      s'.store = (s.store.copy p q recursive).2 := by
  have hx : s.pathExists src = (s.store p).isSome := by rw [← pathExists_resolve, hp, pathExists_store]
  have hd : s.isDir src = s.store.isDir p := by rw [← isDir_resolve, hp, isDir_store]
  have hallowed : s.store.Allowed (.copy p q recursive) := ho
  unfold FileStore.AllowedCopy at ho
  cases hnode : s.store p with
  | none =>
    rw [FileStore.copy_none hnode]
    refine ⟨s, copy_of_not_exists (by rw [hx, hnode]; rfl) depth dst recursive, h, rfl⟩
  | some node =>
    simp only [hnode] at ho
    cases node with
    | special => exact absurd ho id
    | file content =>
      have hfile := entry_eq_file.1 (store_eq_file.1 hnode)
      have hpne : p ≠ [] := by
        rintro rfl
        rw [h.proper.root] at hnode
        cases hnode
      have htne : s.store.target p q ≠ [] := by
        intro heq
        have hdir := ho.2
        rw [heq, ← Bool.not_eq_true, FileStore.isDir_iff] at hdir
        exact hdir h.proper.root
      obtain ⟨hread, hstore⟩ := h.getContent (str p) ∅
      have hcopy : FakeFilesystem.copy depth s src dst recursive =
          (.ok true, ((s.getContent (str p)).2.mkfile (str (s.store.target p q)) content).2) := by
        unfold FakeFilesystem.copy
        dsimp only
        rw [hp, hq, if_neg (by simp [pathExists_store, hnode]), if_neg (by simp [hfile.1]),
          copyTarget_store (.inl hpne), hfile.2.2]
      obtain ⟨-, htreeLike, hwrite⟩ := hread.write (resolve_str (s.store.target p q)) content Cyanide.root Cyanide.root
        "-rw-r--r--".toList (by
          rw [hstore]
          exact ⟨htne, ho.2⟩)
      rw [FileStore.copy_file hnode]
      refine ⟨_, hcopy, htreeLike, ?_⟩
      rw [hwrite, hstore]
    | dir =>
      have hdir : s.isDir src = true := by rw [hd, FileStore.isDir_iff, hnode]
      have hexists := pathExists_of_isDir hdir
      rw [FileStore.copy_dir hnode]
      split
      · rename_i hno
        refine ⟨s, ?_, h, rfl⟩
        cases recursive with
        | false =>
          unfold FakeFilesystem.copy
          dsimp only
          rw [if_neg (by simp [pathExists_resolve, hexists]), if_pos (by rwa [isDir_resolve]), if_pos rfl]
        | true =>
          -- a directory is not copied onto a file, which is no directory to copy into
          have hf : s.store.isFile (s.store.target p q) = true := by simpa using hno
          have htne : s.store.target p q ≠ [] := by
            intro heq
            rw [heq, FileStore.isFile_iff, h.proper.root] at hf
            simp at hf
          have hname : p ≠ [] ∨ s.store.isDir q = false := by
            by_contra hno
            simp only [not_or, ne_eq, not_not, Bool.not_eq_false] at hno
            obtain ⟨content, hc⟩ := FileStore.isFile_iff.1 hf
            have hqdir := FileStore.isDir_iff.1 hno.2
            simp [FileStore.target, hno.1, hno.2, hqdir] at hc
          have hdest : s.destination src dst = str (s.store.target p q) := by
            rw [destination, hp, hq, copyTarget_store hname, resolve_str]
          rw [isFile_store_of_ne htne, ← hdest] at hf
          exact copy_dir_to_file hexists hdir (pathExists_of_isFile hf) hf depth true
      · rename_i hno
        simp only [Bool.or_eq_true, Bool.not_eq_true', not_or, Bool.not_eq_false] at hno
        obtain ⟨rfl, hno⟩ := hno
        obtain ⟨habs, hpd, habove, hreg⟩ := (ho.resolve_left (by simp)).resolve_left hno
        obtain ⟨s', hs', hrooted, hprofile, hstore⟩ := copy_absent h hp hq hnode habs hpd habove hreg hdepth
        refine ⟨s', hs', h.next hallowed hrooted.root hrooted.listable hprofile ?_, hstore⟩
        rw [hstore]
        show _ = (s.store.copy p q true).2
        rw [FileStore.copy_dir hnode, if_neg (by simpa using hno)]

theorem TreeLike.move (h : TreeLike s) {src dst : Str} {p q : List Name} (hp : resolve src = str p)
    (hq : resolve dst = str q) (ho : s.store.Allowed (.move p q)) {depth : Nat} (hdepth : s.store.Bounded depth) :
    ∃ s', FakeFilesystem.move depth s src dst = (.ok (s.store.move p q).1, s') ∧ TreeLike s' ∧
      s'.store = (s.store.move p q).2 := by
  obtain ⟨hcopy, -, hchildless⟩ := ho
  have hx : s.pathExists src = (s.store p).isSome := by rw [← pathExists_resolve, hp, pathExists_store]
  obtain ⟨s₁, hs₁, htreeLike, hstore⟩ := h.copy hp hq hcopy hdepth
  have hmove : s.store.move p q = ((s.store.copy p q true).1,
      if (s.store.copy p q true).1 = true then FileStore.remove (s.store.copy p q true).2 p
      else (s.store.copy p q true).2) := rfl
  rw [hmove]
  cases hok : (s.store.copy p q true).1 with
  | false =>
    rw [hok] at hs₁
    refine ⟨s₁, ?_, htreeLike, hstore⟩
    by_cases hsrc : s.pathExists src = true
    · exact move_of_copy_false hs₁ hsrc
    · rw [Bool.not_eq_true] at hsrc
      rw [copy_of_not_exists hsrc, Prod.mk.injEq] at hs₁
      rw [move_of_not_exists hsrc, hs₁.2]
  | true =>
    rw [hok] at hs₁
    have hpne := FileStore.ne_nil_of_copy h.proper hcopy hok
    have hsrc : s.pathExists src = true := by
      by_contra hno
      rw [hx, Bool.not_eq_true, Option.isSome_eq_false_iff, Option.isNone_iff_eq_none] at hno
      rw [FileStore.copy_none hno] at hok
      cases hok
    have hmoved := move_of_copy_true hs₁ hsrc (by rwa [hp, ne_eq, str_eq_slash])
    have hresolve : resolve (resolve src) = str p := by rw [resolve_resolve, hp]
    obtain ⟨-, htreeLike', hstore'⟩ := htreeLike.remove hresolve (by
      rw [hstore]
      exact FileStore.childless_copy h.proper hchildless hcopy)
    refine ⟨_, hmoved, htreeLike', ?_⟩
    rw [hstore', hstore]
    rfl

/-! ### Other modes and owners -/

theorem lookup_of_layer_dynamic {q : Str} {config : Config} (h : s.layer q = .dynamic config) :
    s.profile.dynamicFiles.lookup q = some config := by
  unfold layer at h
  split at h
  · cases h
  · split at h
    · cases h
    · split at h
      · rename_i hlook
        rw [hlook, Layer.dynamic.inj h]
      · split at h
        · cases h
        · split at h <;> cases h

theorem backendConfig_of_layer_row {q : Str} {config : Config} (h : s.layer q = .row config) :
    s.backendConfig q = some config := by
  unfold layer at h
  split at h
  · cases h
  · split at h
    · cases h
    · split at h
      · cases h
      · split at h
        · rename_i hc
          rw [hc, Layer.row.inj h]
        · split at h <;> cases h

/-- An overlay entry with the type and the content of the node that was there. -/
theorem entry_of_touched (h : TreeLike s) {path : Str} {p : List Name} (hp : resolve path = str p) (hne : p ≠ [])
    (ho : s.store p ≠ some .special) {node : Node} (hn : s.getNode path = some node) {config : Config}
    (hl : s'.layer (str p) = .overlay config)
    (hconfig : (∃ c, s.layer (str p) = .overlay c ∧ config.type = c.type ∧ config.content = c.content) ∨
      config.type = (s.materialize (str p) node).1.type ∧ config.content = (s.materialize (str p) node).1.content) :
    s'.entry (str p) = s.entry (str p) := by
  have hslash : str p ≠ ['/'] := by rwa [ne_eq, str_eq_slash]
  rcases hconfig with ⟨c, hc, htype, hcontent⟩ | ⟨htype, hcontent⟩
  · simp [entry, pathExists_eq, isDir_eq, isFile_eq, content_eq, hl, hc, Layer.present, Layer.dir, Layer.file,
      Layer.content, htype, hcontent]
  have hx : s.pathExists (str p) = true := by
    rw [← hp, pathExists_resolve]
    by_contra hno
    rw [Bool.not_eq_true, ← getNode_eq_none_iff, hn] at hno
    cases hno
  have hdir : node.isDir = s.isDir (str p) := by
    have hnode := s.getNode_dir_eq path
    rw [hn, hp, Option.map_some] at hnode
    rw [isDir_eq, resolve_str]
    have hdyn : ∀ c, s.layer (str p) = .dynamic c → c.type ≠ some typeDir :=
      fun c hc => h.dynamic (str p) c (lookup_of_layer_dynamic hc)
    cases hlayer : s.layer (str p) <;> simp_all [Layer.nodeDir, Layer.dir]
  cases hd : s.isDir (str p) with
  | true =>
    rw [entry_eq_dir.2 hd]
    refine entry_of_overlay_dir (by rw [resolve_str, hl]) ?_
    rw [htype]
    simp [materialize, hdir, hd]
  | false =>
    rw [entry_file_of hx hd fun heq => ho (store_eq_special.2 heq)]
    refine entry_of_overlay_file (by rwa [resolve_str]) (by rw [resolve_str, hl]) ?_ ?_
    · rw [htype]
      simp [materialize, hdir, hd]
    · rw [hcontent]
      have hfile : node.isFile = true := by
        rw [Node.isDir] at hdir
        rw [Node.isFile, hdir, hd]
        rfl
      simp [materialize, hfile]

/-- An operation that puts such an entry at the path. -/
theorem TreeLike.touched (h : TreeLike s) {path : Str} {p : List Name} (hp : resolve path = str p)
    (ho : s.store.Allowed (.mark p)) {node : Node} (hn : s.getNode path = some node) (op : Op)
    (hlist : s.KeepsListing op) (hprofile : (op.apply s).profile = s.profile) {config : Config}
    (hlayer : ∀ x, (op.apply s).layer x = if x = resolve path then .overlay config else s.layer x)
    (hconfig : (∃ c, s.layer (str p) = .overlay c ∧ config.type = c.type ∧ config.content = c.content) ∨
      config.type = (s.materialize (str p) node).1.type ∧ config.content = (s.materialize (str p) node).1.content) :
    TreeLike (op.apply s) ∧ (op.apply s).store = s.store := by
  refine h.apply (o := .mark p) ho op hlist hprofile (funext fun x => store_of_entry ?_)
  rw [hp] at hlayer
  by_cases hx : x = p
  · rw [hx]
    exact entry_of_touched h hp ho.1 ho.2 hn ((hlayer _).trans (if_pos rfl)) hconfig
  · refine entry_of_layer hprofile ?_
    rw [resolve_str]
    exact (hlayer _).trans (if_neg fun heq => hx (str_injective heq))

theorem TreeLike.chmod (h : TreeLike s) {path : Str} {p : List Name} (hp : resolve path = str p)
    (ho : s.store.Allowed (.mark p)) (perm : Str) :
    (s.chmod path perm).1 = (s.store p).isSome ∧ TreeLike (s.chmod path perm).2 ∧
      (s.chmod path perm).2.store = s.store := by
  have hx : s.pathExists path = (s.store p).isSome := by rw [← pathExists_resolve, hp, pathExists_store]
  cases hn : s.getNode path with
  | none =>
    have hno := getNode_eq_none_iff.1 hn
    have hsame : s.chmod path perm = (false, s) := ((modes_laws s path perm none none).2 hno).1
    rw [hsame, ← hx, hno]
    exact ⟨rfl, h, rfl⟩
  | some node =>
    obtain ⟨config, hconfig, hlayer⟩ := chmod_entry hn perm
    refine ⟨?_, h.touched hp ho hn (.chmod path perm) ?_ (profile_chmod path perm) hlayer ?_⟩
    · rw [chmod_fst hn, ← hx, eq_comm, ← Bool.not_eq_false, ← getNode_eq_none_iff, hn]
      simp
    · show resolve path ≠ ['/']
      rw [hp, ne_eq, str_eq_slash]
      exact ho.1
    · rw [hp] at hconfig
      rcases hconfig with hover | rfl
      · exact .inl ⟨config, hover, rfl, rfl⟩
      · exact .inr ⟨rfl, rfl⟩

theorem TreeLike.chown (h : TreeLike s) {path : Str} {p : List Name} (hp : resolve path = str p)
    (ho : s.store.Allowed (.mark p)) (owner group : Option Str) :
    (s.chown path owner group).1 = (s.store p).isSome ∧ TreeLike (s.chown path owner group).2 ∧
      (s.chown path owner group).2.store = s.store := by
  have hx : s.pathExists path = (s.store p).isSome := by rw [← pathExists_resolve, hp, pathExists_store]
  cases hn : s.getNode path with
  | none =>
    have hno := getNode_eq_none_iff.1 hn
    have hsame : s.chown path owner group = (false, s) := ((modes_laws s path [] owner group).2 hno).2
    rw [hsame, ← hx, hno]
    exact ⟨rfl, h, rfl⟩
  | some node =>
    obtain ⟨config, hconfig, hlayer⟩ := chown_entry hn owner group
    refine ⟨?_, h.touched hp ho hn (.chown path owner group) ?_ (profile_chown path owner group) hlayer ?_⟩
    · rw [chown_fst hn, ← hx, eq_comm, ← Bool.not_eq_false, ← getNode_eq_none_iff, hn]
      simp
    · show resolve path ≠ ['/']
      rw [hp, ne_eq, str_eq_slash]
      exact ho.1
    · rw [hp] at hconfig
      rcases hconfig with hover | rfl
      · exact .inl ⟨config, hover, rfl, rfl⟩
      · exact .inr ⟨rfl, rfl⟩

end FakeFilesystem

/-! ### Runs -/

/-- What a call returns. -/
def Call.reply (s : FakeFilesystem) : Call → Except RecursionError (StoreReply Content)
  | .op (.getContent path args) => .ok (.content (s.getContent path args).1)
  | .op (.mkfile path content owner group perm) => .ok (.done (s.mkfile path content owner group perm).1.isSome)
  | .op (.mkdirP ..) | .op (.tick _) => .ok (.done true)
  | .op (.chmod path perm) => .ok (.done (s.chmod path perm).1)
  | .op (.chown path owner group) => .ok (.done (s.chown path owner group).1)
  | .op (.remove path) => .ok (.done (s.remove path).1)
  | .copy depth src dst recursive => (s.copy depth src dst recursive).1.map .done
  | .move depth src dst => (s.move depth src dst).1.map .done

/-- The operation of the store that a call means, at a recursion limit of at least `n`. -/
inductive Call.Means (n : Nat) : Call → StoreOp Name Content → Prop
  | read {path : Str} {p : List Name} (hp : resolve path = str p) : Means n (.op (.getContent path ∅)) (.read p)
  | write {path : Str} {p : List Name} (content : Content) (owner group perm : Str) (hp : resolve path = str p) :
      Means n (.op (.mkfile path content owner group perm)) (.write p content)
  | makeDirs {path : Str} {p : List Name} (owner group perm : Str) (hp : resolve path = str p) :
      Means n (.op (.mkdirP path owner group perm)) (.makeDirs p)
  | remove {path : Str} {p : List Name} (hp : resolve path = str p) : Means n (.op (.remove path)) (.remove p)
  | chmod {path : Str} {p : List Name} (perm : Str) (hp : resolve path = str p) :
      Means n (.op (.chmod path perm)) (.mark p)
  | chown {path : Str} {p : List Name} (owner group : Option Str) (hp : resolve path = str p) :
      Means n (.op (.chown path owner group)) (.mark p)
  | tick (now : Nat) : Means n (.op (.tick now)) .idle
  | copy {depth : Nat} {src dst : Str} {p q : List Name} (recursive : Bool) (hdepth : n ≤ depth)
      (hp : resolve src = str p) (hq : resolve dst = str q) :
      Means n (.copy depth src dst recursive) (.copy p q recursive)
  | move {depth : Nat} {src dst : Str} {p q : List Name} (hdepth : n ≤ depth) (hp : resolve src = str p)
      (hq : resolve dst = str q) : Means n (.move depth src dst) (.move p q)

namespace FakeFilesystem

variable {s : FakeFilesystem}

/-- One call. -/
theorem refines_step (h : TreeLike s) {n : Nat} {c : Call} {o : StoreOp Name Content} (hm : c.Means n o)
    (hb : s.store.Bounded n) (ho : s.store.Allowed o) :
    c.reply s = .ok (s.store.reply o) ∧ TreeLike (c.apply s) ∧ (c.apply s).store = s.store.apply o := by
  cases hm with
  | @read path p hp =>
    obtain ⟨content, hc⟩ := FileStore.isFile_iff.1 ho
    obtain ⟨htreeLike, hstore⟩ := h.getContent path ∅
    refine ⟨?_, htreeLike, hstore⟩
    have hread : (s.getContent path).1 = content := by
      rw [← (entry_eq_file.1 (store_eq_file.1 hc)).2.2, content_eq, content_eq, hp, resolve_str]
    simp [Call.reply, FileStore.reply, hc, hread]
  | write content owner group perm hp =>
    obtain ⟨hreply, hnext⟩ := h.write hp content owner group perm ho
    exact ⟨by rw [Call.reply, hreply]; rfl, hnext⟩
  | makeDirs owner group perm hp => exact ⟨rfl, h.makeDirs hp owner group perm ho⟩
  | remove hp =>
    obtain ⟨hreply, hnext⟩ := h.remove hp ho
    exact ⟨by rw [Call.reply, hreply]; rfl, hnext⟩
  | chmod perm hp =>
    obtain ⟨hreply, hnext⟩ := h.chmod hp ho perm
    exact ⟨by rw [Call.reply, hreply]; rfl, hnext⟩
  | chown owner group hp =>
    obtain ⟨hreply, hnext⟩ := h.chown hp ho owner group
    exact ⟨by rw [Call.reply, hreply]; rfl, hnext⟩
  | tick now =>
    exact ⟨rfl, h.apply (o := .idle) trivial (.tick now) trivial rfl (funext fun x =>
      store_of_entry (entry_of_layer rfl rfl))⟩
  | copy recursive hdepth hp hq =>
    obtain ⟨s', hs', htreeLike, hstore⟩ := h.copy hp hq ho (hb.mono hdepth)
    rw [Call.reply, Call.apply, hs']
    exact ⟨rfl, htreeLike, hstore⟩
  | move hdepth hp hq =>
    obtain ⟨s', hs', htreeLike, hstore⟩ := h.move hp hq ho (hb.mono hdepth)
    rw [Call.reply, Call.apply, hs']
    exact ⟨rfl, htreeLike, hstore⟩

/-- Every query of an absolute path answers from the store. -/
structure Shows (s : FakeFilesystem) (t : FileStore Name Content) : Prop where
  pathExists : ∀ path p, resolve path = str p → s.pathExists path = (t p).isSome
  isDir : ∀ path p, resolve path = str p → s.isDir path = t.isDir p
  isFile : ∀ path p, resolve path = str p → s.isFile path = t.isFile p
  content : ∀ path p content, resolve path = str p → t p = some (.file content) → (s.getContent path).1 = content
  listDir : ∀ path p, resolve path = str p → t.isDir p = true → ∃ ns : List Name,
    s.listDir path = ns.map Name.val ∧ (ns.map Name.val).Pairwise (· < ·) ∧ ∀ n, n ∈ ns ↔ t (p ++ [n]) ≠ none

theorem TreeLike.isFile_root (h : TreeLike s) : s.isFile ['/'] = false := by
  have hno : ∀ config, s.layer ['/'] ≠ .overlay config ∧ s.layer ['/'] ≠ .dynamic config ∧
      s.layer ['/'] ≠ .row config := by
    intro config
    refine ⟨fun hl => ?_, fun hl => ?_, fun hl => ?_⟩
    · rcases h.listable.overlay ['/'] (AList.lookup_isSome.1 (by rw [(layer_eq_overlay.1 hl).2]; rfl)) with hc | ⟨p, n, hc⟩
      · exact hc rfl
      · exact absurd hc.symm (by simp)
    · obtain ⟨p, n, hc⟩ := h.listable.profile.dynamic ['/']
        (AList.lookup_isSome.1 (by rw [lookup_of_layer_dynamic hl]; rfl))
      exact absurd hc.symm (by simp)
    · have hc := backendConfig_of_layer_row hl
      cases hb : s.profile.backend with
      | none => simp [backendConfig, hb] at hc
      | some b =>
        simp only [backendConfig, hb, Option.bind_some, Backend.getConfig, Option.map_eq_some_iff, Backend.row] at hc
        obtain ⟨r, hr, -⟩ := hc
        obtain ⟨p, n, hpath, -⟩ := h.listable.profile.rows b hb r (List.mem_of_find?_eq_some hr)
        have hslash := List.find?_some hr
        simp [hpath] at hslash
  rw [isFile_eq, resolve_slash]
  cases hl : s.layer ['/'] with
  | overlay config => exact absurd hl (hno config).1
  | dynamic config => exact absurd hl (hno config).2.1
  | row config => exact absurd hl (hno config).2.2
  | _ => rfl

theorem TreeLike.shows (h : TreeLike s) : Shows s s.store where
  pathExists path p hp := by rw [← pathExists_resolve, hp, pathExists_store]
  isDir path p hp := by rw [← isDir_resolve, hp, isDir_store]
  isFile path p hp := by
    rw [isFile_eq, hp, ← resolve_str p, ← isFile_eq]
    by_cases hne : p = []
    · rw [hne]
      refine h.isFile_root.trans (Bool.eq_false_iff.2 fun hf => ?_).symm
      obtain ⟨content, hc⟩ := FileStore.isFile_iff.1 hf
      rw [h.proper.root] at hc
      cases hc
    · exact (isFile_store_of_ne hne).symm
  content path p content hp hc := by
    rw [← (entry_eq_file.1 (store_eq_file.1 hc)).2.2, content_eq, content_eq, hp, resolve_str]
  listDir path p hp hd := by
    have hdir : s.isDir path = true := by rw [← isDir_resolve, hp, ← isDir_store, hd]
    obtain ⟨ns, hns, -, hmem⟩ := h.rooted.listDir_children (store_eq_dir.1 (FileStore.isDir_iff.1 hd))
    have hlist : s.listDir path = s.listDir (str p) := by
      rw [listDir_eq, listDir_eq, isDir_eq, isDir_eq, hp, resolve_str]
    refine ⟨ns, hlist.trans hns, ?_, fun n => (hmem n).trans (not_congr store_eq_none.symm)⟩
    rw [← hns, ← hlist]
    exact (h.listable.listsChildren path hdir).1

end FakeFilesystem

end Cyanide
