import Cyanide.Vfs.Listing

/-!
# Filesystems that differ in contents

Two filesystems have the same shape when they have the same paths, in the same layers and with the same entries but for
the contents of the files and the sizes that go with them.  No query but that of a content tells them apart, and every
operation keeps the shape, whatever contents it writes on the two sides.  `Provenance` says at which paths a run of
operations has put contents that are the same on both sides (`Agreed`).
-/

namespace Cyanide

open PosixPath

/-- A configuration without its content and the size of it. -/
def Config.blank (c : Config) : Config := { c with content := none, size := none }

def Row.blank (r : Row) : Row := { r with content := [], size := 0 }

def Layer.blank : Layer → Layer
  | .overlay config => .overlay config.blank
  | .dynamic config => .dynamic config.blank
  | .row config => .row config.blank
  | l => l

namespace Layer

variable {l l' : Layer}

theorem present_of_blank (path : Str) (h : l'.blank = l.blank) : l'.present path = l.present path := by
  cases l <;> cases l' <;> first | rfl | cases h

theorem dir_of_blank (path : Str) (h : l'.blank = l.blank) : l'.dir path = l.dir path := by
  have hblank : ∀ l : Layer, l.blank.dir path = l.dir path := fun l => by cases l <;> rfl
  rw [← hblank l', h, hblank]

theorem file_of_blank (h : l'.blank = l.blank) : l'.file = l.file := by
  have hblank : ∀ l : Layer, l.blank.file = l.file := fun l => by cases l <;> rfl
  rw [← hblank l', h, hblank]

end Layer

namespace FakeFilesystem

/-- The filesystems differ in nothing but the contents of their files. -/
structure SameShape (s s' : FakeFilesystem) : Prop where
  deleted : s'.deletedPaths = s.deletedPaths
  now : s'.now = s.now
  overlay : ∀ q, (s'.memoryOverlay.lookup q).map Config.blank = (s.memoryOverlay.lookup q).map Config.blank
  dynamic : ∀ q, (s'.profile.dynamicFiles.lookup q).map Config.blank =
    (s.profile.dynamicFiles.lookup q).map Config.blank
  backend : (s'.profile.backend.map fun b => b.rows.map Row.blank) =
    s.profile.backend.map fun b => b.rows.map Row.blank

namespace SameShape

variable {s s' : FakeFilesystem}

theorem refl (s : FakeFilesystem) : SameShape s s := ⟨rfl, rfl, fun _ => rfl, fun _ => rfl, rfl⟩

/-- The keys of two dictionaries whose values are the same up to a function. -/
private theorem mem_of_lookup {d d' : Dict Config} {q : Str}
    (h : (d'.lookup q).map Config.blank = (d.lookup q).map Config.blank) : q ∈ d' ↔ q ∈ d := by
  have hsome := congrArg Option.isSome h
  simp only [Option.isSome_map] at hsome
  rw [← AList.lookup_isSome, ← AList.lookup_isSome, hsome]

/-! ### Queries -/

private theorem backendConfig (h : SameShape s s') (q : Str) :
    (s'.backendConfig q).map Config.blank = (s.backendConfig q).map Config.blank := by
  have hrows : ∀ s : FakeFilesystem, (s.backendConfig q).map Config.blank =
      (s.profile.backend.map fun b => b.rows.map Row.blank).bind fun rows =>
        (rows.find? (·.path = q)).map fun r => r.toConfig.blank := by
    intro s
    unfold FakeFilesystem.backendConfig
    cases s.profile.backend with
    | none => rfl
    | some b =>
      simp only [Option.bind_some, Option.map_some, Backend.getConfig, Backend.row, List.find?_map, Option.map_map]
      rfl
  rw [hrows, hrows, h.backend]

private theorem backendExists (h : SameShape s s') (q : Str) : s'.backendExists q = s.backendExists q := by
  have hrows : ∀ s : FakeFilesystem, s.backendExists q =
      (s.profile.backend.map fun b => b.rows.map Row.blank).any fun rows =>
        rows.any (·.path = q) || rows.any (·.parentPath = q) := by
    intro s
    unfold FakeFilesystem.backendExists
    cases s.profile.backend with
    | none => rfl
    | some b =>
      simp only [Option.any_some, Option.map_some, Backend.pathExists, List.any_map]
      rfl
  rw [hrows, hrows, h.backend]

theorem layer (h : SameShape s s') (q : Str) : (s'.layer q).blank = (s.layer q).blank := by
  have ho := h.overlay q
  have hdy := h.dynamic q
  have hb := h.backendConfig q
  unfold FakeFilesystem.layer
  rw [h.deleted, h.backendExists]
  by_cases hd : q ∈ s.deletedPaths
  · rw [if_pos hd, if_pos hd]
  · rw [if_neg hd, if_neg hd]
    cases ho₁ : s.memoryOverlay.lookup q <;> cases ho₂ : s'.memoryOverlay.lookup q <;>
      simp only [ho₁, ho₂, Option.map_none, Option.map_some, reduceCtorEq, Option.some.injEq] at ho
    · cases hd₁ : s.profile.dynamicFiles.lookup q <;> cases hd₂ : s'.profile.dynamicFiles.lookup q <;>
        simp only [hd₁, hd₂, Option.map_none, Option.map_some, reduceCtorEq, Option.some.injEq] at hdy
      · cases hb₁ : s.backendConfig q <;> cases hb₂ : s'.backendConfig q <;>
          simp only [hb₁, hb₂, Option.map_none, Option.map_some, reduceCtorEq, Option.some.injEq] at hb
        · rfl
        · exact congrArg Layer.row hb
      · exact congrArg Layer.dynamic hdy
    · exact congrArg Layer.overlay ho

theorem pathExists (h : SameShape s s') (path : Str) : s'.pathExists path = s.pathExists path := by
  rw [pathExists_eq, pathExists_eq, Layer.present_of_blank _ (h.layer _)]

theorem isDir (h : SameShape s s') (path : Str) : s'.isDir path = s.isDir path := by
  rw [isDir_eq, isDir_eq, Layer.dir_of_blank _ (h.layer _)]

theorem isFile (h : SameShape s s') (path : Str) : s'.isFile path = s.isFile path := by
  rw [isFile_eq, isFile_eq, Layer.file_of_blank (h.layer _)]

private theorem offers (h : SameShape s s') (path c : Str) : s'.Offers path c ↔ s.Offers path c := by
  have hrows : ∀ s : FakeFilesystem, (∃ b, s.profile.backend = some b ∧ c ∈ b.listDir path) ↔
      ∃ rows, (s.profile.backend.map fun b => b.rows.map Row.blank) = some rows ∧
        c ∈ (rows.filter (·.parentPath = path)).map Row.name := by
    intro s
    cases s.profile.backend with
    | none => simp
    | some b =>
      simp only [Option.some.injEq, exists_eq_left', Option.map_some, Backend.listDir, List.filter_map, List.map_map]
      rfl
  unfold Offers
  rw [hrows, hrows, h.backend]
  simp only [mem_of_lookup (h.dynamic _), mem_of_lookup (h.overlay _)]

theorem listDir (h : SameShape s s') (path : Str) : s'.listDir path = s.listDir path := by
  have hlisting : s'.listing (resolve path) = s.listing (resolve path) := by
    refine (listing_sorted s' _).eq_of_mem_iff (listing_sorted s _) fun c => ?_
    rw [mem_listing, mem_listing, h.offers, h.deleted]
  rw [listDir_eq, listDir_eq, h.isDir, hlisting]

theorem hasParent (h : SameShape s s') (q : Str) : s'.HasParent q ↔ s.HasParent q := by
  unfold HasParent
  rw [h.pathExists, h.isDir]

/-! ### Operations -/

theorem record (h : SameShape s s') (op op' : FileOp) : SameShape (s.record op) (s'.record op') :=
  ⟨h.deleted, h.now, h.overlay, h.dynamic, h.backend⟩

theorem revive (h : SameShape s s') (path : Str) {config config' : Config} (hc : config'.blank = config.blank) :
    SameShape (s.revive path config) (s'.revive path config') where
  deleted := by
    show s'.deletedPaths.erase path = s.deletedPaths.erase path
    rw [h.deleted]
  now := h.now
  overlay q := by
    show ((s'.memoryOverlay.insert path config').lookup q).map Config.blank =
      ((s.memoryOverlay.insert path config).lookup q).map Config.blank
    by_cases hq : q = path
    · subst hq
      rw [AList.lookup_insert, AList.lookup_insert, Option.map_some, Option.map_some, hc]
    · rw [AList.lookup_insert_ne hq, AList.lookup_insert_ne hq, h.overlay]
  dynamic := h.dynamic
  backend := h.backend

theorem getContent (h : SameShape s s') (path : Str) (args : Dict Str) :
    SameShape (s.getContent path args).2 (s'.getContent path args).2 := by
  unfold FakeFilesystem.getContent
  dsimp only
  rw [h.deleted]
  split_ifs
  · exact h
  · exact h.record _ _

theorem mkfile (h : SameShape s s') (path : Str) (content content' : Content) (owner group perm : Str) :
    SameShape (s.mkfile path content owner group perm).2 (s'.mkfile path content' owner group perm).2 := by
  by_cases hp : s.HasParent (resolve path)
  · rw [(mkfile_of_parent hp content owner group perm).2,
      (mkfile_of_parent ((h.hasParent _).2 hp) content' owner group perm).2]
    refine (h.revive _ ?_).record _ _
    simp only [fileConfig, Config.blank, h.now]
  · rw [mkfile_of_not_parent hp, mkfile_of_not_parent fun hp' => hp ((h.hasParent _).1 hp')]
    exact h

theorem mkdirP (h : SameShape s s') (path owner group perm : Str) :
    SameShape (s.mkdirP path owner group perm) (s'.mkdirP path owner group perm) := by
  have hloop : ∀ (parts : List Str) (cur : Str) (s s' : FakeFilesystem), SameShape s s' →
      SameShape (parts.foldl (mkdirStep owner group perm) (cur, s)).2
        (parts.foldl (mkdirStep owner group perm) (cur, s')).2 := by
    intro parts
    induction parts with
    | nil => exact fun _ _ _ h => h
    | cons part parts ih =>
      intro cur s s' h
      rw [List.foldl_cons, List.foldl_cons]
      unfold mkdirStep
      dsimp only
      rw [h.pathExists, h.isFile]
      split_ifs
      · refine ih _ _ _ (h.revive _ ?_)
        simp only [Config.blank, h.now]
      · exact ih _ _ _ h
  exact hloop _ _ _ _ h

theorem remove (h : SameShape s s') (path : Str) :
    (s'.remove path).1 = (s.remove path).1 ∧ SameShape (s.remove path).2 (s'.remove path).2 := by
  unfold FakeFilesystem.remove
  dsimp only
  rw [h.pathExists]
  split_ifs
  · exact ⟨rfl, h⟩
  · refine ⟨rfl, ?_, h.now, fun q => ?_, h.dynamic, h.backend⟩
    · show insert _ s'.deletedPaths = insert _ s.deletedPaths
      rw [h.deleted]
    · show ((s'.memoryOverlay.erase (resolve path)).lookup q).map Config.blank =
        ((s.memoryOverlay.erase (resolve path)).lookup q).map Config.blank
      by_cases hq : q = resolve path
      · subst hq
        rw [AList.lookup_erase, AList.lookup_erase]
      · rw [AList.lookup_erase_ne hq, AList.lookup_erase_ne hq, h.overlay]

end SameShape

end FakeFilesystem

/-! ### Where contents come from -/

/-- What a run of operations knows to be its own: the paths that it has written with own contents, and whether the
content that it read last is such. -/
structure Provenance where
  paths : Finset Str
  read : Bool

namespace Provenance

def mark {α : Type} [DecidableEq α] (own : Bool) (x : α) (S : Finset α) : Finset α :=
  if own then insert x S else S.erase x

theorem mem_mark {α : Type} [DecidableEq α] {own : Bool} {x y : α} {S : Finset α} :
    y ∈ mark own x S ↔ if y = x then own = true else y ∈ S := by
  cases own <;> by_cases h : y = x <;> simp [mark, h]

/-- A file that is written gets the content that was read last. -/
def step (o : Provenance) (s : FakeFilesystem) : Op → Provenance
  | .getContent path _ => { o with read := resolve path ∈ o.paths }
  | .mkfile path .. =>
    if s.HasParent (resolve path) then { o with paths := mark o.read (resolve path) o.paths } else o
  | _ => o

/-- After the operations of a run. -/
def after : Provenance → FakeFilesystem → List Op → Provenance
  | o, _, [] => o
  | o, s, op :: ops => after (o.step s op) (op.apply s) ops

theorem after_append (o : Provenance) (s : FakeFilesystem) (ops ops' : List Op) :
    o.after s (ops ++ ops') = (o.after s ops).after (Transition.run Op.apply s ops) ops' := by
  induction ops generalizing o s with
  | nil => rfl
  | cons op ops ih => exact ih _ _

end Provenance

namespace FakeFilesystem

/-- The filesystems have the same shape, and the same contents at the paths with own contents. -/
structure Agreed (o : Provenance) (s s' : FakeFilesystem) : Prop where
  shape : SameShape s s'
  content : ∀ q ∈ o.paths, resolve q = q → (s'.layer q).content s'.profile = (s.layer q).content s.profile

namespace Agreed

variable {o : Provenance} {s s' : FakeFilesystem}

theorem of_shape (h : SameShape s s') : Agreed ⟨∅, false⟩ s s' := ⟨h, fun _ hq => absurd hq (Finset.notMem_empty _)⟩

theorem getContent_eq (h : Agreed o s s') {path : Str} (hp : resolve path ∈ o.paths) :
    (s'.getContent path).1 = (s.getContent path).1 := by
  rw [content_eq, content_eq]
  exact h.content _ hp (resolve_resolve path)

theorem getContent (h : Agreed o s s') (path : Str) (args : Dict Str) :
    Agreed o (s.getContent path args).2 (s'.getContent path args).2 where
  shape := h.shape.getContent path args
  content q hq hr := by
    rw [layer_getContent, layer_getContent]
    rcases s.getContent_snd path args with hs | ⟨op, hs⟩ <;> rcases s'.getContent_snd path args with hs' | ⟨op', hs'⟩ <;>
      rw [hs, hs'] <;> exact h.content q hq hr

/-- A file is written, with contents that are the same when they are marked as own. -/
theorem mkfile (h : Agreed o s s') (path : Str) {content content' : Content} (owner group perm : Str)
    (hcontent : o.read = true → content' = content) :
    Agreed (o.step s (.mkfile path content owner group perm)) (s.mkfile path content owner group perm).2
      (s'.mkfile path content' owner group perm).2 where
  shape := h.shape.mkfile path content content' owner group perm
  content q hq hr := by
    rw [profile_mkfile, profile_mkfile, layer_mkfile, layer_mkfile]
    simp only [h.shape.hasParent]
    by_cases hp : s.HasParent (resolve path)
    · simp only [Provenance.step, if_pos hp, Provenance.mem_mark] at hq
      by_cases heq : q = resolve path
      · rw [if_pos heq] at hq
        simp only [heq, hp, and_self, if_true]
        exact hcontent hq
      · rw [if_neg heq] at hq
        simp only [heq, false_and, if_false]
        exact h.content q hq hr
    · simp only [Provenance.step, if_neg hp] at hq
      simp only [hp, and_false, if_false]
      exact h.content q hq hr

theorem mkdirP (h : Agreed o s s') (path owner group perm : Str) :
    Agreed o (s.mkdirP path owner group perm) (s'.mkdirP path owner group perm) where
  shape := h.shape.mkdirP path owner group perm
  content q hq hr := by
    rw [profile_mkdirP, profile_mkdirP, layer_mkdirP _ _ _ _ hr, layer_mkdirP _ _ _ _ hr, h.shape.pathExists,
      h.shape.isFile]
    split_ifs
    · rfl
    · exact h.content q hq hr

theorem remove (h : Agreed o s s') (path : Str) : Agreed o (s.remove path).2 (s'.remove path).2 where
  shape := (h.shape.remove path).2
  content q hq hr := by
    rw [profile_remove, profile_remove, layer_remove, layer_remove, h.shape.pathExists]
    split_ifs
    · rfl
    · exact h.content q hq hr

/-! ### Copies -/

/-- Two calls return the same, and leave filesystems that agree. -/
def Results {α : Type} (o : Provenance) (r r' : α × FakeFilesystem) : Prop := r'.1 = r.1 ∧ Agreed o r.2 r'.2

/-- A copied file is own when the original is. -/
private theorem copyFile (h : Agreed o s s') (src dst : Str) :
    Agreed (o.after s (s.copyFileOps src dst)) ((s.getContent src).2.mkfile dst (s.getContent src).1).2
      ((s'.getContent src).2.mkfile dst (s'.getContent src).1).2 := by
  have hread : Agreed (o.step s (.getContent src ∅)) (s.getContent src).2 (s'.getContent src).2 :=
    ⟨(h.getContent src ∅).shape, (h.getContent src ∅).content⟩
  refine hread.mkfile dst _ _ _ fun hown => ?_
  exact h.getContent_eq (by simpa [Provenance.step] using hown)

private theorem copyDir (h : Agreed o s s') (dst : Str) :
    Agreed (o.after s (s.copyDirOps dst)) (if s.pathExists dst then s else s.mkdirP dst)
      (if s'.pathExists dst then s' else s'.mkdirP dst) := by
  unfold copyDirOps
  rw [h.shape.pathExists]
  split_ifs
  · exact h
  · exact h.mkdirP _ _ _ _

private theorem copyItems {call : FakeFilesystem → Str → Str → Except RecursionError Bool × FakeFilesystem}
    {ops : FakeFilesystem → Str → Str → List Op}
    (hrun : ∀ s src dst, (call s src dst).2 = Transition.run Op.apply s (ops s src dst))
    (hcall : ∀ o s s' src dst, Agreed o s s' → Results (o.after s (ops s src dst)) (call s src dst) (call s' src dst))
    (src dst : Str) (items : List Str) (h : Agreed o s s') :
    Results (o.after s (copyItemsOps call ops src dst s items)) (copyItems call src dst s items)
      (FakeFilesystem.copyItems call src dst s' items) := by
  induction items generalizing o s s' with
  | nil => exact ⟨rfl, h⟩
  | cons item items ih =>
    obtain ⟨hres, hagreed⟩ := hcall o s s' (join src item) (join dst item) h
    rw [copyItemsOps, Provenance.after_append, ← hrun]
    unfold FakeFilesystem.copyItems
    cases hc : call s (join src item) (join dst item) with
    | mk r t =>
      cases hc' : call s' (join src item) (join dst item) with
      | mk r' t' =>
        rw [hc, hc'] at hres hagreed
        obtain rfl : r' = r := hres
        cases r' with
        | ok b => exact ih hagreed
        | error e => exact ⟨rfl, hagreed⟩

theorem copyRecursive (depth : ℕ) (o : Provenance) (s s' : FakeFilesystem) (src dst : Str) (h : Agreed o s s') :
    Results (o.after s (copyRecursiveOps depth s src dst)) (copyRecursive depth s src dst)
      (FakeFilesystem.copyRecursive depth s' src dst) := by
  induction depth generalizing o s s' src dst with
  | zero => exact ⟨rfl, h⟩
  | succ depth ih =>
    unfold FakeFilesystem.copyRecursive copyRecursiveOps
    rw [h.shape.isDir]
    by_cases hdir : s.isDir src = true
    · rw [if_pos hdir, if_pos hdir, if_pos hdir]
      have hensure := h.copyDir dst
      dsimp only
      rw [hensure.shape.listDir, Provenance.after_append, copyDirOps_run]
      exact copyItems (copyRecursive_eq_run depth) ih src dst _ hensure
    · rw [if_neg hdir, if_neg hdir, if_neg hdir]
      exact ⟨rfl, h.copyFile src dst⟩

private theorem copyTarget_eq (h : SameShape s s') (src dst : Str) : s'.copyTarget src dst = s.copyTarget src dst := by
  unfold copyTarget
  rw [h.pathExists, h.isDir]

theorem copy (depth : ℕ) (src dst : Str) (recursive : Bool) (h : Agreed o s s') :
    Results (o.after s (s.copyOps depth src dst recursive)) (s.copy depth src dst recursive)
      (s'.copy depth src dst recursive) := by
  unfold FakeFilesystem.copy copyOps
  dsimp only
  rw [copyTarget_eq h.shape, h.shape.pathExists, h.shape.pathExists, h.shape.isDir, h.shape.isFile]
  generalize s.copyTarget (resolve src) (resolve dst) = target
  by_cases hmissing : s.pathExists (resolve src) = false
  · rw [if_pos hmissing, if_pos hmissing, if_pos hmissing]
    exact ⟨rfl, h⟩
  rw [if_neg hmissing, if_neg hmissing, if_neg hmissing]
  by_cases hdir : s.isDir (resolve src) = true
  · rw [if_pos hdir, if_pos hdir, if_pos hdir]
    by_cases hrec : recursive = false
    · rw [if_pos hrec, if_pos hrec, if_pos hrec]
      exact ⟨rfl, h⟩
    rw [if_neg hrec, if_neg hrec, if_neg hrec]
    by_cases hfile : (s.pathExists target && s.isFile target) = true
    · rw [if_pos hfile, if_pos hfile, if_pos hfile]
      exact ⟨rfl, h⟩
    · rw [if_neg hfile, if_neg hfile, if_neg hfile]
      have hensure := h.copyDir target
      rw [h.shape.pathExists] at hensure
      rw [hensure.shape.listDir, Provenance.after_append, copyDirOps_run]
      exact copyItems (copyRecursive_eq_run depth) (copyRecursive depth) _ _ _ hensure
  · rw [if_neg hdir, if_neg hdir, if_neg hdir]
    exact ⟨rfl, h.copyFile (resolve src) target⟩

theorem move (depth : ℕ) (src dst : Str) (h : Agreed o s s') :
    Results (o.after s (s.moveOps depth src dst)) (s.move depth src dst) (s'.move depth src dst) := by
  unfold FakeFilesystem.move moveOps
  dsimp only
  rw [h.shape.pathExists]
  by_cases hmissing : s.pathExists (resolve src) = false
  · rw [if_pos hmissing, if_pos hmissing, if_pos hmissing]
    exact ⟨rfl, h⟩
  rw [if_neg hmissing, if_neg hmissing, if_neg hmissing, Provenance.after_append, ← copy_eq_run]
  obtain ⟨hres, hagreed⟩ := copy depth (resolve src) (resolve dst) true h
  cases hc : s.copy depth (resolve src) (resolve dst) true with
  | mk r t =>
    cases hc' : s'.copy depth (resolve src) (resolve dst) true with
    | mk r' t' =>
      rw [hc, hc'] at hres hagreed
      obtain rfl : r' = r := hres
      cases r' with
      | error e => exact ⟨rfl, hagreed⟩
      | ok copied =>
        cases copied with
        | false => exact ⟨rfl, hagreed⟩
        | true =>
          have hremoved := (hagreed.shape.remove (resolve src)).1
          exact ⟨congrArg Except.ok hremoved, hagreed.remove (resolve src)⟩

end Agreed

end FakeFilesystem

end Cyanide
