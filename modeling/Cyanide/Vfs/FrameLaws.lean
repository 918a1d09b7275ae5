import Mathlib.Data.Finset.Basic
import Cyanide.Vfs.Runs

/-!
# What a write changes

`mkfile` writes what is read back and changes nothing at any other path (`mkfile_laws`), whatever layer answered for the
path before.  `chmod` and `chown` copy a row of the backend into the overlay (`modes_laws`): the copy answers as the row
did, but that of a directory has no content.
-/

namespace Cyanide

open PosixPath

namespace FakeFilesystem

variable {s s' : FakeFilesystem} {path : Str}

/-- All queries answer alike at the path. -/
structure SameAt (s s' : FakeFilesystem) (path : Str) : Prop where
  pathExists : s'.pathExists path = s.pathExists path
  isDir : s'.isDir path = s.isDir path
  isFile : s'.isFile path = s.isFile path
  getNode : s'.getNode path = s.getNode path
  getContent : (s'.getContent path).1 = (s.getContent path).1

/-- Nothing but the layer, the clock and the profile is looked at. -/
theorem sameAt_of_layer (hl : s'.layer (resolve path) = s.layer (resolve path)) (hnow : s'.now = s.now)
    (hprofile : s'.profile = s.profile) : SameAt s s' path where
  pathExists := by rw [pathExists_eq, pathExists_eq, hl]
  isDir := by rw [isDir_eq, isDir_eq, hl]
  isFile := by rw [isFile_eq, isFile_eq, hl]
  getNode := by rw [getNode_eq, getNode_eq, hl, hnow]
  getContent := by rw [content_eq, content_eq, hl, hprofile]

/-! ### `mkfile` -/

/-- The call returns the same, and the filesystems behind it differ in nothing but the recorded operations. -/
def SameResult (r r' : Option Node × FakeFilesystem) : Prop :=
  r.1 = r'.1 ∧ { r.2 with fileOps := r'.2.fileOps } = r'.2

theorem dirname_ne_self {q : Str} (hq : resolve q = q) (hne : q ≠ ['/']) : dirname q ≠ q := by
  intro h
  have hp := parent_ne_self hq hne
  rw [parent, h, hq] at hp
  exact hp rfl

theorem hasParent_iff (hroot : resolve path ≠ ['/']) : s.HasParent (resolve path) ↔
    s.pathExists (dirname (resolve path)) = true ∧ s.isDir (dirname (resolve path)) = true := by
  rw [HasParent, or_iff_right (dirname_ne_self (resolve_resolve path) hroot)]

/-- A parent directory is found where the layer of the parent is the same. -/
theorem hasParent_congr (hroot : resolve path ≠ ['/']) (h : ∀ q, q ≠ resolve path → s'.layer q = s.layer q) :
    s'.HasParent (resolve path) ↔ s.HasParent (resolve path) := by
  have hl := h _ (parent_ne_self (resolve_resolve path) hroot)
  rw [hasParent_iff hroot, hasParent_iff hroot, pathExists_eq, pathExists_eq, isDir_eq, isDir_eq]
  rw [parent] at hl
  rw [hl]

/-- What `mkfile` does, with what it finds at the path left out. -/
theorem mkfile_of_parent' (h : s.HasParent (resolve path)) (content : Content) (owner group perm : Str) :
    s.mkfile path content owner group perm = (some (virtualFile s.now (basename (resolve path)) {}),
      { s with
        memoryOverlay := s.memoryOverlay.insert (resolve path) (s.fileConfig content owner group perm)
        deletedPaths := s.deletedPaths.erase (resolve path)
        fileOps := .write (resolve path) :: s.fileOps }) := by
  have hc : ¬(dirname (resolve path) ≠ resolve path ∧
      (!s.pathExists (dirname (resolve path)) || !s.isDir (dirname (resolve path))) = true) := by
    rintro ⟨hne, hno⟩
    rcases h with h | ⟨h1, h2⟩
    · exact hne h
    · simp [h1, h2] at hno
  unfold mkfile
  rw [if_neg hc]
  rfl

/-- `mkfile` does the same on filesystems that only differ in what they have at the path itself. -/
theorem sameResult_mkfile (hroot : resolve path ≠ ['/']) (hp : s.HasParent (resolve path))
    (hlayer : ∀ q, q ≠ resolve path → s'.layer q = s.layer q)
    (hoverlay : ∀ config, s'.memoryOverlay.insert (resolve path) config = s.memoryOverlay.insert (resolve path) config)
    (hdeleted : s'.deletedPaths.erase (resolve path) = s.deletedPaths.erase (resolve path))
    (hrest : { s' with memoryOverlay := s.memoryOverlay, deletedPaths := s.deletedPaths, fileOps := s.fileOps } = s)
    (content : Content) (owner group perm : Str) :
    SameResult (s'.mkfile path content owner group perm) (s.mkfile path content owner group perm) := by
  have hnow : s'.now = s.now := by
    rw [← hrest]
  have hconfig : s'.fileConfig content owner group perm = s.fileConfig content owner group perm := by
    rw [fileConfig, fileConfig, hnow]
  rw [mkfile_of_parent' hp, mkfile_of_parent' ((hasParent_congr hroot hlayer).2 hp)]
  refine ⟨by dsimp only; rw [hnow], ?_⟩
  dsimp only
  rw [hoverlay, hdeleted, hconfig]
  cases s'
  cases s
  cases hrest
  rfl

private theorem insert_erase_same (d : Dict Config) (q : Str) (config : Config) :
    (d.erase q).insert q config = d.insert q config := by
  refine AList.ext ?_
  rw [AList.entries_insert, AList.entries_insert]
  refine congrArg _ (List.kerase_of_notMem_keys ?_)
  exact List.notMem_keys_kerase q d.nodupKeys

/-- Writing again is like writing once, also at another time. -/
theorem mkfile_mkfile (hroot : resolve path ≠ ['/']) (content content' : Content)
    (owner group perm owner' group' perm' : Str) (now : Nat) :
    SameResult ({ (s.mkfile path content owner group perm).2 with now := now }.mkfile path content' owner' group' perm')
      ({ s with now := now }.mkfile path content' owner' group' perm') := by
  by_cases hp : s.HasParent (resolve path)
  · have hlayer : ∀ q, q ≠ resolve path → (s.mkfile path content owner group perm).2.layer q = s.layer q := by
      intro q hq
      rw [layer_mkfile, if_neg fun h => hq h.1]
    rw [mkfile_of_parent' hp] at hlayer ⊢
    refine sameResult_mkfile (s := { s with now := now }) hroot hp ?_ ?_ ?_ ?_ content' owner' group' perm'
    · exact hlayer
    · exact fun config => AList.insert_insert _
    · exact Finset.erase_idem
    · rfl
  · rw [mkfile_of_not_parent hp]
    exact ⟨rfl, rfl⟩

/-- Writing where something was removed is like writing over it. -/
theorem mkfile_remove (hroot : resolve path ≠ ['/']) (hp : s.HasParent (resolve path)) (content : Content)
    (owner group perm : Str) (now : Nat) :
    SameResult ({ (s.remove path).2 with now := now }.mkfile path content owner group perm)
      ({ s with now := now }.mkfile path content owner group perm) := by
  have hlayer : ∀ q, q ≠ resolve path → (s.remove path).2.layer q = s.layer q := by
    intro q hq
    rw [layer_remove, if_neg fun h => hq h.1]
  unfold remove at hlayer ⊢
  dsimp only at hlayer ⊢
  split_ifs at hlayer ⊢ with hx
  · exact ⟨rfl, rfl⟩
  · refine sameResult_mkfile (s := { s with now := now }) hroot hp ?_ ?_ ?_ ?_ content owner group perm
    · exact hlayer
    · exact fun config => insert_erase_same _ _ config
    · exact Finset.erase_insert_eq_erase _ _
    · rfl

/-- For a path other than `/` the call of `mkfile` fails exactly without a parent directory, and then changes nothing.
Otherwise what was written is read back, nothing changes at another path, and it makes no difference whether something
was written to the path before or removed from it. -/
theorem mkfile_laws (s : FakeFilesystem) (hroot : resolve path ≠ ['/']) (content : Content) (owner group perm : Str) :
    ((s.mkfile path content owner group perm).1 = none ↔
      s.pathExists (dirname (resolve path)) = false ∨ s.isDir (dirname (resolve path)) = false) ∧
    ((s.mkfile path content owner group perm).1 = none → (s.mkfile path content owner group perm).2 = s) ∧
    ((s.mkfile path content owner group perm).1 ≠ none →
      (s.mkfile path content owner group perm).2.isFile path = true ∧
      ((s.mkfile path content owner group perm).2.getContent path).1 = content ∧
      (∀ other, resolve other ≠ resolve path → SameAt s (s.mkfile path content owner group perm).2 other) ∧
      (∀ content' owner' group' perm' now, SameResult
        ({ (s.mkfile path content owner group perm).2 with now := now }.mkfile path content' owner' group' perm')
        ({ s with now := now }.mkfile path content' owner' group' perm')) ∧
      ∀ content' owner' group' perm' now, SameResult
        ({ (s.remove path).2 with now := now }.mkfile path content' owner' group' perm')
        ({ s with now := now }.mkfile path content' owner' group' perm')) := by
  by_cases hp : s.HasParent (resolve path)
  · have hnone : (s.mkfile path content owner group perm).1 ≠ none := by
      rw [mkfile_of_parent' hp]
      exact Option.some_ne_none _
    have hdir := (hasParent_iff hroot).1 hp
    have hlayer := s.layer_mkfile path content owner group perm
    refine ⟨iff_of_false hnone (by simp [hdir.1, hdir.2]), fun h => absurd h hnone, fun _ => ⟨?_, ?_, ?_, ?_, ?_⟩⟩
    · rw [isFile_eq, hlayer, if_pos ⟨rfl, hp⟩]
      rfl
    · rw [content_eq, hlayer, if_pos ⟨rfl, hp⟩]
      rfl
    · intro other hne
      refine sameAt_of_layer ?_ ?_ (profile_mkfile ..)
      · rw [hlayer, if_neg fun h => hne h.1]
      · rw [mkfile_of_parent' hp]
    · intro content' owner' group' perm' now
      exact mkfile_mkfile hroot content content' owner group perm owner' group' perm' now
    · intro content' owner' group' perm' now
      exact mkfile_remove hroot hp content' owner' group' perm' now
  · rw [mkfile_of_not_parent hp]
    rw [hasParent_iff hroot, not_and_or, Bool.not_eq_true, Bool.not_eq_true] at hp
    exact ⟨iff_of_true rfl hp, fun _ => rfl, fun h => absurd rfl h⟩

theorem mkfile_laws_bare : resolve "/f".toList ≠ ['/'] ∧
    ((bare.mkfile "/f".toList (.text "x".toList)).2.getContent "/f".toList).1 = .text "x".toList := by
  have hroot : resolve "/f".toList ≠ ['/'] := by decide
  exact ⟨hroot, ((bare.mkfile_laws hroot (.text "x".toList) _ _ _).2.2 (by decide +kernel)).2.1⟩

/-! ### `chmod` and `chown` -/

/-- The node at the path is made of an overlay entry. -/
def FromOverlay (s : FakeFilesystem) (path : Str) : Prop := ∃ config, s.layer (resolve path) = .overlay config

/-- The node at the path is made of a row of the type. -/
def FromRow (s : FakeFilesystem) (path type : Str) : Prop :=
  ∃ config, s.layer (resolve path) = .row config ∧ config.type = some type

/-- Nothing changes but the node at the path, and its content if the node is a copy of a directory row. -/
structure ChangesNode (s s' : FakeFilesystem) (path : Str) (change : Node → Node) : Prop where
  pathExists : s'.pathExists path = true
  isDir : s'.isDir path = s.isDir path
  isFile : s'.isFile path = s.isFile path
  getNode : ∃ node name, s.getNode path = some node ∧ s'.getNode path = some { change node with name := name } ∧
    (resolve path ≠ ['/'] → name = node.name)
  getContent : ¬s.FromRow path typeDir → (s'.getContent path).1 = (s.getContent path).1
  getContent_dir : s.FromRow path typeDir → (s'.getContent path).1 = .text []
  other : ∀ other, resolve other ≠ resolve path → SameAt s s' other

/-- The owner and the group that are given. -/
def chownNode (owner group : Option Str) (node : Node) : Node :=
  { node with
    owner := if owner.getD [] = [] then node.owner else owner.getD []
    group := if group.getD [] = [] then node.group else group.getD [] }

theorem node_chmod (now : Nat) (q : Str) (config : Config) (perm : Str) :
    (Layer.overlay { config with perm := some perm }).node now q =
      ((Layer.overlay config).node now q).map fun node => { node with perm := perm } := by
  by_cases ht : config.type = some typeDir <;> simp [Layer.node, ht, virtualDirectory, virtualFile]

theorem node_chown (now : Nat) (q : Str) (config : Config) (owner group : Option Str) :
    (Layer.overlay (chownConfig config owner group)).node now q =
      ((Layer.overlay config).node now q).map (chownNode owner group) := by
  have hname : ∀ (o o' : Option Str), (if o.getD [] = [] then o' else o).getD root =
      if o.getD [] = [] then o'.getD root else o.getD [] := by
    intro o o'
    cases o with
    | none => rfl
    | some n => by_cases hn : n = [] <;> simp [hn]
  by_cases ht : config.type = some typeDir <;>
    simp [Layer.node, chownConfig, chownNode, ht, virtualDirectory, virtualFile, hname]

/-- An overlay entry that answers as the layer does that is there now, with the name of the path. -/
structure StandsFor (s : FakeFilesystem) (q : Str) (node : Node) (config : Config) : Prop where
  entry : (Layer.overlay config).node s.now q = some { node with name := basename q }
  name : q ≠ ['/'] → node.name = basename q
  dir : (Layer.overlay config).dir q = (s.layer q).dir q
  file : (Layer.overlay config).file = (s.layer q).file
  content : (∀ row, s.layer q = .row row → row.type ≠ some typeDir) →
    config.content.getD (.text []) = (s.layer q).content s.profile
  content_dir : ∀ row, s.layer q = .row row → row.type = some typeDir → config.content.getD (.text []) = .text []

theorem standsFor_overlay {q : Str} {node : Node} {config : Config} (hl : s.layer q = .overlay config)
    (hn : (s.layer q).node s.now q = some node) : StandsFor s q node config := by
  rw [hl] at hn
  have hname : node.name = basename q := by
    rw [Layer.node] at hn
    obtain rfl := Option.some.inj hn
    split_ifs <;> rfl
  refine ⟨?_, fun _ => hname, by rw [hl], by rw [hl], fun _ => by rw [hl]; rfl, fun row hrow => ?_⟩
  · rw [hn, ← hname]
  · rw [hl] at hrow
    cases hrow

theorem nameOf_resolve (hroot : resolve path ≠ ['/']) : nameOf (resolve path) = basename (resolve path) := by
  refine if_neg ?_
  rcases resolve_cases path with ⟨p, h⟩ | ⟨k, p, h⟩
  · rcases List.eq_nil_or_concat p with rfl | ⟨r, n, rfl⟩
    · exact absurd h hroot
    · rw [h, List.concat_eq_append, basename_str_concat]
      exact n.2.1
  · rw [h, basename, List.rtakeWhile_eq_nil_iff]
    intro hcon
    have hlast := relStr_getLast? k p
    rw [List.getLast?_eq_some_getLast (head?_relStr k p).2] at hlast
    exact hcon (head?_relStr k p).2 (by simpa using hlast)

/-- The entry that is made of a node that comes from a row. -/
theorem standsFor_row {node : Node} {row : Config} (hl : s.layer (resolve path) = .row row)
    (ht : row.type = some typeFile ∨ row.type = some typeDir) (hn : s.getNode path = some node) :
    StandsFor s (resolve path) node { (s.materialize (resolve path) node).1 with perm := some node.perm } := by
  have hcontent := s.content_eq (resolve path)
  rw [getNode_eq, hl, Layer.node, Option.some.injEq] at hn
  rw [resolve_resolve, hl] at hcontent
  rcases ht with ht | ht
  · have hfile : row.type ≠ some typeDir := by simp [ht]
    rw [if_neg hfile] at hn
    subst hn
    refine ⟨rfl, fun _ => rfl, ?_, ?_, fun _ => ?_, fun row' hrow => ?_⟩
    · rw [hl, Layer.dir, Layer.dir, ht]
      rfl
    · rw [hl, Layer.file, Layer.file, ht]
      rfl
    · rw [hl, ← hcontent]
      rfl
    · rw [hl, Layer.row.injEq] at hrow
      exact fun h => absurd h (hrow ▸ hfile)
  · rw [if_pos ht] at hn
    subst hn
    refine ⟨rfl, fun hroot => nameOf_resolve hroot, ?_, ?_, fun h => absurd ht (h row hl), fun row' hrow _ => rfl⟩
    · rw [hl, Layer.dir, Layer.dir, ht]
      rfl
    · rw [hl, Layer.file, Layer.file, ht]
      rfl

/-- An operation that puts a changed entry in the place of one that stands for the node. -/
theorem changesNode_of_standsFor {node : Node} {config config' : Config} {change : Node → Node}
    (hn : s.getNode path = some node) (h : StandsFor s (resolve path) node config)
    (hlayer : ∀ x, s'.layer x = if x = resolve path then .overlay config' else s.layer x) (hnow : s'.now = s.now)
    (hprofile : s'.profile = s.profile) (htype : config'.type = config.type)
    (hcontent : config'.content = config.content)
    (hnode : (Layer.overlay config').node s.now (resolve path) =
      ((Layer.overlay config).node s.now (resolve path)).map change)
    (hchange : ∀ name, change { node with name := name } = { change node with name := name }) :
    ChangesNode s s' path change := by
  have hl := hlayer (resolve path)
  rw [if_pos rfl] at hl
  refine ⟨?_, ?_, ?_, ⟨node, basename (resolve path), hn, ?_, fun hroot => (h.name hroot).symm⟩, fun hrow => ?_,
    fun hrow => ?_, fun other hother => ?_⟩
  · rw [pathExists_eq, hl]
    rfl
  · rw [isDir_eq, isDir_eq, hl, ← h.dir, Layer.dir, Layer.dir, htype]
  · rw [isFile_eq, isFile_eq, hl, ← h.file, Layer.file, Layer.file, htype]
  · rw [getNode_eq, hl, hnow, hnode, h.entry, Option.map_some, hchange]
  · rw [content_eq, content_eq, hl, Layer.content, hcontent]
    exact h.content fun row hl ht => hrow ⟨row, hl, ht⟩
  · obtain ⟨row, hl', ht⟩ := hrow
    rw [content_eq, hl, Layer.content, hcontent]
    exact h.content_dir row hl' ht
  · refine sameAt_of_layer ?_ hnow hprofile
    rw [hlayer, if_neg hother]

private theorem now_materialize (q : Str) (node : Node) : (s.materialize q node).2.now = s.now := by
  rcases s.materialize_snd q node with h | ⟨op, h⟩ <;> rw [h]
  rfl

theorem now_chmod (path perm : Str) : (s.chmod path perm).2.now = s.now := by
  unfold chmod
  dsimp only
  split
  · rfl
  · split
    · rfl
    · exact now_materialize _ _

theorem now_chown (path : Str) (owner group : Option Str) : (s.chown path owner group).2.now = s.now := by
  unfold chown
  dsimp only
  split
  · rfl
  · split
    · rfl
    · exact now_materialize _ _

theorem profile_chmod (path perm : Str) : (s.chmod path perm).2.profile = s.profile := by
  rcases s.chmod_touched path perm with ⟨-, h⟩ | h
  · rw [h]
  · exact h.profile

theorem profile_chown (path : Str) (owner group : Option Str) :
    (s.chown path owner group).2.profile = s.profile := by
  rcases s.chown_touched path owner group with ⟨-, h⟩ | h
  · rw [h]
  · exact h.profile

/-- A node from the overlay or from a row of the usual types has an entry that stands for it, which `chmod` and `chown`
change. -/
theorem exists_standsFor (h : s.FromOverlay path ∨ s.FromRow path typeFile ∨ s.FromRow path typeDir) :
    ∃ node config, s.getNode path = some node ∧ StandsFor s (resolve path) node config ∧
      (∀ perm x, (s.chmod path perm).2.layer x =
        if x = resolve path then .overlay { config with perm := some perm } else s.layer x) ∧
      ∀ owner group x, (s.chown path owner group).2.layer x =
        if x = resolve path then .overlay (chownConfig config owner group) else s.layer x := by
  rcases h with ⟨config, hl⟩ | h
  · obtain ⟨hd, ho⟩ := layer_eq_overlay.1 hl
    have hnode := s.getNode_eq path
    cases hn : s.getNode path with
    | none =>
      rw [hn, hl] at hnode
      cases hnode
    | some node =>
      rw [hn] at hnode
      refine ⟨node, config, rfl, standsFor_overlay hl hnode.symm, fun perm x => ?_, fun owner group x => ?_⟩
      · rw [← getNode_resolve] at hn
        simp only [chmod, hn, ho]
        exact layer_setOverlay hd _ x
      · rw [← getNode_resolve] at hn
        simp only [chown, hn, ho]
        exact layer_setOverlay hd _ x
  · obtain ⟨row, hl, ht⟩ : ∃ row, s.layer (resolve path) = .row row ∧
        (row.type = some typeFile ∨ row.type = some typeDir) := by
      rcases h with ⟨row, hl, ht⟩ | ⟨row, hl, ht⟩
      · exact ⟨row, hl, .inl ht⟩
      · exact ⟨row, hl, .inr ht⟩
    have hnode := s.getNode_eq path
    cases hn : s.getNode path with
    | none =>
      rw [hn, hl] at hnode
      cases hnode
    | some node =>
      refine ⟨node, _, rfl, standsFor_row hl ht hn, fun perm x => ?_, fun owner group x => ?_⟩
      · obtain ⟨config, hconfig | rfl, hlayer⟩ := chmod_entry hn perm
        · rw [hl] at hconfig
          cases hconfig
        · exact hlayer x
      · obtain ⟨config, hconfig | rfl, hlayer⟩ := chown_entry hn owner group
        · rw [hl] at hconfig
          cases hconfig
        · exact hlayer x

theorem getNode_eq_none_iff : s.getNode path = none ↔ s.pathExists path = false := by
  rw [getNode_eq, pathExists_eq]
  cases s.layer (resolve path) with
  | missing => by_cases h : resolve path = ['/'] <;> simp [Layer.node, Layer.present, h]
  | _ => simp [Layer.node, Layer.present]

theorem chmod_fst {node : Node} (hn : s.getNode path = some node) (perm : Str) : (s.chmod path perm).1 = true := by
  rw [← getNode_resolve] at hn
  unfold chmod
  dsimp only
  rw [hn]
  dsimp only
  split <;> rfl

theorem chown_fst {node : Node} (hn : s.getNode path = some node) (owner group : Option Str) :
    (s.chown path owner group).1 = true := by
  rw [← getNode_resolve] at hn
  unfold chown
  dsimp only
  rw [hn]
  dsimp only
  split <;> rfl

/-- `chmod` and `chown` change nothing but what they are asked to, except that the content of a directory row is lost
and that the node of `/` may get another name; without a node they change nothing. -/
theorem modes_laws (s : FakeFilesystem) (path perm : Str) (owner group : Option Str) :
    (s.FromOverlay path ∨ s.FromRow path typeFile ∨ s.FromRow path typeDir →
      ((s.chmod path perm).1 = true ∧
        ChangesNode s (s.chmod path perm).2 path fun node => { node with perm := perm }) ∧
      (s.chown path owner group).1 = true ∧
        ChangesNode s (s.chown path owner group).2 path (chownNode owner group)) ∧
    (s.pathExists path = false → s.chmod path perm = (false, s) ∧ s.chown path owner group = (false, s)) := by
  constructor
  · intro h
    obtain ⟨node, config, hn, hstands, hchmod, hchown⟩ := exists_standsFor h
    refine ⟨⟨chmod_fst hn perm, ?_⟩, chown_fst hn owner group, ?_⟩
    · exact changesNode_of_standsFor hn hstands (hchmod perm) (now_chmod path perm) (profile_chmod path perm) rfl rfl
        (node_chmod ..) fun _ => rfl
    · exact changesNode_of_standsFor hn hstands (hchown owner group) (now_chown path owner group)
        (profile_chown path owner group) rfl rfl (node_chown ..) fun _ => rfl
  · intro hx
    have hn := getNode_eq_none_iff.2 hx
    rw [← getNode_resolve] at hn
    simp [chmod, chown, hn]

theorem modes_laws_file :
    ((bare.mkfile "/f".toList (.text "x".toList)).2.chmod "/f".toList "-rwx------".toList).1 = true ∧
      bare.chmod "/g".toList "-rwx------".toList = (false, bare) := by
  have hoverlay : (bare.mkfile "/f".toList (.text "x".toList)).2.FromOverlay "/f".toList :=
    ⟨bare.fileConfig (.text "x".toList) root root "-rw-r--r--".toList, by decide +kernel⟩
  exact ⟨((modes_laws _ "/f".toList "-rwx------".toList none none).1 (.inl hoverlay)).1.1,
    ((modes_laws bare "/g".toList "-rwx------".toList none none).2 (by decide +kernel)).1⟩

/-- A profile with a directory that has a content. -/
private def filledDirectory : FakeFilesystem :=
  { bare with profile := { bare.profile with backend := some (compileToSqlite 0 ((∅ : Dict Config).insert "/d".toList
      { type := some typeDir, content := some (.text "x".toList) })) } }

/-- The copy of the directory has lost the content. -/
theorem chmod_filledDirectory : filledDirectory.FromRow "/d".toList typeDir ∧
    (filledDirectory.getContent "/d".toList).1 = .bytes [120] ∧
      ((filledDirectory.chmod "/d".toList "drwx------".toList).2.getContent "/d".toList).1 = .text [] := by
  refine ⟨⟨_, rfl, rfl⟩, ?_, ?_⟩
  · decide +kernel
  · decide +kernel

end FakeFilesystem

end Cyanide
