import Cyanide.Vfs.Engine

/-!
# Which layer answers for a path

Every query of the filesystem looks a resolved path up in the deleted paths, the overlay, the dynamic files and the
backend, in this order.  `layer` is that lookup done once: each query is a function of the layer (`pathExists_eq`,
`isDir_eq`, `isFile_eq`, `getNode_dir_eq`, `content_eq`), and each operation is described by the layers it changes
(`layer_revive`, `layer_setOverlay`, `layer_remove`, `layer_mkfile`, `layer_mkdirP_of_ne`).
-/

namespace Cyanide

open PosixPath

/-! ### Resolved paths -/

private theorem resolve_of_normpath {path res : Str} (hne : path ≠ []) (h : normpath path = res)
    (hslash : ¬['/', '/'] <+: res) : resolve path = res := by
  simp [resolve, hne, h, hslash]

private theorem not_slash_slash_str (p : List Name) : ¬['/', '/'] <+: str p := by
  cases p with
  | nil => simp
  | cons n p =>
    obtain ⟨c, cs, hn, hc⟩ := n.exists_cons
    simp [str, hn, Ne.symm hc]

private theorem not_slash_slash_relStr (k : Nat) (p : List Name) : ¬['/', '/'] <+: relStr k p := by
  obtain ⟨hhead, hrel⟩ := head?_relStr k p
  obtain ⟨c, cs, hc⟩ := List.exists_cons_of_ne_nil hrel
  rw [hc] at hhead
  simp only [List.head?_cons, ne_eq, Option.some.injEq] at hhead
  simp [hc, Ne.symm hhead]

theorem resolve_rooted_comps {path : Str} (h : path.head? = some '/') :
    ∃ p, normComps true (path.splitOn '/') = p.map Name.val ∧ resolve path = str p := by
  have hne : path ≠ [] := by rintro rfl; cases h
  obtain ⟨p, hcomps, hp⟩ := normpath_rooted h
  refine ⟨p, hcomps, ?_⟩
  rcases initialSlashes_of_head h with h1 | h2
  · rw [h1, Nat.sub_self, List.replicate_zero, List.nil_append] at hp
    exact resolve_of_normpath hne hp (not_slash_slash_str p)
  · simp only [resolve, hne, if_false, hp, h2]
    cases p with
    | nil => simp
    | cons n p =>
      obtain ⟨c, cs, hn, hc⟩ := n.exists_cons
      simp [str, hn, hc, Ne.symm hc]

theorem resolve_rooted {path : Str} (h : path.head? = some '/') : ∃ p, resolve path = str p := by
  obtain ⟨p, -, hp⟩ := resolve_rooted_comps h
  exact ⟨p, hp⟩

theorem resolve_join {path : Str} {p : List Name} (hhead : path.head? = some '/') (hp : resolve path = str p)
    (n : Name) : resolve (join path n.1) = str (p ++ [n]) := by
  have hne : path ≠ [] := by rintro rfl; cases hhead
  obtain ⟨q, hq, hres⟩ := resolve_rooted_comps ((head?_join hne n).trans hhead)
  obtain ⟨p', hp', hres'⟩ := resolve_rooted_comps hhead
  obtain rfl : p' = p := str_injective (hres'.symm.trans hp)
  have hnames : q.map Name.val = (p' ++ [n]).map Name.val := by
    rw [← hq, normComps_join true hne, hp', List.map_append]
    rfl
  rw [hres, List.map_injective_iff.2 (fun _ _ h => Name.ext h) hnames]

theorem resolve_relative {path : Str} (hne : path ≠ []) (h : path.head? ≠ some '/') :
    ∃ (k : Nat) (p : List Name), normComps false (path.splitOn '/') = List.replicate k ['.', '.'] ++ p.map Name.val ∧
      resolve path = relStr k p := by
  obtain ⟨k, p, hcomps, hp⟩ := normpath_relative hne h
  exact ⟨k, p, hcomps, resolve_of_normpath hne hp (not_slash_slash_relStr k p)⟩

@[simp] theorem resolve_nil : resolve [] = ['/'] := rfl

@[simp] theorem resolve_str (p : List Name) : resolve (str p) = str p :=
  resolve_of_normpath (str_ne_nil p) (normpath_str p) (not_slash_slash_str p)

@[simp] theorem resolve_slash : resolve ['/'] = ['/'] := resolve_str []

@[simp] theorem resolve_relStr (k : Nat) (p : List Name) : resolve (relStr k p) = relStr k p :=
  resolve_of_normpath (head?_relStr k p).2 (normpath_relStr k p) (not_slash_slash_relStr k p)

/-- A resolved path is absolute, with names only, or relative. -/
theorem resolve_cases (path : Str) : (∃ p, resolve path = str p) ∨ ∃ k p, resolve path = relStr k p := by
  by_cases hne : path = []
  · exact .inl ⟨[], by rw [hne]; rfl⟩
  · by_cases h : path.head? = some '/'
    · exact .inl (resolve_rooted h)
    · obtain ⟨k, p, -, hp⟩ := resolve_relative hne h
      exact .inr ⟨k, p, hp⟩

@[simp] theorem resolve_resolve (path : Str) : resolve (resolve path) = resolve path := by
  rcases resolve_cases path with ⟨p, h⟩ | ⟨k, p, h⟩ <;> rw [h] <;> simp

theorem resolve_ne_nil (path : Str) : resolve path ≠ [] := by
  rcases resolve_cases path with ⟨p, h⟩ | ⟨k, p, h⟩ <;> rw [h]
  · exact str_ne_nil p
  · exact (head?_relStr k p).2

theorem relStr_ne_str (k : Nat) (p q : List Name) : relStr k p ≠ str q := by
  intro h
  exact (head?_relStr k p).1 (by rw [h]; exact head?_str q)

/-- The resolved parent directory. -/
def parent (q : Str) : Str := resolve (dirname q)

@[simp] theorem parent_str_concat (p : List Name) (n : Name) : parent (str (p ++ [n])) = str p := by
  rw [parent, dirname_str_concat, resolve_str]

theorem parent_ne_self {q : Str} (hq : resolve q = q) (hne : q ≠ ['/']) : parent q ≠ q := by
  rcases resolve_cases q with ⟨p, h⟩ | ⟨k, p, h⟩ <;> rw [hq] at h <;> subst h
  · rcases List.eq_nil_or_concat p with rfl | ⟨r, n, rfl⟩
    · exact absurd rfl hne
    · rw [List.concat_eq_append, parent_str_concat]
      simp
  · rcases dirname_relStr k p with h | ⟨k', p', c, h, heq⟩
    · rw [parent, h]
      exact fun h => relStr_ne_str k p [] h.symm
    · rw [parent, h, resolve_relStr, heq]
      intro h
      simpa using congrArg List.length h

/-! ### The layers -/

inductive Layer where
  | deleted
  | overlay (config : Config)
  | dynamic (config : Config)
  | row (config : Config)
  /-- The parent directory of a row, without a row of its own. -/
  | implicit
  | missing
  deriving DecidableEq

namespace FakeFilesystem

variable {s : FakeFilesystem}

/-- The layer that answers for a resolved path. -/
def layer (s : FakeFilesystem) (path : Str) : Layer :=
  if path ∈ s.deletedPaths then .deleted
  else
    match s.memoryOverlay.lookup path with
    | some config => .overlay config
    | none =>
      match s.profile.dynamicFiles.lookup path with
      | some config => .dynamic config
      | none =>
        match s.backendConfig path with
        | some config => .row config
        | none => if s.backendExists path then .implicit else .missing

theorem layer_eq_deleted {path : Str} : s.layer path = .deleted ↔ path ∈ s.deletedPaths := by
  unfold layer
  by_cases hd : path ∈ s.deletedPaths
  · simp [hd]
  · cases s.memoryOverlay.lookup path with
    | some c => simp [hd]
    | none =>
      cases s.profile.dynamicFiles.lookup path with
      | some c => simp [hd]
      | none =>
        cases s.backendConfig path with
        | some c => simp [hd]
        | none => cases s.backendExists path <;> simp [hd]

theorem layer_eq_overlay {path : Str} {config : Config} :
    s.layer path = .overlay config ↔ path ∉ s.deletedPaths ∧ s.memoryOverlay.lookup path = some config := by
  unfold layer
  by_cases hd : path ∈ s.deletedPaths
  · simp [hd]
  · cases ho : s.memoryOverlay.lookup path with
    | some c => simp [hd]
    | none =>
      cases s.profile.dynamicFiles.lookup path with
      | some c => simp [hd]
      | none =>
        cases s.backendConfig path with
        | some c => simp [hd]
        | none => cases s.backendExists path <;> simp [hd]

theorem backendExists_of_config {path : Str} {config : Config} (h : s.backendConfig path = some config) :
    s.backendExists path = true := by
  cases hb : s.profile.backend with
  | none => simp [backendConfig, hb] at h
  | some b =>
    simp only [backendConfig, hb, Option.bind_some, Backend.getConfig, Option.map_eq_some_iff] at h
    obtain ⟨r, hr, -⟩ := h
    have hp := List.find?_some hr
    have hm := List.mem_of_find?_eq_some hr
    simp only [backendExists, hb, Option.any_some, Backend.pathExists, Bool.or_eq_true, List.any_eq_true]
    exact .inl ⟨r, hm, hp⟩

theorem layer_eq_missing {path : Str} : s.layer path = .missing ↔ path ∉ s.deletedPaths ∧ path ∉ s.memoryOverlay ∧
    path ∉ s.profile.dynamicFiles ∧ s.backendExists path = false := by
  unfold layer
  by_cases hd : path ∈ s.deletedPaths
  · simp [hd]
  rw [if_neg hd]
  cases ho : s.memoryOverlay.lookup path with
  | some c =>
    have : path ∈ s.memoryOverlay := AList.lookup_isSome.1 (by rw [ho]; rfl)
    simp [this]
  | none =>
    have hov : path ∉ s.memoryOverlay := AList.lookup_eq_none.1 ho
    cases hdy : s.profile.dynamicFiles.lookup path with
    | some c =>
      have : path ∈ s.profile.dynamicFiles := AList.lookup_isSome.1 (by rw [hdy]; rfl)
      simp [this]
    | none =>
      have hdn : path ∉ s.profile.dynamicFiles := AList.lookup_eq_none.1 hdy
      cases hb : s.backendConfig path with
      | some c => simp [backendExists_of_config hb]
      | none => simp [hd, hov, hdn]

theorem layer_eq_implicit {path : Str} (h : s.layer path = .implicit) :
    s.backendConfig path = none ∧ s.backendExists path = true := by
  unfold layer at h
  split at h
  · cases h
  · split at h
    · cases h
    · split at h
      · cases h
      · split at h
        · cases h
        · rename_i hb
          split at h
          · exact ⟨hb, by assumption⟩
          · cases h

/-- Rows carry the type column. -/
theorem backendIsDir_of_config {path : Str} {config : Config} (h : s.backendConfig path = some config) :
    s.backendIsDir path = decide (config.type = some typeDir) ∧ config.type.isSome := by
  cases hb : s.profile.backend with
  | none => simp [backendConfig, hb] at h
  | some b =>
    simp only [backendConfig, hb, Option.bind_some, Backend.getConfig, Option.map_eq_some_iff] at h
    obtain ⟨r, hr, rfl⟩ := h
    simp [backendIsDir, hb, Backend.isDir, hr, Row.toConfig]

theorem type_of_layer_row {path : Str} {config : Config} (h : s.layer path = .row config) :
    config.type.isSome := by
  unfold layer at h
  split at h
  · cases h
  · split at h
    · cases h
    · split at h
      · cases h
      · split at h
        · rename_i hc
          rw [Layer.row.injEq] at h
          exact h ▸ (backendIsDir_of_config hc).2
        · split at h <;> cases h

theorem backendIsDir_of_none {path : Str} (h : s.backendConfig path = none) :
    s.backendIsDir path = s.backendExists path := by
  cases hb : s.profile.backend with
  | none => simp [backendIsDir, backendExists, hb]
  | some b =>
    simp only [backendConfig, hb, Option.bind_some, Backend.getConfig, Option.map_eq_none_iff] at h
    simp [backendIsDir, backendExists, hb, Backend.isDir, h]

end FakeFilesystem

namespace Layer

def present (path : Str) : Layer → Bool
  | deleted => false
  | missing => path = ['/']
  | _ => true

def dir (path : Str) : Layer → Bool
  | deleted => false
  | overlay config | dynamic config | row config => path = ['/'] || config.type = some typeDir
  | implicit => true
  | missing => path = ['/']

def file : Layer → Bool
  | overlay config => config.type = some typeFile
  | dynamic config | row config => config.type.getD typeFile = typeFile
  | _ => false

/-- Whether the node is a directory, for the layers that have a node. -/
def nodeDir (path : Str) : Layer → Option Bool
  | deleted => none
  | overlay config | row config => some (config.type = some typeDir)
  | dynamic _ => some false
  | implicit => some true
  | missing => if path = ['/'] then some true else none

/-- The node, at the time `now`. -/
def node (now : Nat) (path : Str) : Layer → Option Node
  | deleted => none
  | overlay config =>
    some (if config.type = some typeDir then virtualDirectory now (basename path) config
      else virtualFile now (basename path) config)
  | dynamic config => some (virtualFile now (basename path) config)
  | row config =>
    some (if config.type = some typeDir then virtualDirectory now (nameOf path) config
      else virtualFile now (basename path) config)
  | implicit => some (virtualDirectory now (nameOf path) {})
  | missing => if path = ['/'] then some (virtualDirectory now (nameOf path) {}) else none

theorem node_isDir (now : Nat) (path : Str) (l : Layer) : (l.node now path).map Node.isDir = l.nodeDir path := by
  cases l with
  | overlay config => by_cases ht : config.type = some typeDir <;> simp [node, nodeDir, ht] <;> rfl
  | row config => by_cases ht : config.type = some typeDir <;> simp [node, nodeDir, ht] <;> rfl
  | missing =>
    rw [node, nodeDir]
    split <;> rfl
  | deleted => rfl
  | dynamic config => rfl
  | implicit => rfl

def content (profile : Profile) : Layer → Content
  | deleted | implicit | missing => .text []
  | overlay config => config.content.getD (.text [])
  | dynamic config =>
    match config.provider.bind profile.providers with
    | some provider => provider config.args
    | none => (config.content.map profile.renderContent).getD (.text [])
  | row config => profile.renderContent (config.content.getD (.text []))

end Layer

namespace FakeFilesystem

variable {s : FakeFilesystem}

theorem pathExists_eq (s : FakeFilesystem) (path : Str) :
    s.pathExists path = (s.layer (resolve path)).present (resolve path) := by
  unfold pathExists layer
  by_cases hd : resolve path ∈ s.deletedPaths
  · simp [hd, Layer.present]
  · simp only [hd, if_false]
    cases ho : s.memoryOverlay.lookup (resolve path) with
    | some config =>
      have : resolve path ∈ s.memoryOverlay := AList.lookup_isSome.1 (by rw [ho]; rfl)
      simp [this, Layer.present]
    | none =>
      have hov : resolve path ∉ s.memoryOverlay := AList.lookup_eq_none.1 ho
      cases hdy : s.profile.dynamicFiles.lookup (resolve path) with
      | some config =>
        have : resolve path ∈ s.profile.dynamicFiles := AList.lookup_isSome.1 (by rw [hdy]; rfl)
        simp [this, Layer.present]
      | none =>
        have hdn : resolve path ∉ s.profile.dynamicFiles := AList.lookup_eq_none.1 hdy
        cases hb : s.backendConfig (resolve path) with
        | some config => simp [backendExists_of_config hb, Layer.present]
        | none => cases he : s.backendExists (resolve path) <;> simp [hov, hdn, Layer.present]

theorem isDir_eq (s : FakeFilesystem) (path : Str) :
    s.isDir path = (s.layer (resolve path)).dir (resolve path) := by
  unfold isDir layer
  by_cases hd : resolve path ∈ s.deletedPaths
  · simp [hd, Layer.dir]
  · simp only [hd, if_false]
    generalize resolve path = q
    cases ho : s.memoryOverlay.lookup q with
    | some config => by_cases hr : q = ['/'] <;> simp [Layer.dir, hr]
    | none =>
      cases hdy : s.profile.dynamicFiles.lookup q with
      | some config => by_cases hr : q = ['/'] <;> simp [Layer.dir, hr]
      | none =>
        cases hb : s.backendConfig q with
        | some config => by_cases hr : q = ['/'] <;> simp [Layer.dir, hr, (backendIsDir_of_config hb).1]
        | none =>
          rw [backendIsDir_of_none hb]
          cases he : s.backendExists q <;> by_cases hr : q = ['/'] <;> simp [Layer.dir, hr]

theorem isFile_eq (s : FakeFilesystem) (path : Str) : s.isFile path = (s.layer (resolve path)).file := by
  have hx := s.pathExists_eq (resolve path)
  have hi := s.isDir_eq (resolve path)
  rw [resolve_resolve] at hx hi
  unfold isFile
  simp only [hx, hi]
  unfold layer
  by_cases hd : resolve path ∈ s.deletedPaths
  · simp [hd, Layer.file]
  · simp only [hd, if_false]
    cases ho : s.memoryOverlay.lookup (resolve path) with
    | some config => simp [Layer.file]
    | none =>
      cases hdy : s.profile.dynamicFiles.lookup (resolve path) with
      | some config => simp [Layer.file]
      | none =>
        cases hb : s.backendConfig (resolve path) with
        | some config => simp [Layer.file]
        | none => cases he : s.backendExists (resolve path) <;> simp [Layer.file, Layer.present, Layer.dir]

theorem getNode_eq (s : FakeFilesystem) (path : Str) :
    s.getNode path = (s.layer (resolve path)).node s.now (resolve path) := by
  have hx := s.pathExists_eq (resolve path)
  have hi := s.isDir_eq (resolve path)
  rw [resolve_resolve] at hx hi
  unfold getNode
  simp only [hx, hi]
  unfold layer
  by_cases hd : resolve path ∈ s.deletedPaths
  · simp [hd, Layer.node]
  · simp only [hd, if_false]
    cases s.memoryOverlay.lookup (resolve path) with
    | some config => rfl
    | none =>
      cases s.profile.dynamicFiles.lookup (resolve path) with
      | some config => rfl
      | none =>
        cases s.backendConfig (resolve path) with
        | some config => rfl
        | none =>
          cases s.backendExists (resolve path) <;> by_cases hr : resolve path = ['/'] <;>
            simp [Layer.node, Layer.present, Layer.dir, hr]

theorem getNode_dir_eq (s : FakeFilesystem) (path : Str) :
    (s.getNode path).map Node.isDir = (s.layer (resolve path)).nodeDir (resolve path) := by
  rw [getNode_eq, Layer.node_isDir]

theorem content_eq (s : FakeFilesystem) (path : Str) :
    (s.getContent path).1 = (s.layer (resolve path)).content s.profile := by
  unfold getContent layer
  by_cases hd : resolve path ∈ s.deletedPaths
  · simp [hd, Layer.content]
  · simp only [hd, if_false, contentAt]
    cases ho : s.memoryOverlay.lookup (resolve path) with
    | some config => simp [Layer.content]
    | none =>
      cases hdy : s.profile.dynamicFiles.lookup (resolve path) with
      | some config =>
        simp only [getDynamicContent, Layer.content]
        cases config.provider.bind s.profile.providers with
        | some provider => simp
        | none => cases config.content <;> simp
      | none =>
        cases hb : s.backendConfig (resolve path) with
        | some config => simp [Layer.content]
        | none => cases he : s.backendExists (resolve path) <;> simp [Layer.content]

theorem isDir_resolve (s : FakeFilesystem) (path : Str) : s.isDir (resolve path) = s.isDir path := by
  rw [isDir_eq, isDir_eq, resolve_resolve]

theorem pathExists_resolve (s : FakeFilesystem) (path : Str) : s.pathExists (resolve path) = s.pathExists path := by
  rw [pathExists_eq, pathExists_eq, resolve_resolve]

theorem pathExists_of_isDir {path : Str} (h : s.isDir path = true) : s.pathExists path = true := by
  rw [isDir_eq] at h
  rw [pathExists_eq]
  generalize s.layer (resolve path) = l at h
  cases l <;> simp_all [Layer.dir, Layer.present]

theorem pathExists_of_isFile {path : Str} (h : s.isFile path = true) : s.pathExists path = true := by
  rw [isFile_eq] at h
  rw [pathExists_eq]
  generalize s.layer (resolve path) = l at h
  cases l <;> simp_all [Layer.file, Layer.present]

/-- A directory other than `/` is no file. -/
theorem isFile_of_isDir {path : Str} (hne : resolve path ≠ ['/']) (h : s.isDir path = true) :
    s.isFile path = false := by
  rw [isDir_eq] at h
  rw [isFile_eq]
  generalize s.layer (resolve path) = l at h
  cases l <;> simp_all [Layer.dir, Layer.file]

/-! ### What the operations do to the layers -/

@[simp] theorem layer_record (op : FileOp) (q : Str) : (s.record op).layer q = s.layer q := rfl

@[simp] theorem profile_record (op : FileOp) : (s.record op).profile = s.profile := rfl

theorem layer_revive (path : Str) (config : Config) (q : Str) :
    (s.revive path config).layer q = if q = path then .overlay config else s.layer q := by
  by_cases h : q = path
  · subst h
    simp [layer, revive, setOverlay]
  · simp only [layer, revive, setOverlay, h, if_false, Finset.mem_erase, ne_eq, not_false_eq_true, true_and,
      AList.lookup_insert_ne h]
    rfl

theorem layer_setOverlay {path : Str} (hd : path ∉ s.deletedPaths) (config : Config) (q : Str) :
    (s.setOverlay path config).layer q = if q = path then .overlay config else s.layer q := by
  by_cases h : q = path
  · subst h
    simp [layer, setOverlay, hd]
  · simp only [layer, setOverlay, h, if_false, AList.lookup_insert_ne h]
    rfl

/-- The overlay entry that `mkfile` writes. -/
def fileConfig (s : FakeFilesystem) (content : Content) (owner group perm : Str) : Config :=
  { type := some typeFile, content := some content, owner := some owner, group := some group,
    perm := some perm, size := some content.len, mtime := some (.stamp s.now) }

/-- The overlay entry that `mkdir_p` writes. -/
def dirConfig (s : FakeFilesystem) (owner group perm : Str) : Config :=
  { type := some typeDir, owner := some owner, group := some group, perm := some perm,
    mtime := some (.stamp s.now) }

/-- `mkfile` finds the parent directory of a resolved path. -/
def HasParent (s : FakeFilesystem) (q : Str) : Prop :=
  dirname q = q ∨ (s.pathExists (dirname q) = true ∧ s.isDir (dirname q) = true)

instance (s : FakeFilesystem) (q : Str) : Decidable (s.HasParent q) := inferInstanceAs (Decidable (_ ∨ _))

theorem mkfile_of_parent {path : Str} (h : s.HasParent (resolve path)) (content : Content)
    (owner group perm : Str) :
    (s.mkfile path content owner group perm).1.isSome ∧ (s.mkfile path content owner group perm).2 =
      (s.revive (resolve path) (s.fileConfig content owner group perm)).record (.write (resolve path)) := by
  have hc : ¬(dirname (resolve path) ≠ resolve path ∧
      (!s.pathExists (dirname (resolve path)) || !s.isDir (dirname (resolve path))) = true) := by
    rintro ⟨hne, hno⟩
    rcases h with h | ⟨h1, h2⟩
    · exact hne h
    · simp [h1, h2] at hno
  unfold mkfile
  simp only [hc, if_false]
  exact ⟨rfl, rfl⟩

theorem mkfile_of_not_parent {path : Str} (h : ¬s.HasParent (resolve path)) (content : Content)
    (owner group perm : Str) : s.mkfile path content owner group perm = (none, s) := by
  have hc : dirname (resolve path) ≠ resolve path ∧
      (!s.pathExists (dirname (resolve path)) || !s.isDir (dirname (resolve path))) = true := by
    simp only [HasParent, not_or, not_and, Bool.not_eq_true] at h
    refine ⟨h.1, ?_⟩
    cases hx : s.pathExists (dirname (resolve path)) with
    | false => rfl
    | true => simp [h.2 hx]
  unfold mkfile
  simp only [hc, ne_eq, not_false_eq_true, and_self, if_true]

@[simp] theorem profile_mkfile (path : Str) (content : Content) (owner group perm : Str) :
    (s.mkfile path content owner group perm).2.profile = s.profile := by
  by_cases hp : s.HasParent (resolve path)
  · rw [(mkfile_of_parent hp content owner group perm).2]
    rfl
  · rw [mkfile_of_not_parent hp]

@[simp] theorem profile_remove (path : Str) : (s.remove path).2.profile = s.profile := by
  unfold remove
  dsimp only
  split <;> rfl

theorem layer_mkfile (path : Str) (content : Content) (owner group perm : Str) (q : Str) :
    (s.mkfile path content owner group perm).2.layer q =
      if q = resolve path ∧ s.HasParent (resolve path) then .overlay (s.fileConfig content owner group perm)
      else s.layer q := by
  by_cases h : s.HasParent (resolve path)
  · rw [(mkfile_of_parent h content owner group perm).2, layer_record, layer_revive]
    simp [h]
  · simp [mkfile_of_not_parent h, h]

theorem layer_remove (path q : Str) :
    (s.remove path).2.layer q =
      if q = resolve path ∧ resolve path ≠ ['/'] ∧ s.pathExists path = true then .deleted else s.layer q := by
  have hx : s.pathExists (resolve path) = s.pathExists path := by simp [pathExists]
  unfold remove
  simp only [hx]
  by_cases h : resolve path = ['/'] ∨ s.pathExists path = false
  · have : ¬(resolve path ≠ ['/'] ∧ s.pathExists path = true) := by
      rcases h with h | h <;> simp [h]
    rw [if_pos h, if_neg (by tauto)]
  · rw [if_neg h]
    simp only [not_or, Bool.not_eq_false] at h
    by_cases hq : q = resolve path
    · simp [layer, hq, h.1, h.2]
    · simp only [layer, Finset.mem_insert, hq, false_or, AList.lookup_erase_ne hq, false_and, if_false]
      rfl

theorem getContent_snd (s : FakeFilesystem) (path : Str) (args : Dict Str) :
    (s.getContent path args).2 = s ∨ ∃ op, (s.getContent path args).2 = s.record op := by
  unfold getContent
  dsimp only
  split
  · exact .inl rfl
  · exact .inr ⟨_, rfl⟩

theorem layer_getContent (path : Str) (args : Dict Str) (q : Str) :
    (s.getContent path args).2.layer q = s.layer q := by
  rcases s.getContent_snd path args with h | ⟨op, h⟩ <;> rw [h]
  rfl

/-! ### Overlay keys -/

theorem mem_overlay_mkfile {path content owner group perm key}
    (h : key ∈ (s.mkfile path content owner group perm).2.memoryOverlay) :
    key = resolve path ∨ key ∈ s.memoryOverlay := by
  by_cases hp : s.HasParent (resolve path)
  · rw [(mkfile_of_parent hp content owner group perm).2] at h
    exact (AList.mem_insert _).1 h
  · rw [mkfile_of_not_parent hp] at h
    exact .inr h

theorem mem_overlay_remove {path key} (h : key ∈ (s.remove path).2.memoryOverlay) : key ∈ s.memoryOverlay := by
  unfold remove at h
  dsimp only at h
  split at h
  · exact h
  · exact (AList.mem_erase.1 h).2

theorem mem_remove_of_ne {path key} (h : key ≠ resolve path) :
    (key ∈ (s.remove path).2.memoryOverlay ↔ key ∈ s.memoryOverlay) ∧
      (key ∈ (s.remove path).2.deletedPaths ↔ key ∈ s.deletedPaths) := by
  unfold remove
  dsimp only
  split
  · exact ⟨Iff.rfl, Iff.rfl⟩
  · simp [h]

/-! ### `chmod` and `chown` -/

/-- The type that `chmod` and `chown` leave in the overlay: that of the entry, or else that of the node. -/
def nodeType (s : FakeFilesystem) (q : Str) : Option Str :=
  match s.layer q with
  | .overlay config => config.type
  | l => (l.nodeDir q).map fun d => if d then typeDir else typeFile

/-- `s'` differs from `s` by an overlay entry at `q`, of the type the node at `q` has. -/
structure Touched (s s' : FakeFilesystem) (q : Str) : Prop where
  node : (s.layer q).nodeDir q ≠ none
  layer : ∃ config : Config, config.type = s.nodeType q ∧
    ∀ x, s'.layer x = if x = q then .overlay config else s.layer x
  overlay : ∀ x, x ∈ s'.memoryOverlay ↔ x = q ∨ x ∈ s.memoryOverlay
  deleted : s'.deletedPaths = s.deletedPaths
  profile : s'.profile = s.profile

private theorem touched_setOverlay {q : Str} {s' : FakeFilesystem} {config : Config}
    (hnode : (s.layer q).nodeDir q ≠ none) (ht : config.type = s.nodeType q)
    (hs : s' = s ∨ ∃ op, s' = s.record op) : Touched s (s'.setOverlay q config) q := by
  have hd : q ∉ s.deletedPaths := by
    intro hd
    simp [layer, hd, Layer.nodeDir] at hnode
  rcases hs with rfl | ⟨op, rfl⟩
  · exact ⟨hnode, ⟨config, ht, layer_setOverlay hd config⟩, fun x => AList.mem_insert _, rfl, rfl⟩
  · exact ⟨hnode, ⟨config, ht, layer_setOverlay (s := s.record op) hd config⟩, fun x => AList.mem_insert _, rfl, rfl⟩

theorem materialize_snd (s : FakeFilesystem) (q : Str) (node : Node) :
    (s.materialize q node).2 = s ∨ ∃ op, (s.materialize q node).2 = s.record op := by
  unfold materialize
  by_cases hf : node.isFile = true
  · simp only [hf, if_true]
    exact getContent_snd s q ∅
  · simp only [hf, Bool.false_eq_true, if_false, true_or]

private theorem materialize_type {q : Str} {node : Node} (hq : resolve q = q) (hn : s.getNode q = some node)
    (ho : s.memoryOverlay.lookup q = none) : (s.materialize q node).1.type = s.nodeType q := by
  have hdir := s.getNode_dir_eq q
  rw [hn, hq, Option.map_some] at hdir
  have ht : s.nodeType q = ((s.layer q).nodeDir q).map fun d => if d then typeDir else typeFile := by
    unfold nodeType
    split
    · rename_i config h
      rw [layer_eq_overlay, ho] at h
      exact absurd h.2 (by simp)
    · rfl
  rw [ht, ← hdir]
  rfl

private theorem touched_of_node {path : Str} {node : Node} (hn : s.getNode path = some node) :
    (s.layer (resolve path)).nodeDir (resolve path) ≠ none := by
  rw [← getNode_dir_eq, hn]
  simp

private theorem nodeType_of_overlay {q : Str} {config : Config} (hnode : (s.layer q).nodeDir q ≠ none)
    (ho : s.memoryOverlay.lookup q = some config) : s.nodeType q = config.type := by
  have hd : q ∉ s.deletedPaths := by
    intro hd
    simp [layer, hd, Layer.nodeDir] at hnode
  simp [nodeType, layer, hd, ho]

theorem getNode_resolve (s : FakeFilesystem) (path : Str) : s.getNode (resolve path) = s.getNode path := by
  unfold getNode
  rw [resolve_resolve]

theorem chmod_touched (s : FakeFilesystem) (path perm : Str) :
    (s.getNode path = none ∧ (s.chmod path perm).2 = s) ∨ Touched s (s.chmod path perm).2 (resolve path) := by
  cases hn : s.getNode path with
  | none =>
    refine .inl ⟨rfl, ?_⟩
    simp [chmod, getNode_resolve, hn]
  | some node =>
    have hnode := touched_of_node hn
    rw [← getNode_resolve] at hn
    cases ho : s.memoryOverlay.lookup (resolve path) with
    | some config =>
      simp only [chmod, hn, ho]
      exact .inr (touched_setOverlay hnode (nodeType_of_overlay hnode ho).symm (.inl rfl))
    | none =>
      have ht := materialize_type (resolve_resolve path) hn ho
      simp only [chmod, hn, ho]
      exact .inr (touched_setOverlay hnode ht (s.materialize_snd _ node))

theorem chown_touched (s : FakeFilesystem) (path : Str) (owner group : Option Str) :
    (s.getNode path = none ∧ (s.chown path owner group).2 = s) ∨
      Touched s (s.chown path owner group).2 (resolve path) := by
  cases hn : s.getNode path with
  | none =>
    refine .inl ⟨rfl, ?_⟩
    simp [chown, getNode_resolve, hn]
  | some node =>
    have hnode := touched_of_node hn
    rw [← getNode_resolve] at hn
    cases ho : s.memoryOverlay.lookup (resolve path) with
    | some config =>
      simp only [chown, hn, ho]
      exact .inr (touched_setOverlay hnode (nodeType_of_overlay hnode ho).symm (.inl rfl))
    | none =>
      have ht := materialize_type (resolve_resolve path) hn ho
      simp only [chown, hn, ho]
      exact .inr (touched_setOverlay hnode ht (s.materialize_snd _ node))

theorem notMem_deletedPaths_of_getNode {path : Str} {node : Node} (hn : s.getNode path = some node) :
    resolve path ∉ s.deletedPaths := by
  intro hd
  rw [getNode_eq, layer_eq_deleted.2 hd] at hn
  cases hn

private theorem layer_touch {q : Str} {t : FakeFilesystem} (ht : t = s ∨ ∃ op, t = s.record op)
    (hd : q ∉ s.deletedPaths) (config : Config) (x : Str) :
    (t.setOverlay q config).layer x = if x = q then .overlay config else s.layer x := by
  rcases ht with rfl | ⟨op, rfl⟩
  · exact layer_setOverlay hd config x
  · exact layer_setOverlay (s := s.record op) hd config x

/-- `chmod` puts the permission string into the overlay entry, or else into one that is made of the node. -/
theorem chmod_entry {path : Str} {node : Node} (hn : s.getNode path = some node) (perm : Str) :
    ∃ config : Config,
      (s.layer (resolve path) = .overlay config ∨ config = (s.materialize (resolve path) node).1) ∧
        ∀ x, (s.chmod path perm).2.layer x =
          if x = resolve path then .overlay { config with perm := some perm } else s.layer x := by
  have hd := notMem_deletedPaths_of_getNode hn
  rw [← getNode_resolve] at hn
  cases ho : s.memoryOverlay.lookup (resolve path) with
  | some config =>
    refine ⟨config, .inl (layer_eq_overlay.2 ⟨hd, ho⟩), fun x => ?_⟩
    simp only [chmod, hn, ho]
    exact layer_touch (.inl rfl) hd _ x
  | none =>
    refine ⟨(s.materialize (resolve path) node).1, .inr rfl, fun x => ?_⟩
    simp only [chmod, hn, ho]
    exact layer_touch (s.materialize_snd _ node) hd _ x

/-- `chown` does the same with the owner and the group, and an entry that is made of the node gets its permission string
too. -/
theorem chown_entry {path : Str} {node : Node} (hn : s.getNode path = some node) (owner group : Option Str) :
    ∃ config : Config,
      (s.layer (resolve path) = .overlay config ∨
        config = { (s.materialize (resolve path) node).1 with perm := some node.perm }) ∧
        ∀ x, (s.chown path owner group).2.layer x =
          if x = resolve path then .overlay (chownConfig config owner group) else s.layer x := by
  have hd := notMem_deletedPaths_of_getNode hn
  rw [← getNode_resolve] at hn
  cases ho : s.memoryOverlay.lookup (resolve path) with
  | some config =>
    refine ⟨config, .inl (layer_eq_overlay.2 ⟨hd, ho⟩), fun x => ?_⟩
    simp only [chown, hn, ho]
    exact layer_touch (.inl rfl) hd _ x
  | none =>
    refine ⟨_, .inr rfl, fun x => ?_⟩
    simp only [chown, hn, ho]
    exact layer_touch (s.materialize_snd _ node) hd _ x

/-! ### `mkdir_p` -/

/-- The paths the loop of `mkdir_p` goes through. -/
def walkFrom : Str → List Str → List Str
  | _, [] => []
  | cur, part :: parts => join cur part :: walkFrom (join cur part) parts

theorem layer_mkdirStep (owner group perm cur part q : Str) :
    (mkdirStep owner group perm (cur, s) part).2.layer q =
      if q = join cur part ∧ (s.pathExists (join cur part) = false ∨ s.isFile (join cur part) = true) then
        .overlay (s.dirConfig owner group perm)
      else s.layer q := by
  unfold mkdirStep
  dsimp only
  by_cases h : (!s.pathExists (join cur part) || s.isFile (join cur part)) = true
  · rw [if_pos h, layer_revive]
    have : s.pathExists (join cur part) = false ∨ s.isFile (join cur part) = true := by simpa using h
    simp [this, dirConfig]
  · rw [if_neg h]
    have : ¬(s.pathExists (join cur part) = false ∨ s.isFile (join cur part) = true) := by simpa using h
    simp [this]

@[simp] theorem profile_mkdirStep (owner group perm : Str) (st : Str × FakeFilesystem) (part : Str) :
    (mkdirStep owner group perm st part).2.profile = st.2.profile := by
  unfold mkdirStep
  dsimp only
  split <;> rfl

@[simp] theorem dirConfig_mkdirStep (owner group perm : Str) (st : Str × FakeFilesystem) (part o g m : Str) :
    (mkdirStep owner group perm st part).2.dirConfig o g m = st.2.dirConfig o g m := by
  unfold mkdirStep
  dsimp only
  split <;> rfl

theorem mkdirStep_fst (owner group perm : Str) (st : Str × FakeFilesystem) (part : Str) :
    (mkdirStep owner group perm st part).1 = join st.1 part := by
  unfold mkdirStep
  dsimp only
  split <;> rfl

@[simp] theorem profile_foldl_mkdirStep (owner group perm : Str) (parts : List Str) (st : Str × FakeFilesystem) :
    (parts.foldl (mkdirStep owner group perm) st).2.profile = st.2.profile := by
  induction parts generalizing st with
  | nil => rfl
  | cons part parts ih => rw [List.foldl_cons, ih, profile_mkdirStep]

/-- The loop of `mkdir_p` leaves the paths it does not go through alone. -/
theorem layer_foldl_mkdirStep_of_notMem (owner group perm : Str) (parts : List Str) (st : Str × FakeFilesystem)
    {q : Str} (hq : q ∉ walkFrom st.1 parts) :
    (parts.foldl (mkdirStep owner group perm) st).2.layer q = st.2.layer q := by
  induction parts generalizing st with
  | nil => rfl
  | cons part parts ih =>
    simp only [walkFrom, List.mem_cons, not_or] at hq
    rw [List.foldl_cons, ih _ (by rw [mkdirStep_fst]; exact hq.2)]
    obtain ⟨cur, s⟩ := st
    rw [layer_mkdirStep, if_neg (fun h => hq.1 h.1)]

/-- The loop of `mkdir_p` writes no overlay key and revives no path outside its walk. -/
theorem mem_foldl_mkdirStep_of_notMem (owner group perm : Str) (parts : List Str) (st : Str × FakeFilesystem)
    {key : Str} (hkey : key ∉ walkFrom st.1 parts) :
    (key ∈ (parts.foldl (mkdirStep owner group perm) st).2.memoryOverlay ↔ key ∈ st.2.memoryOverlay) ∧
      (key ∈ (parts.foldl (mkdirStep owner group perm) st).2.deletedPaths ↔ key ∈ st.2.deletedPaths) := by
  induction parts generalizing st with
  | nil => exact ⟨Iff.rfl, Iff.rfl⟩
  | cons part parts ih =>
    simp only [walkFrom, List.mem_cons, not_or] at hkey
    obtain ⟨hov, hdel⟩ := ih (mkdirStep owner group perm st part) (by rw [mkdirStep_fst]; exact hkey.2)
    rw [List.foldl_cons, hov, hdel]
    unfold mkdirStep
    dsimp only
    split
    · simp [revive, setOverlay, hkey.1]
    · exact ⟨Iff.rfl, Iff.rfl⟩

/-- The loop of `mkdir_p` does nothing when it walks over existing paths that are not files. -/
theorem foldl_mkdirStep_eq_self (owner group perm : Str) {parts : List Str} {cur : Str} (s : FakeFilesystem)
    (h : ∀ q ∈ walkFrom cur parts, s.pathExists q = true ∧ s.isFile q = false) :
    (parts.foldl (mkdirStep owner group perm) (cur, s)).2 = s := by
  induction parts generalizing cur with
  | nil => rfl
  | cons part parts ih =>
    simp only [walkFrom, List.mem_cons, forall_eq_or_imp] at h
    have hstep : mkdirStep owner group perm (cur, s) part = (join cur part, s) := by
      simp [mkdirStep, h.1.1, h.1.2]
    rw [List.foldl_cons, hstep]
    exact ih h.2

theorem mem_walkFrom_names {p r : List Name} {q : Str} :
    q ∈ walkFrom (str p) (r.map Name.val) ↔ ∃ d, d ≠ [] ∧ d <+: r ∧ q = str (p ++ d) := by
  induction r generalizing p with
  | nil => simp [walkFrom]
  | cons n r ih =>
    simp only [List.map_cons, walkFrom, join_str, List.mem_cons, ih]
    constructor
    · rintro (rfl | ⟨d, -, hpre, rfl⟩)
      · exact ⟨[n], by simp, by simp, rfl⟩
      · exact ⟨n :: d, by simp, List.cons_prefix_cons.2 ⟨rfl, hpre⟩, by simp⟩
    · rintro ⟨d, hne, hpre, rfl⟩
      cases d with
      | nil => exact absurd rfl hne
      | cons m d =>
        obtain ⟨rfl, hpre'⟩ := List.cons_prefix_cons.1 hpre
        cases d with
        | nil => exact .inl rfl
        | cons k d => exact .inr ⟨k :: d, by simp, hpre', by simp⟩

/-- The walk over names creates the missing directories, and makes directories of the files, below `p`. -/
theorem layer_foldl_mkdirStep_names (owner group perm : Str) (p r : List Name) (s : FakeFilesystem) (q : Str) :
    ((r.map Name.val).foldl (mkdirStep owner group perm) (str p, s)).2.layer q =
      if q ∈ walkFrom (str p) (r.map Name.val) ∧ (s.pathExists q = false ∨ s.isFile q = true) then
        .overlay (s.dirConfig owner group perm)
      else s.layer q := by
  induction r generalizing p s with
  | nil => simp [walkFrom]
  | cons n r ih =>
    have hstep : mkdirStep owner group perm (str p, s) n.val =
        (str (p ++ [n]), (mkdirStep owner group perm (str p, s) n.val).2) :=
      Prod.ext (by rw [mkdirStep_fst, join_str]) rfl
    have hl := layer_mkdirStep (s := s) owner group perm (str p) n.val
    simp only [join_str] at hl
    rw [List.map_cons, List.foldl_cons, hstep, ih, dirConfig_mkdirStep]
    simp only [walkFrom, join_str, List.mem_cons]
    by_cases hw : q ∈ walkFrom (str (p ++ [n])) (r.map Name.val)
    · -- a later path of the walk: the first step has not touched it
      obtain ⟨d, hne, -, rfl⟩ := mem_walkFrom_names.1 hw
      have hx : (mkdirStep owner group perm (str p, s) n.val).2.layer (str (p ++ [n] ++ d)) =
          s.layer (str (p ++ [n] ++ d)) := by
        rw [hl, if_neg (by simp [hne])]
      simp only [pathExists_eq, isFile_eq, resolve_str, hx, hw, or_true]
    · rw [if_neg (fun h => hw h.1), hl]
      refine if_congr ?_ rfl rfl
      constructor
      · rintro ⟨rfl, h⟩
        exact ⟨.inl rfl, h⟩
      · rintro ⟨rfl | hq, h⟩
        · exact ⟨rfl, h⟩
        · exact absurd hq hw

/-- The components that `mkdir_p` walks over. -/
def mkdirParts (path : Str) : List Str := ((resolve path).splitOn '/').filter (· ≠ [])

theorem mkdirP_eq (path owner group perm : Str) :
    s.mkdirP path owner group perm = ((mkdirParts path).foldl (mkdirStep owner group perm) (['/'], s)).2 := rfl

@[simp] theorem profile_mkdirP (path owner group perm : Str) : (s.mkdirP path owner group perm).profile = s.profile := by
  rw [mkdirP_eq, profile_foldl_mkdirStep]

theorem mkdirParts_of_str {path : Str} {p : List Name} (h : resolve path = str p) :
    mkdirParts path = p.map Name.val := by
  rw [mkdirParts, h]
  cases p with
  | nil => decide
  | cons n p =>
    rw [splitOn_str, List.filter_cons_of_neg (by simp), List.filter_eq_self]
    intro c hc
    obtain ⟨m, -, rfl⟩ := List.mem_map.1 hc
    simpa using m.ne_nil

theorem mkdirParts_of_relStr {path : Str} {k : Nat} {p : List Name} (h : resolve path = relStr k p) :
    (k = 0 ∧ mkdirParts path = p.map Name.val) ∨
      ∃ c rest, mkdirParts path = c :: rest ∧ (c = ['.'] ∨ c = ['.', '.']) ∧ ∀ d ∈ rest, d ≠ [] ∧ '/' ∉ d := by
  rw [mkdirParts, h]
  by_cases hkp : k = 0 ∧ p = []
  · obtain ⟨rfl, rfl⟩ := hkp
    exact .inr ⟨['.'], [], by decide, .inl rfl, by simp⟩
  · have hsplit : (relStr k p).splitOn '/' = List.replicate k ['.', '.'] ++ p.map Name.val := by
      rw [relStr, if_neg hkp]
      exact List.splitOn_intercalate '/' (fun c hc => (mem_relComps hc).2) (by simpa using hkp)
    rw [hsplit, List.filter_eq_self.2 (fun c hc => by simpa using (mem_relComps hc).1)]
    cases k with
    | zero => exact .inl ⟨rfl, rfl⟩
    | succ k =>
      refine .inr ⟨['.', '.'], List.replicate k ['.', '.'] ++ p.map Name.val, rfl, .inr rfl, fun d hd =>
        mem_relComps (k := k + 1) (p := p) ?_⟩
      rw [List.replicate_succ, List.cons_append]
      exact List.mem_cons_of_mem _ hd

/-- Components with a slash in front of each. -/
private def slashed (ps : List Str) : Str := if ps = [] then ['/'] else ps.flatMap ('/' :: ·)

private theorem join_slashed {ps : List Str} {c : Str} (hps : ∀ d ∈ ps, d ≠ [] ∧ '/' ∉ d) (hc : c ≠ [] ∧ '/' ∉ c) :
    join (slashed ps) c = slashed (ps ++ [c]) := by
  obtain ⟨a, cs, rfl⟩ := List.exists_cons_of_ne_nil hc.1
  have ha : a ≠ '/' := by rintro rfl; exact hc.2 (by simp)
  rcases List.eq_nil_or_concat ps with rfl | ⟨qs, d, rfl⟩
  · simp [slashed, join, ha]
  · obtain ⟨hdne, hd⟩ := hps d (by simp)
    have hlast : ((qs.concat d).flatMap ('/' :: ·)).getLast? ≠ some '/' := by
      obtain ⟨b, ds, rfl⟩ := List.exists_cons_of_ne_nil hdne
      intro hl
      have : (b :: ds).getLast? = some '/' := by
        simpa [List.getLast?_append] using hl
      exact hd (List.mem_of_getLast? this)
    rw [slashed, if_neg (by simp), join, if_neg (by simp [ha]), if_neg hlast, slashed, if_neg (by simp)]
    simp

private theorem mem_walkFrom_slashed (ps : List Str) {parts : List Str} {x : Str} (hps : ∀ d ∈ ps, d ≠ [] ∧ '/' ∉ d)
    (hparts : ∀ d ∈ parts, d ≠ [] ∧ '/' ∉ d) (hx : x ∈ walkFrom (slashed ps) parts) :
    ∃ d, d ≠ [] ∧ d <+: parts ∧ x = slashed (ps ++ d) := by
  induction parts generalizing ps with
  | nil => cases hx
  | cons c parts ih =>
    have hc := hparts c (by simp)
    rw [walkFrom, join_slashed hps hc] at hx
    rcases List.mem_cons.1 hx with rfl | hx
    · exact ⟨[c], by simp, by simp, rfl⟩
    · obtain ⟨d, hne, hpre, rfl⟩ := ih (ps ++ [c])
        (fun e he => by
          rcases List.mem_append.1 he with he | he
          · exact hps e he
          · rw [List.mem_singleton.1 he]; exact hc)
        (fun e he => hparts e (List.mem_cons_of_mem _ he)) hx
      exact ⟨c :: d, by simp, List.cons_prefix_cons.2 ⟨rfl, hpre⟩, by simp⟩

/-- A walk that starts with `.` or `..` goes through no resolved path. -/
theorem walkFrom_dots {c : Str} {rest : List Str} (hc : c = ['.'] ∨ c = ['.', '.'])
    (hrest : ∀ d ∈ rest, d ≠ [] ∧ '/' ∉ d) {x : Str} (hx : x ∈ walkFrom ['/'] (c :: rest)) :
    x.head? = some '/' ∧ ∀ p, x ≠ str p := by
  have hcs : c ≠ [] ∧ '/' ∉ c := by rcases hc with rfl | rfl <;> simp
  obtain ⟨d, hne, hpre, rfl⟩ := mem_walkFrom_slashed [] (by simp)
    (fun e he => by
      rcases List.mem_cons.1 he with rfl | he
      · exact hcs
      · exact hrest e he) (show x ∈ walkFrom (slashed []) (c :: rest) from hx)
  cases d with
  | nil => exact absurd rfl hne
  | cons e d =>
    obtain ⟨rfl, -⟩ := List.cons_prefix_cons.1 hpre
    rw [List.nil_append, slashed, if_neg (by simp)]
    refine ⟨by simp, fun p hp => ?_⟩
    cases p with
    | nil =>
      simp only [List.flatMap_cons, str_nil, List.cons_append, List.cons.injEq, true_and,
        List.append_eq_nil_iff] at hp
      exact hcs.1 hp.1
    | cons n p =>
      have htail : ∀ l : List Str, l.flatMap ('/' :: ·) = [] ∨ (l.flatMap ('/' :: ·)).head? = some '/' := by
        intro l
        cases l <;> simp
      rw [str_of_ne_nil (by simp), flat_cons, List.flatMap_cons, List.cons_append, List.cons.injEq] at hp
      have h1 := head?_splitOn_append hcs.2 (htail d)
      rw [hp.2, head?_splitOn_append n.slash_notMem (flat_eq_nil_or_head p), Option.some.injEq] at h1
      rcases hc with rfl | rfl
      · exact n.ne_dot h1
      · exact n.ne_dotdot h1

/-- `mkdir_p` walks over names, or through no resolved path at all. -/
theorem mkdirParts_cases (path : Str) :
    (∃ p : List Name, mkdirParts path = p.map Name.val) ∨
      ∀ q ∈ walkFrom ['/'] (mkdirParts path), resolve q ≠ q := by
  rcases resolve_cases path with ⟨p, hp⟩ | ⟨k, p, hp⟩
  · exact .inl ⟨p, mkdirParts_of_str hp⟩
  · rcases mkdirParts_of_relStr hp with ⟨-, hparts⟩ | ⟨c, rest, hparts, hc, hrest⟩
    · exact .inl ⟨p, hparts⟩
    · refine .inr fun q hq hres => ?_
      rw [hparts] at hq
      obtain ⟨hhead, hstr⟩ := walkFrom_dots hc hrest hq
      obtain ⟨p', hp'⟩ := resolve_rooted hhead
      exact hstr p' (hres ▸ hp')

/-- The resolved paths on a walk of `mkdir_p` are the ancestors of its end. -/
theorem mem_walk {path q : Str} (hq : resolve q = q) (h : q ∈ walkFrom ['/'] (mkdirParts path)) :
    ∃ p d : List Name, mkdirParts path = p.map Name.val ∧ d ≠ [] ∧ d <+: p ∧ q = str d := by
  rcases mkdirParts_cases path with ⟨p, hp⟩ | hno
  · rw [hp] at h
    obtain ⟨d, hne, hpre, rfl⟩ := (mem_walkFrom_names (p := [])).1 h
    exact ⟨p, d, hp, hne, hpre, rfl⟩
  · exact absurd hq (hno q h)

/-- `mkdir_p` creates the missing directories on its walk, and makes directories of the files. -/
theorem layer_mkdirP (path owner group perm : Str) {q : Str} (hq : resolve q = q) :
    (s.mkdirP path owner group perm).layer q =
      if q ∈ walkFrom ['/'] (mkdirParts path) ∧ (s.pathExists q = false ∨ s.isFile q = true) then
        .overlay (s.dirConfig owner group perm)
      else s.layer q := by
  rw [mkdirP_eq]
  rcases mkdirParts_cases path with ⟨p, hp⟩ | hno
  · rw [hp]
    exact layer_foldl_mkdirStep_names owner group perm [] p s q
  · have hnot : q ∉ walkFrom ['/'] (mkdirParts path) := fun h => hno q h hq
    rw [layer_foldl_mkdirStep_of_notMem _ _ _ _ _ hnot, if_neg (fun h => hnot h.1)]

end FakeFilesystem

end Cyanide
