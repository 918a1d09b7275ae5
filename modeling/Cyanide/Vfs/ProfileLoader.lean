import Mathlib.Logic.Function.Basic
import Cyanide.Lib.Transition
import Cyanide.Vfs.Nodes

/-!
# Loading profiles

`load` looks for a profile in the memory cache, then in the database beside the sources, and compiles the sources when
neither has the digest that they have now.  The memory cache goes by the name of the profile and keeps the path of a
database, not its contents.  The digest is of the bytes of `base.yaml` followed by those of `static.yaml`, and of the
modification time of one marker file of `rootfs`.  So a cached profile is the one that a rebuild gives only in histories
in which no two sources with different builds have one digest, every directory goes by one name, and compiling ends with
a database on the disk (`fresh_run`).
-/

namespace Cyanide

open PosixPath Transition

/-! ### Sources -/

/-- What `os.walk` comes by below `rootfs`: the path from there, and the modification time as a number and in ISO
format. -/
structure RootEntry where
  relPath : Str
  dir : Bool
  size : ℕ
  mtime : Str
  isoMtime : Str
  /-- What the file is read as; `none` for an exception. -/
  content : Option (List UInt8)
  deriving DecidableEq

/-- The files of a profile directory that a profile is made of. -/
structure Sources where
  base : Option (List UInt8)
  static : Option (List UInt8)
  rootfs : Option (List RootEntry)
  deriving DecidableEq

/-- The values of `base.yaml`. -/
structure BaseData where
  metadata : Dict Str
  dynamicFiles : Dict Config
  honeytokens : List Str
  treeFolders : Str
  deriving DecidableEq

/-- How YAML files are read: `base.yaml`, and `static.yaml` into a manifest that starts with the tree folders of
`base.yaml`; `none` for an exception. -/
structure YamlParser where
  base : List UInt8 → Option BaseData
  static : (treeFolders : Str) → Option (List UInt8) → Option (Dict Config)

/-- The bytes of a text. -/
def utf8 (s : Str) : List UInt8 := (Content.text s).encode

def markerName : Str := ".cyanide_vfs_marker".toList

/-- What `_compute_hash` feeds to SHA-256. -/
def digestInput (src : Sources) : List UInt8 :=
  src.base.getD [] ++ src.static.getD [] ++
    match src.rootfs with
    | none => []
    | some entries =>
      utf8 "rootfs_exists".toList ++ ((entries.find? (·.relPath = markerName)).elim [] fun marker => utf8 marker.mtime)

/-- The manifest entry of a path below `rootfs`. -/
def RootEntry.config (e : RootEntry) : Config :=
  if e.dir then
    { type := some typeDir, owner := some root, group := some root, perm := some "drwxr-xr-x".toList,
      size := some e.size, mtime := some (.iso e.isoMtime) }
  else
    { type := some typeFile
      content := some (.bytes (if e.size < 10 * 1024 * 1024 then e.content.getD [] else []))
      owner := some root, group := some root, perm := some "-rw-r--r--".toList, size := some e.size,
      mtime := some (.iso e.isoMtime) }

/-- `_scan_filesystem`. -/
def scanFilesystem (entries : List RootEntry) : Dict Config :=
  entries.foldl (fun manifest e => manifest.insert ('/' :: e.relPath) e.config) ∅

namespace YamlParser

variable (Y : YamlParser) (src : Sources)

/-- `_build_manifest`. -/
def buildManifest : Option (Dict Config) :=
  match src.rootfs, src.base with
  | some entries, _ => some (scanFilesystem entries)
  | none, some b => (Y.base b).bind fun d => Y.static d.treeFolders src.static
  | none, none => none

def baseData : Option BaseData :=
  match src.base with
  | none => some ⟨∅, ∅, [], []⟩
  | some b => Y.base b

end YamlParser

/-! ### The caches -/

def cacheFormatVersion : ℕ := 3

/-- A database file. -/
structure CompiledDb where
  v : ℕ
  hash : Str
  backend : Backend

/-- An entry of the memory cache; the database is in the profile directory `backendDir`, and `none` stands for
`:memory:`. -/
structure CachedProfile where
  v : ℕ
  hash : Str
  backendDir : Option Str
  metadata : Dict Str
  dynamicFiles : Dict Config
  honeytokens : List Str

/-- What a caller of `load` gets to see; there are no tables in `:memory:`. -/
structure LoadedProfile where
  backend : Option Backend
  metadata : Dict Str
  dynamicFiles : Dict Config
  honeytokens : List Str

/-- A successful call of `load`. -/
structure Load where
  dir : Str
  name : Str
  sources : Sources

structure ProfileLoader where
  /-- The files in each profile directory. -/
  sources : Str → Sources
  disk : Dict CompiledDb
  memoryCache : Dict CachedProfile
  /-- The successful calls, the last one first. -/
  loads : List Load

namespace ProfileLoader

section

variable (sha256 : List UInt8 → Str) (Y : YamlParser) (locate : Str → Str → Str) (s : ProfileLoader)

def computeHash (src : Sources) : Str := sha256 (digestInput src)

def checkMemoryCache (name hash : Str) : Option CachedProfile :=
  (s.memoryCache.lookup name).filter fun c => c.hash = hash && c.v = cacheFormatVersion

/-- `_check_disk_cache`; without `base.yaml` it ends in an exception that it catches. -/
def checkDiskCache (dir hash : Str) : Option CachedProfile :=
  (s.disk.lookup dir).bind fun db =>
    if db.hash = hash && db.v = cacheFormatVersion then
      (s.sources dir).base.bind fun b => (Y.base b).map fun d =>
        ⟨cacheFormatVersion, hash, some dir, d.metadata, d.dynamicFiles, d.honeytokens⟩
    else none

/-- What there is at the path of the database now. -/
def view (c : CachedProfile) : LoadedProfile where
  backend := c.backendDir.bind fun dir => (s.disk.lookup dir).map CompiledDb.backend
  metadata := c.metadata
  dynamicFiles := c.dynamicFiles
  honeytokens := c.honeytokens

/-- A database that cannot be written is left as it is. -/
def compile (dir hash : Str) (now : ℕ) (writable : Bool) (manifest : Dict Config) : ProfileLoader :=
  if writable then { s with disk := s.disk.insert dir ⟨cacheFormatVersion, hash, compileToSqlite now manifest⟩ } else s

/-- The rest of `load` when neither cache has the profile. -/
def rebuild (dir hash : Str) (now : ℕ) (writable : Bool) : Option CachedProfile × ProfileLoader :=
  match Y.buildManifest (s.sources dir) with
  | none => (none, s)
  | some manifest =>
    let s' := s.compile dir hash now writable manifest
    match Y.baseData (s.sources dir) with
    | none => (none, s')
    | some d =>
      (some ⟨cacheFormatVersion, hash, if dir ∈ s'.disk then some dir else none, d.metadata, d.dynamicFiles,
        d.honeytokens⟩, s')

/-- The profile in the caches. -/
def cached (dir name : Str) : Option CachedProfile :=
  let hash := computeHash sha256 (s.sources dir)
  (s.checkMemoryCache name hash).or (s.checkDiskCache Y dir hash)

/-- `load`, which looks in the directory `profiles_dir / profile_name`; `none` for an exception. -/
def load (profilesDir name : Str) (now : ℕ) (writable : Bool) : Option LoadedProfile × ProfileLoader :=
  let dir := locate profilesDir name
  let hash := computeHash sha256 (s.sources dir)
  let (res, s') := match s.cached sha256 Y dir name with
    | some c => (some c, s)
    | none => s.rebuild Y dir hash now writable
  match res with
  | none => (none, s')
  | some c =>
    (some (s'.view c),
      { s' with memoryCache := s'.memoryCache.insert name c, loads := ⟨dir, name, s.sources dir⟩ :: s'.loads })

/-- `invalidate`; an empty name counts as none. -/
def invalidate (name : Option Str) : ProfileLoader :=
  { s with memoryCache := if name.getD [] = [] then ∅ else s.memoryCache.erase (name.getD []) }

end

end ProfileLoader

inductive LoaderStep where
  | load (profilesDir name : Str) (now : ℕ) (writable : Bool)
  /-- The files of a profile directory are changed. -/
  | edit (dir : Str) (sources : Sources)
  | invalidate (name : Option Str)

def LoaderStep.apply (sha256 : List UInt8 → Str) (Y : YamlParser) (locate : Str → Str → Str) (s : ProfileLoader) :
    LoaderStep → ProfileLoader
  | load profilesDir name now writable => (s.load sha256 Y locate profilesDir name now writable).2
  | edit dir sources => { s with sources := Function.update s.sources dir sources }
  | invalidate name => s.invalidate name

namespace ProfileLoader

/-! ### Fresh profiles -/

variable (sha256 : List UInt8 → Str) (Y : YamlParser) (locate : Str → Str → Str)

/-- What a rebuild from these sources gives, up to the time at which it is made. -/
def IsFresh (src : Sources) (res : Option LoadedProfile) : Prop :=
  match Y.buildManifest src, Y.baseData src with
  | some manifest, some d =>
    ∃ now, res = some ⟨some (compileToSqlite now manifest), d.metadata, d.dynamicFiles, d.honeytokens⟩
  | _, _ => res = none

/-- The two sources give the same manifest and the same values of `base.yaml`, or fail alike. -/
def SameBuild (src src' : Sources) : Prop :=
  Y.buildManifest src = Y.buildManifest src' ∧ Y.baseData src = Y.baseData src'

/-- A load after which the caches are right again: what was loaded before under the digest of the sources has the same
build, the directory was not loaded under another name, the database can be written if it has to be, and a `base.yaml`
beside a `rootfs` can be read. -/
def Telling (s : ProfileLoader) : LoaderStep → Prop
  | .load profilesDir name _ writable =>
    let dir := locate profilesDir name
    (∀ l ∈ s.loads, digestInput l.sources = digestInput (s.sources dir) → SameBuild Y l.sources (s.sources dir)) ∧
      (∀ l ∈ s.loads, l.dir = dir → l.name = name) ∧
      (s.cached sha256 Y dir name = none → writable = true) ∧
      ((s.sources dir).rootfs ≠ none → Y.baseData (s.sources dir) ≠ none)
  | .edit .. => True
  | .invalidate _ => True

instance (src src' : Sources) : Decidable (SameBuild Y src src') := inferInstanceAs (Decidable (_ ∧ _))

instance (s : ProfileLoader) (t : LoaderStep) : Decidable (Telling sha256 Y locate s t) :=
  match t with
  | .load .. => inferInstanceAs (Decidable (_ ∧ _ ∧ _ ∧ _))
  | .edit .. => inferInstanceAs (Decidable True)
  | .invalidate _ => inferInstanceAs (Decidable True)

/-- The database has the build of the sources, under their digest. -/
structure Compiled (db : CompiledDb) (src : Sources) : Prop where
  hash : db.hash = computeHash sha256 src
  backend : ∃ manifest now, Y.buildManifest src = some manifest ∧ db.backend = compileToSqlite now manifest

/-- The cached profile is the build of the sources, its database included. -/
structure Serves (s : ProfileLoader) (c : CachedProfile) (src : Sources) : Prop where
  hash : c.hash = computeHash sha256 src
  backend : ∃ dir db, c.backendDir = some dir ∧ s.disk.lookup dir = some db ∧ Compiled sha256 Y db src
  base : ∃ d, Y.baseData src = some d ∧ c.metadata = d.metadata ∧ c.dynamicFiles = d.dynamicFiles ∧
    c.honeytokens = d.honeytokens

/-- Each database is the build of something that was loaded, and so is each profile in the memory cache, whose database
is in a directory that was loaded under its name. -/
structure Inv (s : ProfileLoader) : Prop where
  disk : ∀ dir db, s.disk.lookup dir = some db → ∃ l ∈ s.loads, Compiled sha256 Y db l.sources
  memory : ∀ name c, s.memoryCache.lookup name = some c → (∃ l ∈ s.loads, Serves sha256 Y s c l.sources) ∧
    ∃ l ∈ s.loads, c.backendDir = some l.dir ∧ l.name = name

variable {sha256 Y locate} {s : ProfileLoader}

theorem SameBuild.refl (src : Sources) : SameBuild Y src src := ⟨rfl, rfl⟩

theorem Compiled.of_sameBuild {db : CompiledDb} {src src' : Sources} (h : Compiled sha256 Y db src)
    (hd : digestInput src = digestInput src') (hb : SameBuild Y src src') : Compiled sha256 Y db src' where
  hash := by rw [h.hash, computeHash, computeHash, hd]
  backend := by
    obtain ⟨manifest, now, hm, hback⟩ := h.backend
    exact ⟨manifest, now, hb.1 ▸ hm, hback⟩

theorem Serves.of_sameBuild {c : CachedProfile} {src src' : Sources} (h : Serves sha256 Y s c src)
    (hd : digestInput src = digestInput src') (hb : SameBuild Y src src') : Serves sha256 Y s c src' where
  hash := by rw [h.hash, computeHash, computeHash, hd]
  backend := by
    obtain ⟨dir, db, hdir, hdb, hc⟩ := h.backend
    exact ⟨dir, db, hdir, hdb, hc.of_sameBuild hd hb⟩
  base := by
    obtain ⟨d, hbase, hfields⟩ := h.base
    exact ⟨d, hb.2 ▸ hbase, hfields⟩

theorem Serves.isFresh {c : CachedProfile} {src : Sources} (h : Serves sha256 Y s c src) :
    IsFresh Y src (some (s.view c)) := by
  obtain ⟨dir, db, hdir, hdb, hc⟩ := h.backend
  obtain ⟨manifest, now, hm, hback⟩ := hc.backend
  obtain ⟨d, hbase, hmeta, hdyn, htok⟩ := h.base
  rw [IsFresh, hm, hbase]
  refine ⟨now, ?_⟩
  rw [view, hdir, hmeta, hdyn, htok, Option.bind_some, hdb, Option.map_some, hback]

/-- A profile that the caches give is the build of the sources. -/
theorem Inv.cached_serves (h : Inv sha256 Y s) (hinj : Function.Injective sha256) {dir name : Str} {c : CachedProfile}
    (hc : s.cached sha256 Y dir name = some c)
    (hsame : ∀ l ∈ s.loads, digestInput l.sources = digestInput (s.sources dir) →
      SameBuild Y l.sources (s.sources dir)) :
    Serves sha256 Y s c (s.sources dir) ∧
      (c.backendDir = some dir ∨ ∃ l ∈ s.loads, c.backendDir = some l.dir ∧ l.name = name) := by
  rw [cached, Option.or_eq_some_iff] at hc
  rcases hc with hmem | ⟨-, hdisk⟩
  · obtain ⟨hl, hv⟩ := Option.filter_eq_some_iff.1 hmem
    simp only [Bool.and_eq_true, decide_eq_true_eq] at hv
    obtain ⟨⟨l, hload, hs⟩, hname⟩ := h.memory name c hl
    have hd : digestInput l.sources = digestInput (s.sources dir) := hinj (hs.hash.symm.trans hv.1)
    exact ⟨hs.of_sameBuild hd (hsame l hload hd), .inr hname⟩
  · obtain ⟨db, hdb, hc⟩ := Option.bind_eq_some_iff.1 hdisk
    split at hc
    · rename_i hv
      simp only [Bool.and_eq_true, decide_eq_true_eq] at hv
      obtain ⟨b, hb, hc⟩ := Option.bind_eq_some_iff.1 hc
      obtain ⟨d, hd, rfl⟩ := Option.map_eq_some_iff.1 hc
      obtain ⟨l, hload, hcomp⟩ := h.disk dir db hdb
      have hdig : digestInput l.sources = digestInput (s.sources dir) := hinj (hcomp.hash.symm.trans hv.1)
      refine ⟨⟨rfl, ⟨dir, db, rfl, hdb, hcomp.of_sameBuild hdig (hsame l hload hdig)⟩, ⟨d, ?_, rfl, rfl, rfl⟩⟩, .inl rfl⟩
      rw [YamlParser.baseData, hb]
      exact hd
    · cases hc

private theorem rootfs_of_baseData_none {src : Sources} {manifest : Dict Config}
    (hm : Y.buildManifest src = some manifest) (hb : Y.baseData src = none) : src.rootfs ≠ none := by
  intro hr
  unfold YamlParser.buildManifest at hm
  unfold YamlParser.baseData at hb
  rw [hr] at hm
  cases hbase : src.base with
  | none => simp [hbase] at hm
  | some b =>
    rw [hbase] at hm hb
    obtain ⟨d, hd, -⟩ := Option.bind_eq_some_iff.1 hm
    exact absurd (hd.symm.trans hb) (by simp)

/-- With a database that can be written, a rebuild fails without a trace or leaves the build of the sources. -/
theorem rebuild_cases {dir : Str} (now : ℕ)
    (hbase : (s.sources dir).rootfs ≠ none → Y.baseData (s.sources dir) ≠ none) :
    (s.rebuild Y dir (computeHash sha256 (s.sources dir)) now true = (none, s) ∧ IsFresh Y (s.sources dir) none) ∨
    ∃ c db, s.rebuild Y dir (computeHash sha256 (s.sources dir)) now true =
        (some c, { s with disk := s.disk.insert dir db }) ∧ c.backendDir = some dir ∧
      Compiled sha256 Y db (s.sources dir) ∧
      Serves sha256 Y { s with disk := s.disk.insert dir db } c (s.sources dir) := by
  unfold rebuild
  cases hm : Y.buildManifest (s.sources dir) with
  | none => exact .inl ⟨rfl, by rw [IsFresh, hm]⟩
  | some manifest =>
    cases hb : Y.baseData (s.sources dir) with
    | none => exact absurd hb (hbase (rootfs_of_baseData_none hm hb))
    | some d =>
      have hcomp : Compiled sha256 Y
          ⟨cacheFormatVersion, computeHash sha256 (s.sources dir), compileToSqlite now manifest⟩ (s.sources dir) :=
        ⟨rfl, manifest, now, hm, rfl⟩
      refine .inr ⟨_, _, rfl, if_pos ((AList.mem_insert _).2 (.inl rfl)), hcomp, ⟨rfl, ?_, ⟨d, hb, rfl, rfl, rfl⟩⟩⟩
      exact ⟨dir, _, if_pos ((AList.mem_insert _).2 (.inl rfl)), AList.lookup_insert _, hcomp⟩

/-- The caches are right when a served profile has come into the memory cache. -/
private theorem inv_remember {dir name : Str} {src : Sources} {c : CachedProfile} (hs : Serves sha256 Y s c src)
    (hdir : c.backendDir = some dir ∨ ∃ l ∈ s.loads, c.backendDir = some l.dir ∧ l.name = name)
    (hdisk : ∀ d db, s.disk.lookup d = some db → Compiled sha256 Y db src ∨
      ∃ l ∈ s.loads, Compiled sha256 Y db l.sources)
    (hmem : ∀ n c, n ≠ name → s.memoryCache.lookup n = some c → (∃ l ∈ s.loads, Serves sha256 Y s c l.sources) ∧
      ∃ l ∈ s.loads, c.backendDir = some l.dir ∧ l.name = n) :
    Inv sha256 Y { s with memoryCache := s.memoryCache.insert name c, loads := ⟨dir, name, src⟩ :: s.loads } where
  disk d db hdb := by
    rcases hdisk d db hdb with hc | ⟨l, hl, hc⟩
    · exact ⟨⟨dir, name, src⟩, by simp, hc⟩
    · exact ⟨l, by simp [hl], hc⟩
  memory n c' hc' := by
    by_cases hn : n = name
    · subst hn
      obtain rfl : c = c' := Option.some.inj ((AList.lookup_insert _).symm.trans hc')
      refine ⟨⟨⟨dir, n, src⟩, by simp, hs.hash, hs.backend, hs.base⟩, ?_⟩
      rcases hdir with hdir | ⟨l, hl, hdir, hname⟩
      · exact ⟨⟨dir, n, src⟩, by simp, hdir, rfl⟩
      · exact ⟨l, by simp [hl], hdir, hname⟩
    · dsimp only at hc'
      rw [AList.lookup_insert_ne hn] at hc'
      obtain ⟨⟨l, hl, hserves⟩, ⟨l', hl', hdir', hname'⟩⟩ := hmem n c' hn hc'
      exact ⟨⟨l, by simp [hl], hserves.hash, hserves.backend, hserves.base⟩, ⟨l', by simp [hl'], hdir', hname'⟩⟩

/-- A telling load returns a fresh profile, and leaves the caches right. -/
theorem Inv.load (h : Inv sha256 Y s) (hinj : Function.Injective sha256) {profilesDir name : Str} {now : ℕ}
    {writable : Bool} (hg : Telling sha256 Y locate s (.load profilesDir name now writable)) :
    IsFresh Y (s.sources (locate profilesDir name)) (s.load sha256 Y locate profilesDir name now writable).1 ∧
      Inv sha256 Y (s.load sha256 Y locate profilesDir name now writable).2 := by
  obtain ⟨hsame, hname, hwritable, hbase⟩ := hg
  unfold ProfileLoader.load
  dsimp only
  generalize locate profilesDir name = dir at *
  cases hc : s.cached sha256 Y dir name with
  | some c =>
    obtain ⟨hs, hdir⟩ := h.cached_serves hinj hc hsame
    exact ⟨hs.isFresh, inv_remember hs hdir (fun d db hdb => .inr (h.disk d db hdb)) fun n c' _ hc' => h.memory n c' hc'⟩
  | none =>
    obtain rfl := hwritable hc
    rcases rebuild_cases now hbase with ⟨hr, hfresh⟩ | ⟨c, db, hr, hdir, hcomp, hs⟩
    · rw [hr]
      exact ⟨hfresh, h⟩
    · rw [hr]
      refine ⟨hs.isFresh, inv_remember hs (.inl hdir) (fun d db' hdb' => ?_) fun n c' hn hc' => ?_⟩
      · by_cases hd : d = dir
        · subst hd
          obtain rfl : db = db' := Option.some.inj ((AList.lookup_insert _).symm.trans hdb')
          exact .inl hcomp
        · exact .inr (h.disk d db' ((AList.lookup_insert_ne hd).symm.trans hdb'))
      · obtain ⟨⟨l, hl, hserves⟩, ⟨l', hl', hdir', hname'⟩⟩ := h.memory n c' hc'
        -- the database of another name is in another directory
        have hne : l'.dir ≠ dir := fun heq => hn (hname'.symm.trans (hname l' hl' heq))
        refine ⟨⟨l, hl, hserves.hash, ?_, hserves.base⟩, ⟨l', hl', hdir', hname'⟩⟩
        obtain ⟨d, db', hd, hdb', hcomp'⟩ := hserves.backend
        obtain rfl : l'.dir = d := Option.some.inj (hdir'.symm.trans hd)
        exact ⟨l'.dir, db', hd, (AList.lookup_insert_ne hne).trans hdb', hcomp'⟩

theorem Inv.apply (h : Inv sha256 Y s) (hinj : Function.Injective sha256) {t : LoaderStep}
    (hg : Telling sha256 Y locate s t) : Inv sha256 Y (t.apply sha256 Y locate s) := by
  cases t with
  | load profilesDir name now writable => exact (h.load hinj hg).2
  | edit dir sources => exact ⟨h.disk, fun n c hc => by
      obtain ⟨⟨l, hl, hserves⟩, hdir⟩ := h.memory n c hc
      exact ⟨⟨l, hl, hserves.hash, hserves.backend, hserves.base⟩, hdir⟩⟩
  | invalidate name =>
    refine ⟨h.disk, fun n c hc => ?_⟩
    have hold : s.memoryCache.lookup n = some c := by
      rw [LoaderStep.apply, invalidate] at hc
      dsimp only at hc
      split at hc
      · cases hc
      · by_cases hn : n = name.getD []
        · rw [hn, AList.lookup_erase] at hc
          cases hc
        · rwa [AList.lookup_erase_ne hn] at hc
    obtain ⟨⟨l, hl, hserves⟩, hdir⟩ := h.memory n c hold
    exact ⟨⟨l, hl, hserves.hash, hserves.backend, hserves.base⟩, hdir⟩

/-! ### Runs -/

/-- Empty caches. -/
def start (sources : Str → Sources) : ProfileLoader := ⟨sources, ∅, ∅, []⟩

theorem inv_start (sources : Str → Sources) : Inv sha256 Y (start sources) where
  disk dir db hdb := by cases hdb
  memory name c hc := by cases hc

/-- In a history of telling loads, edits and invalidations, each load returns what a rebuild from the sources of the
directory gives at that time. -/
theorem fresh_run (hinj : Function.Injective sha256) (sources : Str → Sources) (steps : List LoaderStep)
    (hG : Meets (LoaderStep.apply sha256 Y locate) (Telling sha256 Y locate) (start sources) steps) :
    ∀ ts profilesDir name now writable, ts ++ [.load profilesDir name now writable] <+: steps →
      IsFresh Y ((run (LoaderStep.apply sha256 Y locate) (start sources) ts).sources (locate profilesDir name))
        ((run (LoaderStep.apply sha256 Y locate) (start sources) ts).load sha256 Y locate profilesDir name now
          writable).1 := by
  intro ts profilesDir name now writable hts
  have hinv := invariant_of_steps (I := Inv sha256 Y) (fun s t h (hg : Telling sha256 Y locate s t) => h.apply hinj hg)
    (inv_start sources) (hG.initial ((List.prefix_append ts _).trans hts))
  exact (hinv.load hinj (meets_iff.1 hG ts _ hts)).1

/-- An injective function in the place of SHA-256. -/
def digestText (b : List UInt8) : Str := b.map fun x => Char.ofNat x.toNat

theorem digestText_injective : Function.Injective digestText := by
  refine List.map_injective_iff.2 fun x y h => ?_
  have hchar : ∀ z : UInt8, (Char.ofNat z.toNat).toNat = z.toNat := by
    intro z
    have hvalid : z.toNat.isValidChar := .inl (by have := z.toNat_lt; omega)
    rw [Char.ofNat, dif_pos hvalid]
    rfl
  have hnat := congrArg Char.toNat h
  rw [hchar, hchar] at hnat
  exact UInt8.toNat_inj.1 hnat

/-- How YAML files without contents are read. -/
def emptyYaml : YamlParser := ⟨fun _ => some ⟨∅, ∅, [], []⟩, fun _ _ => some ∅⟩

/-- A snapshot with one file. -/
def snapshot (content mtime : Str) : Sources where
  base := none
  static := none
  rootfs := some [⟨"motd".toList, false, content.length, mtime, mtime, some (utf8 content)⟩]

/-- A profile of an empty `base.yaml` and the given `static.yaml`. -/
def emptyProfile (static : Option (List UInt8)) : Sources := ⟨some [], static, none⟩

/-- Loads by a rebuild, from memory, from the disk, and by a rebuild after an edit. -/
def history : List LoaderStep :=
  [.load "p".toList "debian".toList 0 true, .load "p".toList "debian".toList 1 false, .invalidate none,
    .load "p".toList "debian".toList 2 false, .edit "p/debian".toList (emptyProfile (some (utf8 "#".toList)))]

theorem fresh_run_history :
    IsFresh emptyYaml (emptyProfile (some (utf8 "#".toList)))
      ((run (LoaderStep.apply digestText emptyYaml join) (start fun _ => emptyProfile none) history).load digestText
        emptyYaml join "p".toList "debian".toList 3 true).1 := by
  refine @fresh_run digestText emptyYaml join digestText_injective
    (fun _ => emptyProfile none) (history ++ [.load "p".toList "debian".toList 3 true]) ?_ history "p".toList
    "debian".toList 3 true (List.prefix_refl _)
  decide

/-- The file of a snapshot without a marker is edited, and the next load returns the old one. -/
theorem not_fresh_snapshot :
    ¬IsFresh emptyYaml (snapshot "b".toList "2".toList)
      ((run (LoaderStep.apply digestText emptyYaml join) (start fun _ => snapshot "a".toList "1".toList)
        [.load "p".toList "debian".toList 0 true, .edit "p/debian".toList (snapshot "b".toList "2".toList)]).load
          digestText emptyYaml join "p".toList "debian".toList 1 true).1 := by
  rintro ⟨now, h⟩
  have hcontent : some [utf8 "a".toList] = some [utf8 "b".toList] :=
    congrArg (fun res : Option LoadedProfile =>
      (res.bind LoadedProfile.backend).map fun b : Backend => b.rows.map Row.content) h
  exact absurd hcontent (by decide)

end ProfileLoader

end Cyanide
