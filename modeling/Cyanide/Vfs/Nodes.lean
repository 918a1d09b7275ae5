import Mathlib.Data.List.AList
import Cyanide.Lib.PosixPath

/-!
# Nodes, configurations and the profile backend

The data of the virtual filesystem.  Overlay entries, dynamic files and rows read back from the profile database are
all dictionaries in the source; here they are `Config`, with `none` for a missing key.  `Backend` is the table that
`compileToSqlite` writes, one row for each path of the manifest, with the parent directory and the name computed from
the path; `Profile` is what `load` returns, with the Jinja renderer and the content providers as functions.
-/

namespace Cyanide

open PosixPath

/-- A dictionary with string keys. -/
abbrev Dict (β : Type) := AList fun _ : Str => β

/-- Dictionaries are compared by their entries. -/
instance {β : Type} [DecidableEq β] : DecidableEq (Dict β) := fun a b =>
  decidable_of_iff (a.entries = b.entries) AList.ext_iff.symm

def typeDir : Str := "dir".toList

def typeFile : Str := "file".toList

def root : Str := "root".toList

@[simp] theorem typeDir_ne_typeFile : typeDir ≠ typeFile := by decide

@[simp] theorem typeFile_ne_typeDir : typeFile ≠ typeDir := by decide

/-- Python's `Union[str, bytes]`. -/
inductive Content where
  | text (s : Str)
  | bytes (b : List UInt8)
  deriving DecidableEq

namespace Content

def len : Content → Nat
  | text s => s.length
  | bytes b => b.length

/-- The bytes that the profile compiler stores. -/
def encode : Content → List UInt8
  | text s => s.flatMap String.utf8EncodeChar
  | bytes b => b

theorem encode_text_inj {s t : Str} (h : (text s).encode = (text t).encode) : s = t := by
  have hbytes : s.utf8Encode = t.utf8Encode := congrArg List.toByteArray h
  have hdecoded := congrArg ByteArray.utf8Decode? hbytes
  rw [List.utf8Decode?_utf8Encode, List.utf8Decode?_utf8Encode] at hdecoded
  simpa using hdecoded

end Content

/-- A modification time: a `datetime`, or the text a profile carries. -/
inductive MTime where
  | stamp (t : Nat)
  | iso (s : Str)
  deriving DecidableEq

structure Config where
  type : Option Str := none
  content : Option Content := none
  provider : Option Str := none
  args : Dict Str := ∅
  owner : Option Str := none
  group : Option Str := none
  perm : Option Str := none
  size : Option Nat := none
  mtime : Option MTime := none
  deriving DecidableEq

/-! ### Nodes -/

/-- A `VirtualFile` (`dir = false`) or a `VirtualDirectory`. -/
structure Node where
  name : Str
  dir : Bool
  perm : Str
  owner : Str
  group : Str
  size : Nat
  mtime : MTime
  deriving DecidableEq

namespace Node

def isDir (n : Node) : Bool := n.dir

def isFile (n : Node) : Bool := !n.dir

end Node

def virtualFile (now : Nat) (name : Str) (config : Config) : Node where
  name := name
  dir := false
  perm := config.perm.getD "-rw-r--r--".toList
  owner := config.owner.getD root
  group := config.group.getD root
  size := config.size.getD 0
  mtime := config.mtime.getD (.stamp now)

def virtualDirectory (now : Nat) (name : Str) (config : Config) : Node where
  name := name
  dir := true
  perm := config.perm.getD "drwxr-xr-x".toList
  owner := config.owner.getD root
  group := config.group.getD root
  size := config.size.getD 4096
  mtime := config.mtime.getD (.stamp now)

/-! ### The backend -/

/-- A row of the table `vfs`. -/
structure Row where
  path : Str
  parentPath : Str
  name : Str
  type : Str
  content : List UInt8
  owner : Str
  groupName : Str
  perm : Str
  size : Nat
  mtime : MTime
  deriving DecidableEq

/-- The dictionary that `get_config` makes of a row. -/
def Row.toConfig (r : Row) : Config where
  type := some r.type
  content := some (.bytes r.content)
  owner := some r.owner
  group := some r.groupName
  perm := some r.perm
  size := some r.size
  mtime := some r.mtime

/-- `posixpath.basename(path) or "/"`. -/
def nameOf (path : Str) : Str := if basename path = [] then ['/'] else basename path

/-- The profile database: `path` is the primary key, and the other two path columns are computed from it. -/
structure Backend where
  rows : List Row
  paths_nodup : (rows.map Row.path).Nodup
  placed : ∀ r ∈ rows, r.parentPath = dirname r.path ∧ r.name = nameOf r.path

namespace Backend

def row (b : Backend) (path : Str) : Option Row := b.rows.find? (·.path = path)

def getConfig (b : Backend) (path : Str) : Option Config := (b.row path).map Row.toConfig

def listDir (b : Backend) (path : Str) : List Str := (b.rows.filter (·.parentPath = path)).map Row.name

/-- A path of the table, or the parent directory of one. -/
def pathExists (b : Backend) (path : Str) : Bool :=
  b.rows.any (·.path = path) || b.rows.any (·.parentPath = path)

def isDir (b : Backend) (path : Str) : Bool :=
  match b.row path with
  | some r => r.type = typeDir
  | none => b.pathExists path

end Backend

/-- The row inserted for one item of the manifest. -/
def compileRow (now : Nat) (path : Str) (config : Config) : Row :=
  let content := (config.content.getD (.bytes [])).encode
  { path := path
    parentPath := dirname path
    name := nameOf path
    type := config.type.getD typeFile
    content := content
    owner := config.owner.getD root
    groupName := config.group.getD root
    perm := config.perm.getD "-rw-r--r--".toList
    size := config.size.getD content.length
    mtime := config.mtime.getD (.stamp now) }

/-- `_compile_to_sqlite`, up to the file the database is stored in. -/
def compileToSqlite (now : Nat) (manifest : Dict Config) : Backend where
  rows := manifest.entries.map fun e => compileRow now e.1 e.2
  paths_nodup := by
    rw [List.map_map]
    exact manifest.keys_nodup
  placed := by
    intro r hr
    obtain ⟨e, -, rfl⟩ := List.mem_map.1 hr
    exact ⟨rfl, rfl⟩

/-- What `profile_loader.load` gives a filesystem.  `render` is Jinja rendering with the profile's context (the text
itself when the template fails) and `providers` the table `PROVIDERS` applied to that context. -/
structure Profile where
  backend : Option Backend
  dynamicFiles : Dict Config
  honeytokens : List Str
  render : Str → Str
  providers : Str → Option (Dict Str → Content)

/-- `_render`. -/
def Profile.renderContent (pr : Profile) : Content → Content
  | .text [] => .text []
  | .bytes [] => .text []
  | .bytes b => .bytes b
  | .text t => .text (pr.render t)

end Cyanide
