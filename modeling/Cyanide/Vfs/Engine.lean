import Mathlib.Data.Char
import Mathlib.Data.List.Lex
import Mathlib.Data.List.Sort
import Mathlib.Data.Finset.Erase
import Mathlib.Data.Finset.Insert
import Cyanide.Vfs.Nodes

/-!
# The fake filesystem

`FakeFilesystem` with its queries (`pathExists`, `isDir`, `isFile`, `getNode`, `listDir`, `getContent`) and its
operations (`mkfile`, `mkdirP`, `chmod`, `chown`, `remove`, `copy`, `move`), each in its own search order over the
overlay, the deleted paths, the dynamic files and the backend.  An operation returns what the method returns and the
filesystem after the call.  `copyRecursive` is a recursion without a measure of its own: its first argument is the
depth at which the interpreter raises `RecursionError`, and the filesystem keeps what was written before that.
-/

namespace Cyanide

open PosixPath

/-- What the audit callback, the statistics and the session manager are told about an operation. -/
inductive FileOp where
  | read (path : Str)
  | write (path : Str)
  | delete (path : Str)
  deriving DecidableEq

/-- An entry of the configured user list. -/
structure User where
  user : Option Str
  pass : Option Str
  deriving DecidableEq

/-- An entry of the process table that `ps` prints. -/
structure Process where
  pid : Nat
  tty : Str
  time : Str
  cmd : Str
  user : Str
  deriving DecidableEq

structure FakeFilesystem where
  profile : Profile
  users : List User
  memoryOverlay : Dict Config
  deletedPaths : Finset Str
  processes : List Process
  /-- The recorded file operations, the last one first. -/
  fileOps : List FileOp
  /-- What `datetime.datetime.now()` returns. -/
  now : Nat

/-- The method `resolve`: `normpath` with the second of two leading slashes stripped. -/
def resolve (path : Str) : Str :=
  if path = [] then ['/']
  else
    let res := normpath path
    if ['/', '/'].isPrefixOf res && !(['/', '/', '/'].isPrefixOf res) then '/' :: res.dropWhile (· = '/')
    else res

namespace FakeFilesystem

variable (s : FakeFilesystem)

/-! ### Queries -/

def backendConfig (path : Str) : Option Config := s.profile.backend.bind (·.getConfig path)

def backendExists (path : Str) : Bool := s.profile.backend.any (·.pathExists path)

def backendIsDir (path : Str) : Bool := s.profile.backend.any (·.isDir path)

/-- The method `exists`. -/
def pathExists (path : Str) : Bool :=
  let path := resolve path
  if path ∈ s.deletedPaths then false
  else path = ['/'] || path ∈ s.memoryOverlay || path ∈ s.profile.dynamicFiles || s.backendExists path

def isDir (path : Str) : Bool :=
  let path := resolve path
  if path ∈ s.deletedPaths then false
  else if path = ['/'] then true
  else
    match s.memoryOverlay.lookup path with
    | some config => config.type = some typeDir
    | none =>
      match s.profile.dynamicFiles.lookup path with
      | some config => config.type = some typeDir
      | none => s.backendIsDir path

def isFile (path : Str) : Bool :=
  let path := resolve path
  if path ∈ s.deletedPaths then false
  else
    match s.memoryOverlay.lookup path with
    | some config => config.type = some typeFile
    | none =>
      match s.profile.dynamicFiles.lookup path with
      | some config => config.type.getD typeFile = typeFile
      | none =>
        match s.backendConfig path with
        | some config => config.type.getD typeFile = typeFile
        | none => s.pathExists path && !s.isDir path

def getNode (path : Str) : Option Node :=
  let path := resolve path
  if path ∈ s.deletedPaths then none
  else
    match s.memoryOverlay.lookup path with
    | some config =>
      some (if config.type = some typeDir then virtualDirectory s.now (basename path) config
        else virtualFile s.now (basename path) config)
    | none =>
      match s.profile.dynamicFiles.lookup path with
      | some config => some (virtualFile s.now (basename path) config)
      | none =>
        match s.backendConfig path with
        | some config =>
          some (if config.type = some typeDir then virtualDirectory s.now (nameOf path) config
            else virtualFile s.now (basename path) config)
        | none =>
          if s.isDir path then some (virtualDirectory s.now (nameOf path) {})
          else if s.pathExists path then some (virtualFile s.now (basename path) {})
          else none

/-- The component of `key` that follows the prefix of a directory, if `key` has that prefix. -/
def childOf (pre key : Str) : Option Str :=
  if pre.isPrefixOf key then some (((key.drop pre.length).splitOn '/').headD []) else none

/-- The names `list_dir` collects for the resolved path of a directory, sorted and without the deleted ones. -/
def listing (path : Str) : List Str :=
  let pre := rstripSlash path ++ ['/']
  let contents := (s.profile.backend.elim [] (·.listDir path)) ++ s.profile.dynamicFiles.keys.filterMap (childOf pre) ++
    s.memoryOverlay.keys.filterMap (childOf pre)
  (contents.dedup.filter fun c => join path c ∉ s.deletedPaths).insertionSort (· ≤ ·)

def listDir (path : Str) : List Str :=
  let path := resolve path
  if path ∈ s.deletedPaths || !s.isDir path then [] else s.listing path

/-- `_get_dynamic_content`. -/
def getDynamicContent (config : Config) (args : Dict Str) : Content :=
  match config.provider.bind s.profile.providers with
  | some provider => provider (args ∪ config.args)
  | none =>
    match config.content with
    | some content => s.profile.renderContent content
    | none => .text []

/-- The content `get_content` returns for a resolved path that is not deleted. -/
def contentAt (path : Str) (args : Dict Str) : Content :=
  match s.memoryOverlay.lookup path with
  | some config => config.content.getD (.text [])
  | none =>
    match s.profile.dynamicFiles.lookup path with
    | some config => s.getDynamicContent config args
    | none =>
      match s.backendConfig path with
      | some config => s.profile.renderContent (config.content.getD (.text []))
      | none => .text []

def record (op : FileOp) : FakeFilesystem := { s with fileOps := op :: s.fileOps }

def getContent (path : Str) (args : Dict Str := ∅) : Content × FakeFilesystem :=
  let path := resolve path
  if path ∈ s.deletedPaths then (.text [], s)
  else (s.contentAt path args, s.record (.read path))

/-! ### Operations -/

def setOverlay (path : Str) (config : Config) : FakeFilesystem :=
  { s with memoryOverlay := s.memoryOverlay.insert path config }

/-- Write an overlay entry and take its path off the deleted ones. -/
def revive (path : Str) (config : Config) : FakeFilesystem :=
  { s.setOverlay path config with deletedPaths := s.deletedPaths.erase path }

def mkfile (path : Str) (content : Content := .text []) (owner : Str := root) (group : Str := root)
    (perm : Str := "-rw-r--r--".toList) : Option Node × FakeFilesystem :=
  let path := resolve path
  let parentPath := dirname path
  if parentPath ≠ path ∧ (!s.pathExists parentPath || !s.isDir parentPath) then (none, s)
  else
    let s' := (s.revive path
      { type := some typeFile, content := some content, owner := some owner, group := some group,
        perm := some perm, size := some content.len, mtime := some (.stamp s.now) }).record (.write path)
    (some (virtualFile s.now (basename path) {}), s')

/-- One component of the loop of `mkdir_p`: the path walked so far and the filesystem. -/
def mkdirStep (owner group perm : Str) (st : Str × FakeFilesystem) (part : Str) : Str × FakeFilesystem :=
  let current := join st.1 part
  if !st.2.pathExists current || st.2.isFile current then
    (current, st.2.revive current
      { type := some typeDir, owner := some owner, group := some group, perm := some perm,
        mtime := some (.stamp st.2.now) })
  else (current, st.2)

/-- The method `mkdir_p`, which always returns `True`. -/
def mkdirP (path : Str) (owner : Str := root) (group : Str := root) (perm : Str := "drwxr-xr-x".toList) :
    FakeFilesystem :=
  let path := resolve path
  let parts := (path.splitOn '/').filter (· ≠ [])
  (parts.foldl (mkdirStep owner group perm) (['/'], s)).2

/-- The overlay entry that `chmod` and `chown` make of a node that has none, and the filesystem after reading its
content. -/
def materialize (path : Str) (node : Node) : Config × FakeFilesystem :=
  let (content, s') := if node.isFile then s.getContent path else (.text [], s)
  ({ type := some (if node.isDir then typeDir else typeFile), owner := some node.owner, group := some node.group,
     size := some node.size, mtime := some node.mtime, content := some content }, s')

def chmod (path perm : Str) : Bool × FakeFilesystem :=
  let path := resolve path
  match s.getNode path with
  | none => (false, s)
  | some node =>
    match s.memoryOverlay.lookup path with
    | some config => (true, s.setOverlay path { config with perm := some perm })
    | none =>
      let (config, s') := s.materialize path node
      (true, s'.setOverlay path { config with perm := some perm })

/-- The owner and group that `chown` writes over those of an entry: an empty one counts as not given. -/
def chownConfig (config : Config) (owner group : Option Str) : Config :=
  { config with
    owner := if owner.getD [] = [] then config.owner else owner
    group := if group.getD [] = [] then config.group else group }

def chown (path : Str) (owner group : Option Str) : Bool × FakeFilesystem :=
  let path := resolve path
  match s.getNode path with
  | none => (false, s)
  | some node =>
    match s.memoryOverlay.lookup path with
    | some config => (true, s.setOverlay path (chownConfig config owner group))
    | none =>
      let (config, s') := s.materialize path node
      (true, s'.setOverlay path (chownConfig { config with perm := some node.perm } owner group))

def remove (path : Str) : Bool × FakeFilesystem :=
  let path := resolve path
  if path = ['/'] ∨ s.pathExists path = false then (false, s)
  else
    (true, { s with
      deletedPaths := insert path s.deletedPaths
      memoryOverlay := s.memoryOverlay.erase path
      fileOps := .delete path :: s.fileOps })

end FakeFilesystem

/-- Python's `RecursionError`. -/
inductive RecursionError where
  | maximumDepth
  deriving DecidableEq

namespace FakeFilesystem

/-- Run `call` on each item of a directory in turn, from the filesystem the previous call left, up to the first
exception. -/
def copyItems (call : FakeFilesystem → Str → Str → Except RecursionError Bool × FakeFilesystem) (src dst : Str) :
    FakeFilesystem → List Str → Except RecursionError Bool × FakeFilesystem
  | s, [] => (.ok true, s)
  | s, item :: items =>
    match call s (join src item) (join dst item) with
    | (.ok _, s') => copyItems call src dst s' items
    | (.error e, s') => (.error e, s')

/-- `_copy_recursive`; `depth` is the number of nested calls left before `RecursionError`. -/
def copyRecursive : (depth : Nat) → FakeFilesystem → Str → Str → Except RecursionError Bool × FakeFilesystem
  | 0, s, _, _ => (.error .maximumDepth, s)
  | depth + 1, s, src, dst =>
    if s.isDir src then
      let s' := if s.pathExists dst then s else s.mkdirP dst
      copyItems (copyRecursive depth) src dst s' (s'.listDir src)
    else
      let (content, s') := s.getContent src
      (.ok true, (s'.mkfile dst content).2)

/-- The path `copy` writes to: a directory that exists is copied into. -/
def copyTarget (s : FakeFilesystem) (src dst : Str) : Str :=
  if s.pathExists dst && s.isDir dst then join dst (basename src) else dst

def copy (depth : Nat) (s : FakeFilesystem) (src dst : Str) (recursive : Bool := false) :
    Except RecursionError Bool × FakeFilesystem :=
  let src := resolve src
  let dst := resolve dst
  if s.pathExists src = false then (.ok false, s)
  else
    let dst := s.copyTarget src dst
    if s.isDir src then
      if recursive = false then (.ok false, s)
      else if s.pathExists dst && s.isFile dst then (.ok false, s)
      else
        let s' := if s.pathExists dst then s else s.mkdirP dst
        copyItems (copyRecursive depth) src dst s' (s'.listDir src)
    else
      let (content, s') := s.getContent src
      (.ok true, (s'.mkfile dst content).2)

def move (depth : Nat) (s : FakeFilesystem) (src dst : Str) : Except RecursionError Bool × FakeFilesystem :=
  let src := resolve src
  let dst := resolve dst
  if s.pathExists src = false then (.ok false, s)
  else
    match copy depth s src dst true with
    | (.ok true, s') => ((.ok (s'.remove src).1), (s'.remove src).2)
    | (.ok false, s') => (.ok false, s')
    | (.error e, s') => (.error e, s')

end FakeFilesystem

end Cyanide
