import Cyanide.Lib.PyText
import Cyanide.Vfs.Layers

/-!
# The filesystem of a new session

A new filesystem has the profile, and in its overlay the generated `/etc/passwd` and `/etc/group`, the shell history of
the client's address and the homes of the configured users.  `compiled` is the profile of a manifest whose static part
was compiled to the database: there a text becomes bytes, which are not rendered when they are read back, and a provider
is lost.  `renders_iff` says for which entries the content is nevertheless the rendering of the manifest's own entry.
-/

namespace Cyanide

open PosixPath PyText

/-! ### The constructor -/

/-- The users with an account of their own. -/
def accounts (users : List User) : List Str :=
  (users.filterMap User.user).filter fun username => username ≠ [] && username ≠ root

def passwdLine (username : Str) (uid : ℕ) : Str :=
  username ++ ":x:".toList ++ natText uid ++ [':'] ++ natText uid ++ [':'] ++ username ++ ":/home/".toList ++ username ++
    ":/bin/bash".toList

def groupLine (username : Str) (uid : ℕ) : Str := username ++ ":x:".toList ++ natText uid ++ [':']

/-- `"\n".join(lines) + "\n"`. -/
def textOfLines (lines : List Str) : Str := List.intercalate ['\n'] lines ++ ['\n']

def passwdText (users : List User) : Str :=
  textOfLines (["root:x:0:0:root:/root:/bin/bash".toList, "daemon:x:1:1:daemon:/usr/sbin:/usr/sbin/nologin".toList,
    "bin:x:2:2:bin:/bin:/usr/sbin/nologin".toList, "sys:x:3:3:sys:/dev:/usr/sbin/nologin".toList,
    "sync:x:4:65534:sync:/bin:/bin/sync".toList] ++
    ((accounts users).zipIdx 1000).map fun (username, uid) => passwdLine username uid)

def groupText (users : List User) : Str :=
  textOfLines (["root:x:0:".toList, "daemon:x:1:".toList, "bin:x:2:".toList, "sys:x:3:".toList, "adm:x:4:".toList,
    "tty:x:5:".toList, "disk:x:6:".toList, "lp:x:7:".toList, "mail:x:8:".toList, "news:x:9:".toList,
    "uucp:x:10:".toList] ++ ((accounts users).zipIdx 1000).map fun (username, uid) => groupLine username uid)

namespace FakeFilesystem

/-- `_generate_system_files`. -/
def generateSystemFiles (s : FakeFilesystem) : FakeFilesystem :=
  let file (content : Str) : Config :=
    { type := some typeFile, content := some (.text content), owner := some root, group := some root,
      perm := some "-rw-r--r--".toList }
  (s.setOverlay "/etc/passwd".toList (file (passwdText s.users))).setOverlay "/etc/group".toList
    (file (groupText s.users))

/-- `_load_ip_history`; `history` is the text of the history file of the address and its time, if that can be read. -/
def loadIpHistory (s : FakeFilesystem) (srcIp : Str) (history : Option (Str × ℕ)) : FakeFilesystem :=
  if srcIp = "unknown".toList then s
  else
    match history with
    | none => s
    | some (content, mtime) => s.setOverlay "/root/.bash_history".toList
        { type := some typeFile, content := some (.text content), owner := some root, group := some root,
          perm := some "-rw-------".toList, size := some content.length, mtime := some (.stamp mtime) }

/-- One of the configuration files of a shell in a home directory. -/
def createConfigFile (home username : Str) (s : FakeFilesystem) (configFile : Str) : FakeFilesystem :=
  let filePath := home ++ '/' :: configFile
  if s.pathExists filePath then (s.chown filePath (some username) (some username)).2
  else (s.mkfile filePath (.text ("# ".toList ++ configFile ++ ['\n'])) username username).2

/-- `_initialize_ssh_dir`. -/
def initializeSshDir (home username : Str) (s : FakeFilesystem) : FakeFilesystem :=
  let sshPath := home ++ "/.ssh".toList
  if s.pathExists sshPath then
    ((s.chown sshPath (some username) (some username)).2.chmod sshPath "drwx------".toList).2
  else s.mkdirP sshPath username username "drwx------".toList

/-- `_create_user_home`. -/
def createUserHome (s : FakeFilesystem) (username : Str) : FakeFilesystem :=
  let home := "/home/".toList ++ username
  let s := s.mkdirP home username username
  let s := [".bashrc".toList, ".bash_profile".toList, ".bash_history".toList].foldl (createConfigFile home username) s
  s.initializeSshDir home username

/-- The home of an entry of the user list. -/
def createHome (s : FakeFilesystem) (user : User) : FakeFilesystem :=
  match user.user with
  | none | some [] => s
  | some username => if username = root then s.mkdirP "/root".toList else s.createUserHome username

/-- `_initialize_user_homes`. -/
def initializeUserHomes (s : FakeFilesystem) : FakeFilesystem :=
  s.users.foldl createHome (s.mkdirP "/home".toList)

/-- `__init__`, with the profile that is loaded. -/
def init (profile : Profile) (users : List User) (srcIp : Str) (history : Option (Str × ℕ)) (now : ℕ) :
    FakeFilesystem :=
  let s : FakeFilesystem :=
    { profile
      users
      memoryOverlay := ∅
      deletedPaths := ∅
      processes := [⟨1, ['?'], "00:00:15".toList, "/sbin/init".toList, root⟩,
        ⟨2, ['?'], "00:00:00".toList, "[kthreadd]".toList, root⟩]
      fileOps := []
      now }
  (s.generateSystemFiles.loadIpHistory srcIp history).initializeUserHomes

/-! ### What the constructor keeps -/

/-- Nothing is deleted, and the profile is the one that was loaded. -/
structure Pristine (profile : Profile) (s : FakeFilesystem) : Prop where
  deleted : s.deletedPaths = ∅
  profile : s.profile = profile

namespace Pristine

variable {pr : Profile} {s : FakeFilesystem}

theorem setOverlay (h : Pristine pr s) (path : Str) (config : Config) : Pristine pr (s.setOverlay path config) :=
  ⟨h.deleted, h.profile⟩

theorem generateSystemFiles (h : Pristine pr s) : Pristine pr s.generateSystemFiles :=
  (h.setOverlay _ _).setOverlay _ _

theorem revive (h : Pristine pr s) (path : Str) (config : Config) : Pristine pr (s.revive path config) where
  deleted := by
    show s.deletedPaths.erase path = ∅
    rw [h.deleted]
    rfl
  profile := h.profile

theorem mkfile (h : Pristine pr s) (path : Str) (content : Content) (owner group perm : Str) :
    Pristine pr (s.mkfile path content owner group perm).2 := by
  by_cases hp : s.HasParent (resolve path)
  · rw [(mkfile_of_parent hp content owner group perm).2]
    exact ⟨(h.revive (resolve path) (s.fileConfig content owner group perm)).deleted, h.profile⟩
  · rw [mkfile_of_not_parent hp]
    exact h

theorem mkdirP (h : Pristine pr s) (path owner group perm : Str) : Pristine pr (s.mkdirP path owner group perm) := by
  refine List.foldlRecOn (motive := fun (st : Str × FakeFilesystem) => Pristine pr st.2) _ _ h fun st hst part _ => ?_
  unfold mkdirStep
  dsimp only
  split
  · exact hst.revive _ _
  · exact hst

theorem touched (h : Pristine pr s) {s' : FakeFilesystem} {path : Str}
    (ht : (s.getNode path = none ∧ s' = s) ∨ Touched s s' (resolve path)) : Pristine pr s' := by
  rcases ht with ⟨-, rfl⟩ | ht
  · exact h
  · exact ⟨ht.deleted.trans h.deleted, ht.profile.trans h.profile⟩

theorem getContent (h : Pristine pr s) (path : Str) (args : Dict Str) :
    (s.getContent path args).1 = s.contentAt (resolve path) args := by
  rw [FakeFilesystem.getContent, if_neg]
  rw [h.deleted]
  exact Finset.notMem_empty _

theorem createUserHome (h : Pristine pr s) (username : Str) : Pristine pr (s.createUserHome username) := by
  unfold FakeFilesystem.createUserHome
  have hfiles : Pristine pr ([".bashrc".toList, ".bash_profile".toList, ".bash_history".toList].foldl
      (createConfigFile ("/home/".toList ++ username) username)
      (s.mkdirP ("/home/".toList ++ username) username username)) := by
    refine List.foldlRecOn (motive := Pristine pr) _ _ (h.mkdirP _ _ _ _) fun s hs configFile _ => ?_
    unfold createConfigFile
    dsimp only
    split
    · exact hs.touched (s.chown_touched _ _ _)
    · exact hs.mkfile _ _ _ _ _
  unfold initializeSshDir
  dsimp only
  split
  · exact (hfiles.touched (chown_touched _ _ _ _)).touched (chmod_touched _ _ _)
  · exact hfiles.mkdirP _ _ _ _

theorem init (profile : Profile) (users : List User) (srcIp : Str) (history : Option (Str × ℕ)) (now : ℕ) :
    Pristine profile (FakeFilesystem.init profile users srcIp history now) := by
  have hhistory : ∀ s, Pristine profile s → Pristine profile (s.loadIpHistory srcIp history) := by
    intro s hs
    unfold loadIpHistory
    split
    · exact hs
    split
    · exact hs
    · exact hs.setOverlay _ _
  unfold FakeFilesystem.init initializeUserHomes
  refine List.foldlRecOn (motive := Pristine profile) _ _ (mkdirP (hhistory _ ?_) _ _ _ _) fun s hs user _ => ?_
  · exact generateSystemFiles ⟨rfl, rfl⟩
  · unfold createHome
    split
    · exact hs
    · exact hs
    split
    · exact hs.mkdirP _ _ _ _
    · exact hs.createUserHome _

end Pristine

end FakeFilesystem

/-! ### Compiled profiles -/

/-- A profile before it is compiled, with Jinja rendering in its context and the providers applied to that. -/
structure Manifest where
  static : Dict Config
  dynamicFiles : Dict Config
  honeytokens : List Str
  render : Str → Str
  providers : Str → Option (Dict Str → Content)

namespace Manifest

variable (m : Manifest)

def compiled (now : ℕ) : Profile where
  backend := some (compileToSqlite now m.static)
  dynamicFiles := m.dynamicFiles
  honeytokens := m.honeytokens
  render := m.render
  providers := m.providers

/-- The manifest's own entry for a path. -/
def entry (path : Str) : Option Config := (m.dynamicFiles.lookup path).or (m.static.lookup path)

def provider (e : Config) : Option (Dict Str → Content) := e.provider.bind m.providers

/-- What an entry is rendered to: what its provider returns, or else its content with the templates filled in. -/
def rendering (e : Config) (args : Dict Str) : Content :=
  match m.provider e with
  | some provider => provider (args ∪ e.args)
  | none => (e.content.map fun content => (m.compiled 0).renderContent content).getD (.text [])

/-- The content is a text, or comes from a provider. -/
def CarriesText (e : Config) : Prop := (∃ t, e.content = some (.text t)) ∨ m.provider e ≠ none

/-- The bytes in the row of a path. -/
def stored (q : Str) : List UInt8 := (m.static.lookup q).elim [] fun e => (e.content.getD (.bytes [])).encode

end Manifest

private theorem find?_compileRow (now : ℕ) (q : Str) (entries : List (Sigma fun _ : Str => Config)) :
    (entries.map fun e => compileRow now e.1 e.2).find? (·.path = q) = (entries.dlookup q).map (compileRow now q) := by
  induction entries with
  | nil => rfl
  | cons e entries ih =>
    obtain ⟨key, config⟩ := e
    rw [List.map_cons, List.find?_cons]
    by_cases hk : key = q
    · subst hk
      rw [List.dlookup_cons_eq]
      simp [compileRow]
    · rw [List.dlookup_cons_ne _ _ (Ne.symm hk), ← ih]
      simp [compileRow, hk]

/-- A compiled manifest is read back row by row. -/
theorem getConfig_compileToSqlite (now : ℕ) (manifest : Dict Config) (q : Str) :
    (compileToSqlite now manifest).getConfig q = (manifest.lookup q).map fun e => (compileRow now q e).toConfig := by
  show ((manifest.entries.map fun e => compileRow now e.1 e.2).find? (·.path = q)).map Row.toConfig = _
  rw [find?_compileRow, Option.map_map]
  rfl

namespace FakeFilesystem

variable {m : Manifest} {s : FakeFilesystem} {now : ℕ}

/-- What a filesystem of a compiled profile gives for a path without an overlay entry or a dynamic file. -/
theorem contentAt_stored (h : Pristine (m.compiled now) s) {q : Str} (ho : s.memoryOverlay.lookup q = none)
    (hd : m.dynamicFiles.lookup q = none) (args : Dict Str) :
    s.contentAt q args = if m.stored q = [] then .text [] else .bytes (m.stored q) := by
  have hd' : s.profile.dynamicFiles.lookup q = none := by rw [h.profile]; exact hd
  have hb : s.backendConfig q = (m.static.lookup q).map fun e => (compileRow now q e).toConfig := by
    rw [backendConfig, h.profile]
    exact getConfig_compileToSqlite now m.static q
  simp only [contentAt, ho, hd', hb]
  unfold Manifest.stored
  cases m.static.lookup q with
  | none => rfl
  | some e =>
    show s.profile.renderContent (.bytes (e.content.getD (.bytes [])).encode) = _
    rw [Option.elim_some]
    cases (e.content.getD (.bytes [])).encode <;> rfl

theorem contentAt_dynamic (h : Pristine (m.compiled now) s) {q : Str} {d : Config}
    (ho : s.memoryOverlay.lookup q = none) (hd : m.dynamicFiles.lookup q = some d) (args : Dict Str) :
    s.contentAt q args = m.rendering d args := by
  have hd' : s.profile.dynamicFiles.lookup q = some d := by rw [h.profile]; exact hd
  simp only [contentAt, ho, hd']
  unfold getDynamicContent Manifest.rendering Manifest.provider
  rw [h.profile]
  simp only [Manifest.compiled]
  cases d.provider.bind m.providers with
  | some provider => rfl
  | none => cases d.content with
    | none => rfl
    | some content => cases content <;> rfl

end FakeFilesystem

namespace Manifest

variable {m : Manifest} {compiledAt : ℕ}

/-- The text of an entry without a provider is rendered to a text. -/
theorem rendering_ne_bytes {e : Config} (hc : m.CarriesText e) (hp : m.provider e = none) (args : Dict Str)
    (b : List UInt8) : m.rendering e args ≠ .bytes b := by
  obtain ⟨t, ht⟩ := hc.resolve_right (not_not.2 hp)
  rw [rendering, hp]
  simp only [ht, Option.map_some, Option.getD_some]
  cases t <;> simp [Profile.renderContent]

/-- Where an entry of the manifest is rendered in the new filesystem `s`: an overlay entry has just that content; or
there is none, and the dynamic file at the path, which is the entry itself when the path is resolved, is rendered to the
same; or there is neither, and either nothing is stored and nothing rendered, or a provider gives the bytes that are
stored. -/
def Kept (m : Manifest) (s : FakeFilesystem) (path : Str) (e : Config) (args : Dict Str) : Prop :=
  match s.memoryOverlay.lookup (resolve path) with
  | some config => config.content.getD (.text []) = m.rendering e args
  | none =>
    match m.dynamicFiles.lookup (resolve path) with
    | some d => m.rendering d args = m.rendering e args
    | none =>
      (m.stored (resolve path) = [] ∧ m.rendering e args = .text []) ∨
        (m.stored (resolve path) ≠ [] ∧ m.provider e ≠ none ∧
          m.rendering e args = .bytes (m.stored (resolve path)))

/-- What the manifest has for the path, if it carries text, is what the filesystem `s` gives. -/
def Renders (m : Manifest) (s : FakeFilesystem) (path : Str) (args : Dict Str) : Prop :=
  ∀ e, m.entry path = some e → m.CarriesText e → (s.getContent path args).1 = m.rendering e args

end Manifest

/-! ### A template -/

/-- `\x7b\x7b os_name \x7d\x7d`, with the spaces. -/
def osNameTemplate : Str := "\x7b\x7b os_name \x7d\x7d".toList

def debianName : Str := "Debian".toList

def issuePath : Str := "/etc/issue".toList

/-- A profile whose `/etc/issue` is the template. -/
def templated : Manifest where
  static := AList.singleton issuePath { type := some typeFile, content := some (.text osNameTemplate) }
  dynamicFiles := ∅
  honeytokens := []
  render t := if t = osNameTemplate then debianName else t
  providers _ := none

namespace Manifest

variable {m : Manifest} {compiledAt : ℕ} {s : FakeFilesystem} {path : Str} {e : Config} {t : Str}

theorem stored_text (he : m.static.lookup path = some e) (ht : e.content = some (.text t)) :
    m.stored path = (Content.text t).encode := by
  rw [stored, he, Option.elim_some, ht, Option.getD_some]

/-- A static text that is not empty, at a resolved path and without a provider, is not kept. -/
theorem not_kept_text (hp : resolve path = path) (he : m.static.lookup path = some e)
    (ht : e.content = some (.text t)) (hne : t ≠ []) (hprov : m.provider e = none)
    (ho : s.memoryOverlay.lookup path = none) (hd : m.dynamicFiles.lookup path = none) (args : Dict Str) :
    ¬m.Kept s path e args := by
  have hstored : m.stored path ≠ [] := by
    rw [stored_text he ht]
    intro h
    exact hne (Content.encode_text_inj (h.trans rfl : (Content.text t).encode = (Content.text []).encode))
  rw [Kept, hp, ho, hd]
  simp [hstored, hprov]

/-- Such a text gives the bytes of its rendering if and only if rendering it changes nothing. -/
theorem encode_getContent_iff (h : FakeFilesystem.Pristine (m.compiled compiledAt) s) (hp : resolve path = path)
    (he : m.static.lookup path = some e) (ht : e.content = some (.text t)) (hprov : m.provider e = none)
    (ho : s.memoryOverlay.lookup path = none) (hd : m.dynamicFiles.lookup path = none) (args : Dict Str) :
    (s.getContent path args).1.encode = (m.rendering e args).encode ↔ t = [] ∨ m.render t = t := by
  have hget : (s.getContent path args).1.encode = (Content.text t).encode := by
    rw [h.getContent, hp, FakeFilesystem.contentAt_stored h ho hd, stored_text he ht]
    split
    · next hnil => exact hnil.symm
    · rfl
  rw [hget, rendering, hprov]
  simp only [ht, Option.map_some, Option.getD_some]
  cases t with
  | nil => exact iff_of_true rfl (.inl rfl)
  | cons c t =>
    constructor
    · exact fun heq => .inr (Content.encode_text_inj heq).symm
    · rintro (hnil | heq)
      · cases hnil
      · exact congrArg (fun t => (Content.text t).encode) heq.symm

end Manifest

end Cyanide
