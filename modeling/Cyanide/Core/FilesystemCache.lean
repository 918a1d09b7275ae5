import Cyanide.Lib.OrderedDict
import Cyanide.Services.Audit

/-!
# The filesystems of the sessions

`get_filesystem` keeps an instance for each pair of an IP and a username, the least recently used one is dropped when
there are too many.  An instance carries the callback and the id of the session that it was made for, so that a session
which gets one from the cache works under the name of another.  `FilesystemServer` has all instances that were made, by
their number, what was returned to which session, and a log of what was recorded about each operation.
-/

namespace Cyanide

open PosixPath PyText Transition FakeFilesystem

/-- A `FakeFilesystem` object with what it was given by its constructor; `managed` says that there is a
`session_mgr`. -/
structure Instance where
  fs : FakeFilesystem
  hook : AuditHook
  sessionId : Str
  managed : Bool

/-- What is recorded about an operation that the session `caller` makes. -/
structure Recording where
  caller : Str
  op : FileOp
  /-- The event of the audit callback. -/
  event : Option AuditEvent
  /-- The id that `record_file_op` gets. -/
  counted : Option Str

structure FilesystemServer where
  vfsPersistence : Bool
  vfsCache : OrderedDict (Str × Option Str) ℕ
  /-- The honeytokens of the configuration. -/
  configured : List Str
  instances : List Instance
  /-- The sessions and the instances that were returned to them. -/
  handles : List (Str × ℕ)
  log : List Recording

/-- What becomes of the constructor: a filesystem, or an exception and, if that does not raise one too, the filesystem
that the constructor makes without a session. -/
inductive Construction where
  | made (fs : FakeFilesystem)
  | raised (fallback : Option FakeFilesystem)

namespace FilesystemServer

variable (s : FilesystemServer)

def vfsCacheLimit : ℕ := 100

/-- The server before the first session. -/
def start (vfsPersistence : Bool) (configured : List Str) : FilesystemServer :=
  ⟨vfsPersistence, OrderedDict.empty, configured, [], [], []⟩

def cached (srcIp : Str) (username : Option Str) : Option ℕ :=
  if s.vfsPersistence && srcIp ≠ "unknown".toList then s.vfsCache.lookup (srcIp, username) else none

/-- A new instance, returned to `caller`. -/
def addInstance (caller : Str) (inst : Instance) : FilesystemServer :=
  { s with instances := s.instances ++ [inst], handles := s.handles ++ [(caller, s.instances.length)] }

/-- The last instance goes into the cache. -/
def store (srcIp : Str) (username : Option Str) : FilesystemServer :=
  if s.vfsPersistence && srcIp ≠ "unknown".toList then
    let cache := if vfsCacheLimit ≤ s.vfsCache.length then s.vfsCache.popFirst else s.vfsCache
    { s with vfsCache := cache.insert (srcIp, username) (s.instances.length - 1) }
  else s

/-- `get_filesystem`, called by the session `caller` with `session_id`. -/
def getFilesystem (caller sessionId srcIp : Str) (username : Option Str) (c : Construction) : FilesystemServer :=
  match s.cached srcIp username with
  | some i => { s with vfsCache := s.vfsCache.moveToEnd (srcIp, username), handles := s.handles ++ [(caller, i)] }
  | none =>
    match c with
    | .made fs => (s.addInstance caller ⟨fs, ⟨sessionId, srcIp⟩, sessionId, true⟩).store srcIp username
    | .raised (some fs) => s.addInstance caller ⟨fs, ⟨sessionId, srcIp⟩, "unknown".toList, false⟩
    | .raised none => s

/-- What an instance records of an operation that `caller` makes. -/
def recordings (configured : List Str) (caller : Str) (inst : Instance) (o : Op) : List Recording :=
  (inst.fs.emitted o).reverse.map fun op =>
    { caller
      op
      event := op.audited.map fun (action, path) => fsAuditHook configured inst.fs inst.hook action path
      counted := if inst.managed then some inst.sessionId else none }

/-- An operation by the session that has the `k`-th handle. -/
def perform (k : ℕ) (o : Op) : FilesystemServer :=
  match s.handles[k]? with
  | none => s
  | some (caller, i) =>
    match s.instances[i]? with
    | none => s
    | some inst =>
      { s with
        instances := s.instances.set i { inst with fs := o.apply inst.fs }
        log := s.log ++ recordings s.configured caller inst o }

end FilesystemServer

inductive FilesystemStep where
  | getFilesystem (caller sessionId srcIp : Str) (username : Option Str) (c : Construction)
  | perform (k : ℕ) (o : Op)

namespace FilesystemStep

def apply (s : FilesystemServer) : FilesystemStep → FilesystemServer
  | getFilesystem caller sessionId srcIp username c => s.getFilesystem caller sessionId srcIp username c
  | perform k o => s.perform k o

end FilesystemStep

/-! ### Attribution -/

namespace Recording

/-- The audit event and the count carry the session that makes the operation. -/
def Attributed (r : Recording) : Prop :=
  r.event.map AuditEvent.sessionId = some r.caller ∧ r.counted = some r.caller

/-- No other session is named, and what has no event is a write. -/
def Own (r : Recording) : Prop :=
  r.counted = some r.caller ∧
    match r.event with
    | some e => e.sessionId = r.caller
    | none => ∃ path, r.op = .write path

end Recording

namespace FilesystemServer

variable {s : FilesystemServer}

/-- The instance was made for the session. -/
structure MadeFor (inst : Instance) (sessionId : Str) : Prop where
  hook : inst.hook.sessionId = sessionId
  id : inst.sessionId = sessionId
  managed : inst.managed = true

/-- The session gets a filesystem under its own id, which is new and made without an exception, or was in the cache
because the session itself had got it before. -/
def KeepsOwn (s : FilesystemServer) : FilesystemStep → Prop
  | .getFilesystem caller sessionId srcIp username c =>
    match s.cached srcIp username with
    | some i => ∀ inst, s.instances[i]? = some inst → inst.sessionId = caller
    | none => sessionId = caller ∧ ∃ fs, c = .made fs
  | .perform .. => True

/-- Besides, no operation is a `mkfile` that writes. -/
def KeepsAttributed (s : FilesystemServer) (t : FilesystemStep) : Prop :=
  s.KeepsOwn t ∧
    match t with
    | .getFilesystem .. => True
    | .perform k o => ∀ caller i inst, s.handles[k]? = some (caller, i) → s.instances[i]? = some inst →
        match o with
        | .mkfile path .. => ¬inst.fs.HasParent (resolve path)
        | _ => True

structure Inv (s : FilesystemServer) : Prop where
  handles : ∀ h ∈ s.handles, ∃ inst, s.instances[h.2]? = some inst ∧ MadeFor inst h.1
  cache : ∀ key i, s.vfsCache.lookup key = some i → ∃ inst, s.instances[i]? = some inst ∧ MadeFor inst inst.sessionId
  log : ∀ r ∈ s.log, r.Own

theorem inv_start (vfsPersistence : Bool) (configured : List Str) : Inv (start vfsPersistence configured) where
  handles := by
    intro h hh
    cases hh
  cache := by
    intro key i hi
    cases hi
  log := by
    intro r hr
    cases hr

theorem own_recordings {configured : List Str} {caller : Str} {inst : Instance} (h : MadeFor inst caller) (o : Op) :
    ∀ r ∈ recordings configured caller inst o, r.Own := by
  intro r hr
  obtain ⟨op, -, rfl⟩ := List.mem_map.1 hr
  refine ⟨by simp [h.managed, h.id], ?_⟩
  cases op with
  | read path => exact h.hook
  | write path => exact ⟨path, rfl⟩
  | delete path => exact h.hook

theorem Inv.addInstance (h : Inv s) {caller : Str} {inst : Instance} (hm : MadeFor inst caller) :
    Inv (s.addInstance caller inst) where
  handles := by
    have hkept : ∀ (i : ℕ) (old : Instance), s.instances[i]? = some old → (s.instances ++ [inst])[i]? = some old := by
      intro i old hi
      rw [List.getElem?_append_left (List.getElem?_eq_some_iff.1 hi).1, hi]
    intro handle hh
    rcases List.mem_append.1 hh with hh | hh
    · obtain ⟨old, hi, hold⟩ := h.handles handle hh
      exact ⟨old, hkept _ _ hi, hold⟩
    · rw [List.mem_singleton.1 hh]
      exact ⟨inst, List.getElem?_concat_length, hm⟩
  cache := by
    intro key i hi
    obtain ⟨old, hget, hold⟩ := h.cache key i hi
    refine ⟨old, ?_, hold⟩
    show (s.instances ++ [inst])[i]? = _
    rw [List.getElem?_append_left (List.getElem?_eq_some_iff.1 hget).1, hget]
  log := h.log

theorem Inv.store (h : Inv s) {inst : Instance} (hlast : s.instances[s.instances.length - 1]? = some inst)
    (hm : MadeFor inst inst.sessionId) (srcIp : Str) (username : Option Str) : Inv (s.store srcIp username) := by
  unfold FilesystemServer.store
  split
  · refine ⟨h.handles, fun key i hi => ?_, h.log⟩
    dsimp only at hi
    rw [OrderedDict.lookup_insert] at hi
    split at hi
    · obtain rfl := Option.some.inj hi
      exact ⟨inst, hlast, hm⟩
    · split at hi
      · exact h.cache key i (OrderedDict.lookup_popFirst _ hi)
      · exact h.cache key i hi
  · exact h

theorem Inv.getFilesystem (h : Inv s) {caller sessionId srcIp : Str} {username : Option Str} {c : Construction}
    (hg : s.KeepsOwn (.getFilesystem caller sessionId srcIp username c)) :
    Inv (s.getFilesystem caller sessionId srcIp username c) := by
  unfold FilesystemServer.getFilesystem
  simp only [KeepsOwn] at hg
  cases hc : s.cached srcIp username with
  | some i =>
    rw [hc] at hg
    have hl : s.vfsCache.lookup (srcIp, username) = some i := by
      unfold cached at hc
      split at hc
      · exact hc
      · cases hc
    obtain ⟨inst, hi, hm⟩ := h.cache _ i hl
    have hid := hg inst hi
    rw [hid] at hm
    refine ⟨fun handle hh => ?_, fun key j hj => ?_, h.log⟩
    · rcases List.mem_append.1 hh with hh | hh
      · exact h.handles handle hh
      · rw [List.mem_singleton.1 hh]
        exact ⟨inst, hi, hm⟩
    · exact h.cache key j (by rwa [OrderedDict.lookup_moveToEnd] at hj)
  | none =>
    rw [hc] at hg
    obtain ⟨rfl, fs, rfl⟩ := hg
    have hm : MadeFor ⟨fs, ⟨sessionId, srcIp⟩, sessionId, true⟩ sessionId := ⟨rfl, rfl, rfl⟩
    refine (h.addInstance hm).store ?_ hm srcIp username
    show (s.instances ++ [_])[(s.instances ++ [_]).length - 1]? = _
    rw [List.length_append, List.length_singleton, Nat.add_sub_cancel, List.getElem?_concat_length]

theorem Inv.perform (h : Inv s) (k : ℕ) (o : Op) : Inv (s.perform k o) := by
  unfold FilesystemServer.perform
  split
  · exact h
  rename_i caller i hk
  split
  · exact h
  rename_i inst hi
  obtain ⟨inst', hi', hm⟩ := h.handles (caller, i) (List.mem_of_getElem? hk)
  obtain rfl : inst = inst' := Option.some.inj (hi.symm.trans hi')
  -- the instance is the same one, with another filesystem in it
  have hset : ∀ (j : ℕ) (old : Instance), s.instances[j]? = some old →
      ∃ new : Instance, (s.instances.set i { inst with fs := o.apply inst.fs })[j]? = some new ∧ new.hook = old.hook ∧
        new.sessionId = old.sessionId ∧ new.managed = old.managed := by
    intro j old hj
    by_cases hij : i = j
    · subst hij
      obtain rfl : inst = old := Option.some.inj (hi.symm.trans hj)
      exact ⟨_, List.getElem?_set_self (List.getElem?_eq_some_iff.1 hi).1, rfl, rfl, rfl⟩
    · exact ⟨old, by rw [List.getElem?_set_ne hij, hj], rfl, rfl, rfl⟩
  refine ⟨fun handle hh => ?_, fun key j hj => ?_, fun r hr => ?_⟩
  · obtain ⟨old, hj, hold⟩ := h.handles handle hh
    obtain ⟨new, hnew, hhook, hid, hmanaged⟩ := hset _ _ hj
    exact ⟨new, hnew, hhook ▸ hold.hook, hid ▸ hold.id, hmanaged ▸ hold.managed⟩
  · obtain ⟨old, hget, hold⟩ := h.cache key j hj
    obtain ⟨new, hnew, hhook, hid, hmanaged⟩ := hset _ _ hget
    exact ⟨new, hnew, by rw [hhook, hid]; exact hold.hook, rfl, hmanaged ▸ hold.managed⟩
  · rcases List.mem_append.1 hr with hr | hr
    · exact h.log r hr
    · exact own_recordings hm o r hr

theorem Inv.apply (h : Inv s) {t : FilesystemStep} (hg : s.KeepsOwn t) : Inv (t.apply s) := by
  cases t with
  | getFilesystem caller sessionId srcIp username c => exact h.getFilesystem hg
  | perform k o => exact h.perform k o

/-! ### Runs -/

private theorem records_write {fs : FakeFilesystem} {o : Op} {path : Str} (h : .write path ∈ fs.emitted o) :
    ∃ content owner group perm p, o = .mkfile p content owner group perm ∧ fs.HasParent (resolve p) := by
  rw [emitted_eq] at h
  cases o with
  | mkfile p content owner group perm =>
    simp only [records] at h
    split at h
    · rename_i hp
      exact ⟨content, owner, group, perm, p, rfl, hp⟩
    · cases h
  | mkdirP => cases h
  | tick => cases h
  | getContent => simp only [records] at h; split at h <;> simp at h
  | chmod => simp only [records] at h; split at h <;> simp at h
  | chown => simp only [records] at h; split at h <;> simp at h
  | remove => simp only [records] at h; split at h <;> simp at h

theorem noWrites_apply (hw : ∀ r ∈ s.log, ∀ path, r.op ≠ .write path) {t : FilesystemStep} (hg : s.KeepsAttributed t) :
    ∀ r ∈ (t.apply s).log, ∀ path, r.op ≠ .write path := by
  cases t with
  | getFilesystem caller sessionId srcIp username c =>
    have hlog : (s.getFilesystem caller sessionId srcIp username c).log = s.log := by
      unfold FilesystemServer.getFilesystem
      split
      · rfl
      split
      · unfold FilesystemServer.store
        split <;> rfl
      · rfl
      · rfl
    intro r hr
    exact hw r (hlog ▸ hr)
  | perform k o =>
    intro r hr path hpath
    rw [FilesystemStep.apply, FilesystemServer.perform] at hr
    split at hr
    · exact hw r hr path hpath
    rename_i caller i hk
    split at hr
    · exact hw r hr path hpath
    rename_i inst hi
    rcases List.mem_append.1 hr with hr | hr
    · exact hw r hr path hpath
    · obtain ⟨op, hop, rfl⟩ := List.mem_map.1 hr
      obtain rfl : op = .write path := hpath
      obtain ⟨content, owner, group, perm, p, rfl, hp⟩ := records_write (List.mem_reverse.1 hop)
      exact hg.2 caller i inst hk hi hp

/-- No session is recorded under the id of another one, all along a run in which every session gets a filesystem of its
own. -/
theorem own_run (vfsPersistence : Bool) (configured : List Str) (steps : List FilesystemStep)
    (hG : Meets FilesystemStep.apply KeepsOwn (start vfsPersistence configured) steps) :
    ∀ r ∈ (run FilesystemStep.apply (start vfsPersistence configured) steps).log, r.Own :=
  (invariant_of_steps (I := Inv) (fun _ _ h hg => h.apply hg) (inv_start vfsPersistence configured) hG).log

/-- If, besides, no operation is a `mkfile` that writes, each operation has an audit event and is counted, both under the
session that makes it. -/
theorem attributed_run (vfsPersistence : Bool) (configured : List Str) (steps : List FilesystemStep)
    (hG : Meets FilesystemStep.apply KeepsAttributed (start vfsPersistence configured) steps) :
    ∀ ts, ts <+: steps → ∀ r ∈ (run FilesystemStep.apply (start vfsPersistence configured) ts).log, r.Attributed := by
  intro ts hts r hr
  have hown := own_run vfsPersistence configured ts ((hG.initial hts).mono fun _ _ h => h.1) r hr
  have hwrite := invariant_of_steps (I := fun s : FilesystemServer => ∀ r ∈ s.log, ∀ path, r.op ≠ .write path)
    (fun _ _ hw hg => noWrites_apply hw hg) (by intro r hr; cases hr) (hG.initial hts) r hr
  refine ⟨?_, hown.1⟩
  have hevent := hown.2
  cases he : r.event with
  | none =>
    rw [he] at hevent
    obtain ⟨path, hpath⟩ := hevent
    exact absurd hpath (hwrite path)
  | some e =>
    rw [he] at hevent
    exact congrArg some hevent

/-- Two sessions get a filesystem from one address, and the second one reads. -/
def shared (first second : Str) : List FilesystemStep :=
  [.getFilesystem first first "10.0.0.1".toList none (.made bare),
    .getFilesystem second second "10.0.0.1".toList none (.made bare), .perform 1 (.getContent ['/'] ∅)]

theorem attributed_run_shared :
    ∃ r, (run FilesystemStep.apply (start true []) (shared "a".toList "a".toList)).log = [r] ∧ r.Attributed := by
  refine ⟨_, rfl, attributed_run true [] (shared "a".toList "a".toList) ⟨⟨⟨rfl, bare, rfl⟩, trivial⟩, ⟨?_, trivial⟩,
    ⟨trivial, fun _ _ _ _ _ => trivial⟩, trivial⟩ _ (List.prefix_refl _) _ (List.mem_singleton.2 rfl)⟩
  intro inst hi
  obtain rfl := Option.some.inj hi
  rfl

/-- The second of two sessions from one address is recorded under the id of the first. -/
theorem not_attributed_shared :
    ∃ r ∈ (run FilesystemStep.apply (start true []) (shared "a".toList "b".toList)).log,
      r.caller = "b".toList ∧ r.event.map AuditEvent.sessionId = some "a".toList ∧ r.counted = some "a".toList ∧
        ¬r.Attributed := by
  refine ⟨_, List.mem_singleton.2 rfl, rfl, rfl, rfl, fun h => ?_⟩
  exact absurd h.2 (by decide)

end FilesystemServer

end Cyanide
