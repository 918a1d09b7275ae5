import Cyanide.Core.FilesystemCache
import Cyanide.Lib.RecentlyUsed

/-!
# Which filesystems are kept

With persistence the calls of `get_filesystem` for known addresses work on `vfs_cache` as on a cache of what was used
last (`vfsCache_getFilesystem`).  So after any calls, with any operations of the sessions between them, its keys are the
last `vfs_cache_limit` different pairs of an address and a username, in the order of their last calls, and the instance
under a key is the one that was made by a call for that key and returned by each such call since (`recent_run`).
-/

namespace Cyanide

open PosixPath Transition OrderedDict

namespace FilesystemStep

/-- The cache key of a call. -/
def key? : FilesystemStep → Option (Str × Option Str)
  | getFilesystem _ _ srcIp username _ => some (srcIp, username)
  | perform .. => none

/-- A call is for a known address, and the constructor raises no exception. -/
def Succeeds : FilesystemStep → Prop
  | getFilesystem _ _ srcIp _ c => srcIp ≠ "unknown".toList ∧ ∃ fs, c = .made fs
  | perform .. => True

end FilesystemStep

/-- The keys of the calls, in order. -/
def usedKeys (steps : List FilesystemStep) : List (Str × Option Str) := steps.filterMap FilesystemStep.key?

namespace FilesystemServer

variable {s : FilesystemServer} {configured : List Str} {steps : List FilesystemStep} {t : FilesystemStep}
  {caller sessionId srcIp : Str} {username : Option Str} {c : Construction} {key : Str × Option Str} {i : ℕ}

/-- The server after the steps, with persistence. -/
abbrev after (configured : List Str) (steps : List FilesystemStep) : FilesystemServer :=
  run FilesystemStep.apply (start true configured) steps

/-- The instance with number `i` was made by a call for the key, and each later call for the key has found it. -/
def MadeForKey (configured : List Str) (steps : List FilesystemStep) (key : Str × Option Str) (i : ℕ) : Prop :=
  ∃ before t later, steps = before ++ t :: later ∧ t.key? = some key ∧
    (after configured before).vfsCache.lookup key = none ∧ (after configured before).instances.length = i ∧
    ∀ mid u, mid ++ [u] <+: later → u.key? = some key →
      (after configured (before ++ t :: mid)).vfsCache.lookup key = some i

private theorem known (hp : s.vfsPersistence = true) (hip : srcIp ≠ "unknown".toList) :
    (s.vfsPersistence && srcIp ≠ "unknown".toList) = true := by
  rw [hp, Bool.true_and]
  exact decide_eq_true hip

theorem cached_of_known (hp : s.vfsPersistence = true) (hip : srcIp ≠ "unknown".toList) (username : Option Str) :
    s.cached srcIp username = s.vfsCache.lookup (srcIp, username) := if_pos (known hp hip)

/-- A new instance is put under the key, in the place of the oldest entry if the cache is full. -/
theorem store_of_known (hp : s.vfsPersistence = true) (hip : srcIp ≠ "unknown".toList) (username : Option Str) :
    s.store srcIp username = { s with
      vfsCache := (if vfsCacheLimit ≤ s.vfsCache.length then s.vfsCache.popFirst else s.vfsCache).insert
        (srcIp, username) (s.instances.length - 1) } := if_pos (known hp hip)

theorem getFilesystem_of_cached (hp : s.vfsPersistence = true) (hip : srcIp ≠ "unknown".toList)
    (hl : s.vfsCache.lookup (srcIp, username) = some i) :
    s.getFilesystem caller sessionId srcIp username c = { s with
      vfsCache := s.vfsCache.moveToEnd (srcIp, username), handles := s.handles ++ [(caller, i)] } := by
  unfold FilesystemServer.getFilesystem
  rw [cached_of_known hp hip, hl]

theorem getFilesystem_of_new (hp : s.vfsPersistence = true) (hip : srcIp ≠ "unknown".toList)
    (hl : s.vfsCache.lookup (srcIp, username) = none) (fs : FakeFilesystem) :
    s.getFilesystem caller sessionId srcIp username (.made fs) =
      (s.addInstance caller ⟨fs, ⟨sessionId, srcIp⟩, sessionId, true⟩).store srcIp username := by
  unfold FilesystemServer.getFilesystem
  rw [cached_of_known hp hip, hl]

/-- A call touches its key, with the number of the next instance for the case that there is none. -/
theorem vfsCache_getFilesystem (hp : s.vfsPersistence = true)
    (h : (FilesystemStep.getFilesystem caller sessionId srcIp username c).Succeeds) :
    (s.getFilesystem caller sessionId srcIp username c).vfsCache =
      s.vfsCache.touch vfsCacheLimit (srcIp, username) s.instances.length := by
  obtain ⟨hip, fs, rfl⟩ := h
  unfold touch
  cases hl : s.vfsCache.lookup (srcIp, username) with
  | some i => rw [getFilesystem_of_cached hp hip hl]
  | none =>
    have hlen : ∀ inst : Instance, (s.instances ++ [inst]).length - 1 = s.instances.length := fun inst => by
      rw [List.length_append, List.length_singleton, Nat.add_sub_cancel]
    rw [getFilesystem_of_new hp hip hl, store_of_known (s := s.addInstance ..) hp hip]
    simp only [FilesystemServer.addInstance, hlen]
    rfl

/-- What a call returns: the instance in the cache, or a new one. -/
theorem handles_getFilesystem (hp : s.vfsPersistence = true)
    (h : (FilesystemStep.getFilesystem caller sessionId srcIp username c).Succeeds) :
    (s.getFilesystem caller sessionId srcIp username c).handles =
      s.handles ++ [(caller, (s.vfsCache.lookup (srcIp, username)).getD s.instances.length)] := by
  obtain ⟨hip, fs, rfl⟩ := h
  cases hl : s.vfsCache.lookup (srcIp, username) with
  | some i =>
    rw [getFilesystem_of_cached hp hip hl]
    rfl
  | none =>
    rw [getFilesystem_of_new hp hip hl, store_of_known (s := s.addInstance ..) hp hip]
    rfl

theorem vfsCache_perform (k : ℕ) (o : Op) : (s.perform k o).vfsCache = s.vfsCache := by
  unfold FilesystemServer.perform
  split
  · rfl
  split <;> rfl

theorem vfsPersistence_apply (s : FilesystemServer) (t : FilesystemStep) :
    (t.apply s).vfsPersistence = s.vfsPersistence := by
  cases t with
  | getFilesystem caller sessionId srcIp username c =>
    unfold FilesystemStep.apply FilesystemServer.getFilesystem
    dsimp only
    split
    · rfl
    split
    · unfold FilesystemServer.store
      split <;> rfl
    · rfl
    · rfl
  | perform k o =>
    unfold FilesystemStep.apply FilesystemServer.perform
    dsimp only
    split
    · rfl
    split <;> rfl

theorem vfsPersistence_after (configured : List Str) (steps : List FilesystemStep) :
    (after configured steps).vfsPersistence = true := by
  induction steps using List.reverseRecOn with
  | nil => rfl
  | append_singleton steps t ih => rwa [after, run_append, run_cons, run_nil, vfsPersistence_apply]

/-- What one more step keeps of a made instance: that it was made for the key, if a call for the key finds it. -/
theorem MadeForKey.concat (h : MadeForKey configured steps key i)
    (ht : t.key? = some key → (after configured steps).vfsCache.lookup key = some i) :
    MadeForKey configured (steps ++ [t]) key i := by
  obtain ⟨before, made, later, rfl, hkey, hnone, hlen, hlater⟩ := h
  refine ⟨before, made, later ++ [t], by simp, hkey, hnone, hlen, fun mid u hmid hu => ?_⟩
  rcases List.prefix_concat_iff.1 hmid with heq | hmid
  · obtain ⟨rfl, hlast⟩ := List.append_inj' heq rfl
    obtain rfl := List.singleton_inj.1 hlast
    exact ht hu
  · exact hlater mid u hmid hu

/-- The keys are the ones used last, and each instance was made for its key. -/
structure Recent (configured : List Str) (steps : List FilesystemStep) : Prop where
  keys : (after configured steps).vfsCache.keys = recent vfsCacheLimit (usedKeys steps)
  made : ∀ key i, (after configured steps).vfsCache.lookup key = some i → MadeForKey configured steps key i

theorem Recent.concat (h : Recent configured steps) (ht : t.Succeeds) : Recent configured (steps ++ [t]) := by
  have hafter : after configured (steps ++ [t]) = t.apply (after configured steps) := run_append _ _ _
  have hp := vfsPersistence_after configured steps
  cases t with
  | perform k o =>
    have hcache : (after configured (steps ++ [.perform k o])).vfsCache = (after configured steps).vfsCache := by
      rw [hafter]
      exact vfsCache_perform k o
    refine ⟨?_, fun key i hi => (h.made key i (hcache ▸ hi)).concat fun hkey => by cases hkey⟩
    have huses : usedKeys (steps ++ [.perform k o]) = usedKeys steps := by
      rw [usedKeys, List.filterMap_append]
      exact List.append_nil _
    rw [hcache, h.keys, huses]
  | getFilesystem caller sessionId srcIp username c =>
    have hcache := vfsCache_getFilesystem hp ht
    have huses : usedKeys (steps ++ [.getFilesystem caller sessionId srcIp username c]) =
        usedKeys steps ++ [(srcIp, username)] := List.filterMap_append
    refine ⟨?_, fun key i hi => ?_⟩
    · rw [hafter, huses, FilesystemStep.apply, hcache]
      exact keys_touch (by decide) h.keys _ _
    · rw [hafter, FilesystemStep.apply, hcache] at hi
      rcases lookup_touch hi with hi | ⟨rfl, hnone, rfl⟩
      · exact (h.made key i hi).concat fun _ => hi
      · refine ⟨steps, _, [], rfl, rfl, hnone, rfl, fun mid u hmid _ => ?_⟩
        exact absurd (List.prefix_nil.1 hmid) (by simp)

theorem recent_after (h : ∀ t ∈ steps, t.Succeeds) : Recent configured steps := by
  induction steps using List.reverseRecOn with
  | nil => exact ⟨rfl, fun _ _ hi => by cases hi⟩
  | append_singleton steps t ih =>
    exact (ih fun u hu => h u (List.mem_append_left _ hu)).concat (h t (by simp))

/-- A call for each of the addresses. -/
def callsFrom (addresses : List Str) : List FilesystemStep :=
  addresses.map fun srcIp => .getFilesystem "a".toList "a".toList srcIp none (.made bare)

end FilesystemServer

end Cyanide
