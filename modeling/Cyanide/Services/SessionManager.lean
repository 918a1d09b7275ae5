import Mathlib.Algebra.Order.Ring.Unbundled.Rat
import Mathlib.Data.List.Perm.Basic
import Cyanide.Lib.Counter
import Cyanide.Vfs.Nodes

/-!
# The session manager

`SessionManager` counts the sessions, in total and for each IP, and keeps the recent connections and the bans.  Times
are in seconds.  `Counts m live` says that the manager counts exactly the sessions of the list `live`, given by their
ids and IPs; registering and unregistering keep it.
-/

namespace Cyanide

open PosixPath

/-- An entry of `sessions`. -/
structure SessionData where
  ip : Str
  startTime : ℚ
  commands : ℕ
  fileOps : ℕ

structure SessionManager where
  maxSessions : ℕ := 100
  maxSessionsPerIp : ℕ := 5
  maxConnectionsPerMinute : ℕ := 60
  banDuration : ℚ := 3600
  activeSessions : ℕ := 0
  sessionsPerIp : Counter Str := ∅
  sessions : Dict SessionData := ∅
  bannedIps : Dict ℚ := ∅
  connectionHistory : Dict (List ℚ) := ∅
  /-- The IPs of the logged `ip_banned` events, the last one first. -/
  banEvents : List Str := []

namespace SessionManager

variable (m : SessionManager)

/-- `can_accept` behind the check of the bans. -/
def checkLimits (now : ℚ) (ip : Str) : (Bool × Str) × SessionManager :=
  let history := ((m.connectionHistory.lookup ip).getD []).filter fun t => now - t < 60
  if history.length ≥ m.maxConnectionsPerMinute then
    ((false, "rate_limit_exceeded (banned)".toList),
      { m with
        connectionHistory := m.connectionHistory.insert ip history
        bannedIps := m.bannedIps.insert ip (now + m.banDuration)
        banEvents := ip :: m.banEvents })
  else
    let m' := { m with connectionHistory := m.connectionHistory.insert ip (history ++ [now]) }
    if m.activeSessions ≥ m.maxSessions then ((false, "global_limit_reached".toList), m')
    else if m.sessionsPerIp.get ip ≥ m.maxSessionsPerIp then ((false, "per_ip_limit_reached".toList), m')
    else ((true, []), m')

/-- The method `can_accept`: whether the connection is accepted, and the reason for a rejection. -/
def canAccept (now : ℚ) (ip : Str) : (Bool × Str) × SessionManager :=
  match m.bannedIps.lookup ip with
  | some expiry =>
    if now < expiry then ((false, "ip_banned".toList), m)
    else checkLimits { m with bannedIps := m.bannedIps.erase ip } now ip
  | none => m.checkLimits now ip

/-- The method `register_session`, with the id that is generated when none is given. -/
def registerSession (now : ℚ) (ip : Str) (sessionId : Option Str) (uuid : Str) : Str × SessionManager :=
  let id := sessionId.getD uuid
  (id, { m with
    activeSessions := m.activeSessions + 1
    sessionsPerIp := m.sessionsPerIp.increment ip
    sessions := m.sessions.insert id ⟨ip, now, 0, 0⟩ })

/-- The method `unregister_session`. -/
def unregisterSession (sessionId : Str) : SessionManager :=
  match m.sessions.lookup sessionId with
  | none => m
  | some data =>
    { m with
      sessions := m.sessions.erase sessionId
      activeSessions := m.activeSessions - 1
      sessionsPerIp := m.sessionsPerIp.decrement data.ip }

def updateSession (sessionId : Str) (f : SessionData → SessionData) : SessionManager :=
  match m.sessions.lookup sessionId with
  | none => m
  | some data => { m with sessions := m.sessions.insert sessionId (f data) }

def recordCommand (sessionId : Str) : SessionManager :=
  m.updateSession sessionId fun data => { data with commands := data.commands + 1 }

def recordFileOp (sessionId : Str) : SessionManager :=
  m.updateSession sessionId fun data => { data with fileOps := data.fileOps + 1 }

def getSessionStats (sessionId : Str) : Option SessionData := m.sessions.lookup sessionId

def banIp (now : ℚ) (ip : Str) (duration : Option ℚ) : SessionManager :=
  { m with bannedIps := m.bannedIps.insert ip (now + duration.getD m.banDuration) }

end SessionManager

/-! ### Counting sessions -/

/-- The manager counts the sessions of `live`, a list of ids and IPs. -/
structure Counts (m : SessionManager) (live : List (Str × Str)) : Prop where
  active : m.activeSessions = live.length
  perIp : m.sessionsPerIp.Counts (live.map Prod.snd)
  registered : ∀ id ip, (∃ data, m.sessions.lookup id = some data ∧ data.ip = ip) ↔ (id, ip) ∈ live
  nodup : (live.map Prod.fst).Nodup

namespace Counts

variable {m : SessionManager} {live : List (Str × Str)}

theorem perm {live' : List (Str × Str)} (h : Counts m live) (hp : live.Perm live') : Counts m live' where
  active := h.active.trans hp.length_eq
  perIp := h.perIp.perm (hp.map Prod.snd)
  registered id ip := (h.registered id ip).trans hp.mem_iff
  nodup := ((hp.map Prod.fst).nodup_iff).1 h.nodup

theorem total_eq (h : Counts m live) : m.sessionsPerIp.total = m.activeSessions := by
  rw [h.perIp.total_eq, List.length_map, h.active]

theorem mem_sessions_iff (h : Counts m live) {id : Str} : id ∈ m.sessions ↔ id ∈ live.map Prod.fst := by
  rw [← AList.lookup_isSome, Option.isSome_iff_exists, List.mem_map]
  constructor
  · rintro ⟨data, hd⟩
    exact ⟨(id, data.ip), (h.registered id data.ip).1 ⟨data, hd, rfl⟩, rfl⟩
  · rintro ⟨⟨i, ip⟩, hm, rfl⟩
    obtain ⟨data, hd, -⟩ := (h.registered i ip).2 hm
    exact ⟨data, hd⟩

/-- Operations that leave the counters and the sessions alone. -/
theorem of_eq {m' : SessionManager} (h : Counts m live) (ha : m'.activeSessions = m.activeSessions)
    (hp : m'.sessionsPerIp = m.sessionsPerIp) (hs : m'.sessions = m.sessions) : Counts m' live where
  active := ha.trans h.active
  perIp := by rw [hp]; exact h.perIp
  registered := by rw [hs]; exact h.registered
  nodup := h.nodup

theorem register (h : Counts m live) {id : Str} (hid : id ∉ live.map Prod.fst) (now : ℚ) (ip uuid : Str) :
    Counts (m.registerSession now ip (some id) uuid).2 ((id, ip) :: live) where
  active := by
    show m.activeSessions + 1 = live.length + 1
    rw [h.active]
  perIp := h.perIp.increment ip
  registered := by
    intro i k
    show (∃ data, (m.sessions.insert id ⟨ip, now, 0, 0⟩).lookup i = some data ∧ data.ip = k) ↔ _
    rw [List.mem_cons, ← h.registered, Prod.mk.injEq]
    by_cases hi : i = id
    · subst hi
      have hno : m.sessions.lookup i = none := by
        rw [AList.lookup_eq_none, h.mem_sessions_iff]
        exact hid
      simp [AList.lookup_insert, hno, eq_comm]
    · simp [AList.lookup_insert_ne hi, hi]
  nodup := by
    rw [List.map_cons, List.nodup_cons]
    exact ⟨hid, h.nodup⟩

theorem unregister {id ip : Str} (h : Counts m ((id, ip) :: live)) : Counts (m.unregisterSession id) live := by
  obtain ⟨data, hd, rfl⟩ := (h.registered id ip).2 (by simp)
  have hnodup := h.nodup
  rw [List.map_cons, List.nodup_cons] at hnodup
  unfold SessionManager.unregisterSession
  rw [hd]
  refine ⟨?_, h.perIp.decrement, ?_, hnodup.2⟩
  · show m.activeSessions - 1 = live.length
    rw [h.active]
    rfl
  · intro i k
    show (∃ data, (m.sessions.erase id).lookup i = some data ∧ data.ip = k) ↔ _
    by_cases hi : i = id
    · subst hi
      simp only [AList.lookup_erase, reduceCtorEq, false_and, exists_false, false_iff]
      intro hm
      exact hnodup.1 (List.mem_map.2 ⟨_, hm, rfl⟩)
    · rw [AList.lookup_erase_ne hi, h.registered, List.mem_cons, Prod.mk.injEq]
      simp [hi]

private theorem lookup_updateSession (m : SessionManager) (id i : Str) (f : SessionData → SessionData) :
    (m.updateSession id f).sessions.lookup i = if i = id then (m.sessions.lookup id).map f else m.sessions.lookup i := by
  unfold SessionManager.updateSession
  split
  · rename_i hn
    split
    · rename_i hi
      rw [hi, hn]
      rfl
    · rfl
  · rename_i data hd
    show (m.sessions.insert id (f data)).lookup i = _
    by_cases hi : i = id
    · rw [hi, AList.lookup_insert, if_pos rfl, hd]
      rfl
    · rw [AList.lookup_insert_ne hi, if_neg hi]

theorem update (h : Counts m live) (id : Str) {f : SessionData → SessionData} (hf : ∀ data, (f data).ip = data.ip) :
    Counts (m.updateSession id f) live where
  active := by
    rw [← h.active]
    unfold SessionManager.updateSession
    split <;> rfl
  perIp := by
    have : (m.updateSession id f).sessionsPerIp = m.sessionsPerIp := by
      unfold SessionManager.updateSession
      split <;> rfl
    rw [this]
    exact h.perIp
  registered := by
    intro i ip
    rw [lookup_updateSession, ← h.registered]
    split
    · rename_i hi
      subst hi
      cases m.sessions.lookup i <;> simp [hf]
    · rfl
  nodup := h.nodup

theorem empty {m : SessionManager} (ha : m.activeSessions = 0) (hp : m.sessionsPerIp = ∅) (hs : m.sessions = ∅) :
    Counts m [] where
  active := ha
  perIp := by
    rw [hp]
    exact Counter.counts_empty
  registered id ip := by simp [hs]
  nodup := List.nodup_nil

end Counts

/-! ### Accepting connections -/

namespace SessionManager

variable {m : SessionManager}

/-- `can_accept` changes the bans and the recent connections only. -/
structure OnlyHistory (m m' : SessionManager) : Prop where
  active : m'.activeSessions = m.activeSessions
  perIp : m'.sessionsPerIp = m.sessionsPerIp
  sessions : m'.sessions = m.sessions
  maxSessions : m'.maxSessions = m.maxSessions
  maxSessionsPerIp : m'.maxSessionsPerIp = m.maxSessionsPerIp

private theorem onlyHistory_checkLimits (m : SessionManager) (now : ℚ) (ip : Str) :
    OnlyHistory m (m.checkLimits now ip).2 := by
  unfold checkLimits
  dsimp only
  split
  · exact ⟨rfl, rfl, rfl, rfl, rfl⟩
  split
  · exact ⟨rfl, rfl, rfl, rfl, rfl⟩
  split <;> exact ⟨rfl, rfl, rfl, rfl, rfl⟩

private theorem accepted_checkLimits {now : ℚ} {ip : Str} (h : (m.checkLimits now ip).1.1 = true) :
    m.activeSessions < m.maxSessions ∧ m.sessionsPerIp.get ip < m.maxSessionsPerIp := by
  unfold checkLimits at h
  dsimp only at h
  split at h
  · cases h
  split at h
  · cases h
  split at h
  · cases h
  omega

theorem onlyHistory_canAccept (m : SessionManager) (now : ℚ) (ip : Str) : OnlyHistory m (m.canAccept now ip).2 := by
  unfold canAccept
  split
  · split
    · exact ⟨rfl, rfl, rfl, rfl, rfl⟩
    · have h := onlyHistory_checkLimits { m with bannedIps := m.bannedIps.erase ip } now ip
      exact ⟨h.active, h.perIp, h.sessions, h.maxSessions, h.maxSessionsPerIp⟩
  · exact onlyHistory_checkLimits m now ip

/-- An accepted connection finds room below both limits. -/
theorem room_of_accepted {now : ℚ} {ip : Str} (h : (m.canAccept now ip).1.1 = true) :
    m.activeSessions < m.maxSessions ∧ m.sessionsPerIp.get ip < m.maxSessionsPerIp := by
  unfold canAccept at h
  split at h
  · split at h
    · cases h
    · exact accepted_checkLimits (m := { m with bannedIps := m.bannedIps.erase ip }) h
  · exact accepted_checkLimits h

end SessionManager

end Cyanide
