import Cyanide.Lib.Transition
import Cyanide.Services.SessionManager

/-!
# SSH and Telnet connections

The two front ends share one session manager.  An SSH connection registers its session in `connection_made` and
unregisters it in `connection_lost`, which is called once for every connection, rejected or not.  A Telnet handler
registers in `_prepare_session`, before the block whose `finally` unregisters.  `Frontends` has the connections that are
open, and lists the sessions that have ended and those that were taken out of the manager.
-/

namespace Cyanide

open PosixPath Transition

inductive Protocol where
  | ssh
  | telnet
  deriving DecidableEq

/-- An open connection, and whether it was accepted and got a session. -/
structure Connection where
  protocol : Protocol
  ip : Str
  sessionId : Str
  registered : Bool
  deriving DecidableEq

structure Frontends where
  manager : SessionManager
  connections : List Connection
  /-- The sessions of connections that have ended, the last one first. -/
  ended : List Str
  /-- The sessions that `unregister_session` took out, the last one first. -/
  unregistered : List Str

namespace Frontends

variable (s : Frontends)

/-- The server before the first connection. -/
def start (m : SessionManager) : Frontends := ⟨m, [], [], []⟩

/-- The ids and IPs of the live sessions. -/
def live : List (Str × Str) :=
  (s.connections.filter (·.registered)).map fun c => (c.sessionId, c.ip)

def unregister (sessionId : Str) : Frontends :=
  { s with
    manager := s.manager.unregisterSession sessionId
    unregistered := if sessionId ∈ s.manager.sessions then sessionId :: s.unregistered else s.unregistered }

/-- The `i`-th connection is no longer open. -/
def drop (i : ℕ) (c : Connection) : Frontends :=
  { s with
    connections := s.connections.eraseIdx i
    ended := if c.registered then c.sessionId :: s.ended else s.ended }

/-- `connection_made`.  What may go wrong behind the registration leaves the connection open. -/
def sshMade (ip sessionId : Str) (now : ℚ) : Frontends :=
  let (accepted, m) := s.manager.canAccept now ip
  { s with
    manager := if accepted.1 then (m.registerSession now ip (some sessionId) []).2 else m
    connections := ⟨.ssh, ip, sessionId, accepted.1⟩ :: s.connections }

/-- `connection_made` when it raises before the session is registered. -/
def sshFailed (ip sessionId : Str) : Frontends :=
  { s with connections := ⟨.ssh, ip, sessionId, false⟩ :: s.connections }

/-- `connection_lost` logs the end of a session that it finds before it unregisters it. -/
def sshLost (i : ℕ) (c : Connection) (logRaises : Bool) : Frontends :=
  if logRaises && (s.manager.getSessionStats c.sessionId).isSome then s.drop i c
  else (s.drop i c).unregister c.sessionId

/-- `_prepare_session`, which registers before it makes the log directory and files; when that raises, the handler ends
there. -/
def telnetPrepare (ip sessionId : Str) (now : ℚ) (logDirRaises : Bool) : Frontends :=
  let (accepted, m) := s.manager.canAccept now ip
  if accepted.1 = false then { s with manager := m }
  else
    let s' := { s with manager := (m.registerSession now ip (some sessionId) []).2 }
    if logDirRaises then { s' with ended := sessionId :: s.ended }
    else { s' with connections := ⟨.telnet, ip, sessionId, true⟩ :: s.connections }

/-- The `finally` block of `handle_connection`: `_cleanup_session` logs before it unregisters. -/
def telnetClose (i : ℕ) (c : Connection) (logRaises : Bool) : Frontends :=
  if logRaises then s.drop i c else (s.drop i c).unregister c.sessionId

/-- The sessions that are registered are those of the open connections, each is counted once and within the limits,
and each was unregistered when it ended. -/
structure Accounted (s : Frontends) : Prop where
  active : s.manager.activeSessions = s.live.length
  registered : s.manager.sessions.keys.Perm (s.live.map Prod.fst)
  total : s.manager.sessionsPerIp.total = s.manager.activeSessions
  perIp : ∀ ip, s.manager.sessionsPerIp.get ip = (s.live.filter (·.2 = ip)).length
  withinTotal : s.manager.activeSessions ≤ s.manager.maxSessions
  withinIp : ∀ ip, s.manager.sessionsPerIp.get ip ≤ s.manager.maxSessionsPerIp
  once : s.unregistered = s.ended

end Frontends

/-- What happens at the front ends, and the other calls of the session manager. -/
inductive FrontendStep where
  | sshMade (ip sessionId : Str) (now : ℚ)
  | sshFailed (ip sessionId : Str)
  | sshLost (i : ℕ) (logRaises : Bool)
  | telnetPrepare (ip sessionId : Str) (now : ℚ) (logDirRaises : Bool)
  | telnetClose (i : ℕ) (logRaises : Bool)
  | recordCommand (sessionId : Str)
  | recordFileOp (sessionId : Str)
  | banIp (ip : Str) (duration : Option ℚ) (now : ℚ)

namespace FrontendStep

def apply (s : Frontends) : FrontendStep → Frontends
  | sshMade ip sessionId now => s.sshMade ip sessionId now
  | sshFailed ip sessionId => s.sshFailed ip sessionId
  | sshLost i logRaises =>
    match s.connections[i]? with
    | some c => if c.protocol = .ssh then s.sshLost i c logRaises else s
    | none => s
  | telnetPrepare ip sessionId now logDirRaises => s.telnetPrepare ip sessionId now logDirRaises
  | telnetClose i logRaises =>
    match s.connections[i]? with
    | some c => if c.protocol = .telnet then s.telnetClose i c logRaises else s
    | none => s
  | recordCommand sessionId => { s with manager := s.manager.recordCommand sessionId }
  | recordFileOp sessionId => { s with manager := s.manager.recordFileOp sessionId }
  | banIp ip duration now => { s with manager := s.manager.banIp now ip duration }

end FrontendStep

namespace Frontends

variable {s : Frontends}

/-- The id is that of no open connection. -/
def Fresh (s : Frontends) (sessionId : Str) : Prop := sessionId ∉ s.connections.map Connection.sessionId

/-- Ids are fresh, and nothing raises between the registration of a session and the call that unregisters it. -/
def Guarded (s : Frontends) : FrontendStep → Prop
  | .sshMade _ sessionId _ => s.Fresh sessionId
  | .sshFailed _ sessionId => s.Fresh sessionId
  | .sshLost i logRaises => ∀ c, s.connections[i]? = some c → c.registered = true → logRaises = false
  | .telnetPrepare ip sessionId now logDirRaises =>
    (s.manager.canAccept now ip).1.1 = true → s.Fresh sessionId ∧ logDirRaises = false
  | .telnetClose _ logRaises => logRaises = false
  | .recordCommand _ => True
  | .recordFileOp _ => True
  | .banIp _ _ _ => True

/-! ### The invariant -/

/-- The manager counts the live sessions, the open connections have different ids, and the limits hold. -/
structure Inv (s : Frontends) : Prop where
  counts : Counts s.manager s.live
  ids : (s.connections.map Connection.sessionId).Nodup
  telnet : ∀ c ∈ s.connections, c.protocol = .telnet → c.registered = true
  withinTotal : s.manager.activeSessions ≤ s.manager.maxSessions
  withinIp : ∀ ip, s.manager.sessionsPerIp.get ip ≤ s.manager.maxSessionsPerIp
  once : s.unregistered = s.ended

theorem inv_start (m : SessionManager) (ha : m.activeSessions = 0) (hp : m.sessionsPerIp = ∅) (hs : m.sessions = ∅) :
    Inv (start m) where
  counts := Counts.empty ha hp hs
  ids := List.nodup_nil
  telnet c hc := absurd hc List.not_mem_nil
  withinTotal := by
    show m.activeSessions ≤ _
    omega
  withinIp ip := by
    show m.sessionsPerIp.get ip ≤ _
    rw [hp]
    exact Nat.zero_le _
  once := rfl

theorem Inv.accounted (h : Inv s) : s.Accounted where
  active := h.counts.active
  registered := by
    refine (List.perm_ext_iff_of_nodup s.manager.sessions.keys_nodup h.counts.nodup).2 fun id => ?_
    exact h.counts.mem_sessions_iff
  total := h.counts.total_eq
  perIp ip := by
    rw [h.counts.perIp.get_eq, List.count, List.countP_map, ← List.countP_eq_length_filter]
    exact List.countP_congr fun x _ => by simp
  withinTotal := h.withinTotal
  withinIp := h.withinIp
  once := h.once

/-! ### Steps -/

private theorem live_ids (s : Frontends) : s.live.map Prod.fst ⊆ s.connections.map Connection.sessionId := by
  intro id hid
  simp only [live, List.map_map, List.mem_map, List.mem_filter, Function.comp] at hid
  obtain ⟨c, ⟨hc, -⟩, rfl⟩ := hid
  exact List.mem_map_of_mem hc

private theorem live_cons (c : Connection) (cs : List Connection) (m : SessionManager) (ended unregistered : List Str) :
    live ⟨m, c :: cs, ended, unregistered⟩ =
      if c.registered then (c.sessionId, c.ip) :: live ⟨m, cs, ended, unregistered⟩
      else live ⟨m, cs, ended, unregistered⟩ := by
  simp only [live, List.filter_cons]
  split <;> rfl

/-- The limits after a registration that was accepted. -/
private theorem within_register {m : SessionManager} {now : ℚ} {ip : Str} (sessionId : Str)
    (hacc : (m.canAccept now ip).1.1 = true)
    (hi : ∀ ip, m.sessionsPerIp.get ip ≤ m.maxSessionsPerIp) :
    let m' := ((m.canAccept now ip).2.registerSession now ip (some sessionId) []).2
    m'.activeSessions ≤ m'.maxSessions ∧ ∀ ip, m'.sessionsPerIp.get ip ≤ m'.maxSessionsPerIp := by
  obtain ⟨hroom, hroomIp⟩ := SessionManager.room_of_accepted hacc
  have hsame := m.onlyHistory_canAccept now ip
  refine ⟨?_, fun k => ?_⟩
  · show (m.canAccept now ip).2.activeSessions + 1 ≤ (m.canAccept now ip).2.maxSessions
    rw [hsame.active, hsame.maxSessions]
    omega
  · show ((m.canAccept now ip).2.sessionsPerIp.increment ip).get k ≤ (m.canAccept now ip).2.maxSessionsPerIp
    rw [hsame.perIp, hsame.maxSessionsPerIp, Counter.get, Counter.increment]
    by_cases hk : k = ip
    · rw [hk, AList.lookup_insert]
      exact hroomIp
    · rw [AList.lookup_insert_ne hk]
      exact hi k

/-- A new connection with a session. -/
private theorem inv_register (h : Inv s) {ip sessionId : Str} {now : ℚ} (hacc : (s.manager.canAccept now ip).1.1 = true)
    (hfresh : s.Fresh sessionId) (p : Protocol) :
    Inv { s with
      manager := ((s.manager.canAccept now ip).2.registerSession now ip (some sessionId) []).2
      connections := ⟨p, ip, sessionId, true⟩ :: s.connections } := by
  have hsame := s.manager.onlyHistory_canAccept now ip
  obtain ⟨htotal, hip⟩ := within_register sessionId hacc h.withinIp
  refine ⟨?_, ?_, ?_, htotal, hip, h.once⟩
  · rw [live_cons]
    exact (h.counts.of_eq hsame.active hsame.perIp hsame.sessions).register
      (fun hm => hfresh (s.live_ids hm)) now ip []
  · exact List.nodup_cons.2 ⟨hfresh, h.ids⟩
  · intro c hc hp
    rcases List.mem_cons.1 hc with rfl | hc
    · rfl
    · exact h.telnet c hc hp

/-- A rejected connection leaves the counters alone. -/
private theorem inv_reject (h : Inv s) (ip : Str) (now : ℚ) :
    Inv { s with manager := (s.manager.canAccept now ip).2 } := by
  have hsame := s.manager.onlyHistory_canAccept now ip
  refine ⟨h.counts.of_eq hsame.active hsame.perIp hsame.sessions, h.ids, h.telnet, ?_, ?_, h.once⟩
  · show (s.manager.canAccept now ip).2.activeSessions ≤ (s.manager.canAccept now ip).2.maxSessions
    rw [hsame.active, hsame.maxSessions]
    exact h.withinTotal
  · intro k
    show (s.manager.canAccept now ip).2.sessionsPerIp.get k ≤ (s.manager.canAccept now ip).2.maxSessionsPerIp
    rw [hsame.perIp, hsame.maxSessionsPerIp]
    exact h.withinIp k

/-- A new connection without a session. -/
private theorem inv_sshFailed (h : Inv s) {ip sessionId : Str} (hfresh : s.Fresh sessionId) :
    Inv (s.sshFailed ip sessionId) := by
  refine ⟨?_, List.nodup_cons.2 ⟨hfresh, h.ids⟩, ?_, h.withinTotal, h.withinIp, h.once⟩
  · unfold sshFailed
    rw [live_cons]
    exact h.counts
  · intro c hc hp
    rcases List.mem_cons.1 hc with rfl | hc
    · cases hp
    · exact h.telnet c hc hp

private theorem inv_sshMade (h : Inv s) {ip sessionId : Str} {now : ℚ} (hfresh : s.Fresh sessionId) :
    Inv (s.sshMade ip sessionId now) := by
  unfold sshMade
  dsimp only
  cases hacc : (s.manager.canAccept now ip).1.1 with
  | true => exact inv_register h hacc hfresh .ssh
  | false =>
    exact inv_sshFailed (inv_reject h ip now) hfresh

private theorem inv_telnetPrepare (h : Inv s) {ip sessionId : Str} {now : ℚ} {logDirRaises : Bool}
    (hg : (s.manager.canAccept now ip).1.1 = true → s.Fresh sessionId ∧ logDirRaises = false) :
    Inv (s.telnetPrepare ip sessionId now logDirRaises) := by
  unfold telnetPrepare
  dsimp only
  cases hacc : (s.manager.canAccept now ip).1.1 with
  | false =>
    rw [if_pos rfl]
    exact inv_reject h ip now
  | true =>
    obtain ⟨hfresh, hraises⟩ := hg hacc
    rw [if_neg (by simp), hraises]
    exact inv_register h hacc hfresh .telnet

private theorem within_decrement {c : Counter Str} {n : ℕ} (h : ∀ ip, c.get ip ≤ n) (k ip : Str) :
    (c.decrement k).get ip ≤ n := by
  refine Nat.le_trans ?_ (h ip)
  unfold Counter.decrement Counter.get
  cases hl : c.lookup k with
  | none => exact Nat.le_refl _
  | some m =>
    dsimp only
    by_cases hk : ip = k
    · subst hk
      rw [hl]
      split
      · rw [AList.lookup_erase]
        exact Nat.zero_le _
      · rw [AList.lookup_insert]
        exact Nat.sub_le _ _
    · split
      · rw [AList.lookup_erase_ne hk]
      · rw [AList.lookup_insert_ne hk]

/-- The end of a connection whose session is unregistered, or that has none. -/
private theorem inv_close (h : Inv s) {i : ℕ} {c : Connection} (hc : s.connections[i]? = some c) :
    Inv ((s.drop i c).unregister c.sessionId) := by
  obtain ⟨hi, hget⟩ := List.getElem?_eq_some_iff.1 hc
  have hperm : (c :: s.connections.eraseIdx i).Perm s.connections := by
    rw [← hget]
    exact List.getElem_cons_eraseIdx_perm hi
  have hids : (c.sessionId :: (s.connections.eraseIdx i).map Connection.sessionId).Nodup :=
    ((hperm.map Connection.sessionId).nodup_iff).2 h.ids
  have htelnet : ∀ d ∈ s.connections.eraseIdx i, d.protocol = .telnet → d.registered = true :=
    fun d hd => h.telnet d (List.mem_of_mem_eraseIdx hd)
  have hlive : (live ⟨s.manager, c :: s.connections.eraseIdx i, s.ended, s.unregistered⟩).Perm s.live :=
    (hperm.filter _).map _
  rw [live_cons] at hlive
  cases hreg : c.registered with
  | true =>
    rw [hreg, if_pos rfl] at hlive
    have hcounts := h.counts.perm hlive.symm
    obtain ⟨data, hd, hip⟩ := (hcounts.registered c.sessionId c.ip).2 (by simp)
    have hmem : c.sessionId ∈ s.manager.sessions := by
      rw [← AList.lookup_isSome, hd]
      rfl
    have hstate : (s.manager.unregisterSession c.sessionId).maxSessions = s.manager.maxSessions ∧
        (s.manager.unregisterSession c.sessionId).maxSessionsPerIp = s.manager.maxSessionsPerIp ∧
        (s.manager.unregisterSession c.sessionId).activeSessions = s.manager.activeSessions - 1 ∧
        (s.manager.unregisterSession c.sessionId).sessionsPerIp = s.manager.sessionsPerIp.decrement data.ip := by
      unfold SessionManager.unregisterSession
      rw [hd]
      exact ⟨rfl, rfl, rfl, rfl⟩
    obtain ⟨hmax, hmaxIp, hactive, hperIp⟩ := hstate
    refine ⟨hcounts.unregister, (List.nodup_cons.1 hids).2, htelnet, ?_, ?_, ?_⟩
    · show (s.manager.unregisterSession c.sessionId).activeSessions ≤
        (s.manager.unregisterSession c.sessionId).maxSessions
      rw [hactive, hmax]
      exact Nat.le_trans (Nat.sub_le _ _) h.withinTotal
    · intro k
      show (s.manager.unregisterSession c.sessionId).sessionsPerIp.get k ≤
        (s.manager.unregisterSession c.sessionId).maxSessionsPerIp
      rw [hperIp, hmaxIp]
      exact within_decrement h.withinIp data.ip k
    · show (if c.sessionId ∈ s.manager.sessions then c.sessionId :: s.unregistered else s.unregistered) =
        if c.registered = true then c.sessionId :: s.ended else s.ended
      rw [if_pos hmem, hreg, if_pos rfl, h.once]
  | false =>
    rw [hreg, if_neg (by simp)] at hlive
    have hcounts : Counts s.manager (s.drop i c).live := h.counts.perm hlive.symm
    -- the id of a rejected connection is that of no session
    have hno : c.sessionId ∉ s.manager.sessions := by
      rw [hcounts.mem_sessions_iff]
      exact fun hm => (List.nodup_cons.1 hids).1 (live_ids _ hm)
    have hsame : s.manager.unregisterSession c.sessionId = s.manager := by
      unfold SessionManager.unregisterSession
      rw [AList.lookup_eq_none.2 hno]
    have heq : (s.drop i c).unregister c.sessionId = s.drop i c := by
      show { s.drop i c with
        manager := s.manager.unregisterSession c.sessionId
        unregistered := if c.sessionId ∈ s.manager.sessions then c.sessionId :: s.unregistered else s.unregistered } = _
      rw [hsame, if_neg hno]
      rfl
    rw [heq]
    refine ⟨hcounts, (List.nodup_cons.1 hids).2, htelnet, h.withinTotal, h.withinIp, ?_⟩
    show s.unregistered = if c.registered = true then c.sessionId :: s.ended else s.ended
    rw [hreg, if_neg (by simp)]
    exact h.once

private theorem inv_update (h : Inv s) (sessionId : Str) {f : SessionData → SessionData}
    (hf : ∀ data, (f data).ip = data.ip) : Inv { s with manager := s.manager.updateSession sessionId f } := by
  have hsame : (s.manager.updateSession sessionId f).activeSessions = s.manager.activeSessions ∧
      (s.manager.updateSession sessionId f).maxSessions = s.manager.maxSessions ∧
      (s.manager.updateSession sessionId f).sessionsPerIp = s.manager.sessionsPerIp ∧
      (s.manager.updateSession sessionId f).maxSessionsPerIp = s.manager.maxSessionsPerIp := by
    unfold SessionManager.updateSession
    split <;> exact ⟨rfl, rfl, rfl, rfl⟩
  obtain ⟨hactive, hmax, hperIp, hmaxIp⟩ := hsame
  refine ⟨h.counts.update sessionId hf, h.ids, h.telnet, ?_, ?_, h.once⟩
  · show (s.manager.updateSession sessionId f).activeSessions ≤ (s.manager.updateSession sessionId f).maxSessions
    rw [hactive, hmax]
    exact h.withinTotal
  · intro k
    show (s.manager.updateSession sessionId f).sessionsPerIp.get k ≤
      (s.manager.updateSession sessionId f).maxSessionsPerIp
    rw [hperIp, hmaxIp]
    exact h.withinIp k

theorem Inv.apply (h : Inv s) {t : FrontendStep} (hg : s.Guarded t) : Inv (t.apply s) := by
  cases t with
  | sshMade ip sessionId now => exact inv_sshMade h hg
  | sshFailed ip sessionId => exact inv_sshFailed h hg
  | sshLost i logRaises =>
    show Inv (match s.connections[i]? with
      | some c => if c.protocol = .ssh then s.sshLost i c logRaises else s
      | none => s)
    cases hc : s.connections[i]? with
    | none => exact h
    | some c =>
      dsimp only
      split
      · have hclose := inv_close h hc
        unfold sshLost
        split
        · rename_i hraises
          rw [Bool.and_eq_true] at hraises
          have hreg : c.registered = false := by
            by_contra hreg
            rw [Bool.not_eq_false] at hreg
            have := hg c hc hreg
            rw [this] at hraises
            cases hraises.1
          -- a session under the id of a rejected connection would be one of another connection
          obtain ⟨hi, hget⟩ := List.getElem?_eq_some_iff.1 hc
          have hmem : c ∈ s.connections := List.mem_of_getElem? hc
          obtain ⟨data, hd⟩ := Option.isSome_iff_exists.1 hraises.2
          have hlive := (h.counts.registered c.sessionId data.ip).1 ⟨data, hd, rfl⟩
          simp only [live, List.mem_map, List.mem_filter, Prod.mk.injEq] at hlive
          obtain ⟨d, ⟨hd, hdreg⟩, hid, -⟩ := hlive
          have := List.inj_on_of_nodup_map h.ids hd hmem hid
          rw [this, hreg] at hdreg
          cases hdreg
        · exact hclose
      · exact h
  | telnetPrepare ip sessionId now logDirRaises => exact inv_telnetPrepare h hg
  | telnetClose i logRaises =>
    show Inv (match s.connections[i]? with
      | some c => if c.protocol = .telnet then s.telnetClose i c logRaises else s
      | none => s)
    cases hc : s.connections[i]? with
    | none => exact h
    | some c =>
      dsimp only
      split
      · have : logRaises = false := hg
        unfold telnetClose
        rw [this]
        exact inv_close h hc
      · exact h
  | recordCommand sessionId => exact inv_update h sessionId fun _ => rfl
  | recordFileOp sessionId => exact inv_update h sessionId fun _ => rfl
  | banIp ip duration now => exact ⟨h.counts.of_eq rfl rfl rfl, h.ids, h.telnet, h.withinTotal, h.withinIp, h.once⟩

/-! ### Runs -/

/-- In a guarded run from a manager without sessions, every state has its sessions accounted for. -/
theorem accounted_run (m : SessionManager) (ha : m.activeSessions = 0) (hp : m.sessionsPerIp = ∅) (hs : m.sessions = ∅)
    (steps : List FrontendStep) (hG : Meets FrontendStep.apply Guarded (start m) steps) :
    ∀ ts, ts <+: steps → (run FrontendStep.apply (start m) ts).Accounted := by
  intro ts hts
  have hinv := invariant_of_steps (I := Inv) (fun s t h hg => h.apply hg) (inv_start m ha hp hs) (hG.initial hts)
  exact hinv.accounted

/-- A Telnet session that is prepared and closed. -/
theorem accounted_run_telnet :
    (run FrontendStep.apply (start {}) [.telnetPrepare "10.0.0.1".toList "conn_a".toList 0 false,
      .telnetClose 0 false]).Accounted := by
  refine accounted_run {} rfl rfl rfl [.telnetPrepare "10.0.0.1".toList "conn_a".toList 0 false, .telnetClose 0 false]
    ⟨fun _ => ⟨?_, rfl⟩, rfl, trivial⟩ _ (List.prefix_refl _)
  exact List.not_mem_nil

/-- When the log directory of a Telnet session cannot be made, its session stays registered. -/
theorem not_accounted_telnetPrepare :
    ¬(run FrontendStep.apply (start {}) [.telnetPrepare "10.0.0.1".toList "conn_a".toList 0 true]).Accounted := by
  intro h
  exact absurd h.active (by decide)

end Frontends

end Cyanide
