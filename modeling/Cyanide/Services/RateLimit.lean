import Mathlib.Algebra.Order.Ring.Rat
import Mathlib.Tactic.Linarith
import Cyanide.Lib.SlidingWindow
import Cyanide.Services.SessionManager

/-!
# The rate limit

What `can_accept` keeps for one IP is a limiter with a window of a minute (`limiter_canAccept`), and nothing else of
the manager reaches its decision.  A run of calls therefore decides on the connections of an IP as the limiter of that
IP does (`decisionsOf_eq`), and the laws of the rate limit are those of the limiter.
-/

namespace Cyanide

open PosixPath SlidingWindow

/-- A call of the session manager other than a ban by hand. -/
inductive ManagerCall where
  | canAccept (now : ℚ) (ip : Str)
  | registerSession (now : ℚ) (ip : Str) (sessionId : Option Str) (uuid : Str)
  | unregisterSession (sessionId : Str)
  | recordCommand (sessionId : Str)
  | recordFileOp (sessionId : Str)

/-- A call of `can_accept` with what it returned. -/
structure CheckOutcome where
  now : ℚ
  ip : Str
  accepted : Bool
  reason : Str
  deriving DecidableEq

/-- What the rate check decided, read off the reason that `can_accept` gives. -/
def CheckOutcome.decision (o : CheckOutcome) : Decision :=
  if o.reason = "ip_banned".toList then .banned
  else if o.reason = "rate_limit_exceeded (banned)".toList then .exceeded
  else .passed

namespace SessionManager

/-- The manager that `__init__` makes. -/
def init (maxSessions maxSessionsPerIp maxConnectionsPerMinute : ℕ) (banDuration : ℚ) : SessionManager :=
  { maxSessions, maxSessionsPerIp, maxConnectionsPerMinute, banDuration }

variable (m : SessionManager)

def call : ManagerCall → SessionManager
  | .canAccept now ip => (m.canAccept now ip).2
  | .registerSession now ip sessionId uuid => (m.registerSession now ip sessionId uuid).2
  | .unregisterSession sessionId => m.unregisterSession sessionId
  | .recordCommand sessionId => m.recordCommand sessionId
  | .recordFileOp sessionId => m.recordFileOp sessionId

/-- What the calls of `can_accept` return in a run. -/
def outcomes (m : SessionManager) : List ManagerCall → List CheckOutcome
  | [] => []
  | .canAccept now ip :: calls =>
    ⟨now, ip, (m.canAccept now ip).1.1, (m.canAccept now ip).1.2⟩ :: outcomes (m.call (.canAccept now ip)) calls
  | c :: calls => outcomes (m.call c) calls

/-- The decisions about one IP, with their times. -/
def decisionsOf (ip : Str) (calls : List ManagerCall) : List (ℚ × Decision) :=
  ((m.outcomes calls).filter (·.ip = ip)).map fun o => (o.now, o.decision)

end SessionManager

/-- The time and the IP of a call of `can_accept`. -/
def ManagerCall.attempt? : ManagerCall → Option (ℚ × Str)
  | .canAccept now ip => some (now, ip)
  | .registerSession _ _ _ _ => none
  | .unregisterSession _ => none
  | .recordCommand _ => none
  | .recordFileOp _ => none

/-- The times at which `can_accept` is called. -/
def acceptTimes (calls : List ManagerCall) : List ℚ := (calls.filterMap ManagerCall.attempt?).map Prod.fst

/-- The times at which `can_accept` is called for an IP. -/
def acceptTimesOf (ip : Str) (calls : List ManagerCall) : List ℚ :=
  ((calls.filterMap ManagerCall.attempt?).filter (·.2 = ip)).map Prod.fst

/-- The laws of the rate limit for a run. -/
structure RateLaws (m : SessionManager) (calls : List ManagerCall) : Prop where
  /-- In a minute no more connections of an IP than allowed pass the rate check. -/
  window : ∀ ip start,
    (m.outcomes calls).countP
        (fun o => o.ip = ip ∧ o.decision = .passed ∧ start ≤ o.now ∧ o.now < start + 60) ≤
      m.maxConnectionsPerMinute ∧
    (m.outcomes calls).countP
        (fun o => o.ip = ip ∧ o.decision = .passed ∧ start < o.now ∧ o.now ≤ start + 60) ≤
      m.maxConnectionsPerMinute
  /-- An IP that exceeds the rate is rejected for the time of the ban. -/
  banned : (m.outcomes calls).Pairwise fun o o' =>
    o.decision = .exceeded → o'.ip = o.ip → o'.now < o.now + m.banDuration → o'.accepted = false
  /-- Runs with the same calls for an IP decide the same about it. -/
  independent : ∀ ip calls', acceptTimesOf ip calls' = acceptTimesOf ip calls →
    m.decisionsOf ip calls' = m.decisionsOf ip calls

/-! ### The limiter of an IP -/

namespace SessionManager

variable {m : SessionManager}

def limits (m : SessionManager) : Limits ℚ := ⟨m.maxConnectionsPerMinute, 60, m.banDuration⟩

/-- What the manager keeps about the rate of an IP. -/
def limiter (m : SessionManager) (ip : Str) : Limiter ℚ :=
  ⟨m.bannedIps.lookup ip, (m.connectionHistory.lookup ip).getD []⟩

private theorem checkLimits_of_full {now : ℚ} {ip : Str}
    (h : m.maxConnectionsPerMinute ≤ (recent m.limits (m.limiter ip).history now).length) :
    m.checkLimits now ip = ((false, "rate_limit_exceeded (banned)".toList),
      { m with
        connectionHistory := m.connectionHistory.insert ip (recent m.limits (m.limiter ip).history now)
        bannedIps := m.bannedIps.insert ip (now + m.banDuration)
        banEvents := ip :: m.banEvents }) := by
  unfold checkLimits
  exact if_pos h

/-- The other limits do not show in the history. -/
private theorem checkLimits_of_room {now : ℚ} {ip : Str}
    (h : (recent m.limits (m.limiter ip).history now).length < m.maxConnectionsPerMinute) :
    ∃ r : Bool × Str, (r.2 = "global_limit_reached".toList ∨ r.2 = "per_ip_limit_reached".toList ∨ r.2 = []) ∧
      m.checkLimits now ip = (r,
        { m with connectionHistory :=
            m.connectionHistory.insert ip (recent m.limits (m.limiter ip).history now ++ [now]) }) := by
  have hif : m.checkLimits now ip = _ := if_neg (Nat.not_le.2 h)
  rw [hif]
  split
  · exact ⟨_, .inl rfl, rfl⟩
  split
  · exact ⟨_, .inr (.inl rfl), rfl⟩
  · exact ⟨_, .inr (.inr rfl), rfl⟩

/-- An outcome shows the decision of the limiter: a rejection unless that passed. -/
private structure Shows (r : Bool × Str) (d : Decision) : Prop where
  decision : ∀ now ip, (⟨now, ip, r.1, r.2⟩ : CheckOutcome).decision = d
  rejected : d ≠ .passed → r.1 = false

private theorem shows_checkLimits (m : SessionManager) (now : ℚ) (ip : Str) :
    Shows (m.checkLimits now ip).1 (attempt m.limits (m.limiter ip).history now).1 := by
  unfold attempt
  split
  · rename_i hfull
    rw [checkLimits_of_full hfull]
    exact ⟨fun _ _ => rfl, fun _ => rfl⟩
  · rename_i hroom
    obtain ⟨⟨accepted, reason⟩, hr, heq⟩ := checkLimits_of_room (Nat.not_le.1 hroom)
    rw [heq]
    refine ⟨fun _ _ => ?_, fun h => absurd rfl h⟩
    rcases hr with rfl | rfl | rfl <;> rfl

private theorem limiter_checkLimits (now : ℚ) {ip : Str} (hban : m.bannedIps.lookup ip = none) (k : Str) :
    (m.checkLimits now ip).2.limiter k =
      if k = ip then (attempt m.limits (m.limiter ip).history now).2 else m.limiter k := by
  unfold attempt
  by_cases hfull : m.limits.max ≤ (recent m.limits (m.limiter ip).history now).length
  · rw [if_pos hfull, checkLimits_of_full hfull]
    by_cases hk : k = ip
    · subst hk
      rw [if_pos rfl]
      simp [limiter, limits, AList.lookup_insert]
    · rw [if_neg hk]
      simp [limiter, AList.lookup_insert_ne hk]
  · obtain ⟨r, -, heq⟩ := checkLimits_of_room (Nat.not_le.1 hfull)
    rw [if_neg hfull, heq]
    by_cases hk : k = ip
    · subst hk
      rw [if_pos rfl]
      simp [limiter, hban, AList.lookup_insert]
    · rw [if_neg hk]
      simp [limiter, AList.lookup_insert_ne hk]

/-- A ban that is over is forgotten before the limits are checked. -/
private theorem canAccept_cases (m : SessionManager) (now : ℚ) (ip : Str) :
    m.canAccept now ip = ((false, "ip_banned".toList), m) ∧
        check m.limits (m.limiter ip) now = (.banned, m.limiter ip) ∨
      ∃ m' : SessionManager, m'.bannedIps.lookup ip = none ∧ m'.limits = m.limits ∧
        (m'.limiter ip).history = (m.limiter ip).history ∧ (∀ k, k ≠ ip → m'.limiter k = m.limiter k) ∧
        m.canAccept now ip = m'.checkLimits now ip ∧
        check m.limits (m.limiter ip) now = attempt m.limits (m.limiter ip).history now := by
  cases hban : m.bannedIps.lookup ip with
  | none =>
    have hnone : (m.limiter ip).ban = none := hban
    refine .inr ⟨m, hban, rfl, rfl, fun _ _ => rfl, ?_, ?_⟩
    · rw [canAccept, hban]
    · rw [check, hnone]
  | some expiry =>
    have hsome : (m.limiter ip).ban = some expiry := hban
    by_cases hlt : now < expiry
    · refine .inl ⟨?_, check_of_ban hsome hlt⟩
      rw [canAccept, hban]
      exact if_pos hlt
    · refine .inr ⟨{ m with bannedIps := m.bannedIps.erase ip }, AList.lookup_erase .., rfl, rfl, ?_, ?_, ?_⟩
      · intro k hk
        simp [limiter, AList.lookup_erase_ne hk]
      · rw [canAccept, hban]
        exact if_neg hlt
      · rw [check, hsome]
        exact if_neg hlt

private theorem shows_canAccept (m : SessionManager) (now : ℚ) (ip : Str) :
    Shows (m.canAccept now ip).1 (check m.limits (m.limiter ip) now).1 := by
  rcases canAccept_cases m now ip with ⟨hr, hc⟩ | ⟨m', -, hlimits, hhistory, -, hr, hc⟩
  · rw [hr, hc]
    exact ⟨fun _ _ => rfl, fun _ => rfl⟩
  · rw [hr, hc, ← hhistory, ← hlimits]
    exact shows_checkLimits m' now ip

/-- `can_accept` takes the step of the limiter of its IP and leaves the other ones alone. -/
theorem limiter_canAccept (m : SessionManager) (now : ℚ) (ip k : Str) :
    (m.canAccept now ip).2.limiter k =
      if k = ip then (check m.limits (m.limiter ip) now).2 else m.limiter k := by
  rcases canAccept_cases m now ip with ⟨hr, hc⟩ | ⟨m', hban, hlimits, hhistory, hother, hr, hc⟩
  · rw [hr, hc]
    split
    · rename_i hk
      rw [hk]
    · rfl
  · rw [hr, hc, limiter_checkLimits now hban, hhistory, hlimits]
    split
    · rfl
    · rename_i hk
      exact hother k hk

theorem limits_canAccept (m : SessionManager) (now : ℚ) (ip : Str) : (m.canAccept now ip).2.limits = m.limits := by
  rcases canAccept_cases m now ip with ⟨hr, -⟩ | ⟨m', -, hlimits, -, -, hr, -⟩
  · rw [hr]
  · rw [hr, ← hlimits]
    by_cases hfull : m'.limits.max ≤ (recent m'.limits (m'.limiter ip).history now).length
    · rw [checkLimits_of_full hfull]
      rfl
    · obtain ⟨r, -, heq⟩ := checkLimits_of_room (Nat.not_le.1 hfull)
      rw [heq]
      rfl

private theorem same_updateSession (m : SessionManager) (id : Str) (f : SessionData → SessionData) :
    (m.updateSession id f).limits = m.limits ∧ ∀ k, (m.updateSession id f).limiter k = m.limiter k := by
  unfold updateSession
  split
  · exact ⟨rfl, fun _ => rfl⟩
  · exact ⟨rfl, fun _ => rfl⟩

/-! ### Runs -/

/-- The other calls leave the limiters alone. -/
private theorem same_call (m : SessionManager) {c : ManagerCall} (hc : ∀ now ip, c ≠ .canAccept now ip) :
    (m.call c).limits = m.limits ∧ ∀ k, (m.call c).limiter k = m.limiter k := by
  cases c with
  | canAccept now ip => exact absurd rfl (hc now ip)
  | registerSession now ip sessionId uuid => exact ⟨rfl, fun _ => rfl⟩
  | unregisterSession sessionId =>
    show (m.unregisterSession sessionId).limits = m.limits ∧ ∀ k, (m.unregisterSession sessionId).limiter k = _
    unfold unregisterSession
    split
    · exact ⟨rfl, fun _ => rfl⟩
    · exact ⟨rfl, fun _ => rfl⟩
  | recordCommand sessionId => exact same_updateSession m sessionId _
  | recordFileOp sessionId => exact same_updateSession m sessionId _

private theorem outcomes_of_other {c : ManagerCall} (hc : ∀ now ip, c ≠ .canAccept now ip) (calls : List ManagerCall) :
    m.outcomes (c :: calls) = (m.call c).outcomes calls := by
  cases c with
  | canAccept now ip => exact absurd rfl (hc now ip)
  | _ => rfl

private theorem acceptTimesOf_of_other {c : ManagerCall} (hc : ∀ now ip, c ≠ .canAccept now ip) (ip : Str)
    (calls : List ManagerCall) : acceptTimesOf ip (c :: calls) = acceptTimesOf ip calls := by
  cases c with
  | canAccept now ip => exact absurd rfl (hc now ip)
  | _ => rfl

/-- The decisions about an IP are those of its limiter at the times of its calls. -/
theorem decisionsOf_eq (m : SessionManager) (ip : Str) (calls : List ManagerCall) :
    m.decisionsOf ip calls = decisions m.limits (m.limiter ip) (acceptTimesOf ip calls) := by
  induction calls generalizing m with
  | nil => rfl
  | cons c calls ih =>
    by_cases hc : ∀ now k, c ≠ .canAccept now k
    · obtain ⟨hlimits, hlimiter⟩ := same_call m hc
      rw [decisionsOf, outcomes_of_other hc, acceptTimesOf_of_other hc, ← hlimits, ← hlimiter]
      exact ih (m.call c)
    · push Not at hc
      obtain ⟨now, k, rfl⟩ := hc
      have hrest := ih (m.canAccept now k).2
      rw [limits_canAccept, limiter_canAccept] at hrest
      rw [decisionsOf, outcomes, List.filter_cons]
      by_cases hk : k = ip
      · subst hk
        have htimes : acceptTimesOf k (.canAccept now k :: calls) = now :: acceptTimesOf k calls := by
          simp [acceptTimesOf, ManagerCall.attempt?]
        rw [if_pos rfl] at hrest
        simp only [decide_true, if_true, List.map_cons]
        rw [htimes, decisions]
        exact congrArg₂ _ (Prod.ext rfl ((shows_canAccept m now k).decision now k)) hrest
      · have htimes : acceptTimesOf ip (.canAccept now k :: calls) = acceptTimesOf ip calls := by
          simp [acceptTimesOf, ManagerCall.attempt?, hk]
        rw [if_neg (Ne.symm hk)] at hrest
        simp only [hk, decide_false, Bool.false_eq_true, if_false]
        rw [htimes]
        exact hrest

/-- Who does not pass the rate check is rejected. -/
private theorem rejected_of_mem {calls : List ManagerCall} {o : CheckOutcome} (ho : o ∈ m.outcomes calls)
    (hd : o.decision ≠ .passed) : o.accepted = false := by
  induction calls generalizing m with
  | nil => cases ho
  | cons c calls ih =>
    by_cases hc : ∀ now k, c ≠ .canAccept now k
    · rw [outcomes_of_other hc] at ho
      exact ih ho
    · push Not at hc
      obtain ⟨now, ip, rfl⟩ := hc
      rw [outcomes, List.mem_cons] at ho
      rcases ho with rfl | ho
      · have hshows := shows_canAccept m now ip
        exact hshows.rejected (hshows.decision now ip ▸ hd)
      · exact ih ho

private theorem acceptTimesOf_sublist (ip : Str) (calls : List ManagerCall) :
    (acceptTimesOf ip calls).Sublist (acceptTimes calls) :=
  List.filter_sublist.map Prod.fst

private theorem countP_passed_le_max (m : SessionManager) {calls : List ManagerCall}
    (h : (acceptTimes calls).Pairwise (· ≤ ·)) (ip : Str) {W : ℚ → Prop} [DecidablePred W]
    (hW : ∀ x y, W x → W y → y - x < 60) :
    (m.outcomes calls).countP (fun o => o.ip = ip ∧ o.decision = .passed ∧ W o.now) ≤ m.maxConnectionsPerMinute := by
  have hsorted : (acceptTimesOf ip calls).Pairwise (· ≤ ·) := h.sublist (acceptTimesOf_sublist ip calls)
  have hle : (m.decisionsOf ip calls).countP (fun d => d.2 = .passed ∧ W d.1) ≤ m.maxConnectionsPerMinute := by
    rw [decisionsOf_eq]
    exact @countP_passed_le ℚ _ _ _ m.limits W _ hW _ hsorted (m.limiter ip)
  rw [decisionsOf, List.countP_map, List.countP_filter] at hle
  refine Nat.le_trans (Nat.le_of_eq (List.countP_congr fun o _ => ?_)) hle
  simp only [Function.comp_def, decide_eq_true_eq, Bool.and_eq_true]
  exact and_comm

/-- What holds along the outcomes of each IP holds between outcomes of one IP. -/
private theorem pairwise_of_filter {R : CheckOutcome → CheckOutcome → Prop} {os : List CheckOutcome}
    (h : ∀ ip, (os.filter (·.ip = ip)).Pairwise R) : os.Pairwise fun o o' => o'.ip = o.ip → R o o' := by
  induction os with
  | nil => exact List.Pairwise.nil
  | cons o os ih =>
    refine List.pairwise_cons.2 ⟨fun o' ho' hip => ?_, ih fun ip => ?_⟩
    · have ho := h o.ip
      rw [List.filter_cons_of_pos (by simp)] at ho
      exact (List.pairwise_cons.1 ho).1 o' (List.mem_filter.2 ⟨ho', by simpa using hip⟩)
    · exact (h ip).sublist ((List.sublist_cons_self o os).filter _)

end SessionManager

open SessionManager

theorem rateLaws (maxSessions maxSessionsPerIp maxConnectionsPerMinute : ℕ) (banDuration : ℚ)
    (calls : List ManagerCall) (h : (acceptTimes calls).Pairwise (· ≤ ·)) :
    RateLaws (init maxSessions maxSessionsPerIp maxConnectionsPerMinute banDuration) calls where
  window ip start := by
    constructor
    · refine countP_passed_le_max _ h ip (W := fun t => start ≤ t ∧ t < start + 60) fun x y hx hy => ?_
      linarith only [hx.1, hy.2]
    · refine countP_passed_le_max _ h ip (W := fun t => start < t ∧ t ≤ start + 60) fun x y hx hy => ?_
      linarith only [hx.1, hy.2]
  banned := by
    set m := init maxSessions maxSessionsPerIp maxConnectionsPerMinute banDuration
    have hpairs : (m.outcomes calls).Pairwise fun o o' => o'.ip = o.ip →
        o.decision = .exceeded → o'.now < o.now + m.banDuration → o'.decision = .banned := by
      refine pairwise_of_filter fun ip => ?_
      have hsorted : (acceptTimesOf ip calls).Pairwise (· ≤ ·) := h.sublist (acceptTimesOf_sublist ip calls)
      have hp := @pairwise_banned _ _ _ m.limits _ hsorted (m.limiter ip)
      rw [← decisionsOf_eq, decisionsOf, List.pairwise_map] at hp
      exact hp
    refine hpairs.imp_of_mem fun _ ho' hp hexceeded hip hlt => rejected_of_mem ho' ?_
    rw [hp hip hexceeded hlt]
    decide
  independent ip calls' hsame := by rw [decisionsOf_eq, decisionsOf_eq, hsame]

/-- Two connections in a minute, the third one is banned for a second, and another IP is not. -/
theorem rateLaws_threeCalls :
    RateLaws (init 100 10 2 1) [.canAccept 0 "a".toList, .canAccept 0 "a".toList, .canAccept 0 "a".toList,
      .canAccept 0 "b".toList, .canAccept (1 / 2) "a".toList, .canAccept 61 "a".toList] :=
  rateLaws 100 10 2 1 _ (by decide +kernel)

end Cyanide
