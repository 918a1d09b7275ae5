import Cyanide.Core.LibvirtPool

/-!
# Leases of the proxies

`TCPProxy.handle_client` and `ProxyServerSession` as machines that go from one `await` to the next.  What ends an
`await` is an event: its result, an exception below `Exception`, or a cancellation.  A `ClientHandler` holds its lease
from the reservation on and releases it in its `finally` block, which begins behind the connection to the target.  A
`ProxySession` reserves in a background task and releases in `connection_lost`, whichever comes first.
-/

namespace Cyanide

open Transition

inductive TaskState where
  | notStarted
  | running
  /-- Done, or asked to end by `cancel`. -/
  | ended
  deriving DecidableEq

/-! ### The TCP proxy -/

/-- Where `handle_client` waits. -/
inductive ClientPc where
  | reserving
  | connecting
  | forwarding
  | closingTarget
  | closingClient
  | releasing
  | finished
  deriving DecidableEq

structure ClientHandler where
  pc : ClientPc
  lease : Option Lease
  /-- How often `release_target` was run to its end. -/
  releases : ℕ
  clientToTarget : TaskState
  targetToClient : TaskState

inductive ClientEvent where
  | reserved (lease : Option Lease)
  | connected
  /-- One of the two forwarding tasks ends. -/
  | forwarded (toTarget : Bool)
  | closed
  | released
  | raised
  | cancelled

namespace ClientHandler

variable (s : ClientHandler)

def start (pool : Bool) : ClientHandler := ⟨if pool then .reserving else .connecting, none, 0, .notStarted, .notStarted⟩

def goto (pc : ClientPc) : ClientHandler := { s with pc }

def endTask (toTarget : Bool) : ClientHandler :=
  if toTarget then { s with clientToTarget := if s.clientToTarget = .running then .ended else s.clientToTarget }
  else { s with targetToClient := if s.targetToClient = .running then .ended else s.targetToClient }

/-- The end of the `finally` block. -/
def afterClosing : ClientHandler := s.goto (if s.lease.isSome then .releasing else .finished)

/-- A step of `handle_client`. -/
def step : ClientEvent → ClientHandler
  | .reserved lease =>
    if s.pc = .reserving then { s with lease, pc := if lease.isSome then .connecting else .finished } else s
  | .connected =>
    if s.pc = .connecting then { s with pc := .forwarding, clientToTarget := .running, targetToClient := .running }
    else s
  | .forwarded toTarget =>
    -- the first task that ends also has the other one cancelled
    if s.pc = .forwarding then { s with pc := .closingTarget, clientToTarget := .ended, targetToClient := .ended }
    else s.endTask toTarget
  | .closed =>
    match s.pc with
    | .closingTarget => s.goto .closingClient
    | .closingClient => s.afterClosing
    | _ => s
  | .released => if s.pc = .releasing then { s with pc := .finished, releases := s.releases + 1 } else s
  | .raised =>
    match s.pc with
    | .forwarding => s.goto .closingTarget
    | .closingTarget | .closingClient => s.afterClosing
    | _ => s.goto .finished
  | .cancelled => if s.pc = .forwarding then s.goto .closingTarget else s.goto .finished

/-- When the handler has finished, its lease was released once and no task is left. -/
def Clean (s : ClientHandler) : Prop :=
  s.pc = .finished → s.releases = (if s.lease.isSome then 1 else 0) ∧ s.clientToTarget ≠ .running ∧
    s.targetToClient ≠ .running

/-- No failure to connect with a lease, nothing but the end of a task ends the forwarding, and no cancellation between
that and the release. -/
def Calm (s : ClientHandler) : ClientEvent → Prop
  | .raised => s.pc ≠ .forwarding ∧ s.pc ≠ .releasing ∧ (s.pc = .connecting → s.lease = none)
  | .cancelled => s.pc ≠ .forwarding ∧ s.pc ≠ .releasing ∧
      (s.pc = .connecting ∨ s.pc = .closingTarget ∨ s.pc = .closingClient → s.lease = none)
  | .reserved _ => True
  | .connected => True
  | .forwarded _ => True
  | .closed => True
  | .released => True

/-- What holds at each `await`. -/
def Inv (s : ClientHandler) : Prop :=
  match s.pc with
  | .reserving => s.lease = none ∧ s.releases = 0 ∧ s.clientToTarget ≠ .running ∧ s.targetToClient ≠ .running
  | .connecting => s.releases = 0 ∧ s.clientToTarget ≠ .running ∧ s.targetToClient ≠ .running
  | .forwarding => s.releases = 0
  | .closingTarget | .closingClient =>
    s.releases = 0 ∧ s.clientToTarget ≠ .running ∧ s.targetToClient ≠ .running
  | .releasing =>
    s.lease.isSome = true ∧ s.releases = 0 ∧ s.clientToTarget ≠ .running ∧ s.targetToClient ≠ .running
  | .finished =>
    s.releases = (if s.lease.isSome then 1 else 0) ∧ s.clientToTarget ≠ .running ∧ s.targetToClient ≠ .running

variable {s}

theorem inv_start (pool : Bool) : Inv (start pool) := by
  cases pool <;> simp [start, Inv]

theorem Inv.clean (h : Inv s) : s.Clean := by
  intro hpc
  rw [Inv, hpc] at h
  exact h

private theorem inv_endTask (h : Inv s) (hpc : s.pc ≠ .forwarding) (toTarget : Bool) : Inv (s.endTask toTarget) := by
  obtain ⟨pc, lease, releases, a, b⟩ := s
  cases toTarget <;> cases pc <;> simp_all [Inv, endTask]

private theorem inv_afterClosing (hr : s.releases = 0) (ha : s.clientToTarget ≠ .running)
    (hb : s.targetToClient ≠ .running) : Inv s.afterClosing := by
  obtain ⟨pc, lease, releases, a, b⟩ := s
  cases lease with
  | none => exact ⟨hr, ha, hb⟩
  | some l => exact ⟨rfl, hr, ha, hb⟩

theorem Inv.step (h : Inv s) {e : ClientEvent} (hg : s.Calm e) : Inv (s.step e) := by
  obtain ⟨pc, lease, releases, a, b⟩ := s
  cases e with
  | reserved l =>
    cases pc with
    | reserving =>
      obtain ⟨-, hr, ha, hb⟩ := h
      cases l with
      | none => exact ⟨hr, ha, hb⟩
      | some l => exact ⟨hr, ha, hb⟩
    | _ => exact h
  | connected =>
    cases pc with
    | connecting => exact h.1
    | _ => exact h
  | forwarded toTarget =>
    cases pc with
    | forwarding =>
      have hended : TaskState.ended ≠ .running := by decide
      exact ⟨h, hended, hended⟩
    | _ => exact inv_endTask h (by simp) toTarget
  | closed =>
    cases pc with
    | closingTarget => exact h
    | closingClient => exact inv_afterClosing h.1 h.2.1 h.2.2
    | _ => exact h
  | released =>
    cases pc with
    | releasing =>
      obtain ⟨hl, hr, ha, hb⟩ := h
      refine ⟨?_, ha, hb⟩
      show releases + 1 = if lease.isSome then 1 else 0
      rw [if_pos hl, show releases = 0 from hr]
    | _ => exact h
  | raised =>
    obtain ⟨hforward, hrelease, hconnect⟩ := hg
    cases pc with
    | reserving =>
      obtain ⟨hl, hr, ha, hb⟩ := h
      refine ⟨?_, ha, hb⟩
      rw [show releases = 0 from hr, show lease = none from hl]
      rfl
    | connecting =>
      obtain ⟨hr, ha, hb⟩ := h
      refine ⟨?_, ha, hb⟩
      rw [show releases = 0 from hr, show lease = none from hconnect rfl]
      rfl
    | forwarding => exact absurd rfl hforward
    | closingTarget => exact inv_afterClosing h.1 h.2.1 h.2.2
    | closingClient => exact inv_afterClosing h.1 h.2.1 h.2.2
    | releasing => exact absurd rfl hrelease
    | finished => exact h
  | cancelled =>
    obtain ⟨hforward, hrelease, hlease⟩ := hg
    -- what is left are the awaits without a lease
    have hdone : ∀ {c d : TaskState}, releases = 0 → lease = none → c ≠ .running → d ≠ .running →
        Inv ⟨.finished, lease, releases, c, d⟩ := by
      rintro c d rfl rfl hc hd
      exact ⟨rfl, hc, hd⟩
    cases pc with
    | reserving => exact hdone h.2.1 h.1 h.2.2.1 h.2.2.2
    | connecting => exact hdone h.1 (hlease (.inl rfl)) h.2.1 h.2.2
    | forwarding => exact absurd rfl hforward
    | closingTarget => exact hdone h.1 (hlease (.inr (.inl rfl))) h.2.1 h.2.2
    | closingClient => exact hdone h.1 (hlease (.inr (.inr rfl))) h.2.1 h.2.2
    | releasing => exact absurd rfl hrelease
    | finished => exact h

end ClientHandler

/-! ### The SSH proxy -/

/-- Where `_connect_backend` waits. -/
inductive BackendPc where
  | reserving
  | connecting
  | awaitingRequest
  | creatingSession
  | finished
  deriving DecidableEq

structure ProxySession where
  connect : BackendPc
  lease : Option Lease
  /-- Whether a shell or a command was requested. -/
  requested : Bool
  /-- Whether there is a connection to the backend, and whether it was closed. -/
  backend : TaskState
  sendTask : TaskState
  /-- Whether `connection_lost` was called. -/
  lost : Bool
  /-- The task that `connection_lost` starts to release the lease. -/
  releaseTask : TaskState
  releases : ℕ

inductive ProxyEvent where
  | reserved (lease : Option Lease)
  | connected
  | requested
  | sessionCreated
  /-- The `await` of `_connect_backend` raises. -/
  | raised
  | connectionLost
  | released
  | releaseRaised
  deriving DecidableEq

namespace ProxySession

variable (s : ProxySession)

/-- The session after `connection_made`, which starts `_connect_backend`. -/
def start (pool : Bool) : ProxySession :=
  ⟨if pool then .reserving else .connecting, none, false, .notStarted, .notStarted, false, .notStarted, 0⟩

/-- `connection_lost`. -/
def connectionLost : ProxySession :=
  { s with
    lost := true
    sendTask := if s.sendTask = .running then .ended else s.sendTask
    backend := if s.backend = .running then .ended else s.backend
    releaseTask := if s.lease.isSome then .running else s.releaseTask }

def step : ProxyEvent → ProxySession
  | .reserved lease =>
    if s.connect = .reserving then { s with lease, connect := if lease.isSome then .connecting else .finished } else s
  | .connected =>
    if s.connect = .connecting then
      { s with backend := .running, connect := if s.requested then .creatingSession else .awaitingRequest }
    else s
  | .requested =>
    if s.lost then s
    else
      { s with
        requested := true
        connect := if s.connect = .awaitingRequest then .creatingSession else s.connect }
  | .sessionCreated =>
    if s.connect = .creatingSession then { s with sendTask := .running, connect := .finished } else s
  | .raised => if s.connect = .awaitingRequest then s else { s with connect := .finished }
  | .connectionLost => if s.lost then s else s.connectionLost
  | .released =>
    if s.releaseTask = .running then { s with releaseTask := .ended, releases := s.releases + 1 } else s
  | .releaseRaised => if s.releaseTask = .running then { s with releaseTask := .ended } else s

/-- The connection is lost, and no task of the session will take another step. -/
def Settled (s : ProxySession) : Prop :=
  s.lost = true ∧ (s.connect = .finished ∨ s.connect = .awaitingRequest) ∧ s.releaseTask ≠ .running

/-- When the session has settled, its lease was released once and no task is left. -/
def Clean (s : ProxySession) : Prop :=
  s.Settled → s.releases = (if s.lease.isSome then 1 else 0) ∧ s.connect = .finished ∧ s.sendTask ≠ .running

/-- The reservation comes before the loss of the connection, as does the session with the backend; nobody waits for a
request that does not come any more; and the release does not fail. -/
def Calm (s : ProxySession) : ProxyEvent → Prop
  | .reserved lease => s.connect = .reserving → s.lost = true → lease = none
  | .connected => s.connect = .connecting → s.lost = true → s.requested = true
  | .sessionCreated => s.connect = .creatingSession → s.lost = false
  | .connectionLost => s.lost = false → s.connect ≠ .awaitingRequest
  | .releaseRaised => s.releaseTask ≠ .running
  | .requested => True
  | .raised => True
  | .released => True

structure Inv (s : ProxySession) : Prop where
  reserving : s.connect = .reserving → s.lease = none
  waiting : s.connect = .awaitingRequest → s.lost = false
  quiet : s.lost = true → s.sendTask ≠ .running
  early : s.lost = false → s.releaseTask = .notStarted ∧ s.releases = 0
  noLease : s.lost = true → s.lease = none → s.releaseTask ≠ .running ∧ s.releases = 0
  leased : s.lost = true → s.lease.isSome = true →
    (s.releaseTask = .running ∧ s.releases = 0) ∨ (s.releaseTask = .ended ∧ s.releases = 1)

variable {s}

theorem inv_start (pool : Bool) : Inv (start pool) := by
  constructor <;> cases pool <;> simp [start]

theorem Inv.clean (h : Inv s) : s.Clean := by
  rintro ⟨hlost, hconnect, hrelease⟩
  refine ⟨?_, ?_, h.quiet hlost⟩
  · cases hl : s.lease with
    | none => exact (h.noLease hlost hl).2
    | some l =>
      rcases h.leased hlost (by rw [hl]; rfl) with ⟨hr, -⟩ | ⟨-, hr⟩
      · exact absurd hr hrelease
      · exact hr
  · refine hconnect.resolve_right fun hw => ?_
    rw [h.waiting hw] at hlost
    cases hlost

private theorem inv_connectionLost (h : Inv s) (hlost : s.lost = false) (hw : s.connect ≠ .awaitingRequest) :
    Inv s.connectionLost := by
  obtain ⟨hrelease, hreleases⟩ := h.early hlost
  refine ⟨h.reserving, fun hc => absurd hc hw, fun _ => ?_, (fun hc => by cases hc), fun _ hl => ?_, fun _ hl => ?_⟩
  · show (if s.sendTask = .running then TaskState.ended else s.sendTask) ≠ .running
    split
    · simp
    · assumption
  · have hl : s.lease = none := hl
    refine ⟨?_, hreleases⟩
    show (if s.lease.isSome then TaskState.running else s.releaseTask) ≠ .running
    rw [hl, hrelease]
    simp
  · have hl : s.lease.isSome = true := hl
    refine .inl ⟨?_, hreleases⟩
    show (if s.lease.isSome then TaskState.running else s.releaseTask) = .running
    rw [if_pos hl]

theorem Inv.step (h : Inv s) {e : ProxyEvent} (hg : s.Calm e) : Inv (s.step e) := by
  cases e with
  | reserved l =>
    show Inv (if s.connect = .reserving then { s with lease := l, connect := if l.isSome then .connecting else .finished }
      else s)
    split
    · rename_i hc
      have hconnect : ∀ pc, (if l.isSome then BackendPc.connecting else .finished) = pc → pc ≠ .reserving ∧
          pc ≠ .awaitingRequest := by
        rintro _ rfl
        split <;> simp
      refine ⟨fun h' => absurd h' (hconnect _ rfl).1, fun h' => absurd h' (hconnect _ rfl).2, h.quiet, h.early,
        fun hlost _ => ?_, fun hlost hl => ?_⟩
      · exact h.noLease hlost (h.reserving hc)
      · have hl : l.isSome = true := hl
        rw [hg hc hlost] at hl
        cases hl
    · exact h
  | connected =>
    show Inv (if s.connect = .connecting then
      { s with backend := .running, connect := if s.requested then .creatingSession else .awaitingRequest } else s)
    split
    · rename_i hc
      refine ⟨fun h' => ?_, fun h' => ?_, h.quiet, h.early, h.noLease, h.leased⟩
      · have h' : (if s.requested then BackendPc.creatingSession else .awaitingRequest) = .reserving := h'
        split at h' <;> cases h'
      · have h' : (if s.requested then BackendPc.creatingSession else .awaitingRequest) = .awaitingRequest := h'
        by_contra hlost
        rw [Bool.not_eq_false] at hlost
        rw [hg hc hlost] at h'
        cases h'
    · exact h
  | requested =>
    show Inv (if s.lost then s else { s with
      requested := true, connect := if s.connect = .awaitingRequest then .creatingSession else s.connect })
    split
    · exact h
    · refine ⟨fun h' => ?_, fun h' => ?_, h.quiet, h.early, h.noLease, h.leased⟩
      · have h' : (if s.connect = .awaitingRequest then BackendPc.creatingSession else s.connect) = .reserving := h'
        split at h'
        · cases h'
        · exact h.reserving h'
      · have h' : (if s.connect = .awaitingRequest then BackendPc.creatingSession else s.connect) =
          .awaitingRequest := h'
        split at h'
        · cases h'
        · contradiction
  | sessionCreated =>
    show Inv (if s.connect = .creatingSession then { s with sendTask := .running, connect := .finished } else s)
    split
    · rename_i hc
      have hlost := hg hc
      refine ⟨(fun h' => by cases h'), (fun h' => by cases h'), fun h' => ?_, h.early, h.noLease, h.leased⟩
      have h' : s.lost = true := h'
      rw [hlost] at h'
      cases h'
    · exact h
  | raised =>
    show Inv (if s.connect = .awaitingRequest then s else { s with connect := .finished })
    split
    · exact h
    · exact ⟨(fun h' => by cases h'), (fun h' => by cases h'), h.quiet, h.early, h.noLease, h.leased⟩
  | connectionLost =>
    show Inv (if s.lost then s else s.connectionLost)
    split
    · exact h
    · rename_i hlost
      rw [Bool.not_eq_true] at hlost
      exact inv_connectionLost h hlost (hg hlost)
  | released =>
    show Inv (if s.releaseTask = .running then { s with releaseTask := .ended, releases := s.releases + 1 } else s)
    split
    · rename_i hr
      refine ⟨h.reserving, h.waiting, h.quiet, fun hlost => ?_, fun hlost hl => ?_, fun hlost hl => ?_⟩
      · have := (h.early hlost).1
        rw [hr] at this
        cases this
      · exact absurd hr (h.noLease hlost hl).1
      · rcases h.leased hlost hl with ⟨-, h0⟩ | ⟨he, -⟩
        · exact .inr ⟨rfl, by show s.releases + 1 = 1; omega⟩
        · rw [hr] at he
          cases he
    · exact h
  | releaseRaised =>
    show Inv (if s.releaseTask = .running then { s with releaseTask := .ended } else s)
    rw [if_neg hg]
    exact h

end ProxySession

/-! ### Runs -/

/-- In calm runs, a TCP handler and an SSH session that have come to their end released their lease once, and left no
task behind. -/
theorem clean_run (pool : Bool) :
    (∀ events, Meets ClientHandler.step ClientHandler.Calm (.start pool) events →
      ∀ es, es <+: events → (run ClientHandler.step (.start pool) es).Clean) ∧
    (∀ events, Meets ProxySession.step ProxySession.Calm (.start pool) events →
      ∀ es, es <+: events → (run ProxySession.step (.start pool) es).Clean) := by
  refine ⟨fun events hG es hes => ?_, fun events hG es hes => ?_⟩
  · exact (invariant_of_steps (I := ClientHandler.Inv) (fun s e h hg => h.step hg) (ClientHandler.inv_start pool)
      (hG.initial hes)).clean
  · exact (invariant_of_steps (I := ProxySession.Inv) (fun s e h hg => h.step hg) (ProxySession.inv_start pool)
      (hG.initial hes)).clean

/-- A lease on a machine. -/
def exampleLease : Lease := ⟨"10.0.0.2".toList, 22, "vm".toList, "ssh".toList, "s".toList, 0⟩

theorem clean_run_calm :
    (run ClientHandler.step (.start true)
      [.reserved (some exampleLease), .connected, .forwarded true, .closed, .closed, .released]).Clean ∧
    (run ProxySession.step (.start true)
      [.reserved (some exampleLease), .connected, .requested, .sessionCreated, .connectionLost, .released]).Clean :=
  ⟨(clean_run true).1 _ (by simp [ClientHandler.Calm]) _ (List.prefix_refl _),
    (clean_run true).2 _ (by simp [ProxySession.Calm, ProxySession.start, ProxySession.step]) _ (List.prefix_refl _)⟩

/-- When the target cannot be reached, the lease of the TCP handler is not released. -/
theorem not_clean_raised :
    ¬(run ClientHandler.step (.start true) [.reserved (some exampleLease), .raised]).Clean := by
  intro h
  exact absurd (h (by decide)).1 (by decide)

/-- When the client is gone before the reservation, nobody releases the lease of the SSH session. -/
theorem not_clean_reserved :
    ¬(run ProxySession.step (.start true) [.connectionLost, .reserved (some exampleLease), .raised]).Clean := by
  intro h
  exact absurd (h ⟨by decide, .inl (by decide), by decide⟩).1 (by decide)

end Cyanide
