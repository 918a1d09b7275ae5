import Cyanide.Lib.IpAddress
import Cyanide.Vfs.Nodes

/-!
# Direct forwarding

What becomes of a `direct-tcpip` request.  The policy of `_get_forward_target` is used by `direct_tcpip`, which nothing
calls: asyncssh asks `connection_requested` and, when that returns `True`, connects to the requested destination itself.
-/

namespace Cyanide

open PosixPath PyText

/-- The `ssh` section of the configuration. -/
structure SshConfig where
  forwardingEnabled : Bool := false
  forwardingStrictMode : Bool := true
  forwardRedirectEnabled : Bool := false
  forwardRedirectRules : Dict Str := ∅
  forwardTunnelEnabled : Bool := false
  forwardTunnelRules : Dict Str := ∅

namespace SshConfig

variable (U : Unicode) (c : SshConfig)

/-- The target of the first enabled table that names the port, and the mode. -/
def ruleFor (port : Str) : Option (Str × Str) :=
  match if c.forwardRedirectEnabled then c.forwardRedirectRules.lookup port else none with
  | some target => some (target, "redirect".toList)
  | none =>
    match if c.forwardTunnelEnabled then c.forwardTunnelRules.lookup port else none with
    | some target => some (target, "tunnel".toList)
    | none => none

/-- Host and port of a rule's target; `none` is the `ValueError` of `int`. -/
def parseTarget (target : Str) (port : ℕ) : Option (Str × Int) :=
  match partition ':' target with
  | (host, some port) => (readInt U port).map (host, ·)
  | (_, none) => some (target, port)

/-- `_is_safe_target`. -/
def isSafeTarget (host : Str) (ruleFound strictMode : Bool) : Bool :=
  match IpAddress.read host with
  | some ip => if ip.isLoopback || ip.isPrivate || ip.isLinkLocal || ip.isMulticast then ruleFound else true
  | none =>
    if !ruleFound && strictMode then
      !(["localhost".toList, "127.0.0.1".toList, "::1".toList].contains (U.lower host))
    else true

/-- `_get_forward_target`: host, port and mode, or `none` for a `ValueError`. -/
def getForwardTarget (destHost : Str) (destPort : ℕ) : Option (Str × Int × Str) :=
  let blocked (mode : String) : Option (Str × Int × Str) := some ("127.0.0.1".toList, 0, mode.toList)
  match c.ruleFor (natText destPort) with
  | some (target, mode) =>
    (parseTarget U target destPort).map fun (host, port) =>
      if isSafeTarget U host true c.forwardingStrictMode then (host, port, mode)
      else ("127.0.0.1".toList, 0, "anti_pivot_block".toList)
  | none =>
    if !isSafeTarget U destHost false c.forwardingStrictMode then blocked "anti_pivot_block"
    else if c.forwardingStrictMode then blocked "strict_policy_block"
    else some (destHost, destPort, "allowed".toList)

def directTcpipRequested (_destHost : Str) (_destPort : ℕ) : Bool := c.forwardingEnabled

/-- `connection_requested`. -/
def connectionRequested (_destHost : Str) (_destPort : ℕ) : Bool := c.forwardingEnabled

/-- The connection that asyncssh opens for a request. -/
def opened (net : Internet) (destHost : Str) (destPort : ℕ) : Option (IpAddress × Int) :=
  if c.connectionRequested destHost destPort then net.connect destHost destPort else none

/-- The connection that `direct_tcpip` would open in `_bridge_tcpip`. -/
def bridged (net : Internet) (destHost : Str) (destPort : ℕ) : Option (IpAddress × Int) :=
  match c.getForwardTarget U destHost destPort with
  | some (host, port, _) => net.connect host port
  | none => none

/-- Where a connection for the request may go. -/
structure Confined (net : Internet) (destHost : Str) (destPort : ℕ) (connection : Option (IpAddress × Int)) : Prop where
  strict : c.ruleFor (natText destPort) = none → c.forwardingStrictMode = true → connection = none
  outside : c.ruleFor (natText destPort) = none →
    ∀ ip port, connection = some (ip, port) → ip.isLocal = false ∧ ip.isMulticast = false
  ruled : ∀ target mode, c.ruleFor (natText destPort) = some (target, mode) →
    ∀ ip port, connection = some (ip, port) → ∃ host, parseTarget U target destPort = some (host, port) ∧
      ip ∈ net.resolve host

/-- Forwarding is off, or the address that the destination leads to is one that the policy has nothing against. -/
def Permitted (net : Internet) (destHost : Str) (destPort : ℕ) : Prop :=
  c.forwardingEnabled = true → ∀ ip ∈ (net.resolve destHost).find? (net.accepts · destPort),
    match c.ruleFor (natText destPort) with
    | none => c.forwardingStrictMode = false ∧ ip.isLocal = false ∧ ip.isMulticast = false
    | some (target, _) => ∃ host, parseTarget U target destPort = some (host, (destPort : Int)) ∧ ip ∈ net.resolve host

variable {U} {c} {net : Internet} {destHost : Str} {destPort : ℕ}

/-- The rules and the strict mode do not matter: two configurations that both forward open the same connection. -/
theorem opened_congr {c' : SshConfig} (h : c.forwardingEnabled = c'.forwardingEnabled) :
    c.opened net destHost destPort = c'.opened net destHost destPort := by
  rw [opened, opened, connectionRequested, connectionRequested, h]

end SshConfig

open SshConfig

theorem confined_opened_iff (U : Unicode) (c : SshConfig) (net : Internet) (destHost : Str) (destPort : ℕ) :
    c.Confined U net destHost destPort (c.opened net destHost destPort) ↔ c.Permitted U net destHost destPort := by
  unfold opened connectionRequested Permitted
  by_cases henabled : c.forwardingEnabled = true
  · rw [if_pos henabled, forall_prop_of_true henabled]
    constructor
    · intro h ip hip
      have hconnect : net.connect destHost destPort = some (ip, (destPort : Int)) :=
        Internet.connect_eq_some_iff.2 ⟨hip, rfl⟩
      split
      · rename_i hrule
        have hstrict : c.forwardingStrictMode = false := by
          rw [Bool.eq_false_iff]
          intro hstrict
          rw [h.strict hrule hstrict] at hconnect
          cases hconnect
        exact ⟨hstrict, h.outside hrule ip _ hconnect⟩
      · rename_i target mode hrule
        exact h.ruled target mode hrule ip _ hconnect
    · intro h
      refine ⟨fun hrule hstrict => ?_, fun hrule ip port hconnect => ?_, fun target mode hrule ip port hconnect => ?_⟩
      · cases hfind : (net.resolve destHost).find? (net.accepts · destPort) with
        | none => rw [Internet.connect, hfind, Option.map_none]
        | some ip =>
          have hip := h ip hfind
          rw [hrule] at hip
          exact absurd (hstrict.symm.trans hip.1) Bool.noConfusion
      · have hip := h ip (Internet.connect_eq_some_iff.1 hconnect).1
        rw [hrule] at hip
        exact hip.2
      · obtain ⟨hip, rfl⟩ := Internet.connect_eq_some_iff.1 hconnect
        have hrest := h ip hip
        rw [hrule] at hrest
        exact hrest
  · rw [if_neg henabled]
    refine iff_of_true ⟨fun _ _ => rfl, fun _ _ _ hnone => ?_, fun _ _ _ _ _ hnone => ?_⟩
      fun henabled' => absurd henabled' henabled
    · cases hnone
    · cases hnone

/-! ### What the policy would do -/

namespace SshConfig

variable {U : Unicode} {c : SshConfig} {net : Internet} {destHost : Str} {destPort : ℕ}

/-- A rule's target is always safe. -/
theorem isSafeTarget_ruled (host : Str) (strictMode : Bool) : isSafeTarget U host true strictMode = true := by
  unfold isSafeTarget
  split
  · split <;> rfl
  · rfl

private theorem confined_none : c.Confined U net destHost destPort none where
  strict _ _ := rfl
  outside _ _ _ h := by cases h
  ruled _ _ _ _ _ h := by cases h

private theorem confined_bridged_of_rule {target mode : Str}
    (hrule : c.ruleFor (natText destPort) = some (target, mode)) :
    c.Confined U net destHost destPort (c.bridged U net destHost destPort) := by
  rw [bridged, getForwardTarget, hrule]
  dsimp only
  cases htarget : parseTarget U target destPort with
  | none => exact confined_none
  | some found =>
    obtain ⟨host, port⟩ := found
    rw [Option.map_some]
    dsimp only
    rw [if_pos (isSafeTarget_ruled host _)]
    refine ⟨fun hnone => ?_, fun hnone => ?_, fun target' mode' hrule' ip p hconnect => ?_⟩
    · cases hrule.symm.trans hnone
    · cases hrule.symm.trans hnone
    · obtain ⟨rfl, rfl⟩ := Prod.mk.inj (Option.some.inj (hrule.symm.trans hrule'))
      obtain ⟨hmem, rfl⟩ := Internet.mem_resolve_of_connect hconnect
      exact ⟨host, htarget, hmem⟩

/-- What is blocked goes to port 0. -/
private theorem bridged_of_blocked (hclosed : ∀ ip, net.accepts ip 0 = false)
    (hrule : c.ruleFor (natText destPort) = none)
    (h : isSafeTarget U destHost false c.forwardingStrictMode = false ∨ c.forwardingStrictMode = true) :
    c.bridged U net destHost destPort = none := by
  rw [bridged, getForwardTarget, hrule]
  cases hsafe : isSafeTarget U destHost false c.forwardingStrictMode with
  | false => exact Internet.connect_eq_none hclosed _
  | true =>
    rw [h.resolve_left (by rw [hsafe]; exact Bool.noConfusion)]
    exact Internet.connect_eq_none hclosed _

private theorem bridged_of_allowed (hrule : c.ruleFor (natText destPort) = none)
    (hsafe : isSafeTarget U destHost false c.forwardingStrictMode = true) (hloose : c.forwardingStrictMode = false) :
    c.bridged U net destHost destPort = net.connect destHost destPort := by
  rw [bridged, getForwardTarget, hrule, hsafe, hloose]
  rfl

/-- Without a rule and not in strict mode, only the address matters. -/
private theorem confined_connect_iff (hrule : c.ruleFor (natText destPort) = none)
    (hloose : c.forwardingStrictMode = false) :
    c.Confined U net destHost destPort (net.connect destHost destPort) ↔
      ∀ ip ∈ (net.resolve destHost).find? (net.accepts · destPort), ip.isLocal = false ∧ ip.isMulticast = false := by
  constructor
  · intro h ip hip
    exact h.outside hrule ip destPort (Internet.connect_eq_some_iff.2 ⟨hip, rfl⟩)
  · intro h
    refine ⟨fun _ htrue => ?_, fun _ ip port hconnect => ?_, fun _ _ hsome => ?_⟩
    · exact absurd (hloose.symm.trans htrue) Bool.noConfusion
    · exact h ip (Internet.connect_eq_some_iff.1 hconnect).1
    · cases hrule.symm.trans hsome

/-- The policy would keep what it promises but for names: they are not checked after they are resolved. -/
theorem confined_bridged_iff (hclosed : ∀ ip, net.accepts ip 0 = false)
    (hliteral : ∀ host ip, IpAddress.read host = some ip → net.resolve host = [ip]) :
    c.Confined U net destHost destPort (c.bridged U net destHost destPort) ↔
      (c.ruleFor (natText destPort) = none → c.forwardingStrictMode = false → IpAddress.read destHost = none →
        ∀ ip ∈ (net.resolve destHost).find? (net.accepts · destPort), ip.isLocal = false ∧ ip.isMulticast = false) := by
  cases hrule : c.ruleFor (natText destPort) with
  | some rule => exact iff_of_true (confined_bridged_of_rule hrule) fun hnone => by cases hnone
  | none =>
    rw [forall_prop_of_true rfl]
    cases hmode : c.forwardingStrictMode with
    | true =>
      rw [bridged_of_blocked hclosed hrule (.inr hmode)]
      exact iff_of_true confined_none fun hfalse => absurd hfalse Bool.noConfusion
    | false =>
      rw [forall_prop_of_true rfl]
      cases hread : IpAddress.read destHost with
      | none =>
        have hsafe : isSafeTarget U destHost false c.forwardingStrictMode = true := by
          rw [isSafeTarget, hread, hmode]
          rfl
        rw [bridged_of_allowed hrule hsafe hmode, forall_prop_of_true rfl]
        exact confined_connect_iff hrule hmode
      | some ip =>
        refine iff_of_true ?_ fun hnone => by cases hnone
        by_cases hlocal : (ip.isLoopback || ip.isPrivate || ip.isLinkLocal || ip.isMulticast) = true
        · have hsafe : isSafeTarget U destHost false c.forwardingStrictMode = false := by
            rw [isSafeTarget, hread]
            exact if_pos hlocal
          rw [bridged_of_blocked hclosed hrule (.inl hsafe)]
          exact confined_none
        · have hsafe : isSafeTarget U destHost false c.forwardingStrictMode = true := by
            rw [isSafeTarget, hread]
            exact if_neg hlocal
          rw [bridged_of_allowed hrule hsafe hmode, confined_connect_iff hrule hmode]
          intro a ha
          have hmem := List.mem_of_find?_eq_some ha
          rw [hliteral destHost ip hread, List.mem_singleton] at hmem
          simp only [Bool.or_eq_true, not_or, Bool.not_eq_true] at hlocal
          rw [hmem]
          exact ⟨by simp [IpAddress.isLocal, hlocal], hlocal.2⟩

end SshConfig

/-- In strict mode and without rules, a client reaches the loopback interface. -/
theorem not_confined_loopback :
    ¬ ∀ (c : SshConfig) (net : Internet) (destHost : Str) (destPort : ℕ),
      c.Confined ascii net destHost destPort (c.opened net destHost destPort) := by
  intro h
  have hstrict := (h { forwardingEnabled := true }
    ⟨fun host => (IpAddress.read host).toList, fun _ port => port == 22⟩ "127.0.0.1".toList 22).strict
  revert hstrict
  decide +kernel

end Cyanide
