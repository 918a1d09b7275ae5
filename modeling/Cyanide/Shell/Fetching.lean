import Cyanide.Lib.IpAddress
import Cyanide.Lib.Simulation
import Cyanide.Lib.Transition
import Cyanide.Shell.History

/-!
# The connections of downloads

`curl` and `wget` check the URL and then hand it to the client library, which resolves its host again when it connects
and goes on to where the server redirects it.  `curlOnline` and `wgetOnline` are the commands with such a client; their
steps are the connections that it opens.
-/

namespace Cyanide

open PosixPath PyText Traced Argparse

/-- What a server answers, and where it redirects to. -/
structure ServerReply where
  reply : HttpReply
  location : Option Str

/-- What the client library meets at its requests for one download, which are numbered from 0. -/
structure Peers where
  net : ℕ → Internet
  /-- Host and port of a URL. -/
  authority : Str → Str × Int
  serve : ℕ → Str → ServerReply
  /-- The exception when there is no connection or there were too many redirects. -/
  failure : ℕ → HttpReply

/-- The client library follows at most nine redirects. -/
def maxRequests : ℕ := 10

namespace Peers

variable (peers : Peers)

/-- The address that a request for the URL connects to. -/
def reached (k : ℕ) (url : Str) : Option IpAddress :=
  let (host, port) := peers.authority url
  ((peers.net k).connect host port).map (·.1)

/-- The `k`-th request and those that it leads to, at most `left`: the connections, and what the first one ends with. -/
def fetch (follow : Bool) : (left k : ℕ) → (url : Str) → List IpAddress × HttpReply
  | 0, k, _ => ([], peers.failure k)
  | left + 1, k, url =>
    match peers.reached k url with
    | none => ([], peers.failure k)
    | some ip =>
      match follow, (peers.serve k url).location with
      | true, some location =>
        let rest := fetch follow left (k + 1) location
        (ip :: rest.1, rest.2)
      | _, _ => ([ip], (peers.serve k url).reply)

/-- The world with these peers behind the client library. -/
def world (W : World) (follow : Bool) : World :=
  { W with http := fun _ url => (peers.fetch follow maxRequests 0 url).2 }

end Peers

/-- A computation on the machine whose steps are the connections that are opened. -/
abbrev Web (α : Type) := Traced Exn Machine IpAddress α

def offline {α : Type} (m : Leaf α) : Web α := embed id (fun M _ => M) m

def connections : List IpAddress → Web Unit
  | [] => return ()
  | ip :: ips => do
    Traced.step ip
    connections ips

section Commands

variable (W : World) (v : View) (peers : Peers)

/-- `curl`, where `session.head` does not follow redirects. -/
def curlOnline (args : List Str) : Web Output := do
  let parsed ← offline (parseArgs W v curlParser "curl" args)
  match orText (parsed.text "url".toList) (parsed.extras.getLast?.getD []) with
  | [] => return .fail "curl: try 'curl --help' for more information\n".toList 1
  | url =>
    let checked ← offline (validateUrl W v url)
    offline (logResolved v "curl" url checked)
    match checked with
    | .error error => return .fail ("curl: (1) ".toList ++ error ++ ['\n']) 1
    | .ok _ =>
      let follow := !parsed.isSet "head".toList
      connections (peers.fetch follow maxRequests 0 url).1
      offline (curlFetch (peers.world W follow) v url parsed)

def wgetOnline (args : List Str) : Web Output := do
  let parsed ← offline (parseArgs W v wgetParser "wget" args)
  offline (logUnknown v "wget" args parsed)
  match (parsed.text "url".toList).getD [] with
  | [] => return .fail "wget: missing URL\n".toList 1
  | url =>
    let checked ← offline (validateUrl W v url)
    offline (logResolved v "wget" url checked)
    match checked with
    | .error error => return .fail ("wget: error: ".toList ++ error ++ ['\n']) 1
    | .ok resolvedIp =>
      connections (peers.fetch true maxRequests 0 url).1
      offline (wgetDownload (peers.world W true) v url parsed resolvedIp)

end Commands

/-! ### The check -/

section Check

variable (W : World) (v : View) (M : Machine)

/-- The entry of the cache that counts now. -/
def cachedIp (host : Str) : Option Str :=
  match M.dnsCache.lookup host with
  | some (ip, expiry) => if W.time M.ticks < expiry ∧ ip ≠ [] then some ip else none
  | none => none

/-- The answer has nothing that the check refuses. -/
def Admitted (list : List (Str × Option Bool)) : Prop :=
  ∀ a ∈ list, ∃ isLocal, a.2 = some isLocal ∧ (v.config.allowLocalNetwork = true ∨ isLocal = false)

/-- The check lets the URL pass: its host is in the cache or has an admitted answer. -/
def Vetted (url : Str) : Prop :=
  ∃ scheme host, W.urlparse url = .ok (scheme, some host) ∧ (scheme = "http".toList ∨ scheme = "https".toList) ∧
    host ≠ [] ∧ (cachedIp W M host ≠ none ∨
      ∃ list, W.getaddrinfo (M.ticks + 1) host = .addresses list ∧ Admitted v list)

variable {W} {v} {M}

theorem checkDnsCache_apply (host : Str) :
    checkDnsCache W host M = ⟨.ok (cachedIp W M host), { M with ticks := M.ticks + 1 }, []⟩ := by
  unfold checkDnsCache cachedIp
  rw [Leaf.tick, bind_assoc, get_bind, bind_assoc, modify_bind, pure_bind, get_bind]
  dsimp only
  cases M.dnsCache.lookup host with
  | none => rfl
  | some entry =>
    dsimp only
    split <;> rfl

theorem verifyIps_ok_iff {host : Str} {allowLocal : Bool} {list : List (Str × Option Bool)} {validIp : Option Str} :
    (∃ ip, verifyIps host allowLocal validIp list = .ok ip) ↔
      ∀ a ∈ list, ∃ isLocal, a.2 = some isLocal ∧ (allowLocal = true ∨ isLocal = false) := by
  induction list generalizing validIp with
  | nil => exact iff_of_true ⟨validIp, rfl⟩ fun a ha => absurd ha List.not_mem_nil
  | cons a list ih =>
    obtain ⟨ip, isLocal⟩ := a
    rw [List.forall_mem_cons]
    cases isLocal with
    | none =>
      refine iff_of_false ?_ fun h => ?_
      · rintro ⟨ip', hip⟩
        cases hip
      · obtain ⟨b, hb, -⟩ := h.1
        cases hb
    | some b =>
      rw [verifyIps]
      by_cases hrefuse : (!allowLocal && b) = true
      · rw [if_pos hrefuse]
        rw [Bool.and_eq_true, Bool.not_eq_true'] at hrefuse
        refine iff_of_false ?_ fun h => ?_
        · rintro ⟨ip', hip⟩
          cases hip
        · obtain ⟨b', hb, hallow⟩ := h.1
          obtain rfl : b = b' := Option.some.inj hb
          simp [hrefuse] at hallow
      · rw [if_neg hrefuse, ih, and_iff_right]
        refine ⟨b, rfl, ?_⟩
        cases allowLocal <;> simp_all

/-- An error message is no address. -/
private theorem not_ok_error {message : Str} :
    ¬∃ ip, (.ok (.error message) : Except Exn (Except Str (Option Str))) = .ok (.ok ip) := by
  rintro ⟨ip, hip⟩
  cases hip

theorem resolveAndVerifyIp_ok_iff (host : Str) :
    (∃ ip, (resolveAndVerifyIp W v host v.config.allowLocalNetwork M).result = .ok (.ok ip)) ↔
      ∃ list, W.getaddrinfo M.ticks host = .addresses list ∧ Admitted v list := by
  unfold resolveAndVerifyIp
  rw [Leaf.tick, bind_assoc, get_bind, bind_assoc, modify_bind, pure_bind]
  cases W.getaddrinfo M.ticks host with
  | gaierror =>
    refine iff_of_false not_ok_error ?_
    rintro ⟨list, hlist, -⟩
    cases hlist
  | invalid =>
    refine iff_of_false not_ok_error ?_
    rintro ⟨list, hlist, -⟩
    cases hlist
  | addresses list =>
    have hverify : (∃ list', Resolution.addresses list = .addresses list' ∧ Admitted v list') ↔
        ∃ ip, verifyIps host v.config.allowLocalNetwork none list = .ok ip := by
      rw [verifyIps_ok_iff]
      constructor
      · rintro ⟨list', hlist, h⟩
        cases hlist
        exact h
      · exact fun h => ⟨list, rfl, h⟩
    rw [hverify]
    dsimp only
    cases verifyIps host v.config.allowLocalNetwork none list with
    | error message =>
      refine iff_of_false not_ok_error ?_
      rintro ⟨ip, hip⟩
      cases hip
    | ok found =>
      refine iff_of_true ⟨found, ?_⟩ ⟨found, rfl⟩
      cases found <;> rfl

/-- The check of a host, with the cache first. -/
private theorem checked_ok_iff (host : Str) :
    (∃ ip, ((do
      match ← checkDnsCache W host with
      | some ip => return .ok (some ip)
      | none => resolveAndVerifyIp W v host v.config.allowLocalNetwork : Leaf (Except Str (Option Str))) M).result =
        .ok (.ok ip)) ↔
      (cachedIp W M host ≠ none ∨ ∃ list, W.getaddrinfo (M.ticks + 1) host = .addresses list ∧ Admitted v list) := by
  have hcheck := checkDnsCache_apply (W := W) (M := M) host
  rw [bind_ok (congrArg Outcome.result hcheck), hcheck]
  dsimp only
  cases hcached : cachedIp W M host with
  | some ip => exact iff_of_true ⟨some ip, rfl⟩ (.inl (Option.some_ne_none ip))
  | none => rw [← resolveAndVerifyIp_ok_iff (M := { M with ticks := M.ticks + 1 }), or_iff_right (not_not_intro rfl)]

theorem validateUrl_ok_iff (url : Str) :
    (∃ ip, (validateUrl W v url M).result = .ok (.ok ip)) ↔ Vetted W v M url := by
  unfold validateUrl Vetted
  cases hparse : W.urlparse url with
  | error message =>
    refine iff_of_false not_ok_error ?_
    rintro ⟨scheme, host, hparse', -⟩
    cases hparse'
  | ok parsed =>
    obtain ⟨scheme, host⟩ := parsed
    dsimp only
    by_cases hscheme : scheme ≠ "http".toList ∧ scheme ≠ "https".toList
    · rw [if_pos hscheme]
      refine iff_of_false not_ok_error ?_
      rintro ⟨scheme', host', heq, hor, -⟩
      cases heq
      exact hor.elim hscheme.1 hscheme.2
    · have hweb : scheme = "http".toList ∨ scheme = "https".toList := by
        by_contra hnot
        push Not at hnot
        exact hscheme hnot
      rw [if_neg hscheme]
      match host with
      | none =>
        refine iff_of_false not_ok_error ?_
        rintro ⟨scheme', host', heq, -⟩
        cases heq
      | some [] =>
        refine iff_of_false not_ok_error ?_
        rintro ⟨scheme', host', heq, -, hne, -⟩
        cases heq
        exact hne rfl
      | some (c :: cs) =>
        refine (checked_ok_iff (c :: cs)).trans ?_
        constructor
        · exact fun h => ⟨scheme, c :: cs, rfl, hweb, List.cons_ne_nil c cs, h⟩
        · rintro ⟨scheme', host', heq, -, -, h⟩
          cases heq
          exact h

end Check

/-! ### The connections of a command -/

namespace Peers

variable (peers : Peers)

/-- None of the requests that follow from this one leads to a local address. -/
def Safe (follow : Bool) : (left k : ℕ) → (url : Str) → Prop
  | 0, _, _ => True
  | left + 1, k, url => ∀ ip ∈ peers.reached k url, ip.isLocal = false ∧
    (follow = true → ∀ location ∈ (peers.serve k url).location, Safe follow left (k + 1) location)

theorem fetch_safe_iff {peers : Peers} {follow : Bool} {left k : ℕ} {url : Str} :
    (∀ ip ∈ (peers.fetch follow left k url).1, ip.isLocal = false) ↔ peers.Safe follow left k url := by
  induction left generalizing k url with
  | zero => exact iff_of_true (fun ip hip => absurd hip List.not_mem_nil) trivial
  | succ left ih =>
    rw [fetch, Safe]
    cases peers.reached k url with
    | none => simp
    | some ip =>
      dsimp only
      cases hfollow : follow with
      | false => simp
      | true =>
        cases hlocation : (peers.serve k url).location with
        | none => simp
        | some location => simp [← hfollow, ih]

end Peers

section Steps

variable {α : Type}

theorem connections_apply (ips : List IpAddress) (M : Machine) : connections ips M = ⟨.ok (), M, ips⟩ := by
  induction ips with
  | nil => rfl
  | cons ip ips ih =>
    rw [connections, bind_ok rfl]
    simp only [Traced.step, ih, List.singleton_append]

theorem steps_offline_bind (m : Leaf α) {β : Type} (f : α → Web β) (M : Machine) :
    ((offline m >>= f) M).steps = match (m M).result with
      | .ok a => (f a (m M).state).steps
      | .error _ => [] := by
  cases hres : (m M).result with
  | ok a => rw [bind_ok (m := offline m) hres]; rfl
  | error x => rw [bind_error (m := offline m) hres]; rfl

theorem steps_connections_bind (ips : List IpAddress) (m : Leaf α) (M : Machine) :
    ((connections ips >>= fun _ => offline m) M).steps = ips := by
  rw [bind_ok (congrArg Outcome.result (connections_apply ips M)), connections_apply]
  exact List.append_nil ips

end Steps

/-- What `curl` requests, and whether it follows redirects. -/
def curlRequest (W : World) (args : List Str) : Option (Str × Bool) :=
  match parseKnownArgs curlParser (readInt W.unicode) args with
  | none => none
  | some parsed =>
    match orText (parsed.text "url".toList) (parsed.extras.getLast?.getD []) with
    | [] => none
    | url => some (url, !parsed.isSet "head".toList)

def wgetRequest (W : World) (args : List Str) : Option (Str × Bool) :=
  match parseKnownArgs wgetParser (readInt W.unicode) args with
  | none => none
  | some parsed =>
    match (parsed.text "url".toList).getD [] with
    | [] => none
    | url => some (url, true)

section CommandSteps

variable {W : World} {v : View} {peers : Peers} {args : List Str} {M : Machine}

/-- `Safe` for a request, if the check lets it pass. -/
def SafeRequest (W : World) (v : View) (peers : Peers) (M : Machine) (request : Option (Str × Bool)) : Prop :=
  ∀ r ∈ request, Vetted W v M r.1 → peers.Safe r.2 maxRequests 0 r.1

/-- A checked download, whatever is printed. -/
private theorem safe_checked_iff (name : String) (url : Str) (follow : Bool) (refuse : Str → Output)
    (use : Option Str → Leaf Output) :
    (∀ ip ∈ ((do
        let checked ← offline (validateUrl W v url)
        offline (logResolved v name url checked)
        match checked with
        | .error error => return refuse error
        | .ok resolvedIp =>
          connections (peers.fetch follow maxRequests 0 url).1
          offline (use resolvedIp) : Web Output) M).steps, ip.isLocal = false) ↔
      (Vetted W v M url → peers.Safe follow maxRequests 0 url) := by
  rw [steps_offline_bind, ← validateUrl_ok_iff]
  cases hres : (validateUrl W v url M).result with
  | error x => exact iff_of_true (fun _ hip => absurd hip List.not_mem_nil) fun ⟨_, h⟩ => by cases h
  | ok checked =>
    have hlog : ∃ M', logResolved v name url checked (validateUrl W v url M).state = ⟨.ok (), M', []⟩ := by
      unfold logResolved Leaf.logEvent
      split <;> exact ⟨_, rfl⟩
    obtain ⟨M', hlog⟩ := hlog
    dsimp only
    rw [steps_offline_bind, hlog]
    dsimp only
    cases checked with
    | error message => exact iff_of_true (fun _ hip => absurd hip List.not_mem_nil) fun ⟨_, h⟩ => by cases h
    | ok resolvedIp =>
      rw [steps_connections_bind, Peers.fetch_safe_iff]
      exact ⟨fun h _ => h, fun h => h ⟨resolvedIp, rfl⟩⟩

private theorem parseArgs_of_none {P : Parser} {name : String} (h : parseKnownArgs P (readInt W.unicode) args = none) :
    (parseArgs W v P name args M).result = .error .systemExit := by
  rw [parseArgs, h]
  unfold Leaf.logEvent
  dsimp only
  split <;> rfl

private theorem parseArgs_of_some {P : Parser} {name : String} {parsed : Parsed}
    (h : parseKnownArgs P (readInt W.unicode) args = some parsed) :
    parseArgs W v P name args M = ⟨.ok parsed, M, []⟩ := by
  rw [parseArgs, h]
  rfl

theorem safe_curlOnline_iff :
    (∀ ip ∈ (curlOnline W v peers args M).steps, ip.isLocal = false) ↔
      SafeRequest W v peers M (curlRequest W args) := by
  unfold curlOnline SafeRequest curlRequest
  rw [steps_offline_bind]
  cases hparse : parseKnownArgs curlParser (readInt W.unicode) args with
  | none =>
    rw [parseArgs_of_none hparse]
    exact iff_of_true (fun _ hip => absurd hip List.not_mem_nil) fun r hr => by cases hr
  | some parsed =>
    rw [parseArgs_of_some hparse]
    dsimp only
    cases orText (parsed.text "url".toList) (parsed.extras.getLast?.getD []) with
    | nil => exact iff_of_true (fun _ hip => absurd hip List.not_mem_nil) fun r hr => by cases hr
    | cons c cs =>
      rw [safe_checked_iff]
      simp

/-- Only the cache and the clock matter to the check. -/
private theorem vetted_congr {M' : Machine} (hcache : M'.dnsCache = M.dnsCache) (hticks : M'.ticks = M.ticks)
    (url : Str) : Vetted W v M' url ↔ Vetted W v M url := by
  unfold Vetted cachedIp
  rw [hcache, hticks]

theorem safe_wgetOnline_iff :
    (∀ ip ∈ (wgetOnline W v peers args M).steps, ip.isLocal = false) ↔
      SafeRequest W v peers M (wgetRequest W args) := by
  unfold wgetOnline SafeRequest wgetRequest
  rw [steps_offline_bind]
  cases hparse : parseKnownArgs wgetParser (readInt W.unicode) args with
  | none =>
    rw [parseArgs_of_none hparse]
    exact iff_of_true (fun _ hip => absurd hip List.not_mem_nil) fun r hr => by cases hr
  | some parsed =>
    have hlog : ∃ M', logUnknown v "wget" args parsed M = ⟨.ok (), M', []⟩ ∧ M'.dnsCache = M.dnsCache ∧
        M'.ticks = M.ticks := by
      unfold logUnknown Leaf.logEvent
      split
      · exact ⟨M, rfl, rfl, rfl⟩
      · split
        · exact ⟨_, rfl, rfl, rfl⟩
        · exact ⟨M, rfl, rfl, rfl⟩
    obtain ⟨M', hlog, hcache, hticks⟩ := hlog
    rw [parseArgs_of_some hparse]
    dsimp only
    rw [steps_offline_bind, hlog]
    dsimp only
    cases (parsed.text "url".toList).getD [] with
    | nil => exact iff_of_true (fun _ hip => absurd hip List.not_mem_nil) fun r hr => by cases hr
    | cons c cs =>
      rw [safe_checked_iff, vetted_congr hcache hticks]
      simp

end CommandSteps

/-! ### The commands themselves -/

section Refinement

variable {W : World} {v : View} {peers : Peers} {args : List Str} {α : Type}

/-- Two computations that end alike on every machine. -/
private abbrev EndsAs (m : Web α) (m' : Leaf α) : Prop := Sim (fun _ => True) Eq Eq m m'

private theorem endsAs_offline (m : Leaf α) : EndsAs (offline m) m := by
  rintro M _ rfl _
  exact ⟨alike_eq_iff.2 rfl, rfl⟩

private theorem endsAs_connections (ips : List IpAddress) (m : Leaf α) :
    EndsAs (connections ips >>= fun _ => offline m) m := by
  rintro M _ rfl _
  rw [bind_ok (congrArg Outcome.result (connections_apply ips M)), connections_apply]
  exact ⟨alike_eq_iff.2 rfl, rfl⟩

/-- Where the parser exits, nothing else happens. -/
private theorem endsAs_parseArgs_of_none {P : Parser} {name : String} {f : Parsed → Web α} {f' : Parsed → Leaf α}
    (h : parseKnownArgs P (readInt W.unicode) args = none) :
    EndsAs (offline (parseArgs W v P name args) >>= f) (parseArgs W v P name args >>= f') := by
  rintro M _ rfl _
  have hres : (parseArgs W v P name args M).result = .error .systemExit := parseArgs_of_none h
  rw [bind_error (m := offline (parseArgs W v P name args)) hres, bind_error hres]
  exact ⟨rfl, rfl⟩

/-- With the same peers, `curl` does what the command does. -/
theorem sim_curlOnline {follow : Bool} (h : ∀ r ∈ curlRequest W args, r.2 = follow) :
    Sim (fun _ => True) Eq Eq (curlOnline W v peers args) (curlCommand (peers.world W follow) v args) := by
  unfold curlOnline curlCommand
  have hvalidate : ∀ url, validateUrl (peers.world W follow) v url = validateUrl W v url := fun _ => rfl
  have hargs : parseArgs (peers.world W follow) v curlParser "curl" args = parseArgs W v curlParser "curl" args := rfl
  rw [hargs]
  cases hparse : parseKnownArgs curlParser (readInt W.unicode) args with
  | none => exact endsAs_parseArgs_of_none hparse
  | some parsed =>
    have hpure : parseArgs W v curlParser "curl" args = pure parsed := by rw [parseArgs, hparse]
    have hoffline : offline (pure parsed : Leaf Parsed) = pure parsed := rfl
    rw [curlRequest, hparse] at h
    rw [hpure, hoffline, pure_bind, pure_bind]
    dsimp only at h ⊢
    generalize orText (parsed.text "url".toList) (parsed.extras.getLast?.getD []) = url at h ⊢
    cases url with
    | nil => exact Sim.pure rfl
    | cons c cs =>
      have hfollow : (!parsed.isSet "head".toList) = follow := h (c :: cs, !parsed.isSet "head".toList) rfl
      rw [hfollow]
      dsimp only
      rw [hvalidate]
      refine (endsAs_offline _).bind_eq fun checked => (endsAs_offline _).bind_eq fun _ => ?_
      cases checked with
      | error message => exact Sim.pure rfl
      | ok ip => exact endsAs_connections _ _

theorem sim_wgetOnline :
    Sim (fun _ => True) Eq Eq (wgetOnline W v peers args) (wgetCommand (peers.world W true) v args) := by
  unfold wgetOnline wgetCommand
  refine (endsAs_offline _).bind_eq fun parsed => (endsAs_offline _).bind_eq fun _ => ?_
  cases (parsed.text "url".toList).getD [] with
  | nil => exact Sim.pure rfl
  | cons c cs =>
    refine (endsAs_offline _).bind_eq fun checked => (endsAs_offline _).bind_eq fun _ => ?_
    cases checked with
    | error message => exact Sim.pure rfl
    | ok ip => exact endsAs_connections _ _

end Refinement

/-! ### Sessions -/

/-- A shell on the network. -/
structure Online where
  machine : Machine
  /-- The addresses that were connected to, the first one first. -/
  opened : List IpAddress

inductive Download where
  | curl (args : List Str) (peers : Peers)
  | wget (args : List Str) (peers : Peers)
  | ping (args : List Str)
  /-- Anything else happens to the machine; the cache belongs to the check. -/
  | elsewhere (machine : Machine)

namespace Online

variable (W : World) (v : View) (s : Online)

def step : Download → Online
  | .curl args peers =>
    let done := curlOnline W v peers args s.machine
    ⟨done.state, s.opened ++ done.steps⟩
  | .wget args peers =>
    let done := wgetOnline W v peers args s.machine
    ⟨done.state, s.opened ++ done.steps⟩
  | .ping args => ⟨(pingCommand W v args s.machine).state, s.opened⟩
  | .elsewhere machine => ⟨{ machine with dnsCache := s.machine.dnsCache }, s.opened⟩

/-- No connection to a private, loopback or link-local address. -/
def Confined : Prop := ∀ ip ∈ s.opened, ip.isLocal = false

/-- What the check lets pass leads nowhere local. -/
def Harmless : Download → Prop
  | .curl args peers => SafeRequest W v peers s.machine (curlRequest W args)
  | .wget args peers => SafeRequest W v peers s.machine (wgetRequest W args)
  | .ping _ => True
  | .elsewhere _ => True

variable {W} {v} {s}

private theorem confined_append_iff {opened ips : List IpAddress} (h : ∀ ip ∈ opened, ip.isLocal = false) :
    (∀ ip ∈ opened ++ ips, ip.isLocal = false) ↔ ∀ ip ∈ ips, ip.isLocal = false := by
  rw [List.forall_mem_append]
  exact and_iff_right h

theorem confined_step_iff (h : s.Confined) (d : Download) : (s.step W v d).Confined ↔ s.Harmless W v d := by
  cases d with
  | curl args peers => exact (confined_append_iff h).trans safe_curlOnline_iff
  | wget args peers => exact (confined_append_iff h).trans safe_wgetOnline_iff
  | ping args => exact iff_of_true h trivial
  | elsewhere machine => exact iff_of_true h trivial

end Online

open Online Transition

theorem confined_run_iff (W : World) (v : View) (M : Machine) (downloads : List Download) :
    (∀ ds, ds <+: downloads → (run (step W v) ⟨M, []⟩ ds).Confined) ↔
      Meets (step W v) (Harmless W v) ⟨M, []⟩ downloads := by
  refine (forall_reached_iff (I := Confined) (G := Harmless W v) (J := fun _ => True) (fun _ _ _ => trivial)
    (fun s d _ hs => confined_step_iff hs d) trivial).trans ?_
  exact and_iff_right fun ip hip => absurd hip List.not_mem_nil

/-! ### What the check is good for -/

/-- The client gets an address that every answer to the check had, and is not redirected. -/
structure Peers.Faithful (W : World) (peers : Peers) : Prop where
  direct : ∀ k url, (peers.serve k url).location = none
  consistent : ∀ url scheme host, W.urlparse url = .ok (scheme, some host) →
    ∀ ip ∈ (peers.net 0).resolve (peers.authority url).1, ∀ t list, W.getaddrinfo t host = .addresses list →
      ∃ a ∈ list, a.2 = some ip.isLocal

/-- What is in the cache has had an answer without local addresses. -/
def Vouched (W : World) (M : Machine) : Prop :=
  ∀ host entry, M.dnsCache.lookup host = some entry →
    ∃ t list, W.getaddrinfo t host = .addresses list ∧ ∀ a ∈ list, a.2 = some false

section Faithful

variable {W : World} {v : View} {peers : Peers} {M : Machine} {args : List Str}

/-- A host that the check lets pass has had an answer without local addresses. -/
private theorem exists_answer (hlocal : v.config.allowLocalNetwork = false) (hM : Vouched W M) {url : Str}
    (h : Vetted W v M url) : ∃ scheme host t list, W.urlparse url = .ok (scheme, some host) ∧
      W.getaddrinfo t host = .addresses list ∧ ∀ a ∈ list, a.2 = some false := by
  obtain ⟨scheme, host, hparse, -, -, hcached | ⟨list, hlist, hadmitted⟩⟩ := h
  · unfold cachedIp at hcached
    split at hcached
    · rename_i entry hentry
      obtain ⟨t, list, hlist, hall⟩ := hM host _ hentry
      exact ⟨scheme, host, t, list, hparse, hlist, hall⟩
    · exact absurd rfl hcached
  · refine ⟨scheme, host, _, list, hparse, hlist, fun a ha => ?_⟩
    obtain ⟨isLocal, hsome, hallow | rfl⟩ := hadmitted a ha
    · rw [hlocal] at hallow
      cases hallow
    · exact hsome

private theorem safeRequest_of_faithful (hlocal : v.config.allowLocalNetwork = false) (hM : Vouched W M)
    (hpeers : peers.Faithful W) (request : Option (Str × Bool)) : SafeRequest W v peers M request := by
  intro r _ hvetted
  obtain ⟨scheme, host, t, list, hparse, hlist, hall⟩ := exists_answer hlocal hM hvetted
  intro ip hip
  refine ⟨?_, fun _ location hlocation => ?_⟩
  · obtain ⟨⟨ip', port⟩, hconnect, rfl⟩ := Option.map_eq_some_iff.1 hip
    have hmem := (Internet.mem_resolve_of_connect hconnect).1
    obtain ⟨a, ha, hsome⟩ := hpeers.consistent r.1 scheme host hparse ip' hmem t list hlist
    exact (Option.some.inj ((hall a ha).symm.trans hsome)).symm
  · rw [hpeers.direct] at hlocation
    cases hlocation

/-! The cache is only written by the check. -/

/-- Every end has a cache whose entries have had an answer. -/
private abbrev KeepsVouched (W : World) {α τ : Type} (m : Traced Exn Machine τ α) : Prop :=
  Keeps (fun _ => True) (fun _ => True) (Vouched W) m

variable {α : Type}

private theorem keepsVouched_offline {m : Leaf α} (h : KeepsVouched W m) : KeepsVouched W (offline m) := by
  intro M hM _
  exact ⟨fun _ ht => absurd ht List.not_mem_nil, (h M hM fun _ _ => trivial).2⟩

private theorem keepsVouched_tick : KeepsVouched W Leaf.tick := by
  refine Keeps.bind Keeps.get fun _ => ?_
  exact Keeps.bind (Keeps.modify fun _ hM => hM) fun _ => Keeps.pure

private theorem keepsVouched_logEvent (eventType : Str) (data : List (Str × Str)) :
    KeepsVouched W (Leaf.logEvent v eventType data) :=
  Keeps.ite (fun _ => Keeps.modify fun _ hM => hM) fun _ => Keeps.pure

private theorem keepsVouched_onFs (op : FakeFilesystem → α × FakeFilesystem) : KeepsVouched W (Leaf.onFs op) := by
  refine Keeps.bind Keeps.get fun _ => ?_
  exact Keeps.bind (Keeps.modify fun _ hM => hM) fun _ => Keeps.pure

private theorem keepsVouched_parseArgs (P : Parser) (name : String) : KeepsVouched W (parseArgs W v P name args) := by
  unfold parseArgs
  split
  · exact (keepsVouched_logEvent _ _).bind fun _ => Keeps.throw
  · exact Keeps.pure

private theorem keepsVouched_quarantineDownload (filename : Str) (content : List UInt8) :
    KeepsVouched W (quarantineDownload v filename content) :=
  Keeps.ite (fun _ => Keeps.modify fun _ hM => hM) fun _ => Keeps.pure

private theorem keepsVouched_curlFetch {W' : World} (url : Str) (parsed : Parsed) :
    KeepsVouched W (curlFetch W' v url parsed) := by
  refine keepsVouched_tick.bind fun _ => ?_
  split
  · exact Keeps.pure
  · exact Keeps.pure
  · refine Keeps.ite (fun _ => Keeps.pure) fun _ => Keeps.ite (fun _ => Keeps.pure) fun _ => ?_
    refine (keepsVouched_quarantineDownload _ _).bind fun _ => ?_
    split
    · refine (Keeps.get.bind fun _ => Keeps.pure).bind fun _ => Keeps.ite (fun _ => Keeps.pure) fun _ => ?_
      refine (keepsVouched_onFs _).bind fun _ => Keeps.ite (fun _ => Keeps.pure) fun _ => ?_
      exact Keeps.ite (fun _ => Keeps.pure) fun _ => Keeps.pure
    · exact Keeps.pure

private theorem keepsVouched_wgetDownload {W' : World} (url : Str) (parsed : Parsed) (resolvedIp : Option Str) :
    KeepsVouched W (wgetDownload W' v url parsed resolvedIp) := by
  refine keepsVouched_tick.bind fun _ => ?_
  split
  · exact Keeps.pure
  · refine Keeps.ite (fun _ => Keeps.pure) fun _ => ?_
    refine (keepsVouched_quarantineDownload _ _).bind fun _ => (keepsVouched_onFs _).bind fun _ => ?_
    exact Keeps.ite (fun _ => Keeps.pure) fun _ => Keeps.pure

private theorem keepsVouched_checkDnsCache (host : Str) : KeepsVouched W (checkDnsCache W host) := by
  unfold checkDnsCache
  refine keepsVouched_tick.bind fun _ => Keeps.get.bind fun M => ?_
  split
  · exact Keeps.ite (fun _ => Keeps.pure) fun _ => Keeps.pure
  · exact Keeps.pure

/-- An entry is written after the answer it comes from was admitted. -/
private theorem keepsVouched_resolve (hlocal : v.config.allowLocalNetwork = false) (host : Str) :
    KeepsVouched W (resolveAndVerifyIp W v host v.config.allowLocalNetwork) := by
  unfold resolveAndVerifyIp
  refine keepsVouched_tick.bind fun t => ?_
  split
  · exact Keeps.pure
  · exact Keeps.pure
  · rename_i list hlist
    split
    · exact Keeps.pure
    · exact Keeps.pure
    · rename_i ip hverify
      refine keepsVouched_tick.bind fun t' => ?_
      refine Keeps.bind (Keeps.modify fun M hM host' entry hentry => ?_) fun _ => Keeps.pure
      by_cases hhost : host' = host
      · refine ⟨t, list, by rw [hhost]; exact hlist, fun a ha => ?_⟩
        obtain ⟨isLocal, hsome, hallow | rfl⟩ := verifyIps_ok_iff.1 ⟨_, hverify⟩ a ha
        · rw [hlocal] at hallow
          cases hallow
        · exact hsome
      · rw [AList.lookup_insert_ne hhost] at hentry
        exact hM host' entry hentry

private theorem keepsVouched_validateUrl (hlocal : v.config.allowLocalNetwork = false) (url : Str) :
    KeepsVouched W (validateUrl W v url) := by
  unfold validateUrl
  split
  · exact Keeps.pure
  · refine Keeps.ite (fun _ => Keeps.pure) fun _ => ?_
    split
    · exact Keeps.pure
    · exact Keeps.pure
    · refine (keepsVouched_checkDnsCache _).bind fun cached => ?_
      split
      · exact Keeps.pure
      · exact keepsVouched_resolve hlocal _

private theorem keepsVouched_connections (ips : List IpAddress) : KeepsVouched W (connections ips) := by
  induction ips with
  | nil => exact Keeps.pure
  | cons ip ips ih => exact Keeps.bind (Keeps.step id) fun _ => ih

private theorem keepsVouched_curlOnline (hlocal : v.config.allowLocalNetwork = false) :
    KeepsVouched W (curlOnline W v peers args) := by
  refine (keepsVouched_offline (keepsVouched_parseArgs _ _)).bind fun parsed => ?_
  split
  · exact Keeps.pure
  · refine (keepsVouched_offline (keepsVouched_validateUrl hlocal _)).bind fun checked => ?_
    refine (keepsVouched_offline (keepsVouched_logEvent _ _)).bind fun _ => ?_
    split
    · exact Keeps.pure
    · exact (keepsVouched_connections _).bind fun _ => keepsVouched_offline (keepsVouched_curlFetch _ _)

private theorem keepsVouched_wgetOnline (hlocal : v.config.allowLocalNetwork = false) :
    KeepsVouched W (wgetOnline W v peers args) := by
  refine (keepsVouched_offline (keepsVouched_parseArgs _ _)).bind fun parsed => ?_
  refine Keeps.bind (keepsVouched_offline ?_) fun _ => ?_
  · exact Keeps.ite (fun _ => Keeps.pure) fun _ => keepsVouched_logEvent _ _
  · split
    · exact Keeps.pure
    · refine (keepsVouched_offline (keepsVouched_validateUrl hlocal _)).bind fun checked => ?_
      refine (keepsVouched_offline (keepsVouched_logEvent _ _)).bind fun _ => ?_
      split
      · exact Keeps.pure
      · exact (keepsVouched_connections _).bind fun _ => keepsVouched_offline (keepsVouched_wgetDownload _ _ _)

private theorem keepsVouched_pingCommand (hlocal : v.config.allowLocalNetwork = false) :
    KeepsVouched W (pingCommand W v args) := by
  unfold pingCommand
  split
  · exact Keeps.pure
  · refine (keepsVouched_validateUrl hlocal _).bind fun checked => ?_
    split
    · exact Keeps.pure
    · exact Keeps.pure
    · exact Keeps.pure

/-- Whatever it ends with. -/
private theorem vouched_state {τ : Type} {m : Traced Exn Machine τ α} (h : KeepsVouched W m) (hM : Vouched W M) :
    Vouched W (m M).state := by
  have hend := (h M hM fun _ _ => trivial).2
  cases hres : (m M).result with
  | ok a =>
    rw [hres] at hend
    exact hend
  | error x =>
    rw [hres] at hend
    exact hend

private theorem vouched_step (hlocal : v.config.allowLocalNetwork = false) {s : Online} (hs : Vouched W s.machine)
    (d : Download) : Vouched W (s.step W v d).machine := by
  cases d with
  | curl args peers => exact vouched_state (keepsVouched_curlOnline hlocal) hs
  | wget args peers => exact vouched_state (keepsVouched_wgetOnline hlocal) hs
  | ping args => exact vouched_state (keepsVouched_pingCommand hlocal) hs
  | elsewhere machine => exact hs

/-- All peers of a download are faithful. -/
def Download.Faithful (W : World) : Download → Prop
  | .curl _ peers => peers.Faithful W
  | .wget _ peers => peers.Faithful W
  | .ping _ => True
  | .elsewhere _ => True

/-- With a resolver that answers the client as it answered the check, and without redirects, the check is enough. -/
theorem harmless_of_faithful (hlocal : v.config.allowLocalNetwork = false) (hM : Vouched W M)
    (downloads : List Download) (hpeers : ∀ d ∈ downloads, d.Faithful W) :
    Meets (step W v) (Harmless W v) ⟨M, []⟩ downloads := by
  suffices h : ∀ s : Online, Vouched W s.machine → Meets (step W v) (Harmless W v) s downloads from h ⟨M, []⟩ hM
  induction downloads with
  | nil => exact fun _ _ => trivial
  | cons d downloads ih =>
    intro s hs
    have hd := hpeers d List.mem_cons_self
    refine ⟨?_, ih (fun d' hd' => hpeers d' (List.mem_cons_of_mem _ hd')) _ (vouched_step hlocal hs d)⟩
    cases d with
    | curl args peers => exact safeRequest_of_faithful hlocal hs hd _
    | wget args peers => exact safeRequest_of_faithful hlocal hs hd _
    | ping args => trivial
    | elsewhere machine => trivial

end Faithful

/-- The resolver answers the check with an address of the internet and the client with the loopback address. -/
theorem not_confined_rebinding :
    ¬ ∀ (W : World) (v : View) (M : Machine) (downloads : List Download), v.config.allowLocalNetwork = false →
      (run (step W v) ⟨M, []⟩ downloads).Confined := by
  intro h
  have hrun := h
    { plainWorld with
      urlparse := fun _ => .ok ("http".toList, some "a.test".toList)
      getaddrinfo := fun _ _ => .addresses [("8.8.8.8".toList, some false)] }
    ⟨"root".toList, "/root".toList, [], {}, false, false⟩ ⟨plainFs, "debian".toList, ∅, [], [], 0⟩
    [.wget ["http://a.test/x".toList] {
      net := fun _ => ⟨fun _ => [.v4 0x7f000001], fun _ _ => true⟩
      authority := fun _ => ("a.test".toList, 80)
      serve := fun _ _ => ⟨.response 200 [] [], none⟩
      failure := fun _ => .raised true [] }] rfl
  revert hrun
  unfold Online.Confined
  decide +kernel

end Cyanide
