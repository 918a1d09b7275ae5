import Mathlib.Algebra.Ring.Int.Defs
import Cyanide.Lib.PosixPath
import Cyanide.Lib.Urls

/-!
# The context analyzer

`analyze_url` adds up what the URLs of a command count, in tenths, and takes the sum into the range from 0 to 10.  A
whitelisted URL counts against the others: what is appended to a command lowers its score when it counts less than
nothing (`analyzeUrl_append_iff`).  What the analyzer takes for the host of a URL is the part in front of the first
colon, which is another host's name where that colon is no port's (`isWhitelisted_sound_iff`).
-/

namespace Cyanide

open PosixPath PyText Urls

namespace ContextAnalyzer

def whitelist : List Str :=
  ["github.com".toList, "gitlab.com".toList, "bitbucket.org".toList, "pypi.org".toList, "npmjs.com".toList,
    "rubygems.org".toList, "docker.com".toList, "docker.io".toList, "quay.io".toList, "ubuntu.com".toList,
    "debian.org".toList, "centos.org".toList, "fedoraproject.org".toList, "google.com".toList,
    "microsoft.com".toList, "amazon.com".toList, "cloudflare.com".toList]

/-- A set in the source: where several members match, the one in the flag is any of them. -/
def suspiciousTlds : List Str :=
  [".xyz".toList, ".top".toList, ".tk".toList, ".ml".toList, ".ga".toList, ".cf".toList, ".gq".toList, ".pw".toList,
    ".cc".toList, ".ws".toList, ".info".toList, ".click".toList, ".loan".toList, ".ru".toList, ".cn".toList]

def urlKeywords : List Str :=
  ["malware".toList, "exploit".toList, "payload".toList, "backdoor".toList, "rootkit".toList, "trojan".toList,
    "rat".toList, "miner".toList, "botnet".toList, "ransomware".toList, "reverse".toList, "shell".toList, "c2".toList,
    "exfil".toList, "hack".toList]

/-! ### One URL -/

def isSafeDomain (domain : Str) : Bool := whitelist.any fun safe => domain = safe || ('.' :: safe).isSuffixOf domain

/-- The part of a text in front of the first dot that is behind decimal digits, and what is behind the dot. -/
def digitsDot (U : Unicode) (s : Str) : Option Str :=
  let digits := s.takeWhile fun c => (U.decimal c).isSome
  match s.drop digits.length with
  | '.' :: rest => if digits = [] then none else some rest
  | _ => none

/-- `^\d+\.\d+\.\d+\.\d+$`, where a newline may stand at the end. -/
def isIpText (U : Unicode) (domain : Str) : Bool :=
  match ((digitsDot U domain).bind (digitsDot U)).bind (digitsDot U) with
  | some rest =>
    let digits := rest.takeWhile fun c => (U.decimal c).isSome
    digits ≠ [] && (rest.drop digits.length = [] || rest.drop digits.length = ['\n'])
  | none => false

/-- The score in tenths and the flags. -/
def checkSuspiciousUrl (U : Unicode) (url domain : Str) : Int × List Str :=
  let ip := if isIpText U domain then (4, ["IP-based URL: ".toList ++ domain]) else (0, [])
  let tld := match suspiciousTlds.find? (·.isSuffixOf domain) with
    | some tld => (5, ["Suspicious TLD: ".toList ++ tld])
    | none => (0, [])
  let keyword := match urlKeywords.find? (contains · (U.lower url)) with
    | some kw => (4, ["Suspicious keyword: ".toList ++ kw])
    | none => (0, [])
  (ip.1 + tld.1 + keyword.1, ip.2 ++ tld.2 ++ keyword.2)

/-- A URL with `https` where it does not begin with `http`. -/
def withScheme (url : Str) : Str := if "http".toList.isPrefixOf url then url else "https://".toList ++ url

/-- `urlparse(url).netloc.split(":")[0]`. -/
def domainOf (nfkc : Str → Str) (url : Str) : Option Str :=
  (netlocOf nfkc (withScheme url)).map (·.takeWhile (· ≠ ':'))

def analyzeSingleUrl (U : Unicode) (nfkc : Str → Str) (url : Str) : Int × List Str :=
  match domainOf nfkc url with
  | none => (0, [])
  | some domain => if isSafeDomain domain then (-3, []) else checkSuspiciousUrl U (withScheme url) domain

/-- The analyzer treats the URL as whitelisted. -/
def isWhitelisted (nfkc : Str → Str) (url : Str) : Bool := (domainOf nfkc url).any isSafeDomain

/-! ### The URLs of a command -/

def isUrlChar (c : Char) : Bool := !(isSpace c || c = '<' || c = '>' || c = '"')

/-- The length of a match that begins with `start`. -/
def matchFrom (s start : Str) : Option ℕ :=
  let body := (s.drop start.length).takeWhile isUrlChar
  if start.isPrefixOf s ∧ body ≠ [] then some (start.length + body.length) else none

/-- The length of a match of `https?://[^\s<>"]+|www\.[^\s<>"]+` at the front of a text. -/
def matchUrl (s : Str) : Option ℕ :=
  ["https://".toList, "http://".toList, "www.".toList].findSome? (matchFrom s)

/-- `re.findall`, with the number of characters that belong to the last match. -/
def findUrls : (skip : ℕ) → Str → List Str
  | _, [] => []
  | skip + 1, _ :: cs => findUrls skip cs
  | 0, c :: cs =>
    match matchUrl (c :: cs) with
    | some n => (c :: cs).take n :: findUrls (n - 1) cs
    | none => findUrls 0 cs

structure UrlAnalysis where
  hasUrl : Bool
  urls : List Str
  riskScore : Int
  suspicious : Bool
  flags : List Str

variable (U : Unicode) (nfkc : Str → Str)

/-- The sum of what URLs count. -/
def total (urls : List Str) : Int := (urls.map fun url => (analyzeSingleUrl U nfkc url).1).sum

/-- The sum in the range from 0 to 10. -/
def clamp (score : Int) : Int := max 0 (min 10 score)

def analyzeUrl (command : Str) : UrlAnalysis :=
  let urls := findUrls 0 command
  if urls = [] then ⟨false, [], 0, false, []⟩
  else
    let riskScore := clamp (total U nfkc urls)
    ⟨true, urls, riskScore, 4 ≤ riskScore, (urls.flatMap fun url => (analyzeSingleUrl U nfkc url).2).dedup⟩

/-- A command with texts appended to it, a space in front of each. -/
def appendTexts (command : Str) (texts : List Str) : Str := command ++ texts.flatMap (' ' :: ·)

/-! ### Appended texts -/

/-- Adding lowers a clamped score only inside of the range. -/
theorem clamp_le_clamp_add_iff (a b : Int) : clamp a ≤ clamp (a + b) ↔ 0 ≤ b ∨ a ≤ 0 ∨ 10 ≤ a + b := by
  unfold clamp
  omega

theorem matchFrom_append {start : Str} (hstart : ' ' ∉ start) (s t : Str) :
    matchFrom (s ++ ' ' :: t) start = matchFrom s start := by
  by_cases hprefix : start <+: s
  · obtain ⟨r, rfl⟩ := hprefix
    have hbody : (r ++ ' ' :: t).takeWhile isUrlChar = r.takeWhile isUrlChar := by
      have hspace : (' ' :: t).takeWhile isUrlChar = [] := rfl
      rw [List.takeWhile_append, hspace, List.append_nil]
      split_ifs with hall
      · exact (List.takeWhile_prefix isUrlChar).eq_of_length hall |>.symm
      · rfl
    have hleft : start.isPrefixOf (start ++ (r ++ ' ' :: t)) = true :=
      List.isPrefixOf_iff_prefix.mpr ⟨r ++ ' ' :: t, rfl⟩
    have hright : start.isPrefixOf (start ++ r) = true := List.isPrefixOf_iff_prefix.mpr ⟨r, rfl⟩
    rw [List.append_assoc, matchFrom, matchFrom, hleft, hright, List.drop_left, List.drop_left, hbody]
  · have hnot : ¬start <+: s ++ ' ' :: t := by
      intro h
      rcases List.prefix_or_prefix_of_prefix h (List.prefix_append s _) with hs | ⟨u, rfl⟩
      · exact hprefix hs
      · have hu : u <+: ' ' :: t := (List.prefix_append_right_inj s).mp h
        cases u with
        | nil => exact hprefix (by simp)
        | cons c u =>
          obtain ⟨rfl, -⟩ := List.cons_prefix_cons.mp hu
          exact hstart (by simp)
    rw [matchFrom, matchFrom, if_neg fun h => hnot (List.isPrefixOf_iff_prefix.mp h.1),
      if_neg fun h => hprefix (List.isPrefixOf_iff_prefix.mp h.1)]

theorem matchUrl_append (s t : Str) : matchUrl (s ++ ' ' :: t) = matchUrl s := by
  have hhttps : matchFrom (s ++ ' ' :: t) "https://".toList = matchFrom s "https://".toList :=
    matchFrom_append (by decide) s t
  have hhttp : matchFrom (s ++ ' ' :: t) "http://".toList = matchFrom s "http://".toList :=
    matchFrom_append (by decide) s t
  have hwww : matchFrom (s ++ ' ' :: t) "www.".toList = matchFrom s "www.".toList :=
    matchFrom_append (by decide) s t
  simp only [matchUrl, List.findSome?_cons, hhttps, hhttp, hwww, List.findSome?_nil]

theorem le_length_of_matchUrl {s : Str} {n : ℕ} (h : matchUrl s = some n) : n ≤ s.length := by
  obtain ⟨start, -, hstart⟩ := List.exists_of_findSome?_eq_some h
  unfold matchFrom at hstart
  dsimp only at hstart
  split_ifs at hstart with hmatch
  obtain rfl := Option.some.inj hstart
  have hlen := (List.isPrefixOf_iff_prefix.mp hmatch.1).length_le
  have hbody := (List.takeWhile_prefix (l := s.drop start.length) isUrlChar).length_le
  rw [List.length_drop] at hbody
  omega

theorem findUrls_append {skip : ℕ} {s : Str} (hskip : skip ≤ s.length) (t : Str) :
    findUrls skip (s ++ ' ' :: t) = findUrls skip s ++ findUrls 0 t := by
  induction s generalizing skip with
  | nil =>
    obtain rfl : skip = 0 := Nat.le_zero.mp hskip
    have hnone : matchUrl (' ' :: t) = none := matchUrl_append [] t
    simp only [List.nil_append, findUrls, hnone]
  | cons c s ih =>
    cases skip with
    | succ skip => exact ih (Nat.le_of_succ_le_succ hskip)
    | zero =>
      have hmatch : matchUrl (c :: (s ++ ' ' :: t)) = matchUrl (c :: s) := matchUrl_append (c :: s) t
      rw [List.cons_append, findUrls, findUrls, hmatch]
      cases hurl : matchUrl (c :: s) with
      | none => exact ih (Nat.zero_le _)
      | some n =>
        have hn := le_length_of_matchUrl hurl
        have htake : (c :: (s ++ ' ' :: t)).take n = (c :: s).take n :=
          List.take_append_of_le_length hn
        have hrest : n - 1 ≤ s.length := by
          rw [List.length_cons] at hn
          omega
        simp only [htake, ih hrest, List.cons_append]

theorem findUrls_appendTexts (command : Str) (texts : List Str) :
    findUrls 0 (appendTexts command texts) = findUrls 0 command ++ texts.flatMap (findUrls 0) := by
  induction texts generalizing command with
  | nil => simp [appendTexts]
  | cons text texts ih =>
    have hcons : appendTexts command (text :: texts) = command ++ ' ' :: appendTexts text texts := by
      simp [appendTexts]
    rw [hcons, findUrls_append (Nat.zero_le _), ih text, List.flatMap_cons]

variable {U nfkc}

theorem riskScore_analyzeUrl (command : Str) :
    (analyzeUrl U nfkc command).riskScore = clamp (total U nfkc (findUrls 0 command)) := by
  rw [analyzeUrl]
  split_ifs with hnil
  · rw [hnil]
    rfl
  · rfl

theorem suspicious_analyzeUrl (command : Str) :
    (analyzeUrl U nfkc command).suspicious = decide (4 ≤ (analyzeUrl U nfkc command).riskScore) := by
  rw [analyzeUrl]
  split_ifs with hnil
  · rfl
  · rfl

theorem total_append (urls urls' : List Str) : total U nfkc (urls ++ urls') = total U nfkc urls + total U nfkc urls' := by
  simp [total]

/-- Only a whitelisted URL counts less than nothing. -/
theorem analyzeSingleUrl_nonneg {url : Str} (h : isWhitelisted nfkc url = false) :
    0 ≤ (analyzeSingleUrl U nfkc url).1 := by
  unfold analyzeSingleUrl
  cases hdomain : domainOf nfkc url with
  | none => exact Int.le_refl 0
  | some domain =>
    have hsafe : isSafeDomain domain = false := by simpa [isWhitelisted, hdomain] using h
    simp only [hsafe, Bool.false_eq_true, if_false, checkSuspiciousUrl]
    split <;> split <;> split <;> simp

theorem total_nonneg {urls : List Str} (h : ∀ url ∈ urls, isWhitelisted nfkc url = false) :
    0 ≤ total U nfkc urls := by
  induction urls with
  | nil => exact Int.le_refl 0
  | cons url urls ih =>
    have hurl := analyzeSingleUrl_nonneg (U := U) (h url (by simp))
    have hurls := ih fun url' hurl' => h url' (List.mem_cons_of_mem url hurl')
    rw [total] at hurls ⊢
    rw [List.map_cons, List.sum_cons]
    omega

/-- A whitelisted domain or a subdomain of one, in either case. -/
def TrustedHost (host : Str) : Prop := isSafeDomain (host.map Char.toLower) = true

instance (host : Str) : Decidable (TrustedHost host) := inferInstanceAs (Decidable (_ = true))

/-- The text in front of the first colon of an authority, when that colon is not the one in front of the port. -/
def nameInFront (authority : Str) : Option Str :=
  if authority.takeWhile (· ≠ ':') = withoutPort authority then none else some (authority.takeWhile (· ≠ ':'))

/-- A name that the analyzer takes for the host although it is none: a user name, the beginning of an address in
brackets, or a scheme that does not begin with `http`. -/
def decoy (url : Str) : Option Str :=
  match splitAbsolute (clean url) with
  | some (scheme, rest) => if "http".toList.isPrefixOf url then nameInFront (authority rest) else some scheme
  | none => if "http".toList.isPrefixOf url then none else nameInFront (authority (clean url))

theorem isSafeDomain_iff (domain : Str) :
    isSafeDomain domain ↔ ∃ safe ∈ whitelist, domain = safe ∨ '.' :: safe <:+ domain := by
  simp [isSafeDomain, List.any_eq_true, List.isSuffixOf_iff_suffix]

theorem whitelist_lower : ∀ safe ∈ whitelist, '@' ∉ safe ∧ safe.map Char.toLower = safe := by
  decide +kernel

theorem trustedHost_of_isSafeDomain {host : Str} (h : isSafeDomain host) : TrustedHost host := by
  obtain ⟨safe, hsafe, hhost⟩ := (isSafeDomain_iff host).mp h
  have hlower := (whitelist_lower safe hsafe).2
  refine (isSafeDomain_iff _).mpr ⟨safe, hsafe, ?_⟩
  rcases hhost with rfl | hsuffix
  · exact .inl hlower
  · have hmap := hsuffix.map Char.toLower
    rw [List.map_cons, hlower] at hmap
    exact .inr hmap

/-- A safe domain in front of a port belongs to the host: user information does not end in one. -/
theorem trustedHost_of_withoutPort {authority : Str} (h : isSafeDomain (withoutPort authority)) :
    TrustedHost (host authority) := by
  rcases withoutPort_cases authority with hhost | ⟨user, huser⟩
  · rw [hhost] at h
    exact trustedHost_of_isSafeDomain h
  · rw [huser] at h
    obtain ⟨safe, hsafe, hdomain⟩ := (isSafeDomain_iff _).mp h
    have hat := (whitelist_lower safe hsafe).1
    rcases hdomain with hdomain | hsuffix
    · rw [← hdomain] at hat
      exact absurd (by simp) hat
    · have hsuffix' : '.' :: safe <:+ host authority := suffix_of_suffix_append (by simpa using hat) hsuffix
      exact trustedHost_of_isSafeDomain ((isSafeDomain_iff _).mpr ⟨safe, hsafe, .inr hsuffix'⟩)

/-- For one authority: what the analyzer cuts out of it is trusted rightly, unless it is a decoy. -/
theorem sound_iff_nameInFront (authority : Str) :
    (isSafeDomain (authority.takeWhile (· ≠ ':')) → TrustedHost (host authority)) ↔
      ∀ name, nameInFront authority = some name → isSafeDomain name → TrustedHost (host authority) := by
  unfold nameInFront
  split_ifs with hport
  · rw [hport]
    exact ⟨fun _ name hname => (by cases hname), fun _ => trustedHost_of_withoutPort⟩
  · exact ⟨fun h name hname => Option.some.inj hname ▸ h, fun h => h _ rfl⟩

/-- The analyzer treats a URL as whitelisted only if a client connects to a whitelisted host, except where `urlparse`
accepts the URL and it has a whitelisted decoy in front of another host. -/
theorem isWhitelisted_sound_iff (url : Str) :
    (isWhitelisted nfkc url → TrustedHost (clientHost url)) ↔
      ((netlocOf nfkc (withScheme url)).isSome →
        ∀ name, decoy url = some name → isSafeDomain name → TrustedHost (clientHost url)) := by
  by_cases hhttp : "http".toList.isPrefixOf url
  · -- the analyzer and the client look at the same authority, if there is one
    have hprefix : "http".toList <+: url := List.isPrefixOf_iff_prefix.mp hhttp
    rw [isWhitelisted, domainOf, withScheme, if_pos hhttp, netlocOf_http hprefix, decoy, clientHost, clientAuthority]
    cases splitAbsolute (clean url) with
    | none =>
      simp only [hhttp, if_true]
      exact ⟨fun _ _ name hname => (by cases hname), fun _ hwhitelisted => absurd hwhitelisted (by decide +kernel)⟩
    | some r =>
      simp only [hhttp, if_true]
      cases haccept : acceptNetloc nfkc (authority r.2) with
      | none => simp
      | some netloc =>
        obtain rfl : authority r.2 = netloc := eq_of_acceptNetloc haccept
        simpa using sound_iff_nameInFront (authority r.2)
  · rw [isWhitelisted, domainOf, withScheme, if_neg hhttp, netlocOf_https, decoy, clientHost, clientAuthority]
    cases haccept : acceptNetloc nfkc (authority (clean url)) with
    | none => simp
    | some netloc =>
      obtain rfl : authority (clean url) = netloc := eq_of_acceptNetloc haccept
      cases habsolute : splitAbsolute (clean url) with
      | none =>
        simp only [hhttp]
        simpa using sound_iff_nameInFront (authority (clean url))
      | some r =>
        obtain ⟨scheme, rest⟩ := r
        obtain ⟨hchars, hcolon, hclean⟩ := splitAbsolute_eq_some habsolute
        have hcut : (authority (clean url)).takeWhile (· ≠ ':') = scheme := by
          have hall : ∀ c ∈ scheme, decide (c ≠ ':') = true := fun c hc => decide_eq_true fun he => hcolon (he ▸ hc)
          rw [hclean, authority_scheme hchars, List.takeWhile_append_of_pos hall]
          simp
        simp only [hhttp, Bool.false_eq_true, if_false, Option.map_some, Option.any_some, hcut, Option.isSome_some,
          forall_const, Option.some.injEq, forall_eq']

/-- A whitelisted user name in front of another host. -/
theorem not_sound_user :
    isWhitelisted id "http://github.com:x@evil.test/".toList ∧
      ¬TrustedHost (clientHost "http://github.com:x@evil.test/".toList) := by
  decide +kernel

end ContextAnalyzer

end Cyanide
