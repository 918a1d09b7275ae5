import Cyanide.Lib.IpAddress
import Cyanide.Lib.PyText

/-!
# URLs and their hosts

The network location that Python's `urlparse` finds in a URL, and the host that a client connects to: the authority
without the user information in front of it and without the port.  `nfkc` is the normalization form of that name.
-/

namespace Urls

open PyText

/-- The characters that are removed from a URL wherever they stand. -/
def isRemoved (c : Char) : Bool := c = '\t' || c = '\r' || c = '\n'

def clean (s : List Char) : List Char := s.filter (!isRemoved ·)

def isSchemeChar (c : Char) : Bool := c.isAlphanum || c = '+' || c = '-' || c = '.'

/-- A scheme, and what is behind its colon. -/
def splitScheme (s : List Char) : Option (List Char × List Char) :=
  match partition ':' s with
  | (scheme, some rest) => if scheme.head?.any Char.isAlpha && scheme.all isSchemeChar then some (scheme, rest) else none
  | (_, none) => none

/-- The characters that end an authority. -/
def isDelimiter (c : Char) : Bool := c = '/' || c = '?' || c = '#'

/-- The authority behind the two slashes. -/
def authority (s : List Char) : List Char := s.takeWhile (!isDelimiter ·)

/-! ### `urlparse` -/

/-- `rpartition('@')[2]`. -/
def hostAndPort (netloc : List Char) : List Char := netloc.rtakeWhile (· ≠ '@')

def isHexDigit (c : Char) : Bool := c.isDigit || ('a' ≤ c && c ≤ 'f') || ('A' ≤ c && c ≤ 'F')

/-- `_check_bracketed_host`: an address of a future version, or one of version 6. -/
def checkBracketedHost (hostname : List Char) : Bool :=
  match hostname with
  | 'v' :: cs =>
    let version := cs.takeWhile isHexDigit
    match cs.drop version.length with
    | '.' :: rest => version ≠ [] && rest ≠ []
    | _ => false
  | cs =>
    match IpAddress.read cs with
    | some (.v6 _) => true
    | _ => false

/-- `_check_bracketed_netloc`. -/
def checkBracketedNetloc (netloc : List Char) : Bool :=
  match partition '[' (hostAndPort netloc) with
  | (before, some bracketed) =>
    let (hostname, port) := partition ']' bracketed
    before = [] && (port.getD [] = [] || (port.getD []).head? = some ':') && checkBracketedHost hostname
  | (_, none) => checkBracketedHost (partition ':' (hostAndPort netloc)).1

def checkBrackets (netloc : List Char) : Bool :=
  netloc.contains '[' == netloc.contains ']' && (!netloc.contains '[' || checkBracketedNetloc netloc)

/-- `_checknetloc`: no character may expand to one that has a meaning in a URL. -/
def checkNetloc (nfkc : List Char → List Char) (netloc : List Char) : Bool :=
  let n := netloc.filter fun c => !(['@', ':', '#', '?'].contains c)
  netloc.all (·.toNat < 128) || nfkc n = n || (nfkc n).all fun c => !(['/', '?', '#', '@', ':'].contains c)

/-- `urlparse(url).netloc`, and `none` where it raises. -/
def netlocOf (nfkc : List Char → List Char) (url : List Char) : Option (List Char) :=
  let url := clean (url.dropWhile (·.toNat ≤ 0x20))
  match ((splitScheme url).map Prod.snd).getD url with
  | '/' :: '/' :: rest =>
    if checkBrackets (authority rest) && checkNetloc nfkc (authority rest) then some (authority rest) else none
  | _ => some []

/-! ### The host of a client -/

/-- The host in an authority; an address in brackets may have colons. -/
def host (authority : List Char) : List Char :=
  match hostAndPort authority with
  | '[' :: cs => '[' :: cs.takeWhile (· ≠ ']') ++ (if ']' ∈ cs then [']'] else [])
  | cs => cs.takeWhile (· ≠ ':')

/-- The authority without its port. -/
def withoutPort (authority : List Char) : List Char := authority.rdropWhile (· ≠ '@') ++ host authority

/-- A scheme, and what is behind the two slashes. -/
def splitAbsolute (s : List Char) : Option (List Char × List Char) :=
  match splitScheme s with
  | some (scheme, '/' :: '/' :: rest) => some (scheme, rest)
  | _ => none

/-- The authority of a URL, where a text without a scheme begins with it. -/
def clientAuthority (url : List Char) : List Char :=
  match splitAbsolute (clean url) with
  | some (_, rest) => authority rest
  | none => authority (clean url)

/-- The host that a client connects to. -/
def clientHost (url : List Char) : List Char := host (clientAuthority url)

/-! ### Schemes and authorities -/

theorem clean_append (s t : List Char) : clean (s ++ t) = clean s ++ clean t := List.filter_append s t

theorem splitScheme_eq_some {s scheme rest : List Char} (h : splitScheme s = some (scheme, rest)) :
    ':' ∉ scheme ∧ (∀ c ∈ scheme, isSchemeChar c) ∧ s = scheme ++ ':' :: rest := by
  unfold splitScheme at h
  rcases partition_cases ':' s with ⟨-, hs⟩ | ⟨a, b, rfl, ha, hs⟩
  · rw [hs] at h
    cases h
  · rw [hs] at h
    dsimp only at h
    split_ifs at h with hvalid
    obtain ⟨rfl, rfl⟩ : a = scheme ∧ b = rest := by simpa using h
    rw [Bool.and_eq_true, List.all_eq_true] at hvalid
    exact ⟨ha, hvalid.2, rfl⟩

theorem splitAbsolute_eq_some {s scheme rest : List Char} (h : splitAbsolute s = some (scheme, rest)) :
    (∀ c ∈ scheme, isSchemeChar c) ∧ ':' ∉ scheme ∧ s = scheme ++ ':' :: '/' :: '/' :: rest := by
  unfold splitAbsolute at h
  split at h
  · rename_i scheme' rest' hsplit
    obtain ⟨rfl, rfl⟩ : scheme' = scheme ∧ rest' = rest := by simpa using h
    obtain ⟨hcolon, hchars, hs⟩ := splitScheme_eq_some hsplit
    exact ⟨hchars, hcolon, hs⟩
  · cases h

/-- The checks on a network location. -/
def acceptNetloc (nfkc : List Char → List Char) (netloc : List Char) : Option (List Char) :=
  if checkBrackets netloc && checkNetloc nfkc netloc then some netloc else none

theorem eq_of_acceptNetloc {nfkc : List Char → List Char} {n netloc : List Char}
    (h : acceptNetloc nfkc n = some netloc) : n = netloc := by
  unfold acceptNetloc at h
  split_ifs at h
  exact Option.some.inj h

/-- With `https` in front, the network location is where the text begins. -/
theorem netlocOf_https (nfkc : List Char → List Char) (url : List Char) :
    netlocOf nfkc ("https://".toList ++ url) = acceptNetloc nfkc (authority (clean url)) := by
  have hdrop : ("https://".toList ++ url).dropWhile (·.toNat ≤ 0x20) = "https://".toList ++ url := rfl
  have hclean : clean ("https://".toList ++ url) = "https".toList ++ ':' :: '/' :: '/' :: clean url := by
    rw [clean_append]
    rfl
  have hpartition : partition ':' ("https".toList ++ ':' :: '/' :: '/' :: clean url) =
      ("https".toList, some ('/' :: '/' :: clean url)) := partition_append (by decide) _
  have hsplit : splitScheme ("https".toList ++ ':' :: '/' :: '/' :: clean url) =
      some ("https".toList, '/' :: '/' :: clean url) := by
    rw [splitScheme, hpartition]
    rfl
  rw [netlocOf, hdrop, hclean, hsplit]
  rfl

/-- A network location behind a scheme is the authority that the client sees. -/
theorem netlocOf_http {nfkc : List Char → List Char} {url : List Char} (hurl : "http".toList <+: url) :
    netlocOf nfkc url =
      match splitAbsolute (clean url) with
      | some (_, rest) => acceptNetloc nfkc (authority rest)
      | none => some [] := by
  obtain ⟨t, rfl⟩ := hurl
  have hdrop : ("http".toList ++ t).dropWhile (·.toNat ≤ 0x20) = "http".toList ++ t := rfl
  have hclean : clean ("http".toList ++ t) = "http".toList ++ clean t := by
    rw [clean_append]
    rfl
  rw [netlocOf, hdrop, splitAbsolute]
  split
  · -- two slashes are behind a scheme, since the text does not begin with them
    rename_i rest hrest
    cases hsplit : splitScheme (clean ("http".toList ++ t)) with
    | none =>
      rw [hsplit, hclean] at hrest
      cases hrest
    | some r =>
      obtain ⟨scheme, rest'⟩ := r
      obtain rfl : rest' = '/' :: '/' :: rest := by
        rw [hsplit] at hrest
        exact hrest
      rfl
  · rename_i hne
    cases hsplit : splitScheme (clean ("http".toList ++ t)) with
    | none => rfl
    | some r =>
      obtain ⟨scheme, rest⟩ := r
      split
      · rename_i heq
        split at heq
        · rename_i heq'
          obtain ⟨-, rfl⟩ : scheme = _ ∧ rest = _ := by simpa using heq'
          exact absurd (by rw [hsplit]; rfl) (hne _)
        · cases heq
      · rfl

/-- The authority of a text with a scheme, taken for one without, is the scheme. -/
theorem authority_scheme {scheme rest : List Char} (hscheme : ∀ c ∈ scheme, isSchemeChar c) :
    authority (scheme ++ ':' :: '/' :: rest) = scheme ++ [':'] := by
  have hall : ∀ c ∈ scheme, (!isDelimiter c) = true := by
    intro c hc
    by_contra hdelimiter
    have hchar := hscheme c hc
    simp only [isDelimiter, Bool.not_eq_true, Bool.not_eq_false', Bool.or_eq_true, decide_eq_true_eq] at hdelimiter
    rcases hdelimiter with (rfl | rfl) | rfl <;> exact absurd hchar (by decide)
  rw [authority, List.takeWhile_append_of_pos hall]
  rfl

/-! ### Hosts -/

/-- What is in front of an at sign does not matter to a suffix without one. -/
theorem suffix_of_suffix_append {c : Char} {l a b : List Char} (hl : c ∉ l) (h : l <:+ a ++ c :: b) : l <:+ b := by
  have hb : b <:+ a ++ c :: b := ⟨a ++ [c], by simp⟩
  rcases List.suffix_or_suffix_of_suffix h hb with hlb | hbl
  · exact hlb
  · obtain ⟨d, rfl⟩ := hbl
    obtain ⟨e, he⟩ := h
    have hed : e ++ d = a ++ [c] := by
      have happend : (e ++ d) ++ b = (a ++ [c]) ++ b := by simpa using he
      exact List.append_cancel_right happend
    rcases List.eq_nil_or_concat d with rfl | ⟨d', x, rfl⟩
    · exact List.suffix_rfl
    · rw [List.concat_eq_append, ← List.append_assoc] at hed
      obtain ⟨-, hx⟩ := List.append_inj' hed rfl
      obtain rfl : x = c := by simpa using hx
      exact absurd (by simp) hl

/-- The authority without its port is the host, alone or behind an at sign. -/
theorem withoutPort_cases (authority : List Char) :
    withoutPort authority = host authority ∨ ∃ user, withoutPort authority = user ++ '@' :: host authority := by
  rw [withoutPort]
  by_cases hnil : authority.rdropWhile (· ≠ '@') = []
  · rw [hnil]
    exact .inl rfl
  · have hlast := List.rdropWhile_last_not (· ≠ '@') authority hnil
    have hat : (authority.rdropWhile (· ≠ '@')).getLast hnil = '@' := by simpa using hlast
    have hconcat := List.dropLast_concat_getLast hnil
    rw [hat] at hconcat
    refine .inr ⟨(authority.rdropWhile (· ≠ '@')).dropLast, ?_⟩
    conv_lhs => rw [← hconcat]
    simp

end Urls
