import Cyanide.Lib.RegexRuns
import Cyanide.Lib.StixPattern
import Cyanide.Ml.RuleEngine

/-!
# Indicators in commands

The patterns with which URLs, addresses and domains are looked for in commands.  A URL that is found is a scheme with as
many characters of a URL as there are (`eq_of_mem_findall`), and every URL of a command is inside of one that is found
(`covered_findall`).
-/

namespace Cyanide

open PosixPath PyText Regex StixPattern

namespace Indicators

/-- Python's characters, without `re.IGNORECASE`. -/
def letters (U : Unicode) : Alphabet := SecurityRuleEngine.alphabet U (· == ·)

theorem exact_letters (U : Unicode) : Exact (letters U) := fun _ _ => beq_iff_eq

@[irreducible] def compiled (pattern : String) : Regex := (compile pattern.toList).getD .empty

/-- The URLs of `_detect_tools` and `_report_ml_anomaly`. -/
def urlRegex : Regex := compiled r#"https?://[^\s<>\"']+"#

/-- The addresses of `_report_ml_anomaly`. -/
def ipRegex : Regex := compiled "\\d\x7b1,3\x7d\\.\\d\x7b1,3\x7d\\.\\d\x7b1,3\x7d\\.\\d\x7b1,3\x7d"

/-- The domains of `_detect_tools`. -/
def domainRegex : Regex := compiled "\\b(?:[a-zA-Z0-9-]+\\.)+[a-zA-Z]\x7b2,\x7d\\b"

/-- The addresses of `_detect_iocs`. -/
def sessionIpRegex : Regex := compiled "\\b(?:\\d\x7b1,3\x7d\\.)\x7b3\x7d\\d\x7b1,3\x7d\\b"

/-- The URLs of `_detect_iocs`. -/
def sessionUrlRegex : Regex :=
  compiled r"http[s]?://(?:[a-zA-Z]|[0-9]|[$-_@.&+]|[!*\\(\\),]|(?:%[0-9a-fA-F][0-9a-fA-F]))+"

def schemes : List Str := ["http://".toList, "https://".toList]

/-! ### Expressions for URLs -/

/-- A scheme and what comes behind it. -/
def urlLike (g : Regex) : Regex :=
  literal "http".toList (.seq (.alt (.char (.set false [.letter 's'])) .empty)
    (literal "://".toList (.seq (.seq g (.star g)) .empty)))

/-- `[^\s<>\"']`. -/
def urlClass : CharClass := .set true [.space, .letter '<', .letter '>', .letter '"', .letter '\'']

/-- The characters of a URL. -/
def urlChar (c : Char) : Bool := !(isSpace c || c = '<' || c = '>' || c = '"' || c = '\'')

theorem urlRegex_eq : urlRegex = urlLike (.char urlClass) := by decide +kernel

theorem chars_urlClass (U : Unicode) : Chars (letters U) (.char urlClass) urlChar := by
  refine (Chars.char _ urlClass).congr fun c => ?_
  have hsame : ∀ d, (letters U).sameLetter d c = decide (c = d) := fun d => by
    rw [Bool.eq_iff_iff, exact_letters U d c, decide_eq_true_eq, eq_comm]
  have hspace : (letters U).isSpace c = isSpace c := rfl
  simp only [urlClass, urlChar, CharClass.accepts, ClassItem.accepts, List.any_cons, List.any_nil, hsame, hspace,
    Bool.or_false, Bool.bne_true, Bool.or_assoc]

/-- The group in the pattern of a session. -/
def sessionUnit : Regex :=
  compiled r"[a-zA-Z]|[0-9]|[$-_@.&+]|[!*\\(\\),]|(?:%[0-9a-fA-F][0-9a-fA-F])"

/-- The characters of a URL for a session. -/
def sessionUrlChar (U : Unicode) (c : Char) : Bool := (singles sessionUnit).any (·.accepts (letters U) c)

theorem sessionUrlRegex_eq : sessionUrlRegex = urlLike sessionUnit := by decide +kernel

theorem chars_sessionUnit (U : Unicode) : Chars (letters U) sessionUnit (sessionUrlChar U) := by
  have hconsumes : consumes sessionUnit = true := by decide +kernel
  have hwithin : ∀ k ∈ classes sessionUnit, within (singles sessionUnit) k = true := by decide +kernel
  exact Chars.of_singles (letters U) hconsumes hwithin

/-- The letters of the schemes are among the alternatives. -/
theorem sessionUrlChar_scheme (U : Unicode) : ∀ c ∈ "https://".toList, sessionUrlChar U c = true := by
  intro c hc
  have hwithin : "https://".toList.all (fun c => within (singles sessionUnit) (.set false [.letter c])) = true := by
    decide +kernel
  refine any_of_within (List.all_eq_true.1 hwithin c hc) ?_
  exact (accepts_letter (exact_letters U) c c).2 rfl

section

variable {A : Alphabet} {g : Regex} {p : Char → Bool} {text : List Char} {i j : ℕ}

private theorem append_prefix_iff {a b l : Str} : a ++ b <+: l ↔ a <+: l ∧ b <+: l.drop a.length := by
  constructor
  · rintro ⟨t, rfl⟩
    exact ⟨⟨b ++ t, by simp⟩, ⟨t, by simp⟩⟩
  · rintro ⟨⟨t, rfl⟩, hb⟩
    rw [List.drop_left] at hb
    exact (List.prefix_append_right_inj a).2 hb

private theorem matchesAt_seq_empty {r : Regex} : MatchesAt A text (.seq r .empty) i j ↔ MatchesAt A text r i j := by
  constructor
  · rintro (_ | _ | _ | ⟨hr, hempty⟩)
    cases hempty
    exact hr
  · exact fun hr => .seq hr (.empty _)

/-- What is behind the first part of the scheme. -/
private theorem matchesAt_behind (hA : Exact A) (hg : Chars A g p) {scheme : Str} (hi : scheme <+: text.drop i)
    (hle : i + scheme.length ≤ text.length) :
    MatchesAt A text (literal "://".toList (.seq (.seq g (.star g)) .empty)) (i + scheme.length) j ↔
      scheme ++ "://".toList <+: text.drop i ∧ i + (scheme ++ "://".toList).length < j ∧ j ≤ text.length ∧
        ∀ n, i + (scheme ++ "://".toList).length ≤ n → n < j → (text[n]?).any p = true := by
  rw [matchesAt_literal hA, matchesAt_seq_empty, append_prefix_iff, List.drop_drop, and_assoc, List.length_append,
    ← Nat.add_assoc]
  rw [and_iff_right hi]
  refine and_congr_right fun hbegin => hg.plus_iff ?_
  have hlen := hbegin.length_le
  rw [List.length_drop] at hlen
  omega

/-- A match is a scheme and a run of characters. -/
theorem matchesAt_urlLike (hA : Exact A) (hg : Chars A g p) (hi : i ≤ text.length) :
    MatchesAt A text (urlLike g) i j ↔ ∃ scheme ∈ schemes, scheme <+: text.drop i ∧ i + scheme.length < j ∧
      j ≤ text.length ∧ ∀ n, i + scheme.length ≤ n → n < j → (text[n]?).any p = true := by
  have hlen : ∀ {scheme : Str}, scheme <+: text.drop i → i + scheme.length ≤ text.length := by
    intro scheme hbegin
    have hle := hbegin.length_le
    rw [List.length_drop] at hle
    omega
  rw [urlLike, matchesAt_literal hA]
  constructor
  · rintro ⟨hhttp, _ | _ | _ | ⟨halt, hrest⟩⟩
    cases halt with
    | left _ hs =>
      cases hs with
      | @char _ _ c hc hacc =>
        obtain rfl := (accepts_letter hA 's' c).1 hacc
        obtain ⟨hlt, heq⟩ := List.getElem?_eq_some_iff.1 hc
        have hhttps : "https".toList <+: text.drop i := by
          refine append_prefix_iff.2 ⟨hhttp, ?_⟩
          rw [List.drop_drop, List.drop_eq_getElem_cons hlt, heq]
          exact List.cons_prefix_cons.2 ⟨rfl, List.nil_prefix⟩
        exact ⟨"https://".toList, by decide, (matchesAt_behind hA hg hhttps (hlen hhttps)).1 hrest⟩
    | right _ hempty =>
      cases hempty
      exact ⟨"http://".toList, by decide, (matchesAt_behind hA hg hhttp (hlen hhttp)).1 hrest⟩
  · rintro ⟨scheme, hscheme, hbegin, hrun⟩
    simp only [schemes, List.mem_cons, List.not_mem_nil, or_false] at hscheme
    rcases hscheme with rfl | rfl
    · have hhttp : "http".toList <+: text.drop i := (append_prefix_iff (b := "://".toList).1 hbegin).1
      exact ⟨hhttp, .seq (.right _ (.empty _)) ((matchesAt_behind hA hg hhttp (hlen hhttp)).2 ⟨hbegin, hrun⟩)⟩
    · have hhttps : "https".toList <+: text.drop i := (append_prefix_iff (b := "://".toList).1 hbegin).1
      obtain ⟨hhttp, hs⟩ := (append_prefix_iff (a := "http".toList) (b := "s".toList)).1 hhttps
      refine ⟨hhttp, .seq (.left _ (.char (c := 's') ?_ ((accepts_letter hA 's' 's').2 rfl)))
        ((matchesAt_behind hA hg hhttps (hlen hhttps)).2 ⟨hbegin, hrun⟩)⟩
      rw [List.drop_drop] at hs
      obtain ⟨t, ht⟩ := hs
      have hget : (text.drop (i + 4))[0]? = some 's' := by
        rw [show text.drop (i + 4) = _ from ht.symm]
        rfl
      rwa [List.getElem?_drop] at hget

/-! ### What is found -/

/-- What is found goes as far as it can. -/
theorem head?_ends_urlLike (hg : Chars A g p) (hi : i ≤ text.length) (hj : (ends A text (urlLike g) i).head? = some j) :
    (text[j]?).any p = false := by
  obtain ⟨m, hm, hj⟩ := exists_head?_literal hi hj
  obtain ⟨m, hm, hj⟩ := exists_head?_seq hm hj
  obtain ⟨m, hm, hj⟩ := exists_head?_literal hm hj
  rw [ends_seq_empty] at hj
  obtain ⟨m, hm, hj⟩ := exists_head?_seq hm hj
  exact hg.head?_ends_star hm hj

/-- A found URL is a scheme with characters of a URL, as many as there are. -/
theorem eq_of_mem_findall (hA : Exact A) (hg : Chars A g p) {x : Str} (hx : x ∈ findall A (urlLike g) text) :
    ∃ scheme ∈ schemes, ∃ v u w, x = scheme ++ v ∧ v ≠ [] ∧ (∀ c ∈ v, p c = true) ∧ text = u ++ x ++ w ∧
      w.head?.any p = false := by
  obtain ⟨⟨i, j⟩, hspan, rfl⟩ := List.mem_map.1 hx
  obtain ⟨hi, hhead, hm⟩ := mem_spans hspan
  obtain ⟨scheme, hscheme, hbegin, hlt, hj, hrun⟩ := (matchesAt_urlLike hA hg hi).1 hm
  refine ⟨scheme, hscheme, piece text (i + scheme.length, j), text.take i, text.drop j, ?_, ?_,
    (all_piece_iff hj).2 hrun, eq_piece (by omega) hj, ?_⟩
  · obtain ⟨rest, hrest⟩ := hbegin
    have hdrop : text.drop (i + scheme.length) = rest := by rw [← List.drop_drop, ← hrest, List.drop_left]
    show (text.drop i).take (j - i) = scheme ++ (text.drop (i + scheme.length)).take (j - (i + scheme.length))
    rw [hdrop, ← hrest, List.take_append, List.take_of_length_le (by omega)]
    congr 2
    omega
  · intro hnil
    have hlen := congrArg List.length hnil
    rw [piece, List.length_take, List.length_drop, List.length_nil] at hlen
    omega
  · rw [List.head?_drop]
    exact head?_ends_urlLike hg hi hhead

/-- Every URL in a text is inside of one that is found. -/
theorem covered_findall (hA : Exact A) (hg : Chars A g p) (hp : ∀ c ∈ "https://".toList, p c = true)
    {scheme u v w : Str} (hscheme : scheme ∈ schemes) (hv : v ≠ []) (hchars : ∀ c ∈ v, p c = true)
    (htext : text = u ++ (scheme ++ v) ++ w) : ∃ x ∈ findall A (urlLike g) text, scheme ++ v <:+: x := by
  have hall : ∀ c ∈ scheme ++ v, p c = true := by
    intro c hc
    rcases List.mem_append.1 hc with hc | hc
    · refine hp c ?_
      simp only [schemes, List.mem_cons, List.not_mem_nil, or_false] at hscheme
      rcases hscheme with rfl | rfl
      · have hsub : "http://".toList.Sublist "https://".toList := by decide
        exact hsub.subset hc
      · exact hc
    · exact hchars c hc
  have hlen : u.length + (scheme ++ v).length ≤ text.length := by
    rw [htext]
    simp
  have hpiece : piece text (u.length, u.length + (scheme ++ v).length) = scheme ++ v := piece_eq htext
  have hrun := (all_piece_iff hlen).1 (hpiece.symm ▸ hall)
  have hdrop : text.drop u.length = scheme ++ (v ++ w) := by rw [htext]; simp
  have hm : MatchesAt A text (urlLike g) u.length (u.length + (scheme ++ v).length) := by
    refine (matchesAt_urlLike hA hg (by omega)).2 ⟨scheme, hscheme, ⟨v ++ w, hdrop.symm⟩, ?_, hlen, ?_⟩
    · have hpos := List.length_pos_iff.2 hv
      rw [List.length_append]
      omega
    · intro n hn hlt
      exact hrun n (by omega) hlt
  obtain ⟨⟨a, b⟩, hspan, hcov⟩ := covered_spans (by omega) hm
  obtain ⟨ha, hhead, hfound⟩ := mem_spans hspan
  have hend := head?_ends_urlLike hg ha hhead
  have hab := hfound.le.1
  -- the run that is found cannot end inside of the URL
  have hfar : u.length + (scheme ++ v).length ≤ b := by
    by_contra hlt
    rw [hrun b (by dsimp only at hcov hab; omega) (by omega)] at hend
    cases hend
  refine ⟨_, List.mem_map.2 ⟨_, hspan, rfl⟩, ?_⟩
  rw [← hpiece]
  exact piece_infix (by dsimp only at hcov; omega) hfar

/-- A URL of the text has a quote or a backslash. -/
def SpecialUrl (p : Char → Bool) (text : Str) : Prop :=
  ∃ scheme ∈ schemes, ∃ u v w, text = u ++ (scheme ++ v) ++ w ∧ (∀ c ∈ v, p c = true) ∧ ∃ c ∈ v, isSpecial c = true

theorem plain_findall_iff (hA : Exact A) (hg : Chars A g p) (hp : ∀ c ∈ "https://".toList, p c = true) :
    (∀ x ∈ findall A (urlLike g) text, ∀ c ∈ x, isSpecial c = false) ↔ ¬SpecialUrl p text := by
  constructor
  · rintro hplain ⟨scheme, hscheme, u, v, w, htext, hchars, c, hc, hspecial⟩
    obtain ⟨x, hx, hinside⟩ := covered_findall hA hg hp hscheme (List.ne_nil_of_mem hc) hchars htext
    rw [hplain x hx c (hinside.subset (List.mem_append_right _ hc))] at hspecial
    cases hspecial
  · intro hno x hx c hc
    obtain ⟨scheme, hscheme, v, u, w, rfl, -, hchars, htext, -⟩ := eq_of_mem_findall hA hg hx
    rcases List.mem_append.1 hc with hc | hc
    · have hplain : ∀ scheme ∈ schemes, scheme.all (fun c => !isSpecial c) = true := by decide
      simpa using List.all_eq_true.1 (hplain scheme hscheme) c hc
    · by_contra hspecial
      rw [Bool.not_eq_false] at hspecial
      exact hno ⟨scheme, hscheme, u, v, w, htext, hchars, c, hc, hspecial⟩

end

/-- Quotes and backslashes are no digits. -/
def PlainDigits (U : Unicode) : Prop := ∀ c, isSpecial c = true → U.decimal c = none

theorem plain_of_avoids {U : Unicode} (hU : PlainDigits U) {r : Regex}
    (hr : ∀ k ∈ classes r, (avoids '\'' k && avoids '\\' k) = true) {text x : Str}
    (hx : x ∈ findall (letters U) r text) : ∀ c ∈ x, isSpecial c = false := by
  intro c hc
  by_contra hspecial
  rw [Bool.not_eq_false] at hspecial
  have hdigit : (letters U).isDigit c = false := by
    show (U.decimal c).isSome = false
    rw [hU c hspecial]
    rfl
  refine notMem_of_avoids (exact_letters U) hdigit (fun k hk => ?_) hx hc
  obtain ⟨hquote, hslash⟩ := Bool.and_eq_true_iff.1 (hr k hk)
  rcases (by simpa [isSpecial] using hspecial : c = '\'' ∨ c = '\\') with rfl | rfl
  · exact hquote
  · exact hslash

theorem avoids_ipRegex : ∀ k ∈ classes ipRegex, (avoids '\'' k && avoids '\\' k) = true := by decide +kernel

theorem avoids_domainRegex : ∀ k ∈ classes domainRegex, (avoids '\'' k && avoids '\\' k) = true := by decide +kernel

theorem avoids_sessionIpRegex : ∀ k ∈ classes sessionIpRegex, (avoids '\'' k && avoids '\\' k) = true := by
  decide +kernel

end Indicators

end Cyanide
