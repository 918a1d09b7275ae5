import Mathlib.Data.Prod.Lex
import Cyanide.Lib.PosixPath
import Cyanide.Lib.PyText
import Cyanide.Lib.Regex

/-!
# The rule engine

`evaluate` searches a command for the patterns of a table and reports the match with the highest confidence.  What a
pattern finds in a command it finds in every command line that contains the command between characters that are no
letters of a word, so what is put around a command hides nothing (`evaluate_context`).  Confidences are hundredths; the
entropy of a text is a parameter.
-/

namespace Cyanide

open PosixPath PyText

/-- A rule, or what the entropy check puts beside the rules. -/
structure SecurityRule where
  category : Str
  pattern : Str
  severity : Str
  description : Str
  technique : Str
  confidence : ℕ
  deriving DecidableEq

/-- Shannon entropy, by what is asked of it: whether it is above 4.5, and its text with two decimals. -/
structure EntropyCheck where
  high : Str → Bool
  shown : Str → Str

namespace SecurityRuleEngine

/-- The table of `_load_rules`. -/
def rules : List SecurityRule := [
  ⟨"privesc".toList, r"\bsudo\s+su\b".toList, "HIGH".toList, "Sudo su execution".toList,
    "T1548.003".toList, 100⟩,
  ⟨"privesc".toList, r"\bsudo\s+-i\b".toList, "HIGH".toList, "Sudo interactive execution".toList,
    "T1548.003".toList, 100⟩,
  ⟨"privesc".toList, r"chmod\s+.*[+]s".toList, "HIGH".toList, "SetUID bit setting".toList,
    "T1548.001".toList, 90⟩,
  ⟨"cred_access".toList, r"/etc/shadow".toList, "CRITICAL".toList, "Shadow file access".toList,
    "T1003.008".toList, 100⟩,
  ⟨"cred_access".toList, r"cat\s+.*\.ssh/id_rsa".toList, "CRITICAL".toList, "SSH private key access".toList,
    "T1552.004".toList, 100⟩,
  ⟨"cred_access".toList, r"grep\s+password".toList, "HIGH".toList, "Searching for passwords".toList,
    "T1552.001".toList, 80⟩,
  ⟨"persistence".toList, r"echo\s+.*\s+>>\s+\.bashrc".toList, "HIGH".toList, "Shell config modification (.bashrc)".toList,
    "T1546.004".toList, 95⟩,
  ⟨"persistence".toList, r"crontab\s+-e".toList, "HIGH".toList, "Crontab editing".toList,
    "T1053.003".toList, 90⟩,
  ⟨"recon".toList, r"\buname\s+-a".toList, "LOW".toList, "System information discovery".toList,
    "T1082".toList, 70⟩,
  ⟨"recon".toList, r"cat\s+/etc/passwd".toList, "MEDIUM".toList, "Account discovery".toList,
    "T1087.001".toList, 80⟩,
  ⟨"recon".toList, r"\bid\b".toList, "LOW".toList, "User discovery".toList,
    "T1033".toList, 60⟩,
  ⟨"recon".toList, r"\bwhoami\b".toList, "LOW".toList, "User discovery".toList,
    "T1033".toList, 60⟩,
  ⟨"defense_evasion".toList, r"rm\s+/var/log".toList, "MEDIUM".toList, "Log deletion".toList,
    "T1070.002".toList, 90⟩,
  ⟨"defense_evasion".toList, r"history\s+-c".toList, "MEDIUM".toList, "History clearing".toList,
    "T1070.003".toList, 90⟩,
  ⟨"command_c2".toList, r"\bwget\b".toList, "MEDIUM".toList, "File download (wget)".toList,
    "T1105".toList, 95⟩,
  ⟨"command_c2".toList, r"\bcurl\b".toList, "MEDIUM".toList, "File download (curl)".toList,
    "T1105".toList, 95⟩,
  ⟨"command_c2".toList, r"\bnc\b".toList, "HIGH".toList, "Netcat usage".toList,
    "T1059".toList, 95⟩,
  ⟨"privesc".toList, r"\bsudo\s+-s\b".toList, "HIGH".toList, "Sudo shell execution".toList,
    "T1548.003".toList, 100⟩,
  ⟨"privesc".toList, r"chmod\s+.*4[0-7]{3}".toList, "HIGH".toList, "SetUID bit setting (numeric)".toList,
    "T1548.001".toList, 90⟩,
  ⟨"recon".toList, r"\bnetstat\b".toList, "LOW".toList, "Network connection discovery".toList,
    "T1049".toList, 70⟩,
  ⟨"recon".toList, r"\bss\s+".toList, "LOW".toList, "Network connection discovery".toList,
    "T1049".toList, 70⟩,
  ⟨"execution".toList, r"(?:bash|sh|zsh|dash)\s+-i".toList, "HIGH".toList, "Interactive shell".toList,
    "T1059.004".toList, 80⟩,
  ⟨"discovery".toList, r"find\s+.*\s+-perm\s+(-4000|-u\+s)".toList, "HIGH".toList, "SUID file search".toList,
    "T1083".toList, 90⟩,
  ⟨"cred_access".toList, r"history\s*\|\s*grep".toList, "HIGH".toList, "Searching history for credentials".toList,
    "T1552.003".toList, 90⟩,
  ⟨"discovery".toList, r"find\s+.*\s+-name\s+.*\.conf".toList, "MEDIUM".toList, "Configuration file discovery".toList,
    "T1083".toList, 80⟩,
  ⟨"defense_evasion".toList, r"base64\s+-d|openssl\s+enc\s+-d".toList, "HIGH".toList, "Decoding payload (base64/openssl)".toList,
    "T1027".toList, 95⟩,
  ⟨"defense_evasion".toList, r"\w+\\\w+".toList, "MEDIUM".toList, "Command obfuscation (backslashes)".toList,
    "T1027".toList, 75⟩]

/-- `re.IGNORECASE` takes the letters that `sameLetter` relates for the same. -/
def alphabet (U : Unicode) (sameLetter : Char → Char → Bool) : Alphabet :=
  ⟨U.isWord, isSpace, fun c => (U.decimal c).isSome, sameLetter⟩

/-- `_compile_rules`. -/
def compiledRules : List (SecurityRule × Regex) := rules.filterMap fun r => (Regex.compile r.pattern).map (r, ·)

/-- The severity as a number. -/
def severityRank (severity : Str) : ℕ :=
  if severity = "CRITICAL".toList then 4
  else if severity = "HIGH".toList then 3
  else if severity = "MEDIUM".toList then 2
  else if severity = "LOW".toList then 1
  else 0

/-- The key of the maximum. -/
def rank (r : SecurityRule) : ℕ ×ₗ ℕ := toLex (r.confidence, severityRank r.severity)

/-- Python's `max`: the first of the items with the greatest key. -/
def maxRule : List SecurityRule → Option SecurityRule
  | [] => none
  | r :: rs => some (rs.foldl (fun best r => if rank best < rank r then r else best) r)

section

variable (A : Alphabet) (entropy : EntropyCheck)

def highEntropy (command : Str) : SecurityRule where
  category := "obfuscation".toList
  pattern := "high_entropy".toList
  severity := "HIGH".toList
  description := "High entropy command (".toList ++ entropy.shown command ++ ")".toList
  technique := "T1027".toList
  confidence := 85

def found (command : Str) : List SecurityRule :=
  (compiledRules.filter fun r => r.2.search A command).map Prod.fst

def matchedRules (command : Str) : List SecurityRule :=
  found A command ++ if entropy.high command && 20 < command.length then [highEntropy entropy command] else []

/-- The rule of the result, `none` when nothing matched. -/
def evaluate (command : Str) : Option SecurityRule := maxRule (matchedRules A entropy command)

end

/-- Every pattern of the table is one that is read. -/
theorem isSome_compile : ∀ r ∈ rules, (Regex.compile r.pattern).isSome = true := by
  decide +kernel

/-- The maximum of a fold is one of the items and not below the others. -/
private theorem foldl_max (rs : List SecurityRule) (b : SecurityRule) :
    let best := rs.foldl (fun best r => if rank best < rank r then r else best) b
    best ∈ b :: rs ∧ ∀ r ∈ b :: rs, rank r ≤ rank best := by
  induction rs generalizing b with
  | nil => simp
  | cons r rs ih =>
    rw [List.foldl_cons]
    obtain ⟨hmem, hmax⟩ := ih (if rank b < rank r then r else b)
    refine ⟨?_, fun x hx => ?_⟩
    · rcases List.mem_cons.1 hmem with heq | hmem
      · rw [heq]
        split <;> simp
      · exact List.mem_cons_of_mem _ (List.mem_cons_of_mem _ hmem)
    · have hstep := hmax _ List.mem_cons_self
      have hb : rank b ≤ rank (if rank b < rank r then r else b) ∧ rank r ≤ rank (if rank b < rank r then r else b) := by
        split
        · exact ⟨le_of_lt ‹_›, le_rfl⟩
        · exact ⟨le_rfl, not_lt.1 ‹_›⟩
      rcases List.mem_cons.1 hx with rfl | hx
      · exact hb.1.trans hstep
      · rcases List.mem_cons.1 hx with rfl | hx
        · exact hb.2.trans hstep
        · exact hmax x (List.mem_cons_of_mem _ hx)

theorem maxRule_spec {rs : List SecurityRule} {r : SecurityRule} (hr : r ∈ rs) :
    ∃ v, maxRule rs = some v ∧ v ∈ rs ∧ rank r ≤ rank v := by
  cases rs with
  | nil => cases hr
  | cons b rs =>
    obtain ⟨hmem, hmax⟩ := foldl_max rs b
    exact ⟨_, rfl, hmem, hmax r hr⟩

theorem maxRule_eq_none {rs : List SecurityRule} : maxRule rs = none ↔ rs = [] := by
  cases rs <;> simp [maxRule]

variable {A : Alphabet} {entropy : EntropyCheck} {command command' pre post : Str}

theorem mem_found {r : SecurityRule} :
    r ∈ found A command ↔ ∃ c ∈ compiledRules, c.2.search A command = true ∧ c.1 = r := by
  simp only [found, List.mem_map, List.mem_filter, and_assoc]

theorem found_between (hseam : Regex.Separated A pre post) {r : SecurityRule} (hr : r ∈ found A command) :
    r ∈ found A (pre ++ command ++ post) := by
  obtain ⟨c, hmem, hs, heq⟩ := mem_found.1 hr
  exact mem_found.2 ⟨c, hmem, Regex.search_context hseam hs, heq⟩

theorem found_alike (halike : List.Forall₂ (Regex.Alike A) command command') {r : SecurityRule}
    (hr : r ∈ found A command) : r ∈ found A command' := by
  obtain ⟨c, hmem, hs, heq⟩ := mem_found.1 hr
  exact mem_found.2 ⟨c, hmem, Regex.search_alike halike hs, heq⟩

theorem exists_evaluate (entropy : EntropyCheck) {r : SecurityRule} (hr : r ∈ found A command) :
    ∃ v, evaluate A entropy command = some v ∧ v ∈ matchedRules A entropy command ∧ rank r ≤ rank v :=
  maxRule_spec (List.mem_append_left _ hr)

/-- A rule that is found in a command is found in every line that has the command, in whatever letter case, between
characters that are no part of a word: the line is reported with at least the rank of the rule. -/
theorem evaluate_context (hseam : Regex.Separated A pre post) (halike : List.Forall₂ (Regex.Alike A) command command')
    {r : SecurityRule} (hr : r ∈ found A command) :
    ∃ v, evaluate A entropy (pre ++ command' ++ post) = some v ∧ rank r ≤ rank v := by
  obtain ⟨v, hv, -, hle⟩ := exists_evaluate entropy (found_between hseam (found_alike halike hr))
  exact ⟨v, hv, hle⟩

/-- Letters in ASCII, whose case does not matter. -/
theorem evaluate_context_case :
    ∃ v, evaluate (alphabet ascii fun c d => c.toLower == d.toLower) ⟨fun _ => false, fun _ => []⟩
      "true; SuDo su &".toList = some v ∧ toLex (100, 3) ≤ rank v := by
  have halike : ∀ c d : Char, c.toLower = d.toLower → ascii.isWord c = ascii.isWord d → isSpace c = isSpace d →
      (ascii.decimal c).isSome = (ascii.decimal d).isSome → (c = '\n' ↔ d = '\n') →
      Regex.Alike (alphabet ascii fun c d => c.toLower == d.toLower) c d := by
    intro c d hcd hword hspace hdigit hline
    exact .of_tests hword hspace hdigit (fun e => by show (_ == _) = (_ == _); rw [hcd]) hline
  have hletters : List.Forall₂ (Regex.Alike (alphabet ascii fun c d => c.toLower == d.toLower))
      "sudo su".toList "SuDo su".toList := by
    refine .cons ?_ (.cons ?_ (.cons ?_ (.cons ?_ (.cons ?_ (.cons ?_ (.cons ?_ .nil))))))
    all_goals exact halike _ _ (by decide) (by decide) (by decide) (by decide) (by decide)
  have hseam : Regex.Separated (alphabet ascii fun c d => c.toLower == d.toLower) "true; ".toList " &".toList := by
    constructor
    · intro c hc
      obtain rfl : ' ' = c := Option.some.inj hc
      rfl
    · intro c hc
      obtain rfl : ' ' = c := Option.some.inj hc
      rfl
  have hr : rules.head (by decide) ∈ found (alphabet ascii fun c d => c.toLower == d.toLower) "sudo su".toList := by
    decide +kernel
  exact evaluate_context hseam hletters hr

/-! ### Rules of full confidence -/

theorem confidence_le {r v : SecurityRule} (h : rank r ≤ rank v) : r.confidence ≤ v.confidence := by
  rcases Prod.Lex.le_iff.1 h with hlt | ⟨heq, -⟩
  · exact hlt.le
  · exact heq.le

/-- No confidence is higher than that of some severe rules. -/
theorem severe_of_confidence : ∀ r ∈ rules, r.confidence ≤ 100 ∧
    (r.confidence = 100 → r.severity = "CRITICAL".toList ∨ r.severity = "HIGH".toList) := by
  decide +kernel

theorem mem_rules_of_found {r : SecurityRule} (hr : r ∈ found A command) : r ∈ rules := by
  obtain ⟨c, hmem, -, heq⟩ := mem_found.1 hr
  rw [compiledRules, List.mem_filterMap] at hmem
  obtain ⟨v, hv, hc⟩ := hmem
  obtain ⟨regex, -, hpair⟩ := Option.map_eq_some_iff.1 hc
  have hcv : c.1 = v := by rw [← hpair]
  rw [← heq, hcv]
  exact hv

/-- What is reported above a rule of full confidence is as severe. -/
theorem severe_of_rank {r v : SecurityRule} (hv : v ∈ matchedRules A entropy command) (hr : r.confidence = 100)
    (h : rank r ≤ rank v) : (v.severity = "CRITICAL".toList ∨ v.severity = "HIGH".toList) ∧
      severityRank r.severity ≤ severityRank v.severity := by
  have hle := confidence_le h
  rcases List.mem_append.1 hv with hv | hv
  · obtain ⟨hmost, hsevere⟩ := severe_of_confidence v (mem_rules_of_found hv)
    have hfull : v.confidence = 100 := by omega
    refine ⟨hsevere hfull, ?_⟩
    rcases Prod.Lex.le_iff.1 h with hlt | ⟨-, hseverity⟩
    · have hlt' : r.confidence < v.confidence := hlt
      omega
    · exact hseverity
  · split at hv
    · rw [List.mem_singleton.1 hv] at hle
      have hlow : r.confidence ≤ 85 := hle
      omega
    · cases hv

end SecurityRuleEngine

end Cyanide
