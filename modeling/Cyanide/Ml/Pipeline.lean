import Cyanide.Ml.KnowledgeBase
import Cyanide.Ml.RuleEngine

/-!
# The detection pipeline

`analyze_command` asks the model, the rules and the context analyzer about a command and puts the answers together.  The
model and what the analyzer says of URLs are parameters.  A rule or a sensitive path that speaks for a command speaks for
every line around it: whatever the model says, the line is an anomaly, with at least the score of what speaks for it, and
the rules of full confidence keep its severity up (`analyzeCommand_context`).
-/

namespace Cyanide

open PosixPath PyText SecurityRuleEngine

/-! ### Sensitive paths -/

namespace ContextAnalyzer

structure SensitivePath where
  path : Str
  severity : Str
  technique : Str
  deriving DecidableEq

def sensitivePaths : List SensitivePath := [
  ⟨"/etc/shadow".toList, "CRITICAL".toList, "T1003.008".toList⟩,
  ⟨"/etc/passwd".toList, "MEDIUM".toList, "T1087.001".toList⟩,
  ⟨"/root/.ssh".toList, "HIGH".toList, "T1552.004".toList⟩,
  ⟨".ssh/id_rsa".toList, "HIGH".toList, "T1552.004".toList⟩,
  ⟨".ssh/authorized_keys".toList, "HIGH".toList, "T1098.004".toList⟩,
  ⟨".bash_history".toList, "MEDIUM".toList, "T1552.003".toList⟩,
  ⟨"/var/log".toList, "MEDIUM".toList, "T1070".toList⟩,
  ⟨"/etc/crontab".toList, "HIGH".toList, "T1053.003".toList⟩]

/-- A result with a match. -/
structure PathAnalysis where
  paths : List Str
  severity : Str
  /-- The members of a set, in the order in which they were added. -/
  techniques : List Str

def severityName : ℕ → Str
  | 4 => "CRITICAL".toList
  | 3 => "HIGH".toList
  | 2 => "MEDIUM".toList
  | _ => "LOW".toList

/-- The table's paths that are in a command. -/
def pathsIn (command : Str) : List SensitivePath := sensitivePaths.filter fun info => contains info.path command

def maxSeverity (found : List SensitivePath) : ℕ := found.foldl (fun n info => max n (severityRank info.severity)) 0

def analyzeFilePaths (command : Str) : Option PathAnalysis :=
  let found := pathsIn command
  if found = [] then none
  else some ⟨found.map SensitivePath.path, severityName (maxSeverity found),
    (found.map SensitivePath.technique).dedup⟩

end ContextAnalyzer

open ContextAnalyzer

/-! ### The layers together -/

/-- The parts of `CyanideML`. -/
structure CyanideML (σ : Type) [LinearOrder σ] where
  kb : KnowledgeBase σ
  unicode : Unicode
  sameLetter : Char → Char → Bool
  entropy : EntropyCheck
  /-- Whether the model takes a command for an anomaly, the score and the error, or the text of an exception. -/
  predict : Str → Except Str (Bool × σ × σ)
  threshold : σ
  /-- The verdict of `analyze_url` and the risk score, which is a sum of floats. -/
  urlRisk : Str → Bool × σ
  /-- The first member of a set, which was filled in this order. -/
  firstOf : List Str → Str

structure Fusion (σ : Type) where
  isAnomaly : Bool
  verdict : String
  score : σ
  source : String
  contextTriggered : Bool

structure Analysis (σ : Type) where
  command : Str
  isAnomaly : Bool
  verdict : Str
  anomalyScore : σ
  reconstructionError : σ
  fusionSource : Str
  classification : Option (Classification σ)
  severity : Str
  mlDetected : Bool
  ruleMatch : Bool
  contextSuspicious : Bool

namespace CyanideML

variable {σ : Type} [LinearOrder σ] (ml : CyanideML σ)

def letters : Alphabet := alphabet ml.unicode ml.sameLetter

/-- What a severity of paths counts, in hundredths. -/
def pathScore (severity : Str) : ℕ :=
  if severity = "CRITICAL".toList then 100
  else if severity = "HIGH".toList then 80
  else if severity = "MEDIUM".toList then 60
  else if severity = "LOW".toList then 40
  else 50

def contextScore (url : Bool × σ) (path : Option PathAnalysis) : σ :=
  let score := if url.1 then max (ml.kb.lit 0) url.2 else ml.kb.lit 0
  match path with
  | some p => max score (ml.kb.lit (pathScore p.severity))
  | none => score

def fusionAnalysis (isAnomalyMl : Bool) (score : σ) (rule : Option SecurityRule) (url : Bool × σ)
    (path : Option PathAnalysis) : Fusion σ :=
  let ruled : Fusion σ := match rule with
    | some r => ⟨true, "anomaly", max score (ml.kb.lit r.confidence), "rule", false⟩
    | none => ⟨isAnomalyMl, if isAnomalyMl then "anomaly" else "clean", score, "ml", false⟩
  if url.1 || path.isSome then
    let score := ml.contextScore url path
    let strong := rule.isNone && decide (ml.kb.lit 60 < score)
    { isAnomaly := strong || ruled.isAnomaly
      verdict := if strong then "anomaly" else ruled.verdict
      score := max ruled.score score
      source := if strong then "context" else ruled.source
      contextTriggered := true }
  else ruled

def formatKbEntry (techId : Str) (confidence : σ) (method fallbackName : Str) : Classification σ :=
  let level := if ml.kb.lit 80 < confidence then "HIGH" else "MEDIUM"
  let plain : TechniqueDetails := ⟨techId, fallbackName, "Identified by Security Engine".toList, none⟩
  .classified confidence level.toList (some method) none ((ml.kb.enrichTechnique techId).getD plain)

def impact : List Str := ["impact".toList]

def highSeverity : List Str := ["exfiltration".toList, "credential-access".toList, "lateral-movement".toList]

def mediumSeverity : List Str :=
  ["command-and-control".toList, "persistence".toList, "execution".toList, "privilege-escalation".toList]

def lowSeverity : List Str :=
  ["defense-evasion".toList, "discovery".toList, "collection".toList, "initial-access".toList]

/-- The severity of a set of tactics. -/
def tacticSeverity (tactics : List Str) : Str :=
  if tactics.any (impact.contains ·) then "CRITICAL".toList
  else if tactics.any (highSeverity.contains ·) then "HIGH".toList
  else if tactics.any (mediumSeverity.contains ·) then "MEDIUM".toList
  else if tactics.any (lowSeverity.contains ·) then "LOW".toList
  else "UNKNOWN".toList

def determineSeverity : Classification σ → Str
  | .unclassified .. => "UNKNOWN".toList
  | .classified _ _ _ _ details =>
    tacticSeverity ((details.context.elim [] TechniqueContext.tactics).map ml.unicode.lower)

/-- The rule is what classifies the command. -/
def rulePrevails (r : SecurityRule) : Classification σ → Bool
  | .unclassified .. => true
  | .classified confidence .. => decide (confidence < ml.kb.lit r.confidence)

def getClassification (command : Str) (isAnomaly : Bool) (rule : Option SecurityRule) (path : Option PathAnalysis) :
    Except Str (Option (Classification σ) × Str) :=
  if isAnomaly then do
    let known ← ml.kb.classifyCommand ml.unicode command
    let byContext := match path with
      | some p =>
        if known.isClassified then known
        else ml.formatKbEntry (ml.firstOf p.techniques) (ml.kb.lit 80) "context_analysis".toList
          "Sensitive Path Access".toList
      | none => known
    match rule with
    | some r =>
      let classification := if ml.rulePrevails r known then
          ml.formatKbEntry r.technique (ml.kb.lit r.confidence) "rule_based".toList r.description
        else byContext
      let severity := if r.severity = "CRITICAL".toList ∨ r.severity = "HIGH".toList then r.severity
        else ml.determineSeverity classification
      return (some classification, severity)
    | none => return (some byContext, ml.determineSeverity byContext)
  else .ok (none, "BENIGN".toList)

def analyzeCommand (command : Str) : Except Str (Analysis σ) := do
  let (isAnomalyMl, score, error) ← ml.predict command
  let rule := evaluate ml.letters ml.entropy command
  let path := analyzeFilePaths command
  let fusion := ml.fusionAnalysis isAnomalyMl score rule (ml.urlRisk command) path
  let (classification, severity) ← ml.getClassification command fusion.isAnomaly rule path
  return {
    command
    isAnomaly := fusion.isAnomaly
    verdict := fusion.verdict.toList
    anomalyScore := fusion.score
    reconstructionError := error
    fusionSource := fusion.source.toList
    classification
    severity
    mlDetected := decide (ml.threshold < score)
    ruleMatch := rule.isSome
    contextSuspicious := fusion.contextTriggered }

end CyanideML

/-! ### What speaks for an anomaly -/

theorem contains_between {sub s : Str} (pre post : Str) (h : contains sub s = true) :
    contains sub (pre ++ s ++ post) = true := by
  obtain ⟨t, ht, hsub⟩ := List.any_eq_true.1 h
  refine List.any_eq_true.2 ⟨t ++ post, ?_, ?_⟩
  · obtain ⟨u, rfl⟩ := (List.mem_tails t s).1 ht
    rw [List.mem_tails]
    exact ⟨pre ++ u, by simp⟩
  · rw [List.isPrefixOf_iff_prefix] at hsub ⊢
    exact hsub.trans (List.prefix_append t post)

/-- A rule or a sensitive path speaks for a command with a score. -/
inductive Speaks (A : Alphabet) (command : Str) : ℕ → Prop
  | rule {r : SecurityRule} (hr : r ∈ found A command) : Speaks A command r.confidence
  | path {info : SensitivePath} (hinfo : info ∈ pathsIn command) (hscore : 60 < CyanideML.pathScore info.severity) :
      Speaks A command (CyanideML.pathScore info.severity)

theorem Speaks.context {A : Alphabet} {command pre post : Str} (hseam : Regex.Separated A pre post) {n : ℕ}
    (h : Speaks A command n) : Speaks A (pre ++ command ++ post) n := by
  cases h with
  | rule hr => exact .rule (found_between hseam hr)
  | path hinfo hscore =>
    obtain ⟨hmem, hin⟩ := List.mem_filter.1 hinfo
    exact .path (List.mem_filter.2 ⟨hmem, contains_between pre post hin⟩) hscore

namespace ContextAnalyzer

private theorem le_foldl_max (found : List SensitivePath) (n : ℕ) :
    n ≤ found.foldl (fun n info => max n (severityRank info.severity)) n ∧
      ∀ info ∈ found, severityRank info.severity ≤ found.foldl (fun n info => max n (severityRank info.severity)) n := by
  induction found generalizing n with
  | nil => simp
  | cons info found ih =>
    obtain ⟨hn, hfound⟩ := ih (max n (severityRank info.severity))
    rw [List.foldl_cons]
    refine ⟨(le_max_left _ _).trans hn, fun x hx => ?_⟩
    rcases List.mem_cons.1 hx with rfl | hx
    · exact (le_max_right _ _).trans hn
    · exact hfound x hx

theorem severityRank_le (severity : Str) : severityRank severity ≤ 4 := by
  unfold severityRank
  split
  · decide
  · split
    · decide
    · split
      · decide
      · split <;> decide

private theorem foldl_max_le (found : List SensitivePath) {n : ℕ} (hn : n ≤ 4) :
    found.foldl (fun n info => max n (severityRank info.severity)) n ≤ 4 := by
  induction found generalizing n with
  | nil => exact hn
  | cons info found ih =>
    rw [List.foldl_cons]
    exact ih (max_le hn (severityRank_le _))

/-- The score of the severities of the table, by their numbers. -/
theorem pathScore_severityName : ∀ m ≤ 4, ∀ info ∈ sensitivePaths, severityRank info.severity ≤ m →
    CyanideML.pathScore info.severity ≤ CyanideML.pathScore (severityName m) := by
  decide +kernel

theorem analyzeFilePaths_spec {command : Str} {info : SensitivePath} (h : info ∈ pathsIn command) :
    ∃ p, analyzeFilePaths command = some p ∧
      CyanideML.pathScore info.severity ≤ CyanideML.pathScore p.severity := by
  refine ⟨_, if_neg (List.ne_nil_of_mem h), ?_⟩
  exact pathScore_severityName _ (foldl_max_le _ (Nat.zero_le 4)) info (List.mem_filter.1 h).1
    ((le_foldl_max _ 0).2 info h)

end ContextAnalyzer

namespace CyanideML

variable {σ : Type} [LinearOrder σ] (ml : CyanideML σ)

theorem fusion_of_rule (isAnomalyMl : Bool) (score : σ) (r : SecurityRule) (url : Bool × σ)
    (path : Option PathAnalysis) :
    let fusion := ml.fusionAnalysis isAnomalyMl score (some r) url path
    fusion.isAnomaly = true ∧ fusion.verdict = "anomaly" ∧ ml.kb.lit r.confidence ≤ fusion.score := by
  unfold fusionAnalysis
  dsimp only
  split
  · simp
  · simp

theorem fusion_of_path (isAnomalyMl : Bool) (score : σ) (rule : Option SecurityRule) (url : Bool × σ)
    {p : PathAnalysis} (hp : 60 < pathScore p.severity) :
    let fusion := ml.fusionAnalysis isAnomalyMl score rule url (some p)
    fusion.isAnomaly = true ∧ fusion.verdict = "anomaly" ∧ ml.kb.lit (pathScore p.severity) ≤ fusion.score := by
  have hscore : ml.kb.lit (pathScore p.severity) ≤ ml.contextScore url (some p) := le_max_right _ _
  have hstrong : ml.kb.lit 60 < ml.contextScore url (some p) := (ml.kb.strictMono hp).trans_le hscore
  cases rule with
  | none => simp [fusionAnalysis, hstrong, hscore]
  | some r => simp [fusionAnalysis, hscore]

theorem fusion_of_speaks {command : Str} {n : ℕ} (h : Speaks ml.letters command n) (isAnomalyMl : Bool) (score : σ)
    (url : Bool × σ) :
    let fusion := ml.fusionAnalysis isAnomalyMl score (evaluate ml.letters ml.entropy command) url
      (analyzeFilePaths command)
    fusion.isAnomaly = true ∧ fusion.verdict = "anomaly" ∧ ml.kb.lit n ≤ fusion.score := by
  cases h with
  | rule hr =>
    obtain ⟨v, hv, -, hle⟩ := exists_evaluate ml.entropy hr
    obtain ⟨hanomaly, hverdict, hscore⟩ := ml.fusion_of_rule isAnomalyMl score v url (analyzeFilePaths command)
    rw [hv]
    exact ⟨hanomaly, hverdict, (ml.kb.strictMono.monotone (confidence_le hle)).trans hscore⟩
  | path hinfo hscore =>
    obtain ⟨p, hp, hle⟩ := analyzeFilePaths_spec hinfo
    obtain ⟨hanomaly, hverdict, hge⟩ := ml.fusion_of_path isAnomalyMl score
      (evaluate ml.letters ml.entropy command) url (hscore.trans_le hle)
    rw [hp]
    exact ⟨hanomaly, hverdict, (ml.kb.strictMono.monotone hle).trans hge⟩

/-! ### The severity -/

theorem tacticSeverity_ne (tactics : List Str) : tacticSeverity tactics ≠ "BENIGN".toList := by
  unfold tacticSeverity
  split
  · decide
  · split
    · decide
    · split
      · decide
      · split <;> decide

theorem determineSeverity_ne (c : Classification σ) : ml.determineSeverity c ≠ "BENIGN".toList := by
  cases c with
  | unclassified reason confidence =>
    have hne : "UNKNOWN".toList ≠ "BENIGN".toList := by decide
    exact hne
  | classified confidence level matchMethod matchedKeyword details => exact tacticSeverity_ne _

theorem exists_getClassification {command : Str} {results : List (SearchResult σ)}
    (hsearch : ml.kb.search command 3 = .ok results) (rule : Option SecurityRule) (path : Option PathAnalysis) :
    ∃ c severity, ml.getClassification command true rule path = .ok (some c, severity) ∧
      severity ≠ "BENIGN".toList ∧
      ∀ r, rule = some r → r.severity = "CRITICAL".toList ∨ r.severity = "HIGH".toList → severity = r.severity := by
  obtain ⟨known, hknown⟩ := ml.kb.exists_classifyCommand ml.unicode hsearch
  unfold getClassification
  rw [if_pos rfl, hknown]
  cases rule with
  | none => exact ⟨_, _, rfl, ml.determineSeverity_ne _, fun r hr => by cases hr⟩
  | some v =>
    refine ⟨_, _, rfl, ?_, ?_⟩
    · split
      · rename_i hv
        rcases hv with hv | hv <;> rw [hv] <;> decide
      · exact ml.determineSeverity_ne _
    · rintro r hr hv
      obtain rfl := Option.some.inj hr
      exact if_pos hv

theorem exists_analyzeCommand {command : Str} {isAnomalyMl : Bool} {score error : σ}
    (hpredict : ml.predict command = .ok (isAnomalyMl, score, error)) {c : Option (Classification σ)} {severity : Str}
    {fusion : Fusion σ} (hfusion : fusion = ml.fusionAnalysis isAnomalyMl score (evaluate ml.letters ml.entropy command)
      (ml.urlRisk command) (analyzeFilePaths command))
    (hclass : ml.getClassification command fusion.isAnomaly (evaluate ml.letters ml.entropy command)
      (analyzeFilePaths command) = .ok (c, severity)) :
    ∃ a, ml.analyzeCommand command = .ok a ∧ a.isAnomaly = fusion.isAnomaly ∧ a.verdict = fusion.verdict.toList ∧
      a.anomalyScore = fusion.score ∧ a.severity = severity := by
  unfold analyzeCommand
  rw [hpredict]
  show ∃ a, (ml.getClassification _ _ _ _ >>= _) = _ ∧ _
  rw [← hfusion, hclass]
  exact ⟨_, rfl, rfl, rfl, rfl, rfl⟩

variable {ml}

theorem analyzeCommand_speaks {command : Str} {n : ℕ} (hn : Speaks ml.letters command n) {guess : Bool × σ × σ}
    (hpredict : ml.predict command = .ok guess) {results : List (SearchResult σ)}
    (hsearch : ml.kb.search command 3 = .ok results) :
    ∃ a, ml.analyzeCommand command = .ok a ∧ a.isAnomaly = true ∧ a.verdict = "anomaly".toList ∧
      ml.kb.lit n ≤ a.anomalyScore ∧ a.severity ≠ "BENIGN".toList ∧
      ∀ r ∈ found ml.letters command, r.confidence = 100 → severityRank r.severity ≤ severityRank a.severity := by
  obtain ⟨isAnomalyMl, score, error⟩ := guess
  obtain ⟨hanomaly, hverdict, hscore⟩ := ml.fusion_of_speaks hn isAnomalyMl score (ml.urlRisk command)
  obtain ⟨c, severity, hclass, hne, hkeep⟩ := ml.exists_getClassification hsearch
    (evaluate ml.letters ml.entropy command) (analyzeFilePaths command)
  rw [← hanomaly] at hclass
  obtain ⟨a, ha, hisAnomaly, hword, hnumber, hseverity⟩ := ml.exists_analyzeCommand hpredict rfl hclass
  refine ⟨a, ha, hisAnomaly.trans hanomaly, hword.trans (congrArg String.toList hverdict), hnumber ▸ hscore,
    hseverity ▸ hne, ?_⟩
  intro r hr hfull
  obtain ⟨v, hv, hmem, hle⟩ := exists_evaluate ml.entropy hr
  obtain ⟨hsevere, hrank⟩ := severe_of_rank hmem hfull hle
  rw [hseverity, hkeep v hv hsevere]
  exact hrank

/-- What speaks for a command speaks for every line that has it between characters that are no part of a word. -/
theorem analyzeCommand_context {command pre post : Str} (hseam : Regex.Separated ml.letters pre post) {n : ℕ}
    (hn : Speaks ml.letters command n) {guess : Bool × σ × σ} (hpredict : ml.predict (pre ++ command ++ post) = .ok guess)
    {results : List (SearchResult σ)} (hsearch : ml.kb.search (pre ++ command ++ post) 3 = .ok results) :
    ∃ a, ml.analyzeCommand (pre ++ command ++ post) = .ok a ∧ a.isAnomaly = true ∧ a.verdict = "anomaly".toList ∧
      ml.kb.lit n ≤ a.anomalyScore ∧ a.severity ≠ "BENIGN".toList ∧
      ∀ r ∈ found ml.letters command, r.confidence = 100 → severityRank r.severity ≤ severityRank a.severity := by
  obtain ⟨a, ha, hanomaly, hverdict, hscore, hne, hkeep⟩ := analyzeCommand_speaks (hn.context hseam) hpredict hsearch
  exact ⟨a, ha, hanomaly, hverdict, hscore, hne, fun r hr => hkeep r (found_between hseam hr)⟩

/-- A model that takes everything for clean, and a knowledge base that has nothing. -/
def blind : CyanideML ℕ where
  kb := ⟨⟨id, strictMono_id⟩, false, [], fun _ => none, fun _ => none, fun _ => none, [], fun _ _ => .ok []⟩
  unicode := ascii
  sameLetter := fun c d => c.toLower == d.toLower
  entropy := ⟨fun _ => false, fun _ => []⟩
  predict := fun _ => .ok (false, 0, 0)
  threshold := 1
  urlRisk := fun _ => (false, 0)
  firstOf := fun techniques => techniques.headD []

theorem analyzeCommand_context_blind : ∃ a, blind.analyzeCommand ("true; ".toList ++ "cat /etc/shadow".toList ++
      " # id".toList) = .ok a ∧ a.isAnomaly = true ∧ 100 ≤ a.anomalyScore ∧ 4 ≤ severityRank a.severity := by
  have hseam : Regex.Separated blind.letters "true; ".toList " # id".toList := by
    constructor
    · intro c hc
      obtain rfl : ' ' = c := Option.some.inj hc
      rfl
    · intro c hc
      obtain rfl : ' ' = c := Option.some.inj hc
      rfl
  have hr : rules.get ⟨3, by decide⟩ ∈ found blind.letters "cat /etc/shadow".toList := by decide +kernel
  obtain ⟨a, ha, hanomaly, -, hscore, -, hsevere⟩ := analyzeCommand_context hseam (.rule hr) rfl rfl
  exact ⟨a, ha, hanomaly, hscore, hsevere _ hr rfl⟩

end CyanideML

end Cyanide
