import Cyanide.Lib.Transition
import Cyanide.Ml.Pipeline
import Cyanide.Services.Indicators
import Cyanide.Services.IocReporter
import Cyanide.Services.SessionManager
import Cyanide.Services.VtScanner

/-!
# Analytics

What the analytics, the quarantine and the sessions put into the collection of indicators.  `added_step` says for each call
what it adds, and `plain_run_iff` when no value of a whole run has a quote or a backslash: addresses and domains in commands
and hashes of files never have one.
-/

namespace Cyanide

open PosixPath PyText Regex StixPattern Transition Indicators

/-- What an indicator says: its type and value, the description, the session and the severity. -/
structure Finding where
  type : Str
  value : Str
  description : Str
  session : Str
  severity : Str

inductive ServiceEvent (σ : Type) where
  | iocExtracted (event : ReporterEvent)
  | toolDetection (srcIp tool command : Str)
  | mlThought (srcIp : Str) (sourceType : Option Str) (analysis : Analysis σ)
  | mlFileThought (srcIp file : Str) (analysis : Analysis σ)
  | mlAnomaly (sourceType : Str) (analysis : Analysis σ)
  | mlFileAnomaly (filename : Str) (analysis : Analysis σ)
  | malwareScan (srcIp filename : Str) (result : ScanResult)
  | malwareScanError (srcIp filename message : Str)
  | iocDetected (srcIp : Str) (iocs : List Str) (cmd : Str)
  | system (eventType message : Str)
  | error (message : Str)

/-- What is taken from outside: the clock, by the number of indicators so far, the tables of characters, the order in which a
set gives its members, and the texts of hashes and scores. -/
structure ServiceWorld (σ : Type) where
  now : ℕ → Str
  unicode : Unicode
  order : List Str → List Str
  perm : ∀ xs, (order xs).Perm xs.dedup
  sha256 : List UInt8 → Str
  hex : ∀ content, ∀ c ∈ sha256 content, c ∈ "0123456789abcdef".toList
  scoreText : σ → Str

/-- The services, as far as they collect indicators; `ml` is the pipeline, if it is enabled and loaded. -/
structure ServiceRegistry (σ : Type) [LinearOrder σ] where
  session : SessionManager
  ml : Option (CyanideML σ)
  iocReporter : IocReporter
  vtScanner : VtScanner
  log : List (Str × ServiceEvent σ)

namespace ServiceRegistry

variable {σ : Type} [LinearOrder σ] (W : ServiceWorld σ) (s : ServiceRegistry σ)

def logEvent (sessionId : Str) (event : ServiceEvent σ) : ServiceRegistry σ :=
  { s with log := s.log ++ [(sessionId, event)] }

def addIoc (f : Finding) : ServiceRegistry σ :=
  let (reporter, event) := s.iocReporter.addIoc (W.now s.iocReporter.iocs.length) f.type f.value f.description f.session
    f.severity
  { s with iocReporter := reporter, log := s.log ++ [(event.session, .iocExtracted event)] }

def addIocs (fs : List Finding) : ServiceRegistry σ := fs.foldl (addIoc W) s

/-- What the pipeline says of a text, if there is one. -/
def analysisOf (text : Str) : Option (Except Str (Analysis σ)) := s.ml.map fun ml => ml.analyzeCommand text

/-! ### Commands -/

def automatedTools : List Str :=
  ["wget".toList, "curl".toList, "python ".toList, "perl ".toList, "ruby ".toList, "gcc ".toList, "chmod +x".toList]

def detectedTool (cmd : Str) : Option Str := (automatedTools.find? (contains · cmd)).map strip

def urlsIn (cmd : Str) : List Str := findall (letters W.unicode) urlRegex cmd

def withoutScheme (url : Str) : Str :=
  if "https://".toList.isPrefixOf url then url.drop 8 else if "http://".toList.isPrefixOf url then url.drop 7 else url

/-- The text of a URL between the scheme and the first colon or slash. -/
def urlDomain (url : Str) : Str := (withoutScheme url).takeWhile fun c => c ≠ ':' && c ≠ '/'

/-- `str.isdigit`. -/
def isDigits (U : Unicode) (s : Str) : Bool := s ≠ [] && s.all U.isDigit

def domainsIn (cmd : Str) : List Str :=
  (findall (letters W.unicode) domainRegex cmd).filter fun domain =>
    !((urlsIn W cmd).map urlDomain).contains domain && !isDigits W.unicode (domain.filter (· ≠ '.'))

/-- The indicators of `_detect_tools`. -/
def toolFindings (cmd sessionId tool : Str) : List Finding :=
  (W.order (urlsIn W cmd)).map (fun url =>
      ⟨"url".toList, url, "Automated tool detection: ".toList ++ tool, sessionId, "low".toList⟩) ++
    (W.order (domainsIn W cmd)).map fun domain =>
      ⟨"domain".toList, domain, "Automated tool detection: ".toList ++ tool, sessionId, "low".toList⟩

def detectTools (cmd srcIp sessionId : Str) : ServiceRegistry σ :=
  match detectedTool cmd with
  | none => s
  | some tool =>
    (s.logEvent sessionId (.toolDetection srcIp tool cmd)).addIocs W (toolFindings W cmd sessionId tool)

def sourceFinding (srcIp sessionId : Str) (a : Analysis σ) : Finding :=
  ⟨"ipv4-addr".toList, srcIp, "Malicious source IP (anomaly score: ".toList ++ W.scoreText a.anomalyScore ++ [')'],
    sessionId, "high".toList⟩

/-- The indicators that are taken from an anomalous command. -/
def commandFindings (cmd sessionId : Str) : List Finding :=
  (urlsIn W cmd).map (fun url =>
      ⟨"url".toList, url, "Extracted from anomalous command".toList, sessionId, "high".toList⟩) ++
    (findall (letters W.unicode) ipRegex cmd).map fun ip =>
      ⟨"ipv4-addr".toList, ip, "IP extracted from anomalous command".toList, sessionId, "high".toList⟩

def reportMlAnomaly (cmd srcIp sessionId sourceType : Str) (a : Analysis σ) : ServiceRegistry σ :=
  ((s.addIoc W (sourceFinding W srcIp sessionId a)).logEvent sessionId (.mlAnomaly sourceType a)).addIocs W
    (commandFindings W cmd sessionId)

def performMlAnalysis (cmd srcIp sessionId : Str) (isBot : Bool) : ServiceRegistry σ :=
  match s.analysisOf cmd with
  | none => s
  | some (.error e) => s.logEvent sessionId (.error ("ML Error: ".toList ++ e))
  | some (.ok a) =>
    let sourceType := if isBot then "bot".toList else "human".toList
    let s := s.logEvent sessionId (.mlThought srcIp (some sourceType) a)
    if a.isAnomaly then s.reportMlAnomaly W cmd srcIp sessionId sourceType a else s

def analyzeCommand (cmd srcIp sessionId : Str) (isBot : Bool) : ServiceRegistry σ :=
  let s := { s with session := s.session.recordCommand sessionId }
  let s := s.detectTools W cmd srcIp sessionId
  s.performMlAnalysis W cmd srcIp sessionId isBot

def isMalicious (cmd : Str) : Bool × ServiceRegistry σ :=
  match s.analysisOf cmd with
  | none => (false, s)
  | some (.error e) => (false, s.logEvent "system".toList (.error ("ML Error in is_malicious: ".toList ++ e)))
  | some (.ok a) => (a.isAnomaly, s)

/-! ### Passwords and files -/

def credentialFinding (username password sessionId : Str) : Finding :=
  ⟨"credential".toList, username ++ ':' :: password, "Credential attempt from attacker".toList, sessionId, "low".toList⟩

def analyzeAuth (username password sessionId : Str) : ServiceRegistry σ :=
  s.addIoc W (credentialFinding username password sessionId)

def fileText (filename : Str) (content : List UInt8) : Str :=
  "FILE_UPLOAD: ".toList ++ filename ++ " CONTENT: ".toList ++ decodeIgnore (content.take 100)

def fileFinding (filename : Str) (content : List UInt8) (sessionId : Str) (a : Analysis σ) : Finding :=
  ⟨"file-hash".toList, W.sha256 content, "Anomalous file upload: ".toList ++ filename, sessionId, a.severity⟩

def analyzeFile (filename : Str) (content : List UInt8) (sessionId srcIp : Str) : ServiceRegistry σ :=
  match s.analysisOf (fileText filename content) with
  | none => s
  | some (.error e) => s.logEvent sessionId (.error ("ML File Analysis Error: ".toList ++ e))
  | some (.ok a) =>
    let s := s.logEvent sessionId (.mlFileThought srcIp filename a)
    if a.isAnomaly then
      (s.logEvent sessionId (.mlFileAnomaly filename a)).addIoc W (fileFinding W filename content sessionId a)
    else s

def scanFinding (filename sessionId : Str) (result : ScanResult) : Finding :=
  ⟨"file-hash".toList, result.sha256, "Malware scan hash for ".toList ++ filename, sessionId,
    if 0 < result.malicious then "high".toList else "medium".toList⟩

def scanAndLog (filename : Str) (content : List UInt8) (sessionId srcIp : Str) (answer : VtAnswer) : ServiceRegistry σ :=
  let (result, events, scanner) := s.vtScanner.scan (W.sha256 content) answer
  let s := { s with
    vtScanner := scanner
    log := s.log ++ events.map fun e => ("system".toList, .system e.1 e.2) }
  match result with
  | none => s
  | some result =>
    let event := match result.error with
      | some message => .malwareScanError srcIp filename message
      | none => .malwareScan srcIp filename result
    let s := s.logEvent sessionId event
    if result.sha256 = [] then s else s.addIoc W (scanFinding filename sessionId result)

/-! ### Sessions -/

def iocsIn (cmd : Str) : List Str :=
  W.order (findall (letters W.unicode) sessionIpRegex cmd ++ findall (letters W.unicode) sessionUrlRegex cmd)

/-- `re.match(ipv4_regex, value)`. -/
def startsWithIp (value : Str) : Bool := !(ends (letters W.unicode) value sessionIpRegex 0).isEmpty

def sessionFinding (cmd sessionId value : Str) : Finding :=
  let isIp := startsWithIp W value
  ⟨if isIp then "ipv4-addr".toList else "url".toList, value, "Detected in command: ".toList ++ cmd, sessionId,
    if isIp then "medium".toList else "high".toList⟩

/-- `_detect_iocs` of a session. -/
def detectIocs (cmd srcIp sessionId : Str) : ServiceRegistry σ :=
  let iocs := iocsIn W cmd
  if iocs = [] then s
  else (s.logEvent sessionId (.iocDetected srcIp iocs cmd)).addIocs W (iocs.map (sessionFinding W cmd sessionId))

end ServiceRegistry

inductive ServiceCall where
  | command (cmd srcIp sessionId : Str) (isBot : Bool)
  | malicious (cmd : Str)
  | auth (username password sessionId : Str)
  | file (filename : Str) (content : List UInt8) (sessionId srcIp : Str)
  | scan (filename : Str) (content : List UInt8) (sessionId srcIp : Str) (answer : VtAnswer)
  | detect (cmd srcIp sessionId : Str)

namespace ServiceRegistry

variable {σ : Type} [LinearOrder σ] (W : ServiceWorld σ)

def step (s : ServiceRegistry σ) : ServiceCall → ServiceRegistry σ
  | .command cmd srcIp sessionId isBot => s.analyzeCommand W cmd srcIp sessionId isBot
  | .malicious cmd => (s.isMalicious cmd).2
  | .auth username password sessionId => s.analyzeAuth W username password sessionId
  | .file filename content sessionId srcIp => s.analyzeFile W filename content sessionId srcIp
  | .scan filename content sessionId srcIp answer => s.scanAndLog W filename content sessionId srcIp answer
  | .detect cmd srcIp sessionId => s.detectIocs W cmd srcIp sessionId

/-! ### What a call adds -/

def findings (s : ServiceRegistry σ) : List Finding :=
  s.iocReporter.iocs.map fun ioc => ⟨ioc.type, ioc.value, ioc.description, ioc.session, ioc.severity⟩

/-- The pipeline takes a text for an anomaly. -/
def anomaly (s : ServiceRegistry σ) (text : Str) : Option (Analysis σ) :=
  match s.analysisOf text with
  | some (.ok a) => if a.isAnomaly then some a else none
  | _ => none

def added (s : ServiceRegistry σ) : ServiceCall → List Finding
  | .command cmd srcIp sessionId _ =>
    (detectedTool cmd).elim [] (toolFindings W cmd sessionId) ++
      (s.anomaly cmd).elim [] fun a => sourceFinding W srcIp sessionId a :: commandFindings W cmd sessionId
  | .malicious _ => []
  | .auth username password sessionId => [credentialFinding username password sessionId]
  | .file filename content sessionId _ =>
    (s.anomaly (fileText filename content)).elim [] fun a => [fileFinding W filename content sessionId a]
  | .scan filename content sessionId _ answer =>
    (s.vtScanner.scan (W.sha256 content) answer).1.elim [] fun result =>
      if result.sha256 = [] then [] else [scanFinding filename sessionId result]
  | .detect cmd _ sessionId => (iocsIn W cmd).map (sessionFinding W cmd sessionId)

variable {W} {s : ServiceRegistry σ}

@[simp] theorem findings_logEvent (sessionId : Str) (event : ServiceEvent σ) :
    (s.logEvent sessionId event).findings = s.findings := rfl

@[simp] theorem findings_addIoc (f : Finding) : (s.addIoc W f).findings = s.findings ++ [f] := by
  simp [findings, addIoc, IocReporter.addIoc]

@[simp] theorem findings_addIocs (fs : List Finding) : (s.addIocs W fs).findings = s.findings ++ fs := by
  induction fs generalizing s with
  | nil => simp [addIocs]
  | cons f fs ih =>
    show ((s.addIoc W f).addIocs W fs).findings = _
    rw [ih, findings_addIoc, List.append_assoc]
    rfl

theorem findings_detectTools (cmd srcIp sessionId : Str) : (s.detectTools W cmd srcIp sessionId).findings =
    s.findings ++ (detectedTool cmd).elim [] (toolFindings W cmd sessionId) := by
  unfold detectTools
  cases detectedTool cmd <;> simp

theorem findings_performMlAnalysis (cmd srcIp sessionId : Str) (isBot : Bool) :
    (s.performMlAnalysis W cmd srcIp sessionId isBot).findings = s.findings ++
      (s.anomaly cmd).elim [] fun a => sourceFinding W srcIp sessionId a :: commandFindings W cmd sessionId := by
  unfold performMlAnalysis anomaly
  rcases s.analysisOf cmd with _ | _ | a
  · simp
  · simp
  · cases ha : a.isAnomaly <;> simp [ha, reportMlAnomaly]

theorem ml_addIocs (fs : List Finding) : (s.addIocs W fs).ml = s.ml := by
  induction fs generalizing s with
  | nil => rfl
  | cons f fs ih => exact (ih (s := s.addIoc W f)).trans rfl

theorem ml_detectTools (cmd srcIp sessionId : Str) : (s.detectTools W cmd srcIp sessionId).ml = s.ml := by
  unfold detectTools
  cases detectedTool cmd with
  | none => rfl
  | some tool => exact ml_addIocs _

theorem ml_performMlAnalysis (cmd srcIp sessionId : Str) (isBot : Bool) :
    (s.performMlAnalysis W cmd srcIp sessionId isBot).ml = s.ml := by
  unfold performMlAnalysis
  rcases s.analysisOf cmd with _ | _ | a
  · rfl
  · rfl
  · cases ha : a.isAnomaly
    · simp [ha, logEvent]
    · simp only [ha, if_true]
      exact ml_addIocs _

/-- Each call adds its indicators behind those that are there and leaves the pipeline as it is. -/
theorem added_step (call : ServiceCall) : (s.step W call).findings = s.findings ++ s.added W call ∧
    (s.step W call).ml = s.ml := by
  cases call with
  | command cmd srcIp sessionId isBot =>
    refine ⟨?_, (ml_performMlAnalysis ..).trans (ml_detectTools ..)⟩
    refine (findings_performMlAnalysis ..).trans ?_
    rw [findings_detectTools, List.append_assoc, added]
    have hml := ml_detectTools (W := W) (s := { s with session := s.session.recordCommand sessionId }) cmd srcIp sessionId
    simp only [anomaly, analysisOf, hml]
    rfl
  | malicious cmd =>
    show (s.isMalicious cmd).2.findings = _ ∧ (s.isMalicious cmd).2.ml = _
    unfold isMalicious
    rcases s.analysisOf cmd with _ | _ | a <;> simp [added, logEvent, findings]
  | auth username password sessionId => exact ⟨findings_addIoc _, rfl⟩
  | file filename content sessionId srcIp =>
    show (s.analyzeFile W filename content sessionId srcIp).findings = _ ∧ (s.analyzeFile W ..).ml = _
    unfold analyzeFile
    rcases h : s.analysisOf (fileText filename content) with _ | _ | a
    · simp [added, anomaly, h]
    · simp [added, anomaly, h, logEvent, findings]
    · cases ha : a.isAnomaly
      · simp [added, anomaly, h, ha, logEvent, findings]
      · simp only [added, anomaly, h, ha, if_true, Option.elim_some]
        exact ⟨findings_addIoc _, rfl⟩
  | scan filename content sessionId srcIp answer =>
    show (s.scanAndLog W filename content sessionId srcIp answer).findings = _ ∧ (s.scanAndLog W ..).ml = _
    unfold scanAndLog
    rcases h : s.vtScanner.scan (W.sha256 content) answer with ⟨_ | result, events, scanner⟩
    · simp [added, h, findings]
    · by_cases hempty : result.sha256 = []
      · simp [added, h, hempty, logEvent, findings]
      · simp only [added, h, hempty, if_false, Option.elim_some]
        exact ⟨findings_addIoc _, rfl⟩
  | detect cmd srcIp sessionId =>
    show (s.detectIocs W cmd srcIp sessionId).findings = _ ∧ (s.detectIocs W cmd srcIp sessionId).ml = _
    unfold detectIocs added
    by_cases hempty : iocsIn W cmd = []
    · simp [hempty]
    · simp only [hempty, if_false]
      exact ⟨by simp, ml_addIocs _⟩

/-! ### Reading the report back -/

variable (U : Unicode)

/-- What a call adds can be read back from a report. -/
def Readable (s : ServiceRegistry σ) : ServiceCall → Prop
  | .command cmd srcIp _ _ => ((detectedTool cmd).isSome ∨ (s.anomaly cmd).isSome → ¬SpecialUrl urlChar cmd) ∧
      ((s.anomaly cmd).isSome → IsPlainValue srcIp)
  | .auth username password _ => IsPlainValue username ∧ IsPlainValue password
  | .detect cmd _ _ => ¬SpecialUrl (sessionUrlChar U) cmd
  | .malicious _ | .file .. | .scan .. => True

variable {U}

section

omit [LinearOrder σ]

theorem mem_order {xs : List Str} {x : Str} : x ∈ W.order xs ↔ x ∈ xs := by
  rw [(W.perm xs).mem_iff, List.mem_dedup]

theorem urlChar_scheme : ∀ c ∈ "https://".toList, urlChar c = true := fun c hc =>
  List.all_eq_true.1 (show "https://".toList.all urlChar = true by decide) c hc

theorem plain_urlsIn (cmd : Str) : (∀ url ∈ urlsIn W cmd, IsPlainValue url) ↔ ¬SpecialUrl urlChar cmd := by
  rw [urlsIn, urlRegex_eq]
  exact plain_findall_iff (exact_letters W.unicode) (chars_urlClass W.unicode) urlChar_scheme

theorem covered_urlsIn {cmd scheme u v w : Str} (hscheme : scheme ∈ schemes) (hv : v ≠ [])
    (hchars : ∀ c ∈ v, urlChar c = true) (hcmd : cmd = u ++ (scheme ++ v) ++ w) :
    ∃ x ∈ urlsIn W cmd, scheme ++ v <:+: x := by
  rw [urlsIn, urlRegex_eq]
  exact covered_findall (exact_letters W.unicode) (chars_urlClass W.unicode) urlChar_scheme hscheme hv hchars hcmd

theorem plain_sha256 (content : List UInt8) : IsPlainValue (W.sha256 content) := by
  intro c hc
  have hplain : "0123456789abcdef".toList.all (fun c => !isSpecial c) = true := by decide
  simpa using List.all_eq_true.1 hplain c (W.hex content c hc)

theorem plain_sessionUrls (cmd : Str) :
    (∀ url ∈ findall (letters W.unicode) sessionUrlRegex cmd, IsPlainValue url) ↔
      ¬SpecialUrl (sessionUrlChar W.unicode) cmd := by
  rw [sessionUrlRegex_eq]
  exact plain_findall_iff (exact_letters W.unicode) (chars_sessionUnit W.unicode) (sessionUrlChar_scheme W.unicode)

theorem plain_toolFindings (hU : PlainDigits W.unicode) (cmd sessionId tool : Str) :
    (∀ f ∈ toolFindings W cmd sessionId tool, IsPlainValue f.value) ↔ ¬SpecialUrl urlChar cmd := by
  rw [← plain_urlsIn (W := W) cmd]
  simp only [toolFindings, List.forall_mem_append, List.forall_mem_map, mem_order]
  refine and_iff_left fun domain hdomain => ?_
  exact plain_of_avoids hU avoids_domainRegex (List.mem_filter.1 hdomain).1

theorem plain_commandFindings (hU : PlainDigits W.unicode) (cmd sessionId : Str) :
    (∀ f ∈ commandFindings W cmd sessionId, IsPlainValue f.value) ↔ ¬SpecialUrl urlChar cmd := by
  rw [← plain_urlsIn (W := W) cmd]
  simp only [commandFindings, List.forall_mem_append, List.forall_mem_map]
  exact and_iff_left fun ip hip => plain_of_avoids hU avoids_ipRegex hip

end

private theorem forall_mem_elim {α β : Type} {o : Option α} {g : α → List β} {P : β → Prop} :
    (∀ b ∈ o.elim [] g, P b) ↔ ∀ a, o = some a → ∀ b ∈ g a, P b := by
  cases o with
  | none => exact ⟨fun _ a ha => (by cases ha), fun _ b hb => absurd hb List.not_mem_nil⟩
  | some a => exact ⟨fun h a' ha => Option.some.inj ha ▸ h, fun h => h a rfl⟩

theorem plain_command_iff (hU : PlainDigits W.unicode) (s : ServiceRegistry σ) (cmd srcIp sessionId : Str) (isBot : Bool) :
    (∀ f ∈ s.added W (.command cmd srcIp sessionId isBot), IsPlainValue f.value) ↔
      s.Readable W.unicode (.command cmd srcIp sessionId isBot) := by
  rw [added, List.forall_mem_append, forall_mem_elim, forall_mem_elim, Readable, Option.isSome_iff_exists,
    Option.isSome_iff_exists]
  constructor
  · rintro ⟨htool, hanomaly⟩
    refine ⟨?_, fun ⟨a, ha⟩ => hanomaly a ha _ List.mem_cons_self⟩
    rintro (⟨tool, h⟩ | ⟨a, h⟩)
    · exact (plain_toolFindings hU cmd sessionId tool).1 (htool tool h)
    · exact (plain_commandFindings hU cmd sessionId).1 fun f hf => hanomaly a h f (List.mem_cons_of_mem _ hf)
  · rintro ⟨hurl, hsource⟩
    refine ⟨fun tool h => (plain_toolFindings hU cmd sessionId tool).2 (hurl (.inl ⟨tool, h⟩)), ?_⟩
    intro a h f hf
    rcases List.mem_cons.1 hf with rfl | hf
    · exact hsource ⟨a, h⟩
    · exact (plain_commandFindings hU cmd sessionId).2 (hurl (.inr ⟨a, h⟩)) f hf

theorem plain_added_iff (hU : PlainDigits W.unicode) (s : ServiceRegistry σ) (call : ServiceCall) :
    (∀ f ∈ s.added W call, IsPlainValue f.value) ↔ s.Readable W.unicode call := by
  cases call with
  | command cmd srcIp sessionId isBot => exact plain_command_iff hU s cmd srcIp sessionId isBot
  | malicious cmd => exact ⟨fun _ => trivial, fun _ f hf => absurd hf List.not_mem_nil⟩
  | auth username password sessionId =>
    rw [added, Readable, List.forall_mem_singleton]
    show IsPlainValue (username ++ ':' :: password) ↔ _
    unfold IsPlainValue
    rw [List.forall_mem_append, List.forall_mem_cons]
    exact and_congr_right fun _ => and_iff_right rfl
  | file filename content sessionId srcIp =>
    rw [added, forall_mem_elim]
    refine iff_of_true (fun a _ f hf => ?_) trivial
    rw [List.mem_singleton.1 hf]
    exact plain_sha256 content
  | scan filename content sessionId srcIp answer =>
    rw [added, forall_mem_elim]
    refine iff_of_true (fun result h f hf => ?_) trivial
    have hplain : IsPlainValue result.sha256 := VtScanner.sha256_of_scan h ▸ plain_sha256 content
    split at hf
    · cases hf
    · rw [List.mem_singleton.1 hf]
      exact hplain
  | detect cmd srcIp sessionId =>
    rw [Readable, ← plain_sessionUrls, added, List.forall_mem_map]
    have hmem : ∀ x, x ∈ iocsIn W cmd ↔ x ∈ findall (letters W.unicode) sessionIpRegex cmd ++
        findall (letters W.unicode) sessionUrlRegex cmd := fun x => mem_order
    constructor
    · intro h url hurl
      exact h url ((hmem url).2 (List.mem_append_right _ hurl))
    · intro h x hx
      rcases List.mem_append.1 ((hmem x).1 hx) with hip | hurl
      · exact plain_of_avoids hU avoids_sessionIpRegex hip
      · exact h x hurl

/-- The analytics know no other types than the reporter does. -/
theorem known_added (s : ServiceRegistry σ) (call : ServiceCall) : ∀ f ∈ s.added W call, f.type ∈ knownTypes := by
  have hfindings : ∀ {xs : List Str} {g : Str → Finding} {type : String}, type.toList ∈ knownTypes →
      (∀ x, (g x).type = type.toList) → ∀ f ∈ xs.map g, f.type ∈ knownTypes := by
    intro xs g type htype hg f hf
    obtain ⟨x, -, rfl⟩ := List.mem_map.1 hf
    exact hg x ▸ htype
  have hurl : "url".toList ∈ knownTypes := by decide
  have hdomain : "domain".toList ∈ knownTypes := by decide
  have hip : "ipv4-addr".toList ∈ knownTypes := by decide
  cases call with
  | command cmd srcIp sessionId isBot =>
    rw [added, List.forall_mem_append, forall_mem_elim, forall_mem_elim]
    constructor
    · intro tool _ f hf
      rcases List.mem_append.1 hf with hf | hf
      · exact hfindings hurl (fun _ => rfl) f hf
      · exact hfindings hdomain (fun _ => rfl) f hf
    · intro a _ f hf
      rcases List.mem_cons.1 hf with rfl | hf
      · exact hip
      · rcases List.mem_append.1 hf with hf | hf
        · exact hfindings hurl (fun _ => rfl) f hf
        · exact hfindings hip (fun _ => rfl) f hf
  | malicious cmd => exact fun f hf => absurd hf List.not_mem_nil
  | auth username password sessionId =>
    intro f hf
    rw [List.mem_singleton.1 hf]
    show "credential".toList ∈ knownTypes
    decide
  | file filename content sessionId srcIp =>
    rw [added, forall_mem_elim]
    intro a _ f hf
    rw [List.mem_singleton.1 hf]
    show "file-hash".toList ∈ knownTypes
    decide
  | scan filename content sessionId srcIp answer =>
    rw [added, forall_mem_elim]
    intro result _ f hf
    split at hf
    · cases hf
    · rw [List.mem_singleton.1 hf]
      show "file-hash".toList ∈ knownTypes
      decide
  | detect cmd srcIp sessionId =>
    rw [added, List.forall_mem_map]
    intro x _
    show (if startsWithIp W x then "ipv4-addr".toList else "url".toList) ∈ knownTypes
    split
    · exact hip
    · exact hurl

/-! ### Runs -/

theorem readable_congr {t : ServiceRegistry σ} (h : t.ml = s.ml) (U : Unicode) (call : ServiceCall) :
    t.Readable U call ↔ s.Readable U call := by
  have hanomaly : ∀ text, t.anomaly text = s.anomaly text := fun text => by simp only [anomaly, analysisOf, h]
  cases call <;> simp only [Readable, hanomaly]

theorem plain_run_iff (hU : PlainDigits W.unicode) (calls : List ServiceCall) :
    (∀ f ∈ (run (step W) s calls).findings, IsPlainValue f.value) ↔
      (∀ f ∈ s.findings, IsPlainValue f.value) ∧ ∀ call ∈ calls, s.Readable W.unicode call := by
  induction calls generalizing s with
  | nil => simp
  | cons call calls ih =>
    obtain ⟨hadded, hml⟩ := added_step (W := W) (s := s) call
    rw [run_cons, ih, hadded, List.forall_mem_append, plain_added_iff hU, List.forall_mem_cons, and_assoc]
    exact and_congr_right fun _ => and_congr_right fun _ => forall₂_congr fun c _ => readable_congr hml _ c

theorem known_run (h : ∀ f ∈ s.findings, f.type ∈ knownTypes) (calls : List ServiceCall) :
    ∀ f ∈ (run (step W) s calls).findings, f.type ∈ knownTypes := by
  refine invariant_of_steps (I := fun s : ServiceRegistry σ => ∀ f ∈ s.findings, f.type ∈ knownTypes)
    (G := fun _ _ => True) (fun s call h _ => ?_) h (meets_of_forall fun _ _ _ => trivial)
  rw [(added_step call).1]
  exact List.forall_mem_append.2 ⟨h, known_added s call⟩

/-- What is collected stays. -/
theorem subset_run (calls : List ServiceCall) : s.findings ⊆ (run (step W) s calls).findings := by
  induction calls generalizing s with
  | nil => exact fun _ => id
  | cons call calls ih =>
    refine fun f hf => ih (s := s.step W call) ?_
    rw [(added_step call).1]
    exact List.mem_append_left _ hf

/-- What a call of a run adds, with the pipeline of the beginning, is there at the end. -/
theorem added_run {calls : List ServiceCall} {call : ServiceCall} (hcall : call ∈ calls) :
    ∃ t : ServiceRegistry σ, t.ml = s.ml ∧ t.added W call ⊆ (run (step W) s calls).findings := by
  induction calls generalizing s with
  | nil => cases hcall
  | cons first calls ih =>
    obtain ⟨hadded, hml⟩ := added_step (W := W) (s := s) first
    rcases List.mem_cons.1 hcall with rfl | hcall
    · refine ⟨s, rfl, fun f hf => subset_run calls ?_⟩
      rw [hadded]
      exact List.mem_append_right _ hf
    · obtain ⟨t, ht, hsub⟩ := ih (s := s.step W first) hcall
      exact ⟨t, ht.trans hml, hsub⟩

end ServiceRegistry

end Cyanide
