import Cyanide.Lib.PosixPath
import Cyanide.Lib.PyText
import Cyanide.Lib.StixPattern

/-!
# The reporter of indicators

`IOCReporter` collects what attackers leave (addresses, URLs, credentials) and writes it as a STIX bundle, with one
indicator for each.  The values stand in the patterns as they are, so a pattern says what was collected exactly when the
value has no quote and no backslash (`generateStixReport_reads_iff`).
-/

namespace Cyanide

open PosixPath PyText StixPattern

structure Ioc where
  type : Str
  value : Str
  description : Str
  session : Str
  severity : Str
  timestamp : Str

/-- The reporter with the name of the honeypot in the configuration and the path of its report. -/
structure IocReporter where
  hostname : Str := "Cyanide-Honeypot".toList
  reportPath : Str
  iocs : List Ioc := []

/-- An event for the log: the session, the type and the data. -/
structure ReporterEvent where
  session : Str
  eventType : Str
  data : List (Str × Str)

/-- What a report takes from outside: the identifiers and the times in the order in which they are drawn, and why the
file cannot be written, if it cannot. -/
structure ReportWorld where
  uuid : ℕ → Str
  now : ℕ → Str
  failure : Option Str

namespace IocReporter

def addIoc (r : IocReporter) (now type value description sourceSession : Str) (severity : Str := "medium".toList) :
    IocReporter × ReporterEvent :=
  ({ r with iocs := r.iocs ++ [⟨type, value, description, sourceSession, severity, now⟩] },
    ⟨sourceSession, "ioc_extracted".toList,
      [("type".toList, type), ("value".toList, value), ("severity".toList, severity)]⟩)

/-- `analyze_auth` of the analytics. -/
def analyzeAuth (r : IocReporter) (now username password sessionId : Str) : IocReporter × ReporterEvent :=
  r.addIoc now "credential".toList (username ++ ':' :: password) "Credential attempt from attacker".toList sessionId
    "low".toList

end IocReporter

/-! ### The report -/

def stixPattern (path : String) (value : Str) : Str := '[' :: path.toList ++ " = '".toList ++ value ++ "']".toList

/-- The pattern of a collected value; values of other types are passed over. -/
def patternOf (type value : Str) : Option Str :=
  if type = "ipv4-addr".toList then some (stixPattern "ipv4-addr:value" value)
  else if type = "url".toList then some (stixPattern "url:value" value)
  else if type = "file-hash".toList then some (stixPattern "file:hashes.'SHA-256'" value)
  else if type = "domain".toList then some (stixPattern "domain-name:value" value)
  else if type = "credential".toList then some (stixPattern "user-account:user_id" value)
  else none

structure StixIdentity where
  type : String := "identity"
  specVersion : String := "2.1"
  id : Str
  name : Str
  description : String := "Cyanide Honeypot Sensor"
  identityClass : String := "system"
  created : Str
  modified : Str

structure StixIndicator where
  type : String := "indicator"
  specVersion : String := "2.1"
  id : Str
  created : Str
  modified : Str
  name : Str
  description : Str
  indicatorTypes : List String := ["malicious-activity"]
  pattern : Str
  patternType : String := "stix"
  validFrom : Str
  createdByRef : Str

/-- A bundle, whose objects are the identity and the indicators behind it. -/
structure StixBundle where
  type : String := "bundle"
  id : Str
  identity : StixIdentity
  indicators : List StixIndicator

/-- What a call of `generate_stix_report` returns, what it dumps and what it logs. -/
structure StixReport where
  path : Option Str
  bundle : Option StixBundle
  events : List ReporterEvent

namespace IocReporter

variable (W : ReportWorld) (quiet : Bool) (r : IocReporter)

def identity : StixIdentity where
  id := "identity--".toList ++ W.uuid 1
  name := r.hostname
  created := W.now 0
  modified := W.now 1

/-- The loop over what was collected; an identifier is drawn for what is passed over, too. -/
def indicators : List StixIndicator :=
  r.iocs.zipIdx.filterMap fun (ioc, k) => (patternOf ioc.type ioc.value).map fun pattern => {
    id := "indicator--".toList ++ W.uuid (k + 2)
    created := ioc.timestamp
    modified := ioc.timestamp
    name := "IOC from ".toList ++ ioc.session
    description := ioc.description
    pattern
    validFrom := ioc.timestamp
    createdByRef := (r.identity W).id }

def generateStixReport : StixReport :=
  if r.iocs = [] then ⟨none, none, []⟩
  else
    let bundle : StixBundle := {
      id := "bundle--".toList ++ W.uuid 0, identity := r.identity W, indicators := r.indicators W }
    match W.failure with
    | none =>
      ⟨some r.reportPath, some bundle,
        if quiet then []
        else [⟨"system".toList, "ioc_report_generated".toList,
          [("format".toList, "stix2.1".toList), ("path".toList, r.reportPath),
            ("count".toList, natText r.iocs.length)]⟩]⟩
    | some e =>
      ⟨none, some bundle,
        [⟨"system".toList, "error".toList, [("message".toList, "Failed to save STIX report: ".toList ++ e)]⟩]⟩

end IocReporter

def StixReport.indicators (report : StixReport) : List StixIndicator :=
  (report.bundle.map StixBundle.indicators).getD []

/-! ### Reading the patterns back -/

def knownTypes : List Str :=
  ["ipv4-addr".toList, "url".toList, "file-hash".toList, "domain".toList, "credential".toList]

/-- The type that a comparison is about. -/
def typeOf (c : Comparison) : Option Str :=
  if c.path = ["value".toList] then
    if c.objectType = "ipv4-addr".toList then some "ipv4-addr".toList
    else if c.objectType = "url".toList then some "url".toList
    else if c.objectType = "domain-name".toList then some "domain".toList
    else none
  else if c.objectType = "file".toList ∧ c.path = ["hashes".toList, "SHA-256".toList] then some "file-hash".toList
  else if c.objectType = "user-account".toList ∧ c.path = ["user_id".toList] then some "credential".toList
  else none

/-- The type and the value that a pattern says. -/
def readPattern (pattern : Str) : Option (Str × Str) :=
  (parse pattern).bind fun c => (typeOf c).map fun type => (type, c.value)

/-- A value that needs no escape in a pattern. -/
def IsPlainValue (value : Str) : Prop := ∀ c ∈ value, isSpecial c = false

/-- The pattern of a known type is its own beginning, the value and the end. -/
theorem exists_begins {type : Str} (htype : type ∈ knownTypes) : ∃ s objectType path ts,
    Begins s objectType path ts ∧ (∀ value, typeOf ⟨objectType, path, value⟩ = some type) ∧
      ∀ value, patternOf type value = some (s ++ value ++ ['\'', ']']) := by
  simp only [knownTypes, List.mem_cons, List.not_mem_nil, or_false] at htype
  rcases htype with rfl | rfl | rfl | rfl | rfl
  · exact ⟨"[ipv4-addr:value = '".toList, "ipv4-addr".toList, ["value".toList],
      [.lbrack, .word "ipv4-addr".toList, .colon, .word "value".toList, .eq],
      ⟨by decide +kernel, fun us => comparison_of_pathFrom rfl⟩, fun value => rfl, fun value => rfl⟩
  · exact ⟨"[url:value = '".toList, "url".toList, ["value".toList],
      [.lbrack, .word "url".toList, .colon, .word "value".toList, .eq],
      ⟨by decide +kernel, fun us => comparison_of_pathFrom rfl⟩, fun value => rfl, fun value => rfl⟩
  · exact ⟨"[file:hashes.'SHA-256' = '".toList, "file".toList, ["hashes".toList, "SHA-256".toList],
      [.lbrack, .word "file".toList, .colon, .word "hashes".toList, .dot, .literal "SHA-256".toList, .eq],
      ⟨by decide +kernel, fun us => comparison_of_pathFrom rfl⟩, fun value => rfl, fun value => rfl⟩
  · exact ⟨"[domain-name:value = '".toList, "domain-name".toList, ["value".toList],
      [.lbrack, .word "domain-name".toList, .colon, .word "value".toList, .eq],
      ⟨by decide +kernel, fun us => comparison_of_pathFrom rfl⟩, fun value => rfl, fun value => rfl⟩
  · exact ⟨"[user-account:user_id = '".toList, "user-account".toList, ["user_id".toList],
      [.lbrack, .word "user-account".toList, .colon, .word "user_id".toList, .eq],
      ⟨by decide +kernel, fun us => comparison_of_pathFrom rfl⟩, fun value => rfl, fun value => rfl⟩

theorem patternOf_eq_none_iff (type value : Str) : patternOf type value = none ↔ type ∉ knownTypes := by
  constructor
  · intro hnone htype
    obtain ⟨s, objectType, path, ts, -, -, hpattern⟩ := exists_begins htype
    rw [hpattern] at hnone
    cases hnone
  · intro htype
    simp only [knownTypes, List.mem_cons, List.not_mem_nil, or_false, not_or] at htype
    obtain ⟨hipv4, hurl, hhash, hdomain, hcredential⟩ := htype
    rw [patternOf, if_neg hipv4, if_neg hurl, if_neg hhash, if_neg hdomain, if_neg hcredential]

/-- One pattern says its type and value exactly when the value is plain. -/
theorem readPattern_iff {type value pattern : Str} (hpattern : patternOf type value = some pattern) :
    readPattern pattern = some (type, value) ↔ IsPlainValue value := by
  have htype : type ∈ knownTypes := by
    by_contra hunknown
    rw [(patternOf_eq_none_iff type value).mpr hunknown] at hpattern
    cases hpattern
  obtain ⟨s, objectType, path, ts, hbegins, htypeOf, heq⟩ := exists_begins htype
  obtain rfl : s ++ value ++ ['\'', ']'] = pattern := Option.some.inj ((heq value).symm.trans hpattern)
  constructor
  · intro hread
    refine (hbegins.parse_raw_iff value).mp ?_
    rw [readPattern, Option.bind_eq_some_iff] at hread
    obtain ⟨c, hparse, hc⟩ := hread
    obtain ⟨_, -, hpair⟩ := Option.map_eq_some_iff.mp hc
    rw [hparse]
    exact congrArg some (Prod.ext_iff.mp hpair).2
  · intro hplain
    rw [readPattern, hbegins.parse_raw hplain, Option.bind_some, htypeOf]
    rfl

/-! ### Reports -/

theorem map_pattern_indicators (W : ReportWorld) (r : IocReporter) :
    (r.indicators W).map StixIndicator.pattern = r.iocs.filterMap fun ioc => patternOf ioc.type ioc.value := by
  have hcomp : r.iocs.filterMap (fun ioc => patternOf ioc.type ioc.value) =
      r.iocs.zipIdx.filterMap fun x => patternOf x.1.type x.1.value := by
    conv_lhs => rw [← List.zipIdx_map_fst 0 r.iocs, List.filterMap_map]
    rfl
  rw [hcomp, IocReporter.indicators, List.map_filterMap]
  congr 1
  funext ⟨ioc, k⟩
  cases hpattern : patternOf ioc.type ioc.value <;> simp [hpattern]

theorem indicators_generateStixReport (W : ReportWorld) (quiet : Bool) (r : IocReporter) :
    (r.generateStixReport W quiet).indicators = r.indicators W := by
  rw [IocReporter.generateStixReport]
  by_cases hnil : r.iocs = []
  · rw [if_pos hnil, IocReporter.indicators, hnil]
    rfl
  · rw [if_neg hnil]
    cases W.failure <;> rfl

/-- Whatever the values are, there is one indicator for each collected value of a known type. -/
theorem length_indicators (W : ReportWorld) (quiet : Bool) (r : IocReporter) :
    (r.generateStixReport W quiet).indicators.length = r.iocs.countP (knownTypes.contains ·.type) := by
  rw [indicators_generateStixReport, ← List.length_map StixIndicator.pattern, map_pattern_indicators]
  induction r.iocs with
  | nil => rfl
  | cons ioc iocs ih =>
    rw [List.filterMap_cons, List.countP_cons]
    by_cases htype : ioc.type ∈ knownTypes
    · obtain ⟨s, objectType, path, ts, -, -, hpattern⟩ := exists_begins htype
      rw [hpattern, List.contains_iff_mem.mpr htype]
      simpa using ih
    · have hcontains : knownTypes.contains ioc.type = false := by simpa using htype
      rw [(patternOf_eq_none_iff _ _).mpr htype, hcontains]
      simpa using ih

/-- The indicators of a report say what was collected of the known types, one for each and in order, exactly when no
such value has a quote or a backslash. -/
theorem generateStixReport_reads_iff (W : ReportWorld) (quiet : Bool) (r : IocReporter) :
    (r.generateStixReport W quiet).indicators.map (fun indicator => readPattern indicator.pattern) =
        (r.iocs.filter (knownTypes.contains ·.type)).map (fun ioc => some (ioc.type, ioc.value)) ↔
      ∀ ioc ∈ r.iocs, ioc.type ∈ knownTypes → IsPlainValue ioc.value := by
  have hmap : (r.generateStixReport W quiet).indicators.map (fun indicator => readPattern indicator.pattern) =
      (r.iocs.filterMap fun ioc => patternOf ioc.type ioc.value).map readPattern := by
    rw [indicators_generateStixReport, ← map_pattern_indicators W r, List.map_map]
    rfl
  rw [hmap]
  induction r.iocs with
  | nil => simp
  | cons ioc iocs ih =>
    by_cases htype : ioc.type ∈ knownTypes
    · obtain ⟨s, objectType, path, ts, -, -, hpattern⟩ := exists_begins htype
      have hread := readPattern_iff (hpattern ioc.value)
      have hcontains : knownTypes.contains ioc.type = true := List.contains_iff_mem.mpr htype
      rw [List.filterMap_cons, hpattern, List.map_cons, List.filter_cons, if_pos hcontains, List.map_cons,
        List.cons_eq_cons, List.forall_mem_cons, forall_prop_of_true htype]
      exact and_congr hread ih
    · have hnone := (patternOf_eq_none_iff ioc.type ioc.value).mpr htype
      simpa [hnone, htype] using ih

/-- A password with a quote. -/
theorem not_reads_quote :
    let r := (IocReporter.analyzeAuth ⟨"host".toList, "r.json".toList, []⟩ [] "root".toList "it's".toList []).1
    (r.generateStixReport ⟨fun _ => [], fun _ => [], none⟩ true).indicators.map
        (fun indicator => readPattern indicator.pattern) ≠
      (r.iocs.filter (knownTypes.contains ·.type)).map (fun ioc => some (ioc.type, ioc.value)) := by
  decide +kernel

end Cyanide
