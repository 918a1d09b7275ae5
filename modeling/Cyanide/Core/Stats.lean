import Mathlib.Data.Finset.Insert
import Mathlib.Data.Finset.Max
import Cyanide.Lib.Exposition
import Cyanide.Lib.OrderedDict
import Cyanide.Lib.PyText
import Cyanide.Lib.Transition
import Cyanide.Vfs.Nodes

/-!
# The statistics and their exposition

`StatsManager` with its counters, and `toPrometheus`, which writes the strings that were counted between quotes as they
are.  A scrape gives the recorded strings and their counts back exactly when none of them has a quote, a backslash or a
newline (`reports_iff`).
-/

namespace Cyanide

open PosixPath PyText Transition Exposition

/-- An event that the statistics are told of, with what the exposition shows of it. -/
inductive StatEvent where
  | connect (protocol ip : Str)
  | disconnect
  | auth (success : Bool)
  | honeytoken (path : Str)
  | malware (filename : Str) (isMalicious : Bool)
  | fileOp (operation path : Str)
  | commandNotFound (cmd : Str)
  | traffic (direction : Str) (size : ℕ)
  | dnsCacheHit
  | dnsCacheMiss

structure StatsManager where
  activeSessions : ℕ
  totalSessions : ℕ
  uniqueIps : Finset Str
  protocols : OrderedDict Str ℕ
  honeytokenTriggers : OrderedDict Str ℕ
  malwareScans : OrderedDict Str ℕ
  maliciousFiles : OrderedDict Str ℕ
  dnsCacheHits : ℕ
  dnsCacheMisses : ℕ
  commandNotFound : OrderedDict Str ℕ
  pathStats : OrderedDict Str ℕ
  authSuccess : ℕ
  authFailures : ℕ
  fileOps : OrderedDict Str ℕ
  bytesIn : ℕ
  bytesOut : ℕ

namespace StatsManager

def new : StatsManager where
  activeSessions := 0
  totalSessions := 0
  uniqueIps := ∅
  protocols := .empty
  honeytokenTriggers := .empty
  malwareScans := .empty
  maliciousFiles := .empty
  dnsCacheHits := 0
  dnsCacheMisses := 0
  commandNotFound := .empty
  pathStats := .empty
  authSuccess := 0
  authFailures := 0
  fileOps := .empty
  bytesIn := 0
  bytesOut := 0

end StatsManager

namespace StatEvent

/-- The method that is called for the event. -/
def apply (s : StatsManager) : StatEvent → StatsManager
  | connect protocol ip => { s with
      activeSessions := s.activeSessions + 1
      totalSessions := s.totalSessions + 1
      protocols := s.protocols.increment protocol
      uniqueIps := insert ip s.uniqueIps }
  | disconnect => { s with activeSessions := s.activeSessions - 1 }
  | auth success =>
    if success then { s with authSuccess := s.authSuccess + 1 } else { s with authFailures := s.authFailures + 1 }
  | honeytoken path => { s with honeytokenTriggers := s.honeytokenTriggers.increment path }
  | malware filename isMalicious => { s with
      malwareScans := s.malwareScans.increment filename
      maliciousFiles := if isMalicious then s.maliciousFiles.increment filename else s.maliciousFiles }
  | fileOp operation path => { s with
      fileOps := s.fileOps.increment operation
      pathStats := s.pathStats.increment path }
  | commandNotFound cmd => { s with commandNotFound := s.commandNotFound.increment cmd }
  | traffic direction size =>
    if direction = "in".toList then { s with bytesIn := s.bytesIn + size } else { s with bytesOut := s.bytesOut + size }
  | dnsCacheHit => { s with dnsCacheHits := s.dnsCacheHits + 1 }
  | dnsCacheMiss => { s with dnsCacheMisses := s.dnsCacheMisses + 1 }

end StatEvent

/-! ### The exposition -/

/-- `str` of an integer. -/
def intText : Int → Str
  | .ofNat n => natText n
  | .negSucc n => '-' :: natText (n + 1)

/-- The lines of a metric as `to_prometheus` writes them. -/
def metricLines (f : Family) : List Str :=
  (f.help.elim [] fun doc => ["# HELP ".toList ++ f.name ++ ' ' :: doc]) ++
    (f.kind.elim [] fun kind => ["# TYPE ".toList ++ f.name ++ ' ' :: kind]) ++
      f.samples.map fun x =>
        f.name ++ x.1.flatMap (fun l => '{' :: (l.1 ++ "=\"".toList ++ l.2 ++ "\"".toList ++ ['}'])) ++ ' ' :: x.2

/-- A metric with one sample. -/
def single (name doc kind : String) (value : Str) : Family :=
  ⟨name.toList, some doc.toList, some kind.toList, [([], value)]⟩

/-- The metrics with a label. -/
inductive Labelled where
  | protocols
  | honeytokens
  | fileOps
  | missingCommands
  | pathAccess
  deriving DecidableEq

namespace Labelled

def name : Labelled → String
  | protocols => "cyanide_protocols_total"
  | honeytokens => "cyanide_honeytoken_hits_total"
  | fileOps => "cyanide_file_ops_total"
  | missingCommands => "cyanide_missing_commands_total"
  | pathAccess => "cyanide_path_access_total"

def label : Labelled → String
  | protocols => "protocol"
  | honeytokens => "path"
  | fileOps => "op"
  | missingCommands => "command"
  | pathAccess => "path"

/-- The help text of a metric that has one, and then a type, too. -/
def doc : Labelled → Option String
  | protocols => some "Total connections per protocol"
  | honeytokens => some "Total hits on honeytoken paths"
  | fileOps => some "Total filesystem operations by type"
  | missingCommands | pathAccess => none

def counter (s : StatsManager) : Labelled → OrderedDict Str ℕ
  | protocols => s.protocols
  | honeytokens => s.honeytokenTriggers
  | fileOps => s.fileOps
  | missingCommands => s.commandNotFound
  | pathAccess => s.pathStats

def family (s : StatsManager) (m : Labelled) : Family where
  name := m.name.toList
  help := m.doc.map String.toList
  kind := m.doc.map fun _ => "counter".toList
  samples := (m.counter s).entries.map fun e => ([(m.label.toList, e.1)], natText e.2)

end Labelled

namespace StatsManager

variable (s : StatsManager)

def total (d : OrderedDict Str ℕ) : ℕ := (d.entries.map Prod.snd).sum

/-- The metrics in their order; `uptime` is the time since the start. -/
def metrics (uptime : Int) : List Family := [
  single "cyanide_active_sessions" "Number of currently active sessions" "gauge" (natText s.activeSessions),
  single "cyanide_total_sessions_total" "Total number of connections since start" "counter" (natText s.totalSessions),
  single "cyanide_unique_attackers_total" "Total number of unique attacker IPs" "counter" (natText s.uniqueIps.card),
  single "cyanide_uptime_seconds" "Honeypot uptime in seconds" "counter" (intText uptime),
  single "cyanide_auth_success_total" "Total successful login attempts" "counter" (natText s.authSuccess),
  single "cyanide_auth_failures_total" "Total failed login attempts" "counter" (natText s.authFailures),
  Labelled.protocols.family s,
  Labelled.honeytokens.family s,
  single "cyanide_malware_scans_total" "Total malware scans performed" "counter" (natText (total s.malwareScans)),
  single "cyanide_malicious_files_total" "Total malicious files detected" "counter" (natText (total s.maliciousFiles)),
  Labelled.fileOps.family s,
  single "cyanide_traffic_bytes_in_total" "Total inbound traffic in bytes" "counter" (natText s.bytesIn),
  single "cyanide_traffic_bytes_out_total" "Total outbound traffic in bytes" "counter" (natText s.bytesOut),
  single "cyanide_command_not_found_total" "Total count of commands not found" "counter"
    (natText (total s.commandNotFound)),
  Labelled.missingCommands.family s,
  Labelled.pathAccess.family s,
  single "cyanide_dns_cache_hits_total" "Total DNS cache hits" "counter" (natText s.dnsCacheHits),
  single "cyanide_dns_cache_misses_total" "Total DNS cache misses" "counter" (natText s.dnsCacheMisses)]

def toPrometheus (uptime : Int) : Str :=
  List.intercalate ['\n'] ((s.metrics uptime).flatMap metricLines) ++ ['\n']

end StatsManager

/-! ### What was recorded -/

/-- The strings that the event adds to the metric. -/
def StatEvent.records : Labelled → StatEvent → Option Str
  | .protocols, connect protocol _ => some protocol
  | .honeytokens, honeytoken path => some path
  | .fileOps, fileOp operation _ => some operation
  | .missingCommands, commandNotFound cmd => some cmd
  | .pathAccess, fileOp _ path => some path
  | _, _ => none

/-- The strings that a history has recorded under the metric. -/
def Labelled.recorded (m : Labelled) (events : List StatEvent) : List Str := events.filterMap (StatEvent.records m)

/-- The text is an exposition in which the labelled samples are the recorded strings with their counts. -/
def Reports (text : Str) (events : List StatEvent) : Prop :=
  ∃ fs : List Family, parse text = some (fs.flatMap Family.entries) ∧ WellFormed fs ∧
    ∀ x : Sample, x.labels ≠ [] → (.sample x ∈ fs.flatMap Family.entries ↔
      ∃ (m : Labelled) (k : Str), k ∈ m.recorded events ∧
        x = ⟨m.name.toList, [(m.label.toList, k)], natText ((m.recorded events).count k), none⟩)

theorem counter_run (m : Labelled) (events : List StatEvent) :
    m.counter (run StatEvent.apply .new events) = OrderedDict.tally (m.recorded events) := by
  induction events using List.reverseRecOn with
  | nil => cases m <;> rfl
  | append_singleton events e ih =>
    rw [run_append, run_cons, run_nil, Labelled.recorded, List.filterMap_append, OrderedDict.tally, List.foldl_append]
    rw [Labelled.recorded, OrderedDict.tally] at ih
    rw [← ih]
    generalize run StatEvent.apply .new events = s
    cases e with
    | auth success => cases success <;> cases m <;> rfl
    | traffic direction size =>
      rw [StatEvent.apply]
      split_ifs <;> cases m <;> rfl
    | _ => cases m <;> rfl

theorem mem_counter_run {m : Labelled} {events : List StatEvent} {e : Str × ℕ} :
    e ∈ (m.counter (run StatEvent.apply .new events)).entries ↔
      e.1 ∈ m.recorded events ∧ e.2 = (m.recorded events).count e.1 := by
  rw [counter_run, OrderedDict.mem_tally_iff]

/-! ### When the strings need no escaping -/

theorem metricLines_eq_render {f : Family}
    (h : ∀ x ∈ f.samples, x.1 = [] ∨ ∃ l, x.1 = [l] ∧ Plain l.2) : metricLines f = f.render := by
  have hsamples : ∀ x ∈ f.samples,
      f.name ++ x.1.flatMap (fun l => '{' :: (l.1 ++ "=\"".toList ++ l.2 ++ "\"".toList ++ ['}'])) ++ ' ' :: x.2 =
        f.name ++ renderLabels x.1 ++ ' ' :: x.2 := by
    intro x hx
    rcases h x hx with hnil | ⟨l, hl, hplain⟩
    · rw [hnil]
      rfl
    · rw [hl, renderLabels, if_neg (by simp)]
      simp [List.intercalate, renderLabel, escape_of_plain hplain]
  rw [metricLines, Family.render, List.map_congr_left hsamples]

/-- The text of an integer. -/
structure IsInteger (s : Str) : Prop where
  digits : isDigits (stripSign s) = true
  chars : ∀ c ∈ s, c.isDigit = true ∨ c = '-'

theorem IsInteger.char {s : Str} (h : IsInteger s) {c : Char} (hc : c ∈ s) :
    isBlank c = false ∧ c ≠ '\n' ∧ c ≠ '"' := by
  rcases h.chars c hc with hd | rfl
  · refine ⟨?_, ?_, ?_⟩
    · by_contra hcon
      rw [Bool.not_eq_false, isBlank, Bool.or_eq_true, decide_eq_true_eq, decide_eq_true_eq] at hcon
      rcases hcon with rfl | rfl <;> exact absurd hd (by decide)
    · rintro rfl
      exact absurd hd (by decide)
    · rintro rfl
      exact absurd hd (by decide)
  · decide

theorem isDigits_natText (n : ℕ) : isDigits (natText n) = true := by
  simp [isDigits, natText_ne_nil]
  exact fun c hc => isDigit_of_mem_natText hc

theorem stripSign_natText (n : ℕ) : stripSign (natText n) = natText n := by
  unfold stripSign
  split
  · rename_i s h
    exact absurd (isDigit_of_mem_natText (n := n) (c := '+') (by simp [h])) (by decide)
  · rename_i s h
    exact absurd (isDigit_of_mem_natText (n := n) (c := '-') (by simp [h])) (by decide)
  · rfl

theorem isInteger_natText (n : ℕ) : IsInteger (natText n) where
  digits := by
    rw [stripSign_natText]
    exact isDigits_natText n
  chars c hc := .inl (isDigit_of_mem_natText hc)

theorem isInteger_intText (n : Int) : IsInteger (intText n) := by
  cases n with
  | ofNat n => exact isInteger_natText n
  | negSucc n =>
    refine ⟨isDigits_natText (n + 1), fun c hc => ?_⟩
    rcases List.mem_cons.1 hc with rfl | hc
    · exact .inr rfl
    · exact .inl (isDigit_of_mem_natText hc)

/-- What the constants of a metric have to be. -/
def ValidHeader (name doc kind : Str) : Prop :=
  isName true name = true ∧ kind ∈ kinds ∧ '\n' ∉ doc ∧ '"' ∉ name ∧ '"' ∉ doc ∧ '"' ∉ kind

instance (name doc kind : Str) : Decidable (ValidHeader name doc kind) :=
  inferInstanceAs (Decidable (_ ∧ _ ∧ _ ∧ _ ∧ _ ∧ _))

/-- A metric with a label, or one with a single sample that is an integer. -/
def IsMetric (s : StatsManager) (f : Family) : Prop :=
  (∃ m : Labelled, f = m.family s) ∨ ∃ name doc kind value, f = single name doc kind value ∧
    ValidHeader name.toList doc.toList kind.toList ∧ IsInteger value

theorem isMetric_labelled (s : StatsManager) (m : Labelled) : IsMetric s (m.family s) := .inl ⟨m, rfl⟩

theorem isMetric_single (s : StatsManager) {name doc kind : String} {value : Str}
    (h : ValidHeader name.toList doc.toList kind.toList) (hvalue : IsInteger value) :
    IsMetric s (single name doc kind value) :=
  .inr ⟨name, doc, kind, value, rfl, h, hvalue⟩

theorem isMetric_of_mem {s : StatsManager} {uptime : Int} : ∀ f ∈ s.metrics uptime, IsMetric s f := by
  have hnat {name doc kind : String} (h : ValidHeader name.toList doc.toList kind.toList) (n : ℕ) :=
    isMetric_single s h (isInteger_natText n)
  have hlabelled := isMetric_labelled s
  simp only [StatsManager.metrics, List.forall_mem_cons]
  exact ⟨hnat (by decide +kernel) _, hnat (by decide +kernel) _, hnat (by decide +kernel) _,
    isMetric_single s (by decide +kernel) (isInteger_intText uptime), hnat (by decide +kernel) _,
    hnat (by decide +kernel) _, hlabelled .protocols, hlabelled .honeytokens, hnat (by decide +kernel) _,
    hnat (by decide +kernel) _, hlabelled .fileOps, hnat (by decide +kernel) _, hnat (by decide +kernel) _,
    hnat (by decide +kernel) _, hlabelled .missingCommands, hlabelled .pathAccess, hnat (by decide +kernel) _,
    hnat (by decide +kernel) _, fun f hf => absurd hf List.not_mem_nil⟩

theorem wellFormed_single {name doc kind : String} {value : Str} (h : ValidHeader name.toList doc.toList kind.toList)
    (hvalue : IsInteger value) : (single name doc kind value).WellFormed where
  name := h.1
  help d hd := Option.some.inj hd ▸ h.2.2.1
  kind k hk := Option.some.inj hk ▸ h.2.1
  labels x hx := by
    rw [List.mem_singleton.1 hx]
    simp
  values x hx := by
    rw [List.mem_singleton.1 hx]
    exact ⟨isNumber_of_isDigits hvalue.digits, fun c hc => ⟨(hvalue.char hc).1, (hvalue.char hc).2.1⟩⟩
  distinct := by simp [single]

theorem wellFormed_labelled (m : Labelled) (s : StatsManager) : (m.family s).WellFormed where
  name := by
    have hname : isName true m.name.toList = true := by cases m <;> decide
    exact hname
  help doc hdoc := by
    have hdocs : ∀ doc ∈ m.doc, '\n' ∉ doc.toList := by cases m <;> simp [Labelled.doc]
    obtain ⟨doc, hd, rfl⟩ := Option.map_eq_some_iff.1 hdoc
    exact hdocs doc hd
  kind kind hkind := by
    obtain ⟨doc, -, rfl⟩ := Option.map_eq_some_iff.1 hkind
    decide
  labels x hx := by
    have hlabel : isName false m.label.toList = true := by cases m <;> decide
    obtain ⟨e, -, rfl⟩ := List.mem_map.1 hx
    simpa using hlabel
  values x hx := by
    obtain ⟨e, -, rfl⟩ := List.mem_map.1 hx
    have hvalue := isInteger_natText e.2
    exact ⟨isNumber_of_isDigits hvalue.digits, fun c hc => ⟨(hvalue.char hc).1, (hvalue.char hc).2.1⟩⟩
  distinct := by
    have hinj : Function.Injective fun k : Str => [(m.label.toList, k)] := by
      intro j k h
      simpa using h
    have hkeys := (m.counter s).nodup.map hinj
    rw [List.map_map] at hkeys
    rw [Labelled.family, List.map_map]
    exact hkeys

/-- The names of the metrics in their order. -/
def metricNames : List String :=
  ["cyanide_active_sessions", "cyanide_total_sessions_total", "cyanide_unique_attackers_total",
    "cyanide_uptime_seconds", "cyanide_auth_success_total", "cyanide_auth_failures_total", "cyanide_protocols_total",
    "cyanide_honeytoken_hits_total", "cyanide_malware_scans_total", "cyanide_malicious_files_total",
    "cyanide_file_ops_total", "cyanide_traffic_bytes_in_total", "cyanide_traffic_bytes_out_total",
    "cyanide_command_not_found_total", "cyanide_missing_commands_total", "cyanide_path_access_total",
    "cyanide_dns_cache_hits_total", "cyanide_dns_cache_misses_total"]

theorem wellFormed_metrics (s : StatsManager) (uptime : Int) : WellFormed (s.metrics uptime) where
  names := by
    have hnames : (s.metrics uptime).map Family.name = metricNames.map String.toList := by
      simp only [StatsManager.metrics, metricNames, List.map_cons, List.map_nil, single, Labelled.family, Labelled.name]
    rw [hnames]
    refine List.Nodup.map (fun a b h => String.toList_inj.1 h) ?_
    simp only [metricNames, List.nodup_cons, List.mem_cons, List.not_mem_nil, String.reduceEq, or_self,
      not_false_eq_true, List.nodup_nil, and_self]
  families f hf := by
    rcases isMetric_of_mem f hf with ⟨m, rfl⟩ | ⟨name, doc, kind, value, rfl, hsound, hvalue⟩
    · exact wellFormed_labelled m s
    · exact wellFormed_single hsound hvalue

theorem family_mem_metrics (s : StatsManager) (uptime : Int) (m : Labelled) : m.family s ∈ s.metrics uptime := by
  cases m <;> simp [StatsManager.metrics]

theorem mem_entries_iff {fs : List Family} {x : Sample} :
    .sample x ∈ fs.flatMap Family.entries ↔ ∃ f ∈ fs, ∃ y ∈ f.samples, x = ⟨f.name, y.1, y.2, none⟩ := by
  rw [List.mem_flatMap]
  refine exists_congr fun f => and_congr_right fun _ => ?_
  rw [Family.entries, List.mem_append, List.mem_append, List.mem_map]
  constructor
  · rintro ((h | h) | ⟨y, hy, heq⟩)
    · cases hh : f.help <;> simp [hh] at h
    · cases hk : f.kind <;> simp [hk] at h
    · cases heq
      exact ⟨y, hy, rfl⟩
  · rintro ⟨y, hy, rfl⟩
    exact .inr ⟨y, hy, rfl⟩

/-- The samples with labels are the entries of the counters. -/
theorem mem_entries_metrics {s : StatsManager} {uptime : Int} {x : Sample} (hx : x.labels ≠ []) :
    .sample x ∈ (s.metrics uptime).flatMap Family.entries ↔
      ∃ (m : Labelled) (e : Str × ℕ), e ∈ (m.counter s).entries ∧
        x = ⟨m.name.toList, [(m.label.toList, e.1)], natText e.2, none⟩ := by
  rw [mem_entries_iff]
  constructor
  · rintro ⟨f, hf, y, hy, rfl⟩
    rcases isMetric_of_mem f hf with ⟨m, rfl⟩ | ⟨name, doc, kind, value, rfl, -, -⟩
    · obtain ⟨e, he, rfl⟩ := List.mem_map.1 hy
      exact ⟨m, e, he, rfl⟩
    · rw [List.mem_singleton.1 hy] at hx
      exact absurd rfl hx
  · rintro ⟨m, e, he, rfl⟩
    exact ⟨m.family s, family_mem_metrics s uptime m, _, List.mem_map_of_mem he, rfl⟩

theorem toPrometheus_eq (s : StatsManager) (uptime : Int) :
    s.toPrometheus uptime = ((s.metrics uptime).flatMap metricLines).flatMap (· ++ ['\n']) :=
  intercalate_newline (List.append_ne_nil_of_left_ne_nil (by simp [metricLines, single]) _)

/-- A line has no quotes, or it is a string that was counted between two quotes. -/
theorem mem_lines {s : StatsManager} {uptime : Int} {g : Str}
    (hg : g ∈ (s.metrics uptime).flatMap metricLines) : '"' ∉ g ∨ ∃ m : Labelled, ∃ e ∈ (m.counter s).entries, ∃ p q,
      '"' ∉ p ∧ '"' ∉ q ∧ g = p ++ '"' :: e.1 ++ '"' :: q := by
  obtain ⟨f, hf, hg⟩ := List.mem_flatMap.1 hg
  rw [metricLines, List.mem_append, List.mem_append, List.mem_map] at hg
  rcases isMetric_of_mem f hf with ⟨m, rfl⟩ | ⟨name, doc, kind, value, rfl, hsound, hvalue⟩
  · have hname : '"' ∉ m.name.toList := by cases m <;> decide
    have hlabel : '"' ∉ m.label.toList := by cases m <;> decide
    have hdoc : ∀ doc ∈ m.doc, '"' ∉ doc.toList := by cases m <;> simp [Labelled.doc]
    rcases hg with (hg | hg) | ⟨x, hx, rfl⟩
    · cases hd : m.doc with
      | none => simp [Labelled.family, hd] at hg
      | some doc =>
        obtain rfl : g = _ := by simpa [Labelled.family, hd] using hg
        have hquote := hdoc doc hd
        left
        simp [hname, hquote]
    · cases hd : m.doc with
      | none => simp [Labelled.family, hd] at hg
      | some doc =>
        obtain rfl : g = _ := by simpa [Labelled.family, hd] using hg
        left
        simp [hname]
    · obtain ⟨e, he, rfl⟩ := List.mem_map.1 hx
      refine .inr ⟨m, e, he, m.name.toList ++ '{' :: (m.label.toList ++ ['=']), '}' :: ' ' :: natText e.2, ?_, ?_, ?_⟩
      · simp [hname, hlabel]
      · have hvalue : '"' ∉ natText e.2 := fun h => ((isInteger_natText e.2).char h).2.2 rfl
        simp [hvalue]
      · simp [Labelled.family]
  · obtain ⟨-, -, -, hname, hdoc, hkind⟩ := hsound
    have hquote : '"' ∉ value := fun h => (hvalue.char h).2.2 rfl
    left
    rcases hg with (hg | hg) | ⟨x, hx, rfl⟩
    · obtain rfl : g = _ := by simpa [single] using hg
      simp [hname, hdoc]
    · obtain rfl : g = _ := by simpa [single] using hg
      simp [hname, hkind]
    · rw [List.mem_singleton.1 hx]
      simp [single, hname, hquote]

private theorem exists_longest {P : Str → Prop} {l : List Str} (h : ∃ k ∈ l, P k) :
    ∃ k ∈ l, P k ∧ ∀ j ∈ l, P j → j.length ≤ k.length := by
  classical
  obtain ⟨k₀, hk₀, hP₀⟩ := h
  obtain ⟨k, hk, hmax⟩ := (l.filter P).toFinset.exists_max_image List.length ⟨k₀, by simp [hk₀, hP₀]⟩
  simp only [List.mem_toFinset, List.mem_filter, decide_eq_true_eq] at hk hmax
  exact ⟨k, hk.1, hk.2, fun j hj hP => hmax j ⟨hj, hP⟩⟩

/-- A label value that is read from the text is a recorded string that needs no escaping, or it is shorter than one that
does. -/
theorem recorded_of_parse {events : List StatEvent} {uptime : Int} {es : List Entry}
    (h : parse ((run StatEvent.apply .new events).toPrometheus uptime) = some es) {x : Sample} (hx : .sample x ∈ es)
    {l : Str × Str} (hl : l ∈ x.labels) : ∃ (m : Labelled) (k : Str), k ∈ m.recorded events ∧
      ((l.2 = k ∧ Plain k) ∨ (l.2.length < k.length ∧ ¬Plain k)) := by
  obtain ⟨line, hline, hquoted⟩ := quoted_of_parse h hx
  have hq := hquoted l hl
  rw [toPrometheus_eq, splitOn_flatMap, List.mem_append, List.mem_flatMap, List.mem_singleton] at hline
  have hquote : '"' ∈ line := by
    obtain ⟨chunk, hchunk, -⟩ := hq
    exact hchunk.subset List.mem_cons_self
  rcases hline with ⟨g, hg, hline⟩ | rfl
  · obtain ⟨hwithin, hnl⟩ := mem_splitOn hline
    rcases mem_lines hg with hnone | ⟨m, e, he, p, q, hp, hq', rfl⟩
    · exact absurd (hwithin.subset hquote) hnone
    · exact ⟨m, e.1, (mem_counter_run.1 he).1, hq.cases hp hq' hwithin hnl⟩
  · cases hquote

/-- A scrape gives back what was recorded exactly when nothing that was recorded needs escaping. -/
theorem reports_iff (events : List StatEvent) (uptime : Int) :
    Reports ((run StatEvent.apply .new events).toPrometheus uptime) events ↔
      ∀ (m : Labelled), ∀ k ∈ m.recorded events, Plain k := by
  constructor
  · rintro ⟨fs, hparse, -, hsamples⟩
    by_contra hcon
    push Not at hcon
    obtain ⟨m₀, k₀, hk₀, hplain₀⟩ := hcon
    have hall : ∀ (m : Labelled) (k : Str), k ∈ m.recorded events →
        k ∈ [Labelled.protocols, .honeytokens, .fileOps, .missingCommands, .pathAccess].flatMap
          (·.recorded events) := by
      intro m k hk
      refine List.mem_flatMap.2 ⟨m, ?_, hk⟩
      cases m <;> decide
    -- the longest string that needs escaping is not read from any line
    obtain ⟨k, hk, hplain, hmax⟩ := exists_longest (P := fun k => ¬Plain k) ⟨k₀, hall m₀ k₀ hk₀, hplain₀⟩
    obtain ⟨m, -, hk⟩ := List.mem_flatMap.1 hk
    have hread := (hsamples ⟨m.name.toList, [(m.label.toList, k)], natText ((m.recorded events).count k), none⟩
      (by simp)).2 ⟨m, k, hk, rfl⟩
    obtain ⟨m', j, hj, ⟨rfl, hj'⟩ | ⟨hlt, hj'⟩⟩ := recorded_of_parse hparse hread (List.mem_singleton.2 rfl)
    · exact hplain hj'
    · exact absurd (hmax j (hall m' j hj) hj') (not_le.2 hlt)
  · intro hplain
    have hlines : ∀ f ∈ (run StatEvent.apply .new events).metrics uptime, metricLines f = f.render := by
      intro f hf
      refine metricLines_eq_render fun x hx => ?_
      rcases isMetric_of_mem f hf with ⟨m, rfl⟩ | ⟨name, doc, kind, value, rfl, -, -⟩
      · obtain ⟨e, he, rfl⟩ := List.mem_map.1 hx
        exact .inr ⟨_, rfl, hplain m e.1 (mem_counter_run.1 he).1⟩
      · exact .inl (by rw [List.mem_singleton.1 hx])
    have hwf := wellFormed_metrics (run StatEvent.apply .new events) uptime
    refine ⟨_, ?_, hwf, fun x hx => ?_⟩
    · rw [toPrometheus_eq, List.flatMap_congr hlines]
      exact parse_render hwf.families
    · rw [mem_entries_metrics hx]
      constructor
      · rintro ⟨m, e, he, rfl⟩
        obtain ⟨hmem, hcount⟩ := mem_counter_run.1 he
        exact ⟨m, e.1, hmem, by rw [hcount]⟩
      · rintro ⟨m, k, hk, rfl⟩
        exact ⟨m, (k, (m.recorded events).count k), mem_counter_run.2 ⟨hk, rfl⟩, rfl⟩

/-- A command that was not found, with a quote in its name. -/
theorem not_reports_quote :
    ¬Reports ((run StatEvent.apply .new [.commandNotFound "a\"b".toList]).toPrometheus 0)
      [.commandNotFound "a\"b".toList] := by
  rintro ⟨fs, hparse, -, hsamples⟩
  have hread := (hsamples ⟨Labelled.missingCommands.name.toList, [("command".toList, "a\"b".toList)], natText 1, none⟩
    (by simp)).2 ⟨.missingCommands, "a\"b".toList, List.mem_singleton.2 rfl, rfl⟩
  obtain ⟨m, k, hk, ⟨rfl, hplain⟩ | ⟨hlt, -⟩⟩ := recorded_of_parse hparse hread (List.mem_singleton.2 rfl)
  · exact absurd hplain (by decide)
  · have hlen : k.length ≤ "a\"b".toList.length := by
      clear hparse hsamples hread hlt
      obtain ⟨e, he, hk⟩ := List.mem_filterMap.1 hk
      obtain rfl := List.mem_singleton.1 he
      cases m with
      | missingCommands => exact (congrArg List.length (Option.some.inj hk)).ge
      | _ => cases hk
    exact absurd hlt (not_lt.2 hlen)

end Cyanide
