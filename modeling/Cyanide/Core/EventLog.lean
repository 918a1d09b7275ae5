import Cyanide.Lib.OrderedDict
import Cyanide.Lib.Transition
import Cyanide.Vfs.Nodes

/-!
# The event log

`CyanideLogger` gives an event without a `src_ip` the address that it knows for the session id.  It knows the address of
the last registration, and without one the first that an event of this id brought along (`lookup_sessionToIp`), also
where the id is shared, as `system` is.  `attributed_log` says when no event gets an address that is not its own or that
of its session.
-/

namespace Cyanide

open PosixPath Transition

/-- A value in the data of an event. -/
inductive LogValue where
  | none
  | bool (b : Bool)
  | int (n : Int)
  | float (repr : Str)
  | text (s : Str)
  | list (values : List LogValue)
  | dict (entries : List (Str × LogValue))
  | path (s : Str)
  /-- Something with an `item` method that gives `v`. -/
  | scalar (v : LogValue)
  /-- Anything that `json` does not know. -/
  | object

namespace LogValue

/-- `bool(v)`. -/
def truthy : LogValue → Bool
  | none => false
  | bool b => b
  | int n => n ≠ 0
  | float repr => repr ≠ "0.0".toList && repr ≠ "-0.0".toList
  | text s => s ≠ []
  | list values => !values.isEmpty
  | dict entries => !entries.isEmpty
  | path _ => true
  | scalar v => v.truthy
  | object => true

mutual

/-- `_sanitize_log_entry`. -/
def sanitize : LogValue → LogValue
  | list values => list (sanitizeList values)
  | dict entries => dict (sanitizeEntries entries)
  | path s => text s
  | scalar v => v
  | none => none
  | bool b => bool b
  | int n => int n
  | float repr => float repr
  | text s => text s
  | object => object

def sanitizeList : List LogValue → List LogValue
  | [] => []
  | v :: values => v.sanitize :: sanitizeList values

def sanitizeEntries : List (Str × LogValue) → List (Str × LogValue)
  | [] => []
  | (k, v) :: entries => (k, v.sanitize) :: sanitizeEntries entries

end

mutual

/-- `json.dumps` raises no exception. -/
def dumps : LogValue → Bool
  | list values => dumpsList values
  | dict entries => dumpsEntries entries
  | none | bool _ | int _ | float _ | text _ => true
  | path _ | scalar _ | object => false

def dumpsList : List LogValue → Bool
  | [] => true
  | v :: values => v.dumps && dumpsList values

def dumpsEntries : List (Str × LogValue) → Bool
  | [] => true
  | (_, v) :: entries => v.dumps && dumpsEntries entries

end

/-- What is logged of the value can be written as JSON. -/
def Serialises (v : LogValue) : Prop := v.sanitize.dumps = true

theorem serialises_text (s : Str) : (text s).Serialises := rfl

theorem dumpsEntries_iff {entries : List (Str × LogValue)} :
    dumpsEntries entries = true ↔ ∀ e ∈ entries, e.2.dumps = true := by
  induction entries with
  | nil => simp [dumpsEntries]
  | cons e entries ih => simp [dumpsEntries, ih]

end LogValue

/-- The argument `data` of `log_event`. -/
inductive EventData where
  | dict (entries : OrderedDict Str LogValue)
  | other (v : LogValue)

/-- The files that events go to. -/
inductive LogTarget where
  | server
  | vfs
  | ml
  | stats
  deriving DecidableEq

structure SessionPaths where
  jsonl : Str
  mlJson : Str
  deriving DecidableEq

/-- What the GeoIP service sent, with the results of the enrichment. -/
structure GeoInfo where
  entries : List (Str × LogValue)
  serialises : (LogValue.dict entries).Serialises

structure CyanideLogger where
  geoipCache : Dict GeoInfo
  sessionToIp : Dict LogValue
  sessionLogs : Dict SessionPaths

/-- What a call of `log_event` does. -/
inductive Logged where
  /-- An exception comes out of it. -/
  | raised
  /-- The entry cannot be serialised. -/
  | dropped
  /-- The entry is written to a log, mirrored to the files of the session, and given to the plugins. -/
  | written (entry : OrderedDict Str LogValue) (target : LogTarget) (mirrors : List Str)

namespace CyanideLogger

variable (s : CyanideLogger)

def new : CyanideLogger := ⟨∅, ∅, ∅⟩

def registerSessionLog (sessionId : Str) (jsonlPath mlJsonPath : Str) (srcIp : Option Str) : CyanideLogger :=
  let s := { s with sessionLogs := s.sessionLogs.insert sessionId ⟨jsonlPath, mlJsonPath⟩ }
  match srcIp with
  | some ip => if ip = [] then s else { s with sessionToIp := s.sessionToIp.insert sessionId (.text ip) }
  | none => s

def unregisterSessionLog (sessionId : Str) : CyanideLogger :=
  { s with sessionLogs := s.sessionLogs.erase sessionId }

/-- `_enrich_geoip_cache` of the analytics. -/
def enrichGeoipCache (ip : Str) (geo : GeoInfo) : CyanideLogger :=
  { s with geoipCache := s.geoipCache.insert ip geo }

def vfsEvents : List Str :=
  ["command.input", "auth", "file.quarantine", "tty.input", "tty.out", "tty.in", "client_fingerprint", "client_geo",
    "ssh.connect", "ssh_negotiated", "session.start", "session.end", "rsync_exec_detected", "rsync_handshake",
    "rsync_filelist", "rsync_denied", "rsync_error", "scp_op", "sftp_op", "ioc_extracted",
    "ioc_report_generated"].map String.toList

def isMlEvent (eventType : Str) : Bool := "ml_".toList.isPrefixOf eventType

/-- `_get_target_logger_info`. -/
def getTargetLoggerInfo (eventType : Str) : LogTarget :=
  if vfsEvents.contains eventType then .vfs
  else if isMlEvent eventType then .ml
  else if eventType = "stats".toList then .stats
  else .server

def localNetwork : LogValue :=
  .dict [("country".toList, .text "Local Network".toList), ("city".toList, .text "Internal".toList),
    ("isp".toList, .text "Private IP Space".toList), ("org".toList, .text "Internal".toList)]

def isLocalAddress (ip : Str) : Bool :=
  (["127.0.0.1", "localhost", "::1"].map String.toList).contains ip || "192.168.".toList.isPrefixOf ip ||
    "10.".toList.isPrefixOf ip

/-- `_resolve_geoip`; nothing but a text has `startswith`, so that anything else raises an exception. -/
def resolveGeoip (srcIp callerGeoip : LogValue) : Option LogValue :=
  if !srcIp.truthy then some callerGeoip
  else
    match srcIp with
    | .text ip =>
      match s.geoipCache.lookup ip with
      | some geo => some (.dict geo.entries)
      | none => some (if isLocalAddress ip then localNetwork else callerGeoip)
    | _ => none

/-- The address that an event of the session gets: its own one or the known one. -/
def attributedIp (sessionId : Str) (own : LogValue) : LogValue :=
  if !own.truthy then (s.sessionToIp.lookup sessionId).getD own else own

/-- An address is kept if none is known. -/
def learn (sessionId : Str) (srcIp : LogValue) : CyanideLogger :=
  if srcIp.truthy && (s.sessionToIp.lookup sessionId).isNone then
    { s with sessionToIp := s.sessionToIp.insert sessionId srcIp }
  else s

/-- The first fields of an entry. -/
def header (timestamp sessionId eventType : Str) : OrderedDict Str LogValue :=
  ((OrderedDict.empty.insert "timestamp".toList (.text timestamp)).insert "session".toList (.text sessionId)).insert
    "eventid".toList (.text eventType)

/-- The fields of the data that an entry takes over as they are, and `src_ip` and `geoip`. -/
def payload (data : OrderedDict Str LogValue) : OrderedDict Str LogValue :=
  ((data.erase "session".toList).erase "eventid".toList).erase "timestamp".toList

/-- The fields of an entry in their order. -/
def entryOf (header : OrderedDict Str LogValue) (srcIp : LogValue) (payload : OrderedDict Str LogValue)
    (geoip : LogValue) : OrderedDict Str LogValue :=
  let entry := if srcIp.truthy then header.insert "src_ip".toList srcIp else header
  let entry := entry.update payload
  if geoip.truthy then entry.insert "geoip".toList geoip else entry

/-- `_prepare_log_entry` at the time `timestamp`. -/
def prepareLogEntry (timestamp sessionId eventType : Str) :
    EventData → Option (OrderedDict Str LogValue) × CyanideLogger
  | .other v => (some ((header timestamp sessionId eventType).insert "data".toList v), s)
  | .dict data =>
    let payload := payload data
    let srcIp := s.attributedIp sessionId ((payload.lookup "src_ip".toList).getD .none)
    let payload := payload.erase "src_ip".toList
    let s := s.learn sessionId srcIp
    let callerGeoip := (payload.lookup "geoip".toList).getD .none
    let payload := payload.erase "geoip".toList
    ((s.resolveGeoip srcIp callerGeoip).map (entryOf (header timestamp sessionId eventType) srcIp payload), s)

/-- `_mirror_to_session`: the files that the line is mirrored to. -/
def mirrorToSession (sessionId eventType : Str) : List Str :=
  match s.sessionLogs.lookup sessionId with
  | some paths => paths.jsonl :: (if isMlEvent eventType then [paths.mlJson] else [])
  | none => []

def logEvent (timestamp sessionId eventType : Str) (data : EventData) : Logged × CyanideLogger :=
  match s.prepareLogEntry timestamp sessionId eventType data with
  | (none, s) => (.raised, s)
  | (some entry, s) =>
    let entry := entry.mapValues LogValue.sanitize
    if LogValue.dumpsEntries entry.entries then
      (.written entry (getTargetLoggerInfo eventType) (s.mirrorToSession sessionId eventType), s)
    else (.dropped, s)

end CyanideLogger

/-- A call of the logger, or of the analytics for its cache. -/
inductive LogCall where
  | register (sessionId jsonlPath mlJsonPath : Str) (srcIp : Option Str)
  | unregister (sessionId : Str)
  | enrich (ip : Str) (geo : GeoInfo)
  | event (timestamp sessionId eventType : Str) (data : EventData)

namespace LogCall

def apply (s : CyanideLogger) : LogCall → CyanideLogger
  | register sessionId jsonlPath mlJsonPath srcIp => s.registerSessionLog sessionId jsonlPath mlJsonPath srcIp
  | unregister sessionId => s.unregisterSessionLog sessionId
  | enrich ip geo => s.enrichGeoipCache ip geo
  | event timestamp sessionId eventType data => (s.logEvent timestamp sessionId eventType data).2

end LogCall

/-! ### Whose address an event gets -/

namespace EventData

/-- The `src_ip` of the event's own data. -/
def srcIp : EventData → Option LogValue
  | dict data => data.lookup "src_ip".toList
  | other _ => none

/-- The own `src_ip` where it is one, and not an empty text or such. -/
def ownIp (data : EventData) : Option LogValue := data.srcIp.filter LogValue.truthy

end EventData

/-- The address that the call registers the session with. -/
def LogCall.registersIp (k : Str) : LogCall → Option Str
  | register sessionId _ _ (some ip) => if sessionId = k ∧ ip ≠ [] then some ip else none
  | _ => none

/-- The address that the call brings along in an event of the session. -/
def LogCall.givesIp (k : Str) : LogCall → Option LogValue
  | event _ sessionId _ data => if sessionId = k then data.ownIp else none
  | _ => none

/-- The address that the session was last registered with. -/
def registeredIp (k : Str) (calls : List LogCall) : Option Str := calls.reverse.findSome? (·.registersIp k)

/-- The address of the first event of the session that had one. -/
def firstGivenIp (k : Str) (calls : List LogCall) : Option LogValue := calls.findSome? (·.givesIp k)

/-- An entry that is written has the `src_ip` of the event's own data or the one of its session's registration. -/
def Attributed (before : List LogCall) : LogCall → Prop
  | .event timestamp sessionId eventType data => ∀ entry target mirrors v,
      ((run LogCall.apply .new before).logEvent timestamp sessionId eventType data).1 = .written entry target mirrors →
      entry.lookup "src_ip".toList = some v →
        data.srcIp = some v ∨ ∃ ip, registeredIp sessionId before = some ip ∧ v = .text ip
  | _ => True

/-- The event has an address of its own or of its session, or no event of the session id has brought one along. -/
def Accounted (before : List LogCall) : LogCall → Prop
  | .event _ sessionId _ (.dict data) => (EventData.dict data).ownIp.isSome ∨ (registeredIp sessionId before).isSome ∨
      ∀ ip, firstGivenIp sessionId before ≠ some (.text ip)
  | _ => True

/-- The data can be written as JSON. -/
def LogCall.Serialises : LogCall → Prop
  | .event _ _ _ (.dict data) => data.All LogValue.Serialises
  | _ => True

/-! ### What the logger knows -/

namespace CyanideLogger

variable {s : CyanideLogger} {k sessionId : Str} {own srcIp : LogValue}

theorem lookup_learn : (s.learn sessionId srcIp).sessionToIp.lookup k =
    (s.sessionToIp.lookup k).or (if sessionId = k ∧ srcIp.truthy then some srcIp else none) := by
  unfold learn
  by_cases ht : srcIp.truthy = true
  · cases hs : s.sessionToIp.lookup sessionId with
    | none =>
      by_cases hk : sessionId = k
      · subst hk
        simp [ht, hs, AList.lookup_insert]
      · simp [ht, hk, AList.lookup_insert_ne (Ne.symm hk)]
    | some ip =>
      by_cases hk : sessionId = k
      · subst hk
        simp [hs]
      · simp [hk]
  · simp [ht]

/-- An event adds its own address, if there is one, to what is known of its session. -/
theorem lookup_learn_attributedIp : (s.learn sessionId (s.attributedIp sessionId own)).sessionToIp.lookup k =
    (s.sessionToIp.lookup k).or (if sessionId = k ∧ own.truthy then some own else none) := by
  rw [lookup_learn]
  by_cases hk : sessionId = k
  · subst hk
    cases hs : s.sessionToIp.lookup sessionId with
    | none => simp [attributedIp, hs]
    | some ip => rfl
  · rw [if_neg fun h => hk h.1, if_neg fun h => hk h.1]

theorem lookup_payload_srcIp (data : OrderedDict Str LogValue) :
    (payload data).lookup "src_ip".toList = (EventData.dict data).srcIp := by
  rw [payload, OrderedDict.lookup_erase, if_neg (by decide), OrderedDict.lookup_erase, if_neg (by decide),
    OrderedDict.lookup_erase, if_neg (by decide)]
  rfl

theorem sessionToIp_logEvent {timestamp eventType : Str} {data : EventData} :
    (s.logEvent timestamp sessionId eventType data).2.sessionToIp.lookup k =
      (s.sessionToIp.lookup k).or (if sessionId = k then data.ownIp else none) := by
  have hstate : (s.logEvent timestamp sessionId eventType data).2 =
      (s.prepareLogEntry timestamp sessionId eventType data).2 := by
    unfold logEvent
    generalize s.prepareLogEntry timestamp sessionId eventType data = r
    obtain ⟨_ | entry, s'⟩ := r
    · rfl
    · dsimp only
      split <;> rfl
  rw [hstate]
  cases data with
  | other v => simp [prepareLogEntry, EventData.ownIp, EventData.srcIp]
  | dict data =>
    rw [prepareLogEntry, lookup_learn_attributedIp, lookup_payload_srcIp, EventData.ownIp]
    congr 1
    cases (EventData.dict data).srcIp with
    | none => simp [LogValue.truthy]
    | some v => by_cases hk : sessionId = k <;> simp [hk, Option.filter_some]

theorem sessionToIp_registerSessionLog {jsonlPath mlJsonPath : Str} {ip? : Option Str} :
    (s.registerSessionLog sessionId jsonlPath mlJsonPath ip?).sessionToIp.lookup k =
      (((LogCall.register sessionId jsonlPath mlJsonPath ip?).registersIp k).map LogValue.text).or
        (s.sessionToIp.lookup k) := by
  cases ip? with
  | none => rfl
  | some ip =>
    by_cases hip : ip = []
    · simp [registerSessionLog, LogCall.registersIp, hip]
    · by_cases hk : sessionId = k
      · subst hk
        simp [registerSessionLog, LogCall.registersIp, hip]
      · simp [registerSessionLog, LogCall.registersIp, hip, hk, AList.lookup_insert_ne (Ne.symm hk)]

end CyanideLogger

/-- A registration goes before what is known of a session, and an event comes after it. -/
theorem sessionToIp_apply (s : CyanideLogger) (call : LogCall) (k : Str) :
    (call.apply s).sessionToIp.lookup k =
      ((call.registersIp k).map LogValue.text).or ((s.sessionToIp.lookup k).or (call.givesIp k)) := by
  cases call with
  | register sessionId jsonlPath mlJsonPath ip? =>
    rw [LogCall.apply, CyanideLogger.sessionToIp_registerSessionLog]
    simp [LogCall.givesIp]
  | unregister sessionId => simp [LogCall.apply, LogCall.registersIp, LogCall.givesIp,
      CyanideLogger.unregisterSessionLog]
  | enrich ip geo => simp [LogCall.apply, LogCall.registersIp, LogCall.givesIp, CyanideLogger.enrichGeoipCache]
  | event timestamp sessionId eventType data =>
    rw [LogCall.apply, CyanideLogger.sessionToIp_logEvent]
    rfl

/-- The logger knows the last registered address of a session, or else the first that an event of it had. -/
theorem lookup_sessionToIp (calls : List LogCall) (k : Str) :
    (run LogCall.apply .new calls).sessionToIp.lookup k =
      ((registeredIp k calls).map LogValue.text).or (firstGivenIp k calls) := by
  induction calls using List.reverseRecOn with
  | nil => rfl
  | append_singleton calls call ih =>
    have hreg : registeredIp k (calls ++ [call]) = (call.registersIp k).or (registeredIp k calls) := by
      rw [registeredIp, List.reverse_append, List.reverse_singleton, List.singleton_append, List.findSome?_cons]
      cases call.registersIp k <;> rfl
    have hgiven : firstGivenIp k (calls ++ [call]) = (firstGivenIp k calls).or (call.givesIp k) := by
      rw [firstGivenIp, List.findSome?_append, List.findSome?_singleton]
      rfl
    rw [run_append, run_cons, run_nil, sessionToIp_apply, ih, hreg, hgiven, Option.map_or, Option.or_assoc,
      Option.or_assoc]

/-! ### What an entry has -/

namespace CyanideLogger

variable {s : CyanideLogger} {timestamp sessionId eventType : Str} {data : OrderedDict Str LogValue}
  {srcIp geoip v : LogValue} {entry : OrderedDict Str LogValue} {target : LogTarget} {mirrors : List Str}

/-- The own `src_ip` of a dictionary, with `None` for a missing one. -/
def ownSrcIp (data : OrderedDict Str LogValue) : LogValue := ((EventData.dict data).srcIp).getD .none

theorem srcIp_of_truthy (h : (ownSrcIp data).truthy = true) : (EventData.dict data).srcIp = some (ownSrcIp data) := by
  unfold ownSrcIp at *
  cases hd : (EventData.dict data).srcIp with
  | none => rw [hd] at h; cases h
  | some v => rfl

theorem ownIp_eq_none_iff : (EventData.dict data).ownIp = none ↔ (ownSrcIp data).truthy = false := by
  unfold EventData.ownIp ownSrcIp
  cases (EventData.dict data).srcIp with
  | none => simp [LogValue.truthy]
  | some v => simp [Option.filter_some]

/-- The fields that are taken over. -/
def taken (data : OrderedDict Str LogValue) : OrderedDict Str LogValue :=
  ((payload data).erase "src_ip".toList).erase "geoip".toList

theorem lookup_entryOf_srcIp : (entryOf (header timestamp sessionId eventType) srcIp (taken data) geoip).lookup
    "src_ip".toList = if srcIp.truthy then some srcIp else none := by
  have htaken : "src_ip".toList ∉ (taken data).keys := by
    rw [OrderedDict.mem_keys_iff]
    rintro ⟨v, hv⟩
    rw [taken, OrderedDict.lookup_erase, if_neg (by decide), OrderedDict.lookup_erase, if_pos rfl] at hv
    cases hv
  have hheader : (header timestamp sessionId eventType).lookup "src_ip".toList = none := by
    rw [header, OrderedDict.lookup_insert, if_neg (by decide), OrderedDict.lookup_insert, if_neg (by decide),
      OrderedDict.lookup_insert, if_neg (by decide)]
    rfl
  have hupdate : ∀ e : OrderedDict Str LogValue, (if geoip.truthy then (e.update (taken data)).insert "geoip".toList
      geoip else e.update (taken data)).lookup "src_ip".toList = e.lookup "src_ip".toList := by
    intro e
    split_ifs
    · rw [OrderedDict.lookup_insert, if_neg (by decide), OrderedDict.lookup_update_of_notMem _ htaken]
    · rw [OrderedDict.lookup_update_of_notMem _ htaken]
  rw [entryOf, hupdate]
  split_ifs
  · rw [OrderedDict.lookup_insert, if_pos rfl]
  · exact hheader

/-- The own `geoip` of a dictionary. -/
def callerGeoip (data : OrderedDict Str LogValue) : LogValue :=
  (((payload data).erase "src_ip".toList).lookup "geoip".toList).getD .none

theorem prepareLogEntry_dict : s.prepareLogEntry timestamp sessionId eventType (.dict data) =
    (((s.learn sessionId (s.attributedIp sessionId (ownSrcIp data))).resolveGeoip
        (s.attributedIp sessionId (ownSrcIp data)) (callerGeoip data)).map
      (entryOf (header timestamp sessionId eventType) (s.attributedIp sessionId (ownSrcIp data)) (taken data)),
      s.learn sessionId (s.attributedIp sessionId (ownSrcIp data))) := by
  rw [prepareLogEntry, lookup_payload_srcIp]
  rfl

/-- Only a text is looked up as an address. -/
theorem text_of_resolveGeoip {g : LogValue} (h : s.resolveGeoip srcIp g = some geoip) (ht : srcIp.truthy = true) :
    ∃ ip, srcIp = .text ip := by
  unfold resolveGeoip at h
  rw [ht, Bool.not_true, if_neg Bool.false_ne_true] at h
  cases srcIp with
  | text ip => exact ⟨ip, rfl⟩
  | _ => cases h

/-- The GeoIP data of an address is known and can be serialised, or it is the caller's. -/
theorem resolveGeoip_text (ip : Str) (g : LogValue) :
    ∃ geoip, s.resolveGeoip (.text ip) g = some geoip ∧ (geoip.Serialises ∨ geoip = g) := by
  unfold resolveGeoip
  by_cases hip : (LogValue.text ip).truthy = true
  · rw [hip, Bool.not_true, if_neg Bool.false_ne_true]
    dsimp only
    cases s.geoipCache.lookup ip with
    | some geo => exact ⟨_, rfl, .inl geo.serialises⟩
    | none =>
      refine ⟨_, rfl, ?_⟩
      split_ifs
      · exact .inl rfl
      · exact .inr rfl
  · rw [Bool.not_eq_true] at hip
    rw [hip]
    exact ⟨g, rfl, .inr rfl⟩

theorem attributedIp_of_truthy {own : LogValue} (h : own.truthy = true) : s.attributedIp sessionId own = own := by
  rw [attributedIp, h]
  rfl

theorem attributedIp_of_not_truthy {own : LogValue} (h : own.truthy = false) :
    s.attributedIp sessionId own = (s.sessionToIp.lookup sessionId).getD own := by
  rw [attributedIp, h]
  rfl

theorem prepared_of_written {data : EventData}
    (h : (s.logEvent timestamp sessionId eventType data).1 = .written entry target mirrors) :
    ∃ e, (s.prepareLogEntry timestamp sessionId eventType data).1 = some e ∧ entry = e.mapValues LogValue.sanitize := by
  unfold logEvent at h
  generalize s.prepareLogEntry timestamp sessionId eventType data = r at h
  obtain ⟨_ | e, s'⟩ := r
  · cases h
  · dsimp only at h
    split at h
    · cases h
      exact ⟨e, rfl, rfl⟩
    · cases h

/-- The address in an entry is a text: that of the data, or the known one where the data has none. -/
theorem srcIp_written {data : EventData}
    (h : (s.logEvent timestamp sessionId eventType data).1 = .written entry target mirrors)
    (hv : entry.lookup "src_ip".toList = some v) :
    ∃ ip, v = .text ip ∧ (data.srcIp = some v ∨ (∃ d, data = .dict d) ∧ data.ownIp = none ∧
      s.sessionToIp.lookup sessionId = some v) := by
  obtain ⟨e, he, rfl⟩ := prepared_of_written h
  rw [OrderedDict.lookup_mapValues] at hv
  cases data with
  | other w =>
    obtain rfl := Option.some.inj he
    rw [OrderedDict.lookup_insert, if_neg (by decide), header, OrderedDict.lookup_insert, if_neg (by decide),
      OrderedDict.lookup_insert, if_neg (by decide), OrderedDict.lookup_insert, if_neg (by decide)] at hv
    cases hv
  | dict d =>
    rw [prepareLogEntry_dict] at he
    obtain ⟨geoip, hgeoip, rfl⟩ := Option.map_eq_some_iff.1 he
    rw [lookup_entryOf_srcIp] at hv
    by_cases ht : (s.attributedIp sessionId (ownSrcIp d)).truthy = true
    · obtain ⟨ip, hip⟩ := text_of_resolveGeoip hgeoip ht
      rw [if_pos ht, hip] at hv
      obtain rfl := Option.some.inj hv
      refine ⟨ip, rfl, ?_⟩
      by_cases hown : (ownSrcIp d).truthy = true
      · left
        rw [attributedIp_of_truthy hown] at hip
        rw [srcIp_of_truthy hown, hip]
        rfl
      · right
        rw [Bool.not_eq_true] at hown
        refine ⟨⟨d, rfl⟩, ownIp_eq_none_iff.2 hown, ?_⟩
        rw [attributedIp_of_not_truthy hown] at hip ht
        cases hk : s.sessionToIp.lookup sessionId with
        | none =>
          rw [hk, Option.getD_none, hown] at ht
          cases ht
        | some w =>
          rw [hk] at hip
          exact congrArg some hip
    · rw [if_neg ht] at hv
      cases hv

/-- An event without an address of its own gets the known one, if it is a text and the rest can be serialised. -/
theorem written_of_known (timestamp eventType : Str) {ip : Str} (hser : data.All LogValue.Serialises) (hip : ip ≠ [])
    (hown : (EventData.dict data).ownIp = none) (hk : s.sessionToIp.lookup sessionId = some (.text ip)) :
    ∃ entry target mirrors, (s.logEvent timestamp sessionId eventType (.dict data)).1 = .written entry target mirrors ∧
      entry.lookup "src_ip".toList = some (.text ip) := by
  have hattr : s.attributedIp sessionId (ownSrcIp data) = .text ip := by
    rw [attributedIp_of_not_truthy (ownIp_eq_none_iff.1 hown), hk, Option.getD_some]
  have htruthy : (LogValue.text ip).truthy = true := by simp [LogValue.truthy, hip]
  obtain ⟨geoip, hgeoip, hdumps⟩ := resolveGeoip_text (s := s.learn sessionId (.text ip)) ip (callerGeoip data)
  have hprep : s.prepareLogEntry timestamp sessionId eventType (.dict data) =
      (some (entryOf (header timestamp sessionId eventType) (.text ip) (taken data) geoip),
        s.learn sessionId (.text ip)) := by
    rw [prepareLogEntry_dict, hattr, hgeoip]
    rfl
  have htaken : ((payload data).erase "src_ip".toList).All LogValue.Serialises :=
    (((hser.erase _).erase _).erase _).erase _
  have hg : geoip.Serialises := by
    rcases hdumps with h | rfl
    · exact h
    · unfold callerGeoip
      cases hl : ((payload data).erase "src_ip".toList).lookup "geoip".toList with
      | none => rfl
      | some v => exact htaken _ v hl
  have hall : (entryOf (header timestamp sessionId eventType) (.text ip) (taken data) geoip).All
      LogValue.Serialises := by
    have hheader : (header timestamp sessionId eventType).All LogValue.Serialises :=
      ((OrderedDict.All.empty.insert _ (LogValue.serialises_text _)).insert _ (LogValue.serialises_text _)).insert _
        (LogValue.serialises_text _)
    have hentry := (hheader.insert "src_ip".toList (LogValue.serialises_text ip)).update
      (htaken.erase "geoip".toList)
    rw [entryOf, if_pos htruthy]
    split_ifs
    · exact hentry.insert _ hg
    · exact hentry
  have hentry : LogValue.dumpsEntries ((entryOf (header timestamp sessionId eventType) (.text ip) (taken data)
      geoip).mapValues LogValue.sanitize).entries = true := by
    rw [LogValue.dumpsEntries_iff]
    intro e he
    obtain ⟨e', he', rfl⟩ := List.mem_map.1 he
    exact OrderedDict.all_iff.1 hall e' he'
  have hwritten : (s.logEvent timestamp sessionId eventType (.dict data)).1 = .written
      ((entryOf (header timestamp sessionId eventType) (.text ip) (taken data) geoip).mapValues LogValue.sanitize)
      (getTargetLoggerInfo eventType) ((s.learn sessionId (.text ip)).mirrorToSession sessionId eventType) := by
    unfold logEvent
    rw [hprep]
    dsimp only
    rw [if_pos hentry]
  refine ⟨_, _, _, hwritten, ?_⟩
  rw [OrderedDict.lookup_mapValues, lookup_entryOf_srcIp, if_pos htruthy]
  rfl

end CyanideLogger

theorem attributed_of_accounted {before : List LogCall} {call : LogCall} (h : Accounted before call) :
    Attributed before call := by
  cases call with
  | event timestamp sessionId eventType data =>
    intro entry target mirrors v hw hv
    obtain ⟨ip, rfl, hown | ⟨⟨d, rfl⟩, hnone, hknown⟩⟩ := CyanideLogger.srcIp_written hw hv
    · exact .inl hown
    · rw [lookup_sessionToIp] at hknown
      rcases h with h | h | h
      · simp [hnone] at h
      · obtain ⟨ip', hip⟩ := Option.isSome_iff_exists.1 h
        rw [hip, Option.map_some, Option.some_or] at hknown
        exact .inr ⟨ip', hip, (Option.some.inj hknown).symm⟩
      · cases hr : registeredIp sessionId before with
        | none =>
          rw [hr, Option.map_none, Option.none_or] at hknown
          exact absurd hknown (h ip)
        | some ip' =>
          rw [hr, Option.map_some, Option.some_or] at hknown
          exact .inr ⟨ip', rfl, (Option.some.inj hknown).symm⟩
  | _ => trivial

theorem ne_nil_of_firstGivenIp {k ip : Str} {calls : List LogCall}
    (h : firstGivenIp k calls = some (.text ip)) : ip ≠ [] := by
  obtain ⟨call, -, hcall⟩ := List.exists_of_findSome?_eq_some h
  cases call with
  | event timestamp sessionId eventType data =>
    rw [LogCall.givesIp] at hcall
    split_ifs at hcall
    have htruthy := (Option.filter_eq_some_iff.1 hcall).2
    simpa [LogValue.truthy] using htruthy
  | _ => cases hcall

theorem accounted_of_attributed {before : List LogCall} {call : LogCall} (hser : call.Serialises)
    (h : Attributed before call) : Accounted before call := by
  cases call with
  | event timestamp sessionId eventType data =>
    cases data with
    | other v => trivial
    | dict data =>
      by_contra hcon
      rw [Accounted] at hcon
      push Not at hcon
      obtain ⟨hown, hreg, ip, hip⟩ := hcon
      rw [ne_eq, Option.not_isSome_iff_eq_none] at hown hreg
      have hknown : (run LogCall.apply .new before).sessionToIp.lookup sessionId = some (.text ip) := by
        rw [lookup_sessionToIp, hreg, hip]
        rfl
      obtain ⟨entry, target, mirrors, hw, hv⟩ :=
        CyanideLogger.written_of_known timestamp eventType hser (ne_nil_of_firstGivenIp hip) hown hknown
      rcases h entry target mirrors _ hw hv with hdata | ⟨ip', hip', -⟩
      · rw [EventData.ownIp, hdata, Option.filter_some, if_pos (by simp [LogValue.truthy, ne_nil_of_firstGivenIp hip])]
          at hown
        cases hown
      · rw [hreg] at hip'
        cases hip'
  | _ => trivial

/-- When all calls of a run are accounted for, no event in it gets an address that is not its own or that of its
session, and for data that can be serialised only then. -/
theorem attributed_log (calls : List LogCall) :
    ((∀ before call, before ++ [call] <+: calls → Accounted before call) →
      ∀ before call, before ++ [call] <+: calls → Attributed before call) ∧
    ((∀ call ∈ calls, call.Serialises) → (∀ before call, before ++ [call] <+: calls → Attributed before call) →
      ∀ before call, before ++ [call] <+: calls → Accounted before call) := by
  refine ⟨fun h before call hp => attributed_of_accounted (h before call hp), fun hser h before call hp => ?_⟩
  exact accounted_of_attributed (hser call (hp.subset (by simp))) (h before call hp)

private def registration : LogCall := .register "5d1f".toList [] [] (some "203.0.113.7".toList)

private def command : LogCall := .event [] "5d1f".toList "command.input".toList (.dict .empty)

theorem attributed_registered : Attributed [registration] command ∧ Accounted [registration] command := by
  have hacc : ∀ before call, before ++ [call] <+: [registration, command] → Accounted before call := by
    rintro before (⟨_, _, _, _⟩ | _ | _ | ⟨_, _, _, data⟩) hp
    any_goals trivial
    rcases before with _ | ⟨c, _ | ⟨c', before⟩⟩
    · cases List.cons_prefix_cons.1 hp |>.1
    · obtain ⟨rfl, hp'⟩ := List.cons_prefix_cons.1 hp
      cases List.cons_prefix_cons.1 hp' |>.1
      exact .inr (.inl rfl)
    · have hlen := hp.length_le
      simp at hlen
  have hser : ∀ call ∈ [registration, command], call.Serialises := by
    intro call hcall
    rcases List.mem_pair.1 hcall with rfl | rfl
    · trivial
    · exact OrderedDict.All.empty
  have hattr := (attributed_log [registration, command]).1 hacc
  exact ⟨hattr [registration] command List.prefix_rfl,
    (attributed_log [registration, command]).2 hser hattr [registration] command List.prefix_rfl⟩

private def ban : LogCall := .event [] "system".toList "ip_banned".toList
  (.dict (((OrderedDict.empty.insert "src_ip".toList (.text "203.0.113.7".toList)).insert "ban_duration".toList
    (.int 3600)).insert "reason".toList (.text "rate_limit_exceeded".toList)))

/-- The statistics behind a ban are logged under the banned address. -/
theorem not_attributed_stats :
    ¬Attributed [ban] (.event [] "system".toList "stats".toList (.dict (OrderedDict.empty.insert
      "active_sessions".toList (.int 0)))) := by
  intro h
  have hser : (LogValue.int 0).Serialises := rfl
  have hknown : (run LogCall.apply .new [ban]).sessionToIp.lookup "system".toList =
      some (.text "203.0.113.7".toList) := rfl
  obtain ⟨entry, target, mirrors, hw, hv⟩ := CyanideLogger.written_of_known [] "stats".toList
    (OrderedDict.All.empty.insert "active_sessions".toList hser) (by decide) rfl hknown
  rcases h entry target mirrors _ hw hv with hdata | ⟨ip, hip, -⟩
  · cases hdata
  · cases hip

end Cyanide
