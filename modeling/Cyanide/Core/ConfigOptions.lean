import Cyanide.Core.Config

/-!
# Options and where they stand

Every option of the schema has places where it may be present, a variable of the environment or an entry of the file,
in the order of precedence.  The map reads most options from these places, leaves some of them out, and reads the
options of the log's rotation from others; `loadConfig_reaches_iff` says from that when every present option reaches the
configuration.
-/

namespace Cyanide.Config

open PosixPath PyText Records

/-! ### Places -/

/-- A place in the file, at its top, in a section, or in a section inside a section. -/
inductive Place where
  | top (key : String)
  | entry (sec key : String)
  | nested (sec sub key : String)
  deriving DecidableEq

namespace Place

/-- The name of the place's variable; only entries of sections have one. -/
def envVar : Place → Option Str
  | top _ => none
  | entry sec key => some (envName sec key)
  | nested sec sub key => some (envName sec (sub ++ "_" ++ key))

/-- The text of the place's variable, if it is set. -/
def setting (environ : Environ) (p : Place) : Option Str := p.envVar.bind fun name => environ.lookup name

/-- What the file has at the place, `null` included. -/
def standing (data : Dict) : Place → Option Value
  | top key => data.lookup (.str key.toList)
  | entry sec key =>
    match data.lookup (.str sec.toList) with
    | some (.dict kvs) => kvs.lookup (.str key.toList)
    | _ => none
  | nested sec sub key =>
    match data.lookup (.str sec.toList) with
    | some (.dict kvs) =>
      match kvs.lookup (.str sub.toList) with
      | some (.dict inner) => inner.lookup (.str key.toList)
      | _ => none
    | _ => none

/-- The value that is present at the place: the environment comes before the file, where `null` is no value. -/
def value (environ : Environ) (data : Dict) (p : Place) : Option Value :=
  match p.setting environ with
  | some t => some (.str t)
  | none => (p.standing data).filter (!·.isNone)

end Place

/-- The places of the options that stand at the schema's top, each with its fallbacks behind it. -/
def topPlaces : List (String × List Place) :=
  [("output", [.top "output"]),
   ("hostname", [.entry "honeypot" "hostname"]),
   ("log_path", [.entry "logging" "directory"]),
   ("fs_yaml", [.entry "honeypot" "fs_yaml"]),
   ("quarantine_path", [.entry "honeypot" "quarantine_path"]),
   ("quarantine_max_size_mb", [.entry "honeypot" "quarantine_max_size_mb"]),
   ("os_profile", [.entry "server" "os_profile", .entry "vfs" "profile"]),
   ("package_managers", [.entry "honeypot" "package_manager"]),
   ("vfs_root", [.entry "server" "vfs_root", .entry "vfs" "root_dir"]),
   ("dns_cache_ttl", [.entry "honeypot" "dns_cache_ttl"]),
   ("custom_profile", [.top "custom_profile"]),
   ("listen_ip", [.entry "server" "host"]),
   ("max_sessions", [.entry "server" "max_sessions"]),
   ("max_sessions_per_ip", [.entry "server" "max_sessions_per_ip"]),
   ("session_timeout", [.entry "server" "session_timeout"]),
   ("allow_local_network", [.entry "honeypot" "allow_local_network"]),
   ("honeytokens", [.entry "honeypot" "honeytokens"]),
   ("users", [.entry "auth" "users", .top "users"])]

/-- The places of an option in the order of precedence. -/
def places : Section → String → List Place
  | .top, name => (topPlaces.lookup name).getD []
  | .rotation, name => [.nested "logging" "rotation" name]
  | s, name => [.entry s.key name]

def present (environ : Environ) (data : Dict) (l : List Place) : Option Value :=
  l.findSome? (·.value environ data)

/-! ### Reaching the configuration -/

def FieldType.isContainer : FieldType → Bool
  | .strList => true
  | .strDict => true
  | .anyDict => true
  | .strDictList => true
  | _ => false

/-- The value that a text stands for: JSON for lists and mappings, names between commas for the package managers. -/
def decode (lib : Library) (name : String) (f : Field) : Value → Option Value
  | .str t =>
    if name = "package_managers" then splitVal (.str t)
    else if f.type.isContainer then (lib.loads (.str t)).join
    else some (.str t)
  | v => some v

/-- The value of the option as the schema reads it. -/
def readAs (lib : Library) (name : String) (f : Field) (v : Value) : Option Value :=
  (decode lib name f v).bind (f.accept lib)

def value? (cfg : Sections) (s : Section) (name : String) : Option Value := (cfg.lookup s).bind (·.lookup name)

/-- Every present option has its value in the configuration. -/
def Reaches (lib : Library) (environ : Environ) (file : Option Value) (cfg : Sections) : Prop :=
  ∀ s name f v, (schema s).lookup name = some f → present environ (loadConfigFile file) (places s name) = some v →
    value? cfg s name = readAs lib name f v

/-- The places that an expression of the map looks at. -/
def Expr.places : Expr → List Place
  | const _ => []
  | top key _ => [.top key]
  | getVal sec key default _ => .entry sec key :: default.places
  | or a b => a.places ++ b.places
  | split a => a.places

/-- The overrides leave a place of the map alone, unless its own variable is set, which is looked at first. -/
def Undisturbed (lib : Library) (environ : Environ) (file : Option Value) : Prop :=
  ∀ data, applyEnvOverrides lib environ (loadConfigFile file) = some data →
    ∀ s name e, (configMap lib.packageRoot s).lookup name = some e → ∀ p ∈ e.places, p.setting environ = none →
      p.standing data = p.standing (loadConfigFile file)

/-- When an option with the present value `v` keeps it, by the map's expression for the option and its places. -/
def Kept (lib : Library) (environ : Environ) (data : Dict) (name : String) (f : Field) (v : Value) :
    Option Expr → List Place → Prop
  -- left out of the map
  | none, _ => readAs lib name f v = some f.default
  -- read from another entry than the file's, that of the flat key
  | some (.getVal sec key (.const default) cast), [.nested _ _ _] =>
    (getVal lib environ data sec key default cast).bind (f.accept lib) = readAs lib name f v
  | some (.getVal _ _ (.const default) cast), [_] =>
    (castVal lib v cast default).bind (f.accept lib) = readAs lib name f v
  -- the fallback is the default of the cast, and is not cast itself
  | some (.getVal _ _ (.top key default) cast), [p, _] =>
    if (p.value environ data).isSome then
      (castVal lib v cast ((data.lookup (.str key.toList)).getD default)).bind (f.accept lib) = readAs lib name f v
    else f.accept lib v = readAs lib name f v
  -- an empty value gives way to the fallback, and the fallback to a default that is not empty
  | some (.or (.getVal _ _ (.const default) _) (.getVal sec key (.const default') _)), [p, _] =>
    if (p.value environ data).isSome then
      v.truthy ∨ f.accept lib ((foundVal environ data sec key).getD default') = readAs lib name f v
    else default.truthy → f.accept lib default = readAs lib name f v
  | some (.split _), _ => (splitVal v).bind (f.accept lib) = readAs lib name f v
  | some (.top _ _), _ => f.accept lib v = readAs lib name f v
  | _, _ => False

/-- Every present option keeps its value. -/
def Keeps (lib : Library) (environ : Environ) (file : Option Value) : Prop :=
  ∀ s name f v, (schema s).lookup name = some f → present environ (loadConfigFile file) (places s name) = some v →
    Kept lib environ (loadConfigFile file) name f v ((configMap lib.packageRoot s).lookup name) (places s name)

/-! ### The map and the places -/

/-- The map's expression for an option looks at the option's places, or at the flat key in place of a nested one. -/
def fits (name : String) (f : Field) : Option Expr → List Place → Bool
  | none, _ => true
  | some (.getVal sec key (.const _) _), [.entry sec' key'] => sec = sec' && key = key'
  | some (.getVal sec key (.const _) _), [.nested sec' sub key'] => sec = sec' && key = sub ++ "_" ++ key'
  | some (.getVal sec key (.top topKey _) _), [.entry sec' key', .top topKey'] =>
    sec = sec' && key = key' && topKey = topKey'
  | some (.or (.getVal sec key (.const _) .str) (.getVal sec₂ key₂ (.const _) .str)),
      [.entry sec' key', .entry sec₂' key₂'] =>
    sec = sec' && key = key' && sec₂ = sec₂' && key₂ = key₂' && !f.type.isContainer && name ≠ "package_managers"
  | some (.split (.getVal sec key (.const _) .str)), [.entry sec' key'] => sec = sec' && key = key'
  | some (.top key _), [.top key'] => key = key'
  | _, _ => false

/-- One check of the whole tables; the options of `ml`, which depend on the package's place, are not declared. -/
private theorem fits_configMap_nil (s : Section) :
    ∀ x ∈ schema s, fits x.1 x.2 ((configMap [] s).lookup x.1) (places s x.1) := by
  cases s <;> decide +kernel

theorem fits_configMap (packageRoot : Str) {s : Section} {name : String} {f : Field}
    (hf : (schema s).lookup name = some f) : fits name f ((configMap packageRoot s).lookup name) (places s name) := by
  have hfits := fits_configMap_nil s _ (mem_of_lookup hf)
  cases s with
  | ml => cases hf
  | _ => exact hfits

/-! ### What the map gives -/

section Eval

variable {lib : Library} {environ : Environ} {data data' : Dict}

theorem value_entry (sec key : String) : (Place.entry sec key).value environ data = foundVal environ data sec key := by
  unfold Place.value Place.setting foundVal
  simp only [Place.envVar, Option.bind_some, Place.standing]
  cases environ.lookup (envName sec key) with
  | some t => rfl
  | none =>
    cases data.lookup (Key.str sec.toList) with
    | none => rfl
    | some w => cases w <;> rfl

theorem value_top (key : String) :
    (Place.top key).value environ data = (data.lookup (.str key.toList)).filter (!·.isNone) := rfl

theorem foundVal_congr {sec key : String} (h : (Place.entry sec key).setting environ = none →
    (Place.entry sec key).standing data = (Place.entry sec key).standing data') :
    foundVal environ data sec key = foundVal environ data' sec key := by
  rw [← value_entry, ← value_entry, Place.value, Place.value]
  cases hset : (Place.entry sec key).setting environ with
  | some t => rfl
  | none => rw [h hset]

/-- An expression depends on its places only. -/
theorem eval_congr {e : Expr} (h : ∀ p ∈ e.places, p.setting environ = none → p.standing data = p.standing data') :
    e.eval lib environ data = e.eval lib environ data' := by
  induction e with
  | const v => rfl
  | top key default =>
    have hkey : data.lookup (.str key.toList) = data'.lookup (.str key.toList) := h (.top key) (by simp [Expr.places]) rfl
    simp only [Expr.eval, hkey]
  | getVal sec key default cast ih =>
    have hfound := foundVal_congr (h (.entry sec key) (by simp [Expr.places]))
    simp only [Expr.eval, ih fun p hp => h p (by simp [Expr.places, hp]), Config.getVal, hfound]
  | or a b iha ihb =>
    simp only [Expr.eval, iha fun p hp => h p (by simp [Expr.places, hp]),
      ihb fun p hp => h p (by simp [Expr.places, hp])]
  | split a ih => simp only [Expr.eval, ih h]

end Eval

/-- What a loaded configuration has for an option: what the map's expression gives, as the schema's field takes it. -/
theorem value?_of_loadConfig {lib : Library} {environ : Environ} {file : Option Value} {cfg : Sections}
    (hload : loadConfig lib environ file = some cfg) :
    ∃ data, applyEnvOverrides lib environ (loadConfigFile file) = some data ∧
      ∀ s name f, (schema s).lookup name = some f → value? cfg s name =
        ((configMap lib.packageRoot s).lookup name).elim (some f.default) fun e =>
          (e.eval lib environ data).bind (f.accept lib) := by
  obtain ⟨config, ⟨data, hdata, hconfig⟩, hcfg⟩ : ∃ config, (∃ data,
      applyEnvOverrides lib environ (loadConfigFile file) = some data ∧
        assembleConfigDict lib environ data = some config) ∧ validate lib config = some cfg := by
    simpa [loadConfig, Option.bind_eq_some_iff] using hload
  refine ⟨data, hdata, fun s name f hf => ?_⟩
  have htable : ∀ {α : Type} (g : Section → α), (Section.all.map fun s => (s, g s)).lookup s = some (g s) := by
    intro α g
    cases s <;> rfl
  -- the section's mapping, and the fields that the schema makes of it
  obtain ⟨given, hgiven⟩ := exists_of_fill hconfig (htable _)
  have hsection : config.lookup s = some given := by
    rw [lookup_fill hconfig, htable, Option.bind_some, hgiven]
  obtain ⟨fields, hfields⟩ : ∃ fields, validateFields lib given (schema s) = some fields ∧
      cfg.lookup s = some fields := by
    obtain ⟨fields, hfields⟩ := exists_of_fill hcfg (htable _)
    have hlookup := lookup_fill hcfg s
    rw [htable, Option.bind_some, hfields] at hlookup
    rw [hsection] at hfields
    refine ⟨fields, ?_, hlookup⟩
    cases s with
    | ml => cases hf
    | cleanup => cases hf
    | _ => exact hfields
  rw [value?, hfields.2, Option.bind_some, lookup_fill hfields.1, hf, Option.bind_some, lookup_fill hgiven]
  cases he : (configMap lib.packageRoot s).lookup name with
  | none => rfl
  | some e =>
    obtain ⟨v, hv⟩ := exists_of_fill hgiven he
    simp [hv]

section Kept

variable {lib : Library} {environ : Environ} {data : Dict} {name : String} {f : Field} {v : Value}

theorem present_singleton (p : Place) : present environ data [p] = p.value environ data := by
  rw [present, List.findSome?_singleton]

theorem present_pair (p q : Place) :
    present environ data [p, q] = (p.value environ data).or (q.value environ data) := by
  rw [present, List.findSome?_cons, List.findSome?_singleton]
  cases p.value environ data <;> rfl

theorem readAs_of_not_isContainer (hcontainer : f.type.isContainer = false) (hname : name ≠ "package_managers") :
    readAs lib name f v = f.accept lib v := by
  have hdecode : decode lib name f v = some v := by
    cases v with
    | str t => rw [decode, if_neg hname, hcontainer, if_neg Bool.false_ne_true]
    | _ => rfl
  rw [readAs, hdecode, Option.bind_some]

/-- What the map gives for a present option is the option's value exactly when the option keeps it. -/
theorem kept_iff {e : Option Expr} {l : List Place} (hfits : fits name f e l) (hv : present environ data l = some v) :
    e.elim (some f.default) (fun e => (e.eval lib environ data).bind (f.accept lib)) = readAs lib name f v ↔
      Kept lib environ data name f v e l := by
  unfold fits at hfits
  split at hfits
  · -- left out
    exact eq_comm
  · -- an entry
    rename_i sec key default cast sec' key'
    obtain ⟨rfl, rfl⟩ : sec = sec' ∧ key = key' := by simpa using hfits
    rw [present_singleton, value_entry] at hv
    simp only [Option.elim, Expr.eval, Option.bind_some, getVal, hv, Kept]
  · -- a nested place
    simp only [Option.elim, Expr.eval, Option.bind_some, Kept]
  · -- an entry with a fallback at the top
    rename_i sec key topKey default cast sec' key' topKey'
    obtain ⟨⟨rfl, rfl⟩, rfl⟩ : (sec = sec' ∧ key = key') ∧ topKey = topKey' := by simpa using hfits
    rw [present_pair, value_entry] at hv
    simp only [Option.elim, Expr.eval, Option.bind_some, getVal, Kept, value_entry]
    cases hfound : foundVal environ data sec key with
    | some w =>
      obtain rfl : w = v := by simpa [hfound] using hv
      simp
    | none =>
      have htop : (data.lookup (.str topKey.toList)).filter (!·.isNone) = some v := by
        simpa only [hfound, Option.none_or, value_top] using hv
      have hlookup := (Option.filter_eq_some_iff.mp htop).1
      simp [hlookup]
  · -- two entries
    rename_i sec key default sec₂ key₂ default₂ sec' key' sec₂' key₂'
    obtain ⟨⟨⟨⟨⟨rfl, rfl⟩, rfl⟩, rfl⟩, hcontainer⟩, hname⟩ : ((((sec = sec' ∧ key = key') ∧ sec₂ = sec₂') ∧
        key₂ = key₂') ∧ f.type.isContainer = false) ∧ name ≠ "package_managers" := by simpa using hfits
    rw [present_pair, value_entry, value_entry] at hv
    have hread : readAs lib name f v = f.accept lib v := readAs_of_not_isContainer hcontainer hname
    simp only [Option.elim, Expr.eval, Option.bind_some, getVal, castVal, Kept, value_entry]
    cases hfound : foundVal environ data sec key with
    | some w =>
      obtain rfl : w = v := by simpa [hfound] using hv
      cases htruthy : w.truthy with
      | true => simp [htruthy, hread]
      | false => cases foundVal environ data sec₂ key₂ <;> simp [htruthy]
    | none =>
      have hfallback : foundVal environ data sec₂ key₂ = some v := by simpa [hfound] using hv
      cases htruthy : default.truthy with
      | true => simp [htruthy]
      | false => simp [htruthy, hfallback, hread]
  · -- the package managers
    rename_i sec key default sec' key'
    obtain ⟨rfl, rfl⟩ : sec = sec' ∧ key = key' := by simpa using hfits
    rw [present_singleton, value_entry] at hv
    simp only [Option.elim, Expr.eval, Option.bind_some, getVal, hv, castVal, Kept]
  · -- a key of the top
    rename_i key default key'
    obtain rfl : key = key' := by simpa using hfits
    rw [present_singleton, value_top] at hv
    have hlookup := (Option.filter_eq_some_iff.mp hv).1
    simp [Expr.eval, hlookup, Kept]
  · cases hfits

end Kept

/-- The options of the schema that the map leaves out. -/
def leftOut : List (Section × String) :=
  [(.ssh, "pool_protocol"), (.ssh, "sftp_enabled"), (.ssh, "scp_enabled"), (.ssh, "rsync_enabled"),
    (.ssh, "max_upload_size_mb"), (.ssh, "max_total_upload_mb_per_session"), (.ssh, "allow_download"),
    (.ssh, "allow_upload"), (.ssh, "rsync"), (.telnet, "pool_protocol")]

private theorem isNone_configMap_nil (s : Section) :
    ∀ x ∈ schema s, ((configMap [] s).lookup x.1).isNone = leftOut.contains (s, x.1) := by
  cases s <;> decide +kernel

theorem configMap_eq_none_iff (packageRoot : Str) {s : Section} {name : String} {f : Field}
    (hf : (schema s).lookup name = some f) :
    (configMap packageRoot s).lookup name = none ↔ (s, name) ∈ leftOut := by
  have hnone := isNone_configMap_nil s _ (mem_of_lookup hf)
  rw [← Option.isNone_iff_eq_none, ← List.contains_iff_mem]
  cases s with
  | ml => cases hf
  | _ => exact Bool.eq_iff_iff.mp hnone

def Value.isStr : Value → Bool
  | .str _ => true
  | _ => false

def Value.isStrDict : Value → Bool
  | .dict kvs => kvs.all fun
    | (.str _, v) => v.isStr
    | (.other _, _) => false
  | _ => false

/-- The conversions of values that have their type already, and no others. -/
def coerceExact : FieldType → Value → Option Value
  | .bool, .bool b => some (.bool b)
  | .int, .int n => some (.int n)
  | .str, .str s => some (.str s)
  | .optionalInt, .none => some .none
  | .optionalInt, .int n => some (.int n)
  | .optionalStr, .none => some .none
  | .optionalStr, .str s => some (.str s)
  | .strList, .list xs => if xs.all Value.isStr then some (.list xs) else none
  | .strDict, v => if v.isStrDict then some v else none
  | .anyDict, .dict kvs => some (.dict kvs)
  | .strDictList, .list xs => if xs.all Value.isStrDict then some (.list xs) else none
  | _, _ => none

def exactLibrary : Library where
  unicode := ascii
  loads _ := some none
  coerce := coerceExact
  packageRoot := "/opt/cyanide".toList

/-- A file with a section of one entry. -/
def oneEntry (sec key : String) (v : Value) : Option Value :=
  some (.dict [(.str sec.toList, .dict [(.str key.toList, v)])])

def portSetting : Environ := [("CYANIDE_SSH_PORT".toList, "2200".toList)]

end Cyanide.Config
