import Cyanide.Lib.PosixPath
import Cyanide.Lib.PyText
import Cyanide.Lib.Records

/-!
# The configuration

`loadConfig`: the file with the overrides of the environment, the map that copies the options section by section, and
the schema that validates what was copied.  The environment is the one after `load_dotenv`.
-/

namespace Cyanide.Config

open PosixPath PyText Records

/-! ### Values -/

/-- A key of a mapping in the file; only texts can be compared with the names of options. -/
inductive Key where
  | str (s : Str)
  | other (n : ℕ)
  deriving DecidableEq

/-- A value of another type (a number with a fraction, a date, bytes), with what the loader asks of it: `str`, its truth
value, and `int`, which rejects it (`some none`), gives a number, or raises something else (`none`). -/
structure Opaque where
  text : Str
  truthy : Bool
  int : Option (Option Int)

/-- What the file and `json.loads` build.  A section that the file writes once and aliases is written out twice here. -/
inductive Value where
  | none
  | bool (b : Bool)
  | int (n : Int)
  | str (s : Str)
  | list (xs : List Value)
  | dict (kvs : List (Key × Value))
  | other (o : Opaque)

abbrev Dict := List (Key × Value)

abbrev Environ := List (Str × Str)

namespace Value

/-- A text of the source. -/
def text (s : String) : Value := .str s.toList

def texts (l : List String) : Value := .list (l.map text)

def isNone : Value → Bool
  | .none => true
  | _ => false

def truthy : Value → Bool
  | .none => false
  | .bool b => b
  | .int n => n ≠ 0
  | .str s => !s.isEmpty
  | .list xs => !xs.isEmpty
  | .dict kvs => !kvs.isEmpty
  | .other o => o.truthy

end Value

def hasKey (key : Str) (d : Dict) : Bool := d.any (·.1 = .str key)

/-- `d[key] = v`. -/
def assign (key : Str) (v : Value) : Dict → Dict
  | [] => [(.str key, v)]
  | (j, w) :: rest => if j = .str key then (j, v) :: rest else (j, w) :: assign key v rest

/-- The types of the schema's fields. -/
inductive FieldType where
  | bool
  | int
  | str
  | optionalInt
  | optionalStr
  | strList
  | strDict
  | anyDict
  | strDictList
  deriving DecidableEq

/-- What the loader calls outside: the Unicode tables; `json.loads` on a value that is neither a list nor a mapping,
which rejects it (`some none`), decodes it, or raises something else (`none`); the conversions of the validation
library; and where the package is installed. -/
structure Library where
  unicode : Unicode
  loads : Value → Option (Option Value)
  coerce : FieldType → Value → Option Value
  packageRoot : Str

/-! ### The file and the overrides -/

/-- `_load_config_file`, on what the file parses to, if it is there and parses. -/
def loadConfigFile : Option Value → Dict
  | some (.dict kvs) => kvs
  | _ => []

def trueWords : List Str := ["true".toList, "1".toList, "yes".toList, "on".toList]

def falseWords : List Str := ["false".toList, "0".toList, "no".toList, "off".toList]

/-- `_parse_val` on the text of a variable; `none` where it raises, as `int` does on digits that are no decimals. -/
def parseVal (lib : Library) (v : Str) : Option Value :=
  let vl := lib.unicode.lower v
  if trueWords.contains vl then some (.bool true)
  else if falseWords.contains vl then some (.bool false)
  else if !v.isEmpty && v.all lib.unicode.isDigit then (readInt lib.unicode v).map .int
  else if v.head? = some '[' || v.head? = some '{' then (lib.loads (.str v)).map (·.getD (.str v))
  else some (.str v)

/-- What follows `key` and an underscore. -/
def afterKey (key name : Str) : Option Str :=
  if (key ++ ['_']).isPrefixOf name then some (name.drop (key.length + 1)) else none

/-- The loop over the entries of one section; `some none` is that it passes over all of them. -/
def mapEnvToSub (remainder : Str) (val : Option Value) : Dict → Option (Option Dict)
  | [] => some none
  -- `sub_key + "_"` raises
  | (.other _, _) :: _ => none
  | (.str subKey, subVal) :: rest =>
    match afterKey subKey remainder, subVal with
    | some finalKey, .dict kvs => val.map fun v => some ((.str subKey, .dict (assign finalKey v kvs)) :: rest)
    | _, _ => (mapEnvToSub remainder val rest).map (·.map ((.str subKey, subVal) :: ·))

/-- `_try_map_env_to_dict`; `val` is the parsed text, looked at only where it is assigned. -/
def tryMapEnvToDict (remainder : Str) (val : Option Value) : Dict → Option (Option Dict)
  | [] => some none
  | (.other _, _) :: _ => none
  | (.str topKey, topVal) :: rest =>
    let next := (tryMapEnvToDict remainder val rest).map (·.map ((.str topKey, topVal) :: ·))
    match afterKey topKey remainder, topVal with
    | some subRemainder, .dict kvs =>
      if hasKey subRemainder kvs then
        val.map fun v => some ((.str topKey, .dict (assign subRemainder v kvs)) :: rest)
      else (mapEnvToSub subRemainder val kvs).bind fun
        | some kvs' => some (some ((.str topKey, .dict kvs') :: rest))
        | none => next
    | _, _ => next

def envPrefix : Str := "CYANIDE_".toList

/-- One turn of the loop in `_apply_env_overrides`. -/
def applyOverride (lib : Library) (data : Dict) (var : Str × Str) : Option Dict :=
  if envPrefix.isPrefixOf var.1 then
    let remainder := lib.unicode.lower (var.1.drop envPrefix.length)
    if hasKey remainder data then (parseVal lib var.2).map (assign remainder · data)
    else (tryMapEnvToDict remainder (parseVal lib var.2) data).map (·.getD data)
  else some data

def applyEnvOverrides (lib : Library) (environ : Environ) (data : Dict) : Option Dict :=
  environ.foldlM (applyOverride lib) data

/-! ### One value -/

/-- The `cast` argument of `_get_val`; with `str` the value is left as it is. -/
inductive Cast where
  | str
  | bool
  | int
  | json

/-- `str(val).lower() in ("true", "1", "yes", "on")`; no `str` of a list, a mapping or `None` is among the words. -/
def isTrueWord (lib : Library) : Value → Bool
  | .bool b => b
  | .int n => n = 1
  | .str s => trueWords.contains (lib.unicode.lower s)
  | .other o => trueWords.contains (lib.unicode.lower o.text)
  | _ => false

/-- `int(val)`; `some none` is a `ValueError` or a `TypeError`. -/
def toInt (lib : Library) : Value → Option (Option Int)
  | .bool b => some (some (if b then 1 else 0))
  | .int n => some (some n)
  | .str s => some (readInt lib.unicode s)
  | .other o => o.int
  | _ => some none

/-- `_cast_val`; `none` where it raises. -/
def castVal (lib : Library) (val : Value) (cast : Cast) (default : Value) : Option Value :=
  match cast with
  | .bool => some (.bool (isTrueWord lib val))
  | .int => (toInt lib val).map fun n => (n.map .int).getD default
  | .json =>
    match val with
    | .list xs => some (.list xs)
    | .dict kvs => some (.dict kvs)
    | .str s => (lib.loads (.str s)).map (·.getD default)
    | .other o => (lib.loads (.other o)).map (·.getD default)
    | _ => some default
  | .str => some val

/-- The texts of names in the source are in ASCII. -/
def upper (name : String) : Str := name.toList.map Char.toUpper

/-- The variable `CYANIDE_{SECTION}_{KEY}`. -/
def envName (sec key : String) : Str := envPrefix ++ upper sec ++ ['_'] ++ upper key

/-- The value that `_get_val` finds, before the cast. -/
def foundVal (environ : Environ) (data : Dict) (sec key : String) : Option Value :=
  match environ.lookup (envName sec key) with
  | some t => some (.str t)
  | none =>
    match data.lookup (.str sec.toList) with
    | some (.dict kvs) => (kvs.lookup (.str key.toList)).filter (!·.isNone)
    | _ => none

def getVal (lib : Library) (environ : Environ) (data : Dict) (sec key : String) (default : Value) (cast : Cast) :
    Option Value :=
  match foundVal environ data sec key with
  | some val => castVal lib val cast default
  | none => some default

/-! ### The schema -/

inductive Section where
  | top
  | logging
  | rotation
  | ssh
  | telnet
  | metrics
  | smtp
  | ml
  | cleanup
  | pool
  | rateLimit
  | otel
  | virustotal
  | iocReporting
  deriving DecidableEq

namespace Section

def all : List Section :=
  [top, logging, rotation, ssh, telnet, metrics, smtp, ml, cleanup, pool, rateLimit, otel, virustotal, iocReporting]

/-- The section's name in the file; `top` and `rotation` are no sections of the file. -/
def key : Section → String
  | top => ""
  | logging => "logging"
  | rotation => "rotation"
  | ssh => "ssh"
  | telnet => "telnet"
  | metrics => "metrics"
  | smtp => "smtp"
  | ml => "ml"
  | cleanup => "cleanup"
  | pool => "pool"
  | rateLimit => "rate_limit"
  | otel => "otel"
  | virustotal => "virustotal"
  | iocReporting => "ioc_reporting"

end Section

/-- What is checked of a value of the right type: the patterns are alternatives between `^` and `$`. -/
inductive Check where
  | any
  | port
  | oneOf (words : List String)

/-- `None` passes `validate_port` where the type lets it through. -/
def Check.passes : Check → Value → Bool
  | any, _ => true
  | port, .int n => 1 ≤ n && n ≤ 65535
  | port, .none => true
  | port, _ => false
  | oneOf words, .str s => (words.map String.toList).contains s
  | oneOf _, _ => false

structure Field where
  type : FieldType
  default : Value
  check : Check

/-- A field without a check. -/
def field (type : FieldType) (default : Value) : Field := ⟨type, default, .any⟩

def backendMode (words : List String) : Field := ⟨.str, .text "emulated", .oneOf words⟩

/-- `CyanideConfig` without the fields that are sections. -/
def topFields : List (String × Field) :=
  [("output", field .anyDict (.dict [])),
   ("hostname", field .str (.text "server01")),
   ("log_path", field .str (.text "var/log/cyanide")),
   ("fs_yaml", field .optionalStr .none),
   ("quarantine_path", field .str (.text "var/quarantine")),
   ("quarantine_max_size_mb", field .int (.int 500)),
   ("os_profile", field .str (.text "random")),
   ("package_managers", field .strList (.list [])),
   ("vfs_root", field .optionalStr .none),
   ("dns_cache_ttl", field .int (.int 60)),
   ("custom_profile", field .strDict (.dict [])),
   ("listen_ip", field .str (.text "0.0.0.0")),
   ("max_sessions", field .int (.int 100)),
   ("max_sessions_per_ip", field .int (.int 5)),
   ("session_timeout", field .int (.int 300)),
   ("allow_local_network", field .bool (.bool false)),
   ("honeytokens", field .strList (.list [])),
   ("users", field .strDictList (.list []))]

/-- `LoggingConfig`. -/
def loggingFields : List (String × Field) :=
  [("directory", field .str (.text "var/log/cyanide")),
   ("logtype", ⟨.str, .text "plain", .oneOf ["plain", "rotating"]⟩)]

/-- `LoggingRotationConfig`. -/
def rotationFields : List (String × Field) :=
  [("strategy", ⟨.str, .text "time", .oneOf ["time", "size"]⟩),
   ("when", field .str (.text "midnight")),
   ("interval", field .int (.int 1)),
   ("backup_count", field .int (.int 14)),
   ("max_bytes", field .int (.int 10485760))]

/-- `SSHConfig`. -/
def sshFields : List (String × Field) :=
  [("enabled", field .bool (.bool true)),
   ("port", ⟨.int, .int 2222, .port⟩),
   ("version", field .optionalStr .none),
   ("rsa_keying", field .bool (.bool true)),
   ("backend_mode", backendMode ["emulated", "proxy", "pool"]),
   ("target_host", field .optionalStr (.text "127.0.0.1")),
   ("target_port", ⟨.optionalInt, .int 22222, .port⟩),
   ("pool_protocol", field .str (.text "ssh")),
   ("ciphers", field .strList (.texts
     ["aes256-gcm@openssh.com", "aes128-gcm@openssh.com", "chacha20-poly1305@openssh.com", "aes256-ctr", "aes192-ctr",
       "aes128-ctr"])),
   ("macs", field .strList (.texts
     ["hmac-sha2-512-etm@openssh.com", "hmac-sha2-256-etm@openssh.com", "umac-128-etm@openssh.com", "hmac-sha2-512",
       "hmac-sha2-256", "umac-128@openssh.com"])),
   ("compression", field .strList (.texts ["none", "zlib@openssh.com"])),
   ("kex_algs", field .strList (.texts
     ["curve25519-sha256", "curve25519-sha256@libssh.org", "ecdh-sha2-nistp256", "ecdh-sha2-nistp384",
       "ecdh-sha2-nistp521", "diffie-hellman-group-exchange-sha256", "diffie-hellman-group16-sha512",
       "diffie-hellman-group18-sha512", "diffie-hellman-group14-sha256"])),
   ("host_key_algs", field .strList (.texts ["ssh-ed25519", "rsa-sha2-512", "rsa-sha2-256", "ecdsa-sha2-nistp256"])),
   ("public_key_algs", field .strList (.texts ["ssh-ed25519", "rsa-sha2-512", "rsa-sha2-256", "ecdsa-sha2-nistp256"])),
   ("data_path", field .str (.text "var/lib/cyanide/keys")),
   ("auth_tries", field .int (.int 3)),
   ("login_timeout", field .int (.int 60)),
   ("idle_timeout", field .int (.int 3600)),
   ("rekey_limit", field .str (.text "1G")),
   ("sftp_enabled", field .bool (.bool true)),
   ("scp_enabled", field .bool (.bool true)),
   ("rsync_enabled", field .bool (.bool true)),
   ("vfs_persistence", field .bool (.bool true)),
   ("max_upload_size_mb", field .int (.int 50)),
   ("max_total_upload_mb_per_session", field .int (.int 200)),
   ("allow_download", field .bool (.bool true)),
   ("allow_upload", field .bool (.bool true)),
   ("rsync", field .anyDict (.dict
     [(.str "enabled".toList, .bool true), (.str "allow_upload".toList, .bool true),
       (.str "allow_download".toList, .bool true), (.str "max_file_size_mb".toList, .int 50),
       (.str "max_total_mb_per_session".toList, .int 200)])),
   ("forwarding_enabled", field .bool (.bool false)),
   ("forwarding_strict_mode", field .bool (.bool true)),
   ("log_passwords", field .bool (.bool false)),
   ("forward_redirect_enabled", field .bool (.bool false)),
   ("forward_redirect_rules", field .strDict (.dict [])),
   ("forward_tunnel_enabled", field .bool (.bool false)),
   ("forward_tunnel_rules", field .strDict (.dict []))]

/-- `TelnetConfig`. -/
def telnetFields : List (String × Field) :=
  [("enabled", field .bool (.bool false)),
   ("port", ⟨.int, .int 2323, .port⟩),
   ("log_passwords", field .bool (.bool false)),
   ("backend_mode", backendMode ["emulated", "proxy", "pool"]),
   ("target_host", field .optionalStr (.text "127.0.0.1")),
   ("target_port", ⟨.optionalInt, .int 23, .port⟩),
   ("pool_protocol", field .str (.text "telnet")),
   ("banner", field .optionalStr .none)]

/-- `MetricsConfig`. -/
def metricsFields : List (String × Field) :=
  [("enabled", field .bool (.bool true)),
   ("port", ⟨.int, .int 9090, .port⟩),
   ("host", field .str (.text "127.0.0.1")),
   ("token", field .optionalStr .none),
   ("allow_remote", field .bool (.bool false))]

/-- `SMTPConfig`. -/
def smtpFields : List (String × Field) :=
  [("enabled", field .bool (.bool false)),
   ("port", ⟨.int, .int 2525, .port⟩),
   ("backend_mode", backendMode ["emulated", "proxy"]),
   ("target_host", field .str (.text "127.0.0.1")),
   ("target_port", ⟨.int, .int 25255, .port⟩)]

/-- `PoolConfig`. -/
def poolFields : List (String × Field) :=
  [("enabled", field .bool (.bool false)),
   ("mode", ⟨.str, .text "libvirt", .oneOf ["simple", "libvirt"]⟩),
   ("max_vms", field .int (.int 5)),
   ("recycle_period", field .int (.int 1500)),
   ("vm_unused_timeout", field .int (.int 600)),
   ("share_guests", field .bool (.bool true)),
   ("libvirt_uri", field .str (.text "qemu:///system")),
   ("guest_config", field .str (.text "configs/pool/default_guest.xml")),
   ("guest_tag", field .str (.text "debian18.04")),
   ("guest_ssh_port", field .int (.int 22)),
   ("guest_telnet_port", field .int (.int 23)),
   ("use_nat", field .bool (.bool true)),
   ("nat_public_ip", field .str (.text "192.168.1.40")),
   ("save_snapshots", field .bool (.bool false)),
   ("snapshot_path", field .str (.text "var/lib/cyanide/snapshots")),
   ("targets", field .str (.text ""))]

/-- `RateLimitConfig`. -/
def rateLimitFields : List (String × Field) :=
  [("max_connections_per_minute", field .int (.int 60)),
   ("ban_duration", field .int (.int 3600))]

/-- `TelemetryConfig`. -/
def otelFields : List (String × Field) :=
  [("enabled", field .bool (.bool false)),
   ("exporter", field .str (.text "otlp")),
   ("endpoint", field .optionalStr (.text "http://localhost:4318/v1/traces"))]

/-- `VirusTotalConfig`. -/
def virustotalFields : List (String × Field) :=
  [("enabled", field .bool (.bool false)),
   ("api_key", field .optionalStr .none)]

/-- The options that the schema declares.  For `ml` and `cleanup` it has mappings whose keys are left open, and it has
nothing for `ioc_reporting`. -/
def schema : Section → List (String × Field)
  | .top => topFields
  | .logging => loggingFields
  | .rotation => rotationFields
  | .ssh => sshFields
  | .telnet => telnetFields
  | .metrics => metricsFields
  | .smtp => smtpFields
  | .ml => []
  | .cleanup => []
  | .pool => poolFields
  | .rateLimit => rateLimitFields
  | .otel => otelFields
  | .virustotal => virustotalFields
  | .iocReporting => []

/-! ### The map -/

/-- The expressions that `_assemble_config_dict` takes values from. -/
inductive Expr where
  | const (v : Value)
  /-- `config_data.get(key, default)` -/
  | top (key : String) (default : Value)
  /-- `get_val(sec, key, default, cast)` -/
  | getVal (sec key : String) (default : Expr) (cast : Cast)
  /-- `a or b` -/
  | or (a b : Expr)
  /-- `a.split(",") if a else []` -/
  | split (a : Expr)

/-- `val.split(",") if val else []`; only texts have `split`. -/
def splitVal (val : Value) : Option Value :=
  if val.truthy then
    match val with
    | .str s => some (.list ((s.splitOn ',').map .str))
    | _ => none
  else some (.list [])

def Expr.eval (lib : Library) (environ : Environ) (data : Dict) : Expr → Option Value
  | const v => some v
  | top key default => some ((data.lookup (.str key.toList)).getD default)
  | getVal sec key default cast =>
    (default.eval lib environ data).bind fun d => Config.getVal lib environ data sec key d cast
  | or a b => (a.eval lib environ data).bind fun v => if v.truthy then some v else b.eval lib environ data
  | split a => (a.eval lib environ data).bind splitVal

def get (sec key : String) (default : Value) : Expr := .getVal sec key (.const default) .str

def getBool (sec key : String) (default : Bool) : Expr := .getVal sec key (.const (.bool default)) .bool

def getInt (sec key : String) (default : Int) : Expr := .getVal sec key (.const (.int default)) .int

def getJson (sec key : String) (default : Value) : Expr := .getVal sec key (.const default) .json

def defaultLogPath : String := "var/log/cyanide"

def topMap : List (String × Expr) :=
  [("hostname", get "honeypot" "hostname" (.text "server01")),
   ("log_path", get "logging" "directory" (.text defaultLogPath)),
   ("listen_ip", get "server" "host" (.text "0.0.0.0")),
   ("quarantine_path", get "honeypot" "quarantine_path" (.text "var/quarantine")),
   ("vfs_root", .or (get "server" "vfs_root" .none) (get "vfs" "root_dir" .none)),
   ("os_profile", .or (get "server" "os_profile" (.text "random")) (get "vfs" "profile" (.text "random"))),
   ("package_managers", .split (get "honeypot" "package_manager" (.text ""))),
   ("max_sessions", getInt "server" "max_sessions" 100),
   ("max_sessions_per_ip", getInt "server" "max_sessions_per_ip" 5),
   ("session_timeout", getInt "server" "session_timeout" 300),
   ("quarantine_max_size_mb", getInt "honeypot" "quarantine_max_size_mb" 500),
   ("dns_cache_ttl", getInt "honeypot" "dns_cache_ttl" 60),
   ("allow_local_network", getBool "honeypot" "allow_local_network" false),
   ("fs_yaml", get "honeypot" "fs_yaml" .none),
   ("output", .top "output" (.dict [])),
   ("custom_profile", .top "custom_profile" (.dict [])),
   ("honeytokens", getJson "honeypot" "honeytokens" (.list [])),
   ("users", .getVal "auth" "users"
     (.top "users" (.list [.dict [(.str "user".toList, .text "root"), (.str "pass".toList, .text "admin")]])) .json)]

def loggingMap : List (String × Expr) :=
  [("directory", get "logging" "directory" (.text defaultLogPath)),
   ("logtype", get "logging" "logtype" (.text "plain"))]

def rotationMap : List (String × Expr) :=
  [("strategy", get "logging" "rotation_strategy" (.text "time")),
   ("when", get "logging" "rotation_when" (.text "midnight")),
   ("interval", getInt "logging" "rotation_interval" 1),
   ("backup_count", getInt "logging" "rotation_backup_count" 14),
   ("max_bytes", getInt "logging" "rotation_max_bytes" 10485760)]

def sshMap : List (String × Expr) :=
  [("port", getInt "ssh" "port" 2222),
   ("enabled", getBool "ssh" "enabled" true),
   ("backend_mode", get "ssh" "backend_mode" (.text "emulated")),
   ("target_host", get "ssh" "target_host" (.text "127.0.0.1")),
   ("target_port", getInt "ssh" "target_port" 22222),
   ("rsa_keying", getBool "ssh" "rsa_keying" true),
   ("vfs_persistence", getBool "ssh" "vfs_persistence" true),
   ("version", get "ssh" "version" .none),
   ("ciphers", getJson "ssh" "ciphers" (.texts
     ["aes256-gcm@openssh.com", "aes128-gcm@openssh.com", "chacha20-poly1305@openssh.com"])),
   ("macs", getJson "ssh" "macs" (.texts ["hmac-sha2-512-etm@openssh.com", "hmac-sha2-256-etm@openssh.com"])),
   ("compression", getJson "ssh" "compression" (.texts ["none", "zlib@openssh.com"])),
   ("kex_algs", getJson "ssh" "kex_algs" (.texts ["curve25519-sha256"])),
   ("host_key_algs", getJson "ssh" "host_key_algs" (.texts ["ssh-ed25519", "rsa-sha2-512", "rsa-sha2-256"])),
   ("public_key_algs", getJson "ssh" "public_key_algs" (.texts ["ssh-ed25519", "rsa-sha2-512", "rsa-sha2-256"])),
   ("data_path", get "ssh" "data_path" (.text "var/lib/cyanide/keys")),
   ("auth_tries", getInt "ssh" "auth_tries" 3),
   ("login_timeout", getInt "ssh" "login_timeout" 60),
   ("idle_timeout", getInt "ssh" "idle_timeout" 3600),
   ("rekey_limit", get "ssh" "rekey_limit" (.text "1G")),
   ("forwarding_enabled", getBool "ssh" "forwarding_enabled" false),
   ("forwarding_strict_mode", getBool "ssh" "forwarding_strict_mode" true),
   ("log_passwords", getBool "ssh" "log_passwords" false),
   ("forward_redirect_enabled", getBool "ssh" "forward_redirect_enabled" false),
   ("forward_redirect_rules", getJson "ssh" "forward_redirect_rules" (.dict [])),
   ("forward_tunnel_enabled", getBool "ssh" "forward_tunnel_enabled" false),
   ("forward_tunnel_rules", getJson "ssh" "forward_tunnel_rules" (.dict []))]

def telnetMap : List (String × Expr) :=
  [("enabled", getBool "telnet" "enabled" false),
   ("log_passwords", getBool "telnet" "log_passwords" false),
   ("port", getInt "telnet" "port" 2323),
   ("backend_mode", get "telnet" "backend_mode" (.text "emulated")),
   ("target_host", get "telnet" "target_host" (.text "127.0.0.1")),
   ("target_port", getInt "telnet" "target_port" 23),
   ("banner", get "telnet" "banner" .none)]

def metricsMap : List (String × Expr) :=
  [("enabled", getBool "metrics" "enabled" true),
   ("port", getInt "metrics" "port" 9090),
   ("host", get "metrics" "host" (.text "127.0.0.1")),
   ("token", get "metrics" "token" .none),
   ("allow_remote", getBool "metrics" "allow_remote" false)]

def smtpMap : List (String × Expr) :=
  [("enabled", getBool "smtp" "enabled" false),
   ("port", getInt "smtp" "port" 2525),
   ("backend_mode", get "smtp" "backend_mode" (.text "emulated")),
   ("target_host", get "smtp" "target_host" (.text "127.0.0.1")),
   ("target_port", getInt "smtp" "target_port" 25255)]

def mlMap (packageRoot : Str) : List (String × Expr) :=
  [("enabled", getBool "ml" "enabled" true),
   ("ml_log", get "ml" "ml_log" (.text (defaultLogPath ++ "/cyanide-ml.json"))),
   ("model_path", get "ml" "model_path" (.str (packageRoot ++ "/assets/models/cyanideML.pkl".toList))),
   ("online_learning", getBool "ml" "online_learning" false),
   ("retraining_interval_days", getInt "ml" "retraining_interval_days" 7),
   -- a `Path`, which `_stringify_paths` turns into its text at the end
   ("training_data", .const (.dict [(.str "hacker_methods".toList, .text defaultLogPath)]))]

def cleanupMap : List (String × Expr) :=
  [("enabled", getBool "cleanup" "enabled" true),
   ("interval", getInt "cleanup" "interval" 3600),
   ("retention_days", getInt "cleanup" "retention_days" 7),
   ("paths", getJson "cleanup" "paths" (.texts [defaultLogPath, "var/lib/cyanide", "var/quarantine"]))]

def poolMap : List (String × Expr) :=
  [("enabled", getBool "pool" "enabled" false),
   ("mode", get "pool" "mode" (.text "libvirt")),
   ("max_vms", getInt "pool" "max_vms" 5),
   ("recycle_period", getInt "pool" "recycle_period" 1500),
   ("vm_unused_timeout", getInt "pool" "vm_unused_timeout" 600),
   ("share_guests", getBool "pool" "share_guests" true),
   ("libvirt_uri", get "pool" "libvirt_uri" (.text "qemu:///system")),
   ("guest_config", get "pool" "guest_config" (.text "configs/pool/default_guest.xml")),
   ("guest_tag", get "pool" "guest_tag" (.text "debian18.04")),
   ("guest_ssh_port", getInt "pool" "guest_ssh_port" 22),
   ("guest_telnet_port", getInt "pool" "guest_telnet_port" 23),
   ("use_nat", getBool "pool" "use_nat" true),
   ("nat_public_ip", get "pool" "nat_public_ip" (.text "192.168.1.40")),
   ("save_snapshots", getBool "pool" "save_snapshots" false),
   ("snapshot_path", get "pool" "snapshot_path" (.text "var/lib/cyanide/snapshots")),
   ("targets", get "pool" "targets" (.text ""))]

def rateLimitMap : List (String × Expr) :=
  [("max_connections_per_minute", getInt "rate_limit" "max_connections_per_minute" 60),
   ("ban_duration", getInt "rate_limit" "ban_duration" 3600)]

def otelMap : List (String × Expr) :=
  [("enabled", getBool "otel" "enabled" false),
   ("exporter", get "otel" "exporter" (.text "otlp")),
   ("endpoint", get "otel" "endpoint" (.text "http://localhost:4318/v1/traces"))]

def virustotalMap : List (String × Expr) :=
  [("enabled", getBool "virustotal" "enabled" false),
   ("api_key", get "virustotal" "api_key" .none)]

def iocReportingMap : List (String × Expr) :=
  [("enabled", getBool "ioc_reporting" "enabled" true),
   ("report_interval_hours", getInt "ioc_reporting" "report_interval_hours" 1),
   ("output_format", get "ioc_reporting" "output_format" (.text "stix2.1"))]

/-- The map, section by section. -/
def configMap (packageRoot : Str) : Section → List (String × Expr)
  | .top => topMap
  | .logging => loggingMap
  | .rotation => rotationMap
  | .ssh => sshMap
  | .telnet => telnetMap
  | .metrics => metricsMap
  | .smtp => smtpMap
  | .ml => mlMap packageRoot
  | .cleanup => cleanupMap
  | .pool => poolMap
  | .rateLimit => rateLimitMap
  | .otel => otelMap
  | .virustotal => virustotalMap
  | .iocReporting => iocReportingMap

/-! ### Loading -/

/-- A mapping of mappings, one for each section. -/
abbrev Sections := List (Section × List (String × Value))

def assembleConfigDict (lib : Library) (environ : Environ) (data : Dict) : Option Sections :=
  fill (fun _ => fill fun _ e => e.eval lib environ data) (Section.all.map fun s => (s, configMap lib.packageRoot s))

/-- What a field makes of a value that it is given. -/
def Field.accept (lib : Library) (f : Field) (v : Value) : Option Value :=
  (lib.coerce f.type v).filter f.check.passes

/-- A model's fields from a mapping: a field that is not in the mapping has its default. -/
def validateFields (lib : Library) (given : List (String × Value)) : List (String × Field) →
    Option (List (String × Value)) :=
  fill fun name f => match given.lookup name with
    | some v => f.accept lib v
    | none => some f.default

/-- `CyanideConfig(**config)`: `none` is a `ValidationError`. -/
def validate (lib : Library) (config : Sections) : Option Sections :=
  fill (fun s fields =>
    let given := (config.lookup s).getD []
    match s with
    | .ml => some given
    | .cleanup => some given
    | _ => validateFields lib given fields) (Section.all.map fun s => (s, schema s))

def loadConfig (lib : Library) (environ : Environ) (file : Option Value) : Option Sections :=
  ((applyEnvOverrides lib environ (loadConfigFile file)).bind (assembleConfigDict lib environ)).bind (validate lib)

end Cyanide.Config
