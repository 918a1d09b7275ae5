import Cyanide.Shell.FileCommands

/-!
# Commands on the network

`ping`, `curl`, `wget` and `nc`.  A name is resolved and checked by `validate_url` before anything is requested, and
what is downloaded goes to the quarantine callback and into the filesystem.
-/

namespace Cyanide

open PosixPath PyText Traced Argparse

variable (W : World) (v : View)

/-! ### `validate_url` -/

/-- `_check_dns_cache`. -/
def checkDnsCache (hostname : Str) : Leaf (Option Str) := do
  let now := W.time (← Leaf.tick)
  let M ← get
  match M.dnsCache.lookup hostname with
  | some (ip, expiry) => if now < expiry ∧ ip ≠ [] then return some ip else return none
  | none => return none

/-- The loop over the addresses: the message for the first one that is refused, or the first one. -/
def verifyIps (hostname : Str) (allowLocal : Bool) : (validIp : Option Str) → List (Str × Option Bool) →
    Except Str (Option Str)
  | validIp, [] => .ok validIp
  | _, (_, none) :: _ => .error "Invalid IP format encountered".toList
  | validIp, (ip, some isLocal) :: ips =>
    if !allowLocal && isLocal then
      .error ("Access to private/local resource '".toList ++ hostname ++ "' (".toList ++ ip ++ ") denied.".toList)
    else verifyIps hostname allowLocal (validIp.orElse fun _ => some ip) ips

/-- `_resolve_and_verify_ip`. -/
def resolveAndVerifyIp (hostname : Str) (allowLocal : Bool) : Leaf (Except Str (Option Str)) := do
  match W.getaddrinfo (← Leaf.tick) hostname with
  | .gaierror => return .error ("Could not resolve host: ".toList ++ hostname)
  | .invalid => return .error "Invalid IP format encountered".toList
  | .addresses list =>
    match verifyIps hostname allowLocal none list with
    | .error message => return .error message
    | .ok none => return .ok none
    | .ok (some ip) =>
      let expiry := W.time (← Leaf.tick) + v.config.dnsCacheTtl
      modify fun M => { M with dnsCache := M.dnsCache.insert hostname (ip, expiry) }
      return .ok (some ip)

/-- `validate_url`: the error message, or the resolved address. -/
def validateUrl (url : Str) : Leaf (Except Str (Option Str)) := do
  match W.urlparse url with
  | .error message => return .error ("URL validation error: ".toList ++ message)
  | .ok (scheme, hostname) =>
    if scheme ≠ "http".toList ∧ scheme ≠ "https".toList then
      return .error ("Protocol '".toList ++ scheme ++ "' not supported or disabled.".toList)
    else
      match hostname with
      | none | some [] => return .error "Invalid URL".toList
      | some hostname =>
        match ← checkDnsCache W hostname with
        | some ip => return .ok (some ip)
        | none => resolveAndVerifyIp W v hostname v.config.allowLocalNetwork

/-! ### `ping` -/

def pingCommand (args : List Str) : Leaf Output := do
  match (cleanArgs args).getLast? with
  | none => return .fail "ping: usage error: Destination address required\n".toList 1
  | some hostname =>
    match ← validateUrl W v ("https://".toList ++ hostname) with
    | .error err => return .fail ("ping: ".toList ++ hostname ++ ": ".toList ++ err ++ ['\n']) 2
    | .ok none => return .fail ("ping: ".toList ++ hostname ++ ": Name or service not known\n".toList) 2
    | .ok (some ip) =>
      let reply (seq time : String) : Str :=
        "64 bytes from ".toList ++ ip ++ ": icmp_seq=".toList ++ seq.toList ++ " ttl=64 time=".toList ++ time.toList ++
          " ms\n".toList
      return .ok ("PING ".toList ++ hostname ++ " (".toList ++ ip ++ ") 56(84) bytes of data.\n".toList ++
        reply "1" "0.045" ++ reply "2" "0.052" ++ "--- ".toList ++ hostname ++ " ping statistics ---\n".toList ++
        "2 packets transmitted, 2 received, 0% packet loss, time 1002ms\n".toList)

/-! ### Downloads -/

/-- `PurePosixPath(path).name`. -/
def pureName (path : Str) : Str := (((path.splitOn '/').filter fun c => c ≠ [] && c ≠ ['.']).getLast?).getD []

/-- `a or b` for a text that may be missing. -/
def orText (a : Option Str) (b : Str) : Str := if a.getD [] = [] then b else a.getD []

/-- `_log_event` for a URL that was resolved. -/
def logResolved (name : String) (url : Str) (checked : Except Str (Option Str)) : Leaf Unit :=
  let resolved : Str := match checked with
    | .ok (some ip) => ip
    | _ => "unresolved".toList
  Leaf.logEvent v (name.toList ++ "_url_resolve".toList) [("url".toList, url), ("resolved_ip".toList, resolved)]

/-- Hand a download to the quarantine callback. -/
def quarantineDownload (filename : Str) (content : List UInt8) : Leaf Unit :=
  if v.quarantineCallback then modify fun M => { M with quarantine := (filename, content) :: M.quarantine }
  else return ()

def curlParser : Parser where
  options := [⟨["-o".toList, "--output".toList], "output".toList, .text⟩,
    ⟨["-O".toList, "--remote-name".toList], "remote_name".toList, .flag⟩,
    ⟨["-I".toList, "--head".toList], "head".toList, .flag⟩,
    ⟨["-s".toList, "--silent".toList], "silent".toList, .flag⟩]
  positionals := [⟨"url".toList, .zeroOrOne⟩]

/-- `_get_output_config`. -/
def curlOutput (url : Str) (parsed : Parsed) : Option Str :=
  match parsed.text "output".toList with
  | some (c :: cs) => some (c :: cs)
  | _ => if parsed.isSet "remote_name".toList then some (orText (some (pureName url)) "index.html".toList) else none

/-- `_handle_file_save`. -/
def curlFileSave (filename : Str) (content : List UInt8) (silent : Bool) : Leaf Output := do
  let fullPath := resolvePath v.cwd filename
  let length := natText content.length
  if (← Leaf.fs).pathExists (purePosixParent fullPath) = false then
    return .fail ("curl: (23) Failed writing body (0 != ".toList ++ length ++ ")\n".toList) 23
  else if (← Leaf.mkfile fullPath (.text (decodeIgnore content)) v.username).isNone then
    return .fail "curl: (23) Check output path\n".toList 23
  else if silent then return .ok []
  else
    return .fail ("  % Total    % Received % Xferd  Average Speed   Time    Time     Time  Current\n".toList ++
      "                                 Dload  Upload   Total   Spent    Left  Speed\n".toList ++ "100  ".toList ++
      length ++ "  100  ".toList ++ length ++ "    0     0   ".toList ++ length ++
      "      0 --:--:-- --:--:-- --:--:--  ".toList ++ length ++ ['\n']) 0

/-- The requests of `curl`, with what the exceptions of the client library become. -/
def curlFetch (url : Str) (parsed : Parsed) : Leaf Output := do
  match W.http (← Leaf.tick) url with
  | .raised true message => return .fail ("curl: (6) Could not resolve host: ".toList ++ message ++ ['\n']) 6
  | .raised false message =>
    return .fail ("curl: (1) Protocol not supported or error: ".toList ++ message ++ ['\n']) 1
  | .response status head body =>
    if parsed.isSet "head".toList then return .ok head
    else if 400 ≤ status then
      return .fail (if parsed.isSet "silent".toList then [] else
        "curl: (22) The requested URL returned error: ".toList ++ natText status ++ ['\n']) 22
    else
      let filename := curlOutput url parsed
      quarantineDownload v (orText filename (orText (some (pureName url)) "index.html".toList)) body
      match filename with
      | some filename => curlFileSave v filename body (parsed.isSet "silent".toList)
      | none => return .ok (decodeIgnore body)

def curlCommand (args : List Str) : Leaf Output := do
  let parsed ← parseArgs W v curlParser "curl" args
  match orText (parsed.text "url".toList) (parsed.extras.getLast?.getD []) with
  | [] => return .fail "curl: try 'curl --help' for more information\n".toList 1
  | url =>
    let checked ← validateUrl W v url
    logResolved v "curl" url checked
    match checked with
    | .error error => return .fail ("curl: (1) ".toList ++ error ++ ['\n']) 1
    | .ok _ => curlFetch W v url parsed

def wgetParser : Parser where
  options := [⟨["-O".toList, "--output-document".toList], "output_document".toList, .text⟩,
    ⟨["-q".toList, "--quiet".toList], "quiet".toList, .flag⟩]
  positionals := [⟨"url".toList, .zeroOrOne⟩]

/-- `_generate_header`. -/
def wgetHeader (url : Str) (resolvedIp : Option Str) (filename : Str) : Str :=
  "--2026-02-02 12:00:00--  ".toList ++ url ++ "\nResolving host... ".toList ++ orText resolvedIp "1.2.3.4".toList ++
    "\nConnecting to host|1.2.3.4|:80... connected.\n".toList ++
    "HTTP request sent, awaiting response... 200 OK\nLength: 1234 (1.2K) [text/html]\nSaving to: '".toList ++
    filename ++ "'\n\n".toList

/-- `f"{n / 1024:.2f}"`, rounded half to even. -/
def kilobytes (n : ℕ) : Str :=
  let q := n * 100 / 1024
  let r := n * 100 % 1024
  let hundredths := if 512 < r ∨ (r = 512 ∧ q % 2 = 1) then q + 1 else q
  natText (hundredths / 100) ++ '.' :: natText (hundredths % 100 / 10) ++ natText (hundredths % 10)

/-- `_generate_footer`. -/
def wgetFooter (content : List UInt8) (filename : Str) : Str :=
  let length := natText content.length
  "\n     0K ....                                      100% ".toList ++ length ++ ['='] ++ kilobytes content.length ++
    "K/s\n\n2026-02-02 12:00:00 (".toList ++ filename ++ ") - saved [".toList ++ length ++ ['/'] ++ length ++
    "]\n".toList

/-- `_handle_download`. -/
def wgetDownload (url : Str) (parsed : Parsed) (resolvedIp : Option Str) : Leaf Output := do
  let filename := orText (parsed.text "output_document".toList) (orText (some (pureName url)) "index.html".toList)
  let header := if parsed.isSet "quiet".toList then [] else wgetHeader url resolvedIp filename
  match W.http (← Leaf.tick) url with
  | .raised _ message => return ⟨header, "wget: error: ".toList ++ message ++ ['\n'], 1⟩
  | .response status _ body =>
    if status ≠ 200 then return ⟨header, "wget: error: HTTP ".toList ++ natText status ++ ['\n'], 1⟩
    else
      quarantineDownload v filename body
      if (← Leaf.mkfile (resolvePath v.cwd filename) (.text (decodeIgnore body)) v.username).isNone then
        return ⟨header, filename ++ ": error creating file in VFS\n".toList, 1⟩
      else return .ok (if parsed.isSet "quiet".toList then header else header ++ wgetFooter body filename)

def wgetCommand (args : List Str) : Leaf Output := do
  let parsed ← parseArgs W v wgetParser "wget" args
  logUnknown v "wget" args parsed
  match (parsed.text "url".toList).getD [] with
  | [] => return .fail "wget: missing URL\n".toList 1
  | url =>
    let checked ← validateUrl W v url
    logResolved v "wget" url checked
    match checked with
    | .error error => return .fail ("wget: error: ".toList ++ error ++ ['\n']) 1
    | .ok resolvedIp => wgetDownload W v url parsed resolvedIp

/-! ### `nc` -/

def ncCommand (args : List Str) : Leaf Output := do
  Leaf.logEvent v "nc_execution".toList
  if args.contains "--help".toList || args.contains "-h".toList then
    return .ok "Usage: nc [options] [hostname] [port]\n".toList
  else
    match argAfter "-e".toList args with
    | some shell =>
      Leaf.logEvent v "nc_reverse_shell_attempt".toList [("shell".toList, shell)]
      return .fail "nc: connection timed out\n".toList 1
    | none =>
      match cleanArgs args with
      | host :: port :: _ =>
        return .fail ("nc: connect to ".toList ++ host ++ " port ".toList ++ port ++
          " (tcp) failed: Connection refused\n".toList) 1
      | _ => return ⟨"Usage: nc [options] [hostname] [port]\n".toList, [], 1⟩

end Cyanide
