import Cyanide.Shell.TextCommands

/-!
# Commands about the system

Commands that print something about the session and the system, the package managers, `make` and `perl`.  What the
commands print that report made-up users, processes and connections is in `World.report`.
-/

namespace Cyanide

open PosixPath PyText Traced

variable (W : World) (v : View)

/-! ### The session -/

def echoCommand (args : List Str) : Leaf Output := return .ok (List.intercalate [' '] args ++ ['\n'])

def pwdCommand : Leaf Output := return .ok (v.cwd ++ ['\n'])

def whoamiCommand : Leaf Output := return .ok (v.username ++ ['\n'])

def idCommand : Leaf Output :=
  let number := if v.username = root then ['0'] else "1000".toList
  let entry (name : String) := name.toList ++ number ++ '(' :: v.username ++ [')']
  return .ok (entry "uid=" ++ entry " gid=" ++ entry " groups=" ++ ['\n'])

def helpCommand : Leaf Output :=
  return .ok ("GNU bash, version 5.1.16(1)-release (x86_64-pc-linux-gnu)\n".toList ++
    "These shell commands are defined internally.  Type `help' to see this list.\n".toList)

def envCommand : Leaf Output :=
  let home := if v.username = root then "/root".toList else "/home/".toList ++ v.username
  return .ok (List.intercalate ['\n'] ["USER=".toList ++ v.username, "HOME=".toList ++ home,
    "LOGNAME=".toList ++ v.username, "PATH=/usr/local/sbin:/usr/local/bin:/usr/sbin:/usr/bin:/sbin:/bin".toList,
    "TERM=xterm-256color".toList, "SHELL=/bin/bash".toList, "PWD=".toList ++ v.cwd, "LANG=en_US.UTF-8".toList] ++
    ['\n'])

/-- `f"{s:<width}"`. -/
def padRight (width : ℕ) (s : Str) : Str := s ++ List.replicate (width - s.length) ' '

/-- `f"{n:>width}"`. -/
def padLeft (width n : ℕ) : Str := List.replicate (width - (natText n).length) ' ' ++ natText n

def historyCommand : Leaf Output :=
  return .ok ((v.history.zipIdx 1).flatMap fun (cmd, i) => padLeft 5 i ++ "  ".toList ++ cmd ++ ['\n'])

/-- A command whose output is made up. -/
def reportCommand (name : Str) (args : List Str) : Leaf Output := do
  let (stdout, stderr, rc) := W.report name args v (← Leaf.tick)
  return ⟨stdout, stderr, rc⟩

/-! ### `uname` and `uptime` -/

/-- The output of `uname`, for a filesystem that has no attribute `profile`. -/
def unameCommand (args : List Str) : Leaf Output :=
  if args = [] then return .ok "Linux\n".toList
  else if args.contains "-a".toList || args.contains "--all".toList then
    return .ok "Linux server 5.15.0-91-generic...\n".toList
  else if args.contains "-r".toList then return .ok "5.15.0-91-generic\n".toList
  else
    match args.find? (·.head? = some '-') with
    | none => return .ok "Linux\n".toList
    | some invalidFlag =>
      match invalidFlag.filter (· ≠ '-') with
      | [] => throw .stringIndex
      | flagChar :: _ =>
        return .fail ("uname: invalid option -- '".toList ++ flagChar ::
          "'\nTry 'uname --help' for more information.\n".toList) 1

/-- The first word of `/proc/uptime`, as what `float` gets. -/
def uptimeText : Content → Option Str
  | .text s => (words s).head?
  | .bytes b => ((byteWords b).head?.filter fun w => w.all (· < 128)).map fun w => w.map fun c => Char.ofNat c.toNat

/-- `f"{n:02}"`. -/
def twoDigits (n : Int) : Str := (if 0 ≤ n ∧ n < 10 then ['0'] else []) ++ (toString n).toList

def uptimeCommand : Leaf Output := do
  let content ← Leaf.getContent "/proc/uptime".toList
  match (uptimeText content).bind W.hoursAndMinutes |>.getD (.ok (1, 0)) with
  | .error message => throw (.raised message)
  | .ok (hours, minutes) =>
    let up := if 0 < hours then (toString hours).toList ++ ':' :: twoDigits minutes
      else (toString minutes).toList ++ " min".toList
    return .ok (' ' :: W.clock (← Leaf.tick) ++ " up ".toList ++ up ++
      ",  1 user,  load average: 0.00, 0.01, 0.05\n".toList)

/-! ### `make` and `perl` -/

def makeCommand : Leaf Output := do
  let s ← Leaf.fs
  if s.pathExists (resolvePath v.cwd "Makefile".toList) || s.pathExists (resolvePath v.cwd "makefile".toList) then
    Leaf.logEvent v "make_execution".toList
    return .ok ("gcc -Wall -O2 -c main.c -o main.o\ngcc -Wall -O2 -c utils.c -o utils.o\n".toList ++
      "gcc main.o utils.o -o output\n".toList)
  else return .fail "make: *** No targets specified and no makefile found.  Stop.\n".toList 2

/-- Content as text, malformed bytes left out. -/
def ignoring : Content → Str
  | .text s => s
  | .bytes b => decodeIgnore b

/-- `_handle_script_file` of the interpreters, which differ in their name and in the error for a missing file. -/
def runScriptFile (name : String) (missing : Str → Str) (file : Str) : Leaf Output := do
  let target := resolvePath v.cwd file
  if (← Leaf.fs).pathExists target then
    let content ← Leaf.getContent target
    Leaf.logEvent v (name.toList ++ "_file_run".toList) [("file".toList, file), ("content".toList, ignoring content)]
    return .ok []
  else return .fail (missing file) 2

/-- `_handle_one_liner` of the interpreters. -/
def runOneLiner (name flag : String) (missing : Output) (args : List Str) : Leaf Output := do
  match argAfter flag.toList args with
  | some script =>
    Leaf.logEvent v (name.toList ++ "_script_payload".toList) [("script".toList, script)]
    return .ok []
  | none => return missing

def perlCommand (args : List Str) : Leaf Output := do
  Leaf.logEvent v "perl_execution_attempt".toList
  if args.contains "-v".toList then
    return .ok ("This is perl 5, version 34, subversion 0 (v5.34.0) built for ".toList ++
      "x86_64-linux-gnu-thread-multi\n".toList)
  else if args.contains "-e".toList then
    runOneLiner v "perl" "-e" (.fail "perl: -e requires an argument.\n".toList 1) args
  else
    match args with
    | [] => return .ok []
    | file :: _ =>
      if file.head? = some '-' then return .ok []
      else
        runScriptFile v "perl" (fun file => "Can't open perl script \"".toList ++ file ++
          "\": No such file or directory\n".toList) file

/-! ### Package managers -/

/-- `_is_supported_by_config`; the members of the two families of package managers support each other. -/
def isSupportedByConfig (mgr : Str) (configMgrs : List Str) : Bool :=
  let names (l : List String) := l.map String.toList
  if configMgrs.contains "none".toList then false
  else if configMgrs.contains "all".toList || configMgrs.contains mgr then true
  else if (names ["apt", "apt-get", "dpkg"]).contains mgr && (names ["apt", "debian"]).any configMgrs.contains then true
  else (names ["yum", "dnf", "rpm"]).contains mgr && (names ["yum", "rhel", "centos"]).any configMgrs.contains

/-- `_is_supported_by_profile`. -/
def isSupportedByProfile (mgr osProfile : Str) : Bool :=
  let names (l : List String) := l.map String.toList
  let osProfile := W.unicode.lower osProfile
  if (names ["apt", "apt-get", "dpkg"]).contains mgr then
    (names ["debian", "kali", "ubuntu", "custom"]).contains osProfile
  else if (names ["yum", "dnf", "rpm"]).contains mgr then
    (names ["centos", "rhel", "fedora", "rocky", "almalinux", "custom"]).contains osProfile
  else true

/-- A command behind `is_pkg_mgr_supported`. -/
def packageManager (mgr : String) (m : Leaf Output) : Leaf Output := do
  let M ← get
  if (if v.config.packageManagers = [] then isSupportedByProfile W mgr.toList M.osProfile
      else isSupportedByConfig mgr.toList v.config.packageManagers) then m
  else return .fail ("bash: ".toList ++ mgr.toList ++ ": command not found\n".toList) 127

/-- `_handle_install_remove` of `apt`. -/
def aptInstallRemove (install : Bool) (packages : List Str) : Output :=
  if packages = [] then .fail "E: No packages found\n".toList 100
  else
    match cleanArgs packages with
    | [] => .ok "0 upgraded, 0 newly installed, 0 to remove and 0 not upgraded.\n".toList
    | pkgs =>
      let header := "Reading package lists... Done\nBuilding dependency tree... Done\n".toList ++
        "Reading state information... Done\n".toList
      let installed := if install then
          "The following NEW packages will be installed:\n  ".toList ++ List.intercalate [' '] pkgs ++
          "\n0 upgraded, ".toList ++ natText pkgs.length ++
          " newly installed, 0 to remove and 0 not upgraded.\nNeed to get 0 B/1024 kB of archives.\n".toList ++
          "After this operation, 3,141 kB of additional disk space will be used.\n".toList
        else []
      let verb := if install then "Unpacking".toList else "Removing".toList
      .ok (header ++ installed ++ pkgs.flatMap fun pkg =>
        "Selecting previously unselected package ".toList ++ pkg ++ ".\nPreparing to unpack .../".toList ++ pkg ++
        "_amd64.deb ...\n".toList ++ verb ++ ' ' :: pkg ++ " (1.0-1) ...\nSetting up ".toList ++ pkg ++
        " (1.0-1) ...\n".toList)

def aptCommand (args : List Str) : Leaf Output :=
  packageManager W v "apt" <|
    match args with
    | [] => return .ok ("apt 2.4.13 (amd64)\nUsage: apt [options] command\n\n".toList ++
        "apt is a commandline package manager.\n".toList)
    | subcommand :: packages =>
      if subcommand = "update".toList then
        return .ok ("Hit:1 http://archive.debian.com/debian jammy InRelease\n".toList ++
          "Get:2 http://security.debian.com/debian jammy-security InRelease [110 kB]\n".toList ++
          "Get:3 http://archive.debian.com/debian jammy-updates InRelease [119 kB]\n".toList ++
          "Fetched 229 kB in 1s (229 kB/s)\nReading package lists... Done\n".toList ++
          "Building dependency tree... Done\nReading state information... Done\n".toList ++
          "All packages are up to date.\n".toList)
      else if subcommand = "upgrade".toList then
        return .ok ("Reading package lists... Done\nBuilding dependency tree... Done\n".toList ++
          "Reading state information... Done\nCalculating upgrade... Done\n".toList ++
          "0 upgraded, 0 newly installed, 0 to remove and 0 not upgraded.\n".toList)
      else if subcommand = "install".toList || subcommand = "remove".toList then
        return aptInstallRemove (subcommand = "install".toList) packages
      else if subcommand = "search".toList then
        match packages with
        | [] => return .fail "E: You must give at least one search pattern\n".toList 100
        | pkg :: _ => return .ok (pkg ++ " - matching package library for ".toList ++ pkg ++ ['\n'])
      else return .fail ("E: Invalid operation ".toList ++ subcommand ++ ['\n']) 100

/-- The loops over archives of `dpkg` and `rpm`, which stop at the first one that does not exist. -/
def installArchives (missing : Str → Output) (installed : Str → Str) (output : Str) : List Str → Leaf Output
  | [] => return .ok output
  | target :: targets => do
    if (← Leaf.fs).pathExists (resolvePath v.cwd target) = false then return missing target
    else installArchives missing installed (output ++ installed target) targets

/-- `target.split("/")[-1].replace(ext, "")`. -/
def packageName (ext : String) (target : Str) : Str := replace ext.toList [] ((target.splitOn '/').getLast?.getD [])

def dpkgInstalled (target : Str) : Str :=
  let pkg := packageName ".deb" target
  "Selecting previously unselected package ".toList ++ pkg ++
    ".\n(Reading database ... 10234 files and directories currently installed.)\nPreparing to unpack ".toList ++
    target ++ " ...\nUnpacking ".toList ++ pkg ++ " (1.0) ...\nSetting up ".toList ++ pkg ++ " (1.0) ...\n".toList

def dpkgCommand (args : List Str) : Leaf Output :=
  packageManager W v "dpkg" <|
    match args with
    | [] => return .fail "dpkg: error: need an action option\n".toList 2
    | action :: targets =>
      if action = "-i".toList || action = "--install".toList then
        if targets = [] then
          return .fail "dpkg: error: --install needs at least one package archive file argument\n".toList 2
        else
          installArchives v (fun target => .fail ("dpkg: error: cannot access archive '".toList ++ target ++
            "': No such file or directory\n".toList) 2) dpkgInstalled [] targets
      else if action = "-l".toList || action = "--list".toList then
        return .ok ("Desired=Unknown/Install/Remove/Purge/Hold\n".toList ++
          "| Status=Not/Inst/Conf-files/Unpacked/halF-conf/Half-inst/trig-aWait/Trig-pend\n".toList ++
          "|/ Err?=(none)/Reinst-required (Status,Err: uppercase=bad)\n".toList ++
          "||/ Name           Version      Architecture Description\n".toList ++
          "+++-==============-============-============-=================================\n".toList ++
          "ii  bash           5.1-6debian1 amd64        GNU Bourne Again SHell\n".toList ++
          "ii  coreutils      8.32-4.1ubun amd64        GNU core utilities\n".toList)
      else return .fail ("dpkg: error: unknown option ".toList ++ action ++ ['\n']) 2

def rpmInstalled (target : Str) : Str :=
  "Preparing...                          ################################# [100%]\n".toList ++
    "Updating / installing...\n   1:".toList ++ padRight 29 (packageName ".rpm" target) ++
    " ################################# [100%]\n".toList

/-- `_handle_query` of `rpm`. -/
def rpmQuery (action : Str) (packages : List Str) : Output :=
  if 'a' ∈ action then
    .ok ("bash-4.2.46-35.el7_9.x86_64\ncoreutils-8.22-24.el7_9.2.x86_64\nglibc-2.17-326.el7_9.x86_64\n".toList)
  else
    match packages.getLast? with
    | some pkg => .ok (pkg ++ "-1.0-1.el7.x86_64\n".toList)
    | none => ⟨"rpm: no arguments given for query\n".toList, [], 1⟩

def rpmCommand (args : List Str) : Leaf Output :=
  packageManager W v "rpm" <|
    match args with
    | [] => return .ok "RPM version 4.11.3\nCopyright (C) 1998-2002 - Red Hat, Inc.\n".toList
    | action :: rest =>
      let packages := cleanArgs rest
      if contains "-i".toList action || action = "-Uvh".toList then
        if packages = [] then return .fail "rpm: no packages given for install\n".toList 1
        else
          installArchives v (fun pkg => .fail ("error: open of ".toList ++ pkg ++
            " failed: No such file or directory\n".toList) 1) rpmInstalled [] packages
      else if 'q' ∈ action then return rpmQuery action packages
      else return .fail "rpm: unknown option\n".toList 1

/-- `_generate_transaction_output`. -/
def yumTransaction (action : Str) (packages : List Str) : Str :=
  let rule := List.replicate 80 '=' ++ ['\n']
  let count := natText packages.length
  "Loaded plugins: fastestmirror\nLoading mirror speeds from cached hostfile\n".toList ++
    "Resolving Dependencies\n--> Running transaction check\n".toList ++
    packages.flatMap (fun pkg => "---> Package ".toList ++ pkg ++ ".x86_64 0:1.0-1.el7 will be ".toList ++
      W.unicode.lower action ++ ['\n']) ++
    "--> Finished Dependency Resolution\n\nDependencies Resolved\n\n".toList ++ rule ++
    " Package             Arch             Version           Repository        Size\n".toList ++ rule ++
    packages.flatMap (fun pkg => ' ' :: padRight 19 (action.take 10) ++ ' ' :: padRight 16 pkg ++
      " x86_64           1.0-1.el7         base              42 k\n".toList) ++
    "\nTransaction Summary\n".toList ++ rule ++ action ++ "  ".toList ++ count ++
    " Package(s)\n\nTotal download size: 42 k\n".toList ++ action ++
    " size: 100 k\nDownloading packages:\nRunning transaction check\nRunning transaction test\n".toList ++
    "Transaction test succeeded\nRunning transaction\n".toList ++
    (packages.zipIdx 1).flatMap (fun (pkg, i) => "  ".toList ++ padRight 11 action ++ ": ".toList ++ pkg ++
      "-1.0-1.el7.x86_64".toList ++ padLeft 30 (i * 100 / packages.length) ++ '/' :: count ++ ['\n']) ++
    "\nComplete!\n".toList

/-- `_handle_install_remove` of `yum`. -/
def yumInstallRemove (install : Bool) (packages : List Str) : Output :=
  if packages = [] then
    ⟨"Loaded plugins: fastestmirror\nError: Need to pass a list of pkgs to install\n".toList, [], 1⟩
  else
    match cleanArgs packages with
    | [] => .ok "Loaded plugins: fastestmirror\nNo packages provided.\n".toList
    | pkgs => .ok (yumTransaction W (if install then "Installing".toList else "Erasing".toList) pkgs)

def yumCommand (args : List Str) : Leaf Output :=
  packageManager W v "yum" <|
    match args with
    | [] => return ⟨"Loaded plugins: fastestmirror\nYou need to give some command\n".toList, [], 1⟩
    | subcommand :: packages =>
      if subcommand = "update".toList || subcommand = "upgrade".toList then
        return .ok ("Loaded plugins: fastestmirror\nLoading mirror speeds from cached hostfile\n".toList ++
          "No packages marked for update\n".toList)
      else if ["install".toList, "remove".toList, "erase".toList].contains subcommand then
        return yumInstallRemove W (subcommand = "install".toList) packages
      else if subcommand = "search".toList then
        match packages with
        | [] => return ⟨"Error: Need to pass a list of pkgs to search\n".toList, [], 1⟩
        | pkg :: _ => return .ok ("Loaded plugins: fastestmirror\n".toList ++ List.replicate 29 '=' ++
            " N/S matched: ".toList ++ pkg ++ ' ' :: List.replicate 29 '=' ++ '\n' :: pkg ++
            ".x86_64 : Matched package for ".toList ++ pkg ++ ['\n'])
      else
        return ⟨("Loaded plugins: fastestmirror\nNo such command: ".toList ++ subcommand ++ ".\n".toList), [], 1⟩

end Cyanide
