import Cyanide.Lib.Simulation
import Cyanide.Shell.Emulator

/-!
# Commands seen from another shell

A command on the machine gets a view of the shell that runs it.  Here the same command is run by two shells that only
share the user, the directory and the machine: the second one has no logger and the configuration that a shell has by
default.  Most commands do not see the difference (`leaf_alike`); those that do are named by `SeesAlike`.
-/

namespace Cyanide

open PosixPath PyText Traced Argparse

/-- The view of another shell at the same place. -/
@[reducible] def View.outside (v : View) (history : List Str) : View :=
  { v with history, config := {}, logger := false }

/-- Two machines with the same files, where the caches agree but for some hosts, and the second logs nothing. -/
structure SameMachine (hosts : Str → Prop) (events : List Event) (M M' : Machine) : Prop where
  fs : M.fs = M'.fs
  osProfile : M.osProfile = M'.osProfile
  quarantine : M.quarantine = M'.quarantine
  ticks : M.ticks = M'.ticks
  dnsCache : ∀ host, ¬hosts host → M.dnsCache.lookup host = M'.dnsCache.lookup host
  events : M'.events = events

section Leaf

variable {hosts : Str → Prop} {events : List Event} {W : World} {v : View} {h : List Str} {args : List Str}

/-- Two computations on machines that are the same end alike. -/
abbrev LeafSim (hosts : Str → Prop) (events : List Event) {α : Type} (m m' : Leaf α) : Prop :=
  Sim (fun _ => True) (SameMachine hosts events) Eq m m'

/-! ### Operations on the machine -/

theorem sim_fs : LeafSim hosts events Leaf.fs Leaf.fs :=
  Sim.get_bind fun _ _ hM => SimAt.pure hM hM.fs

theorem sim_onFs {α : Type} (op : FakeFilesystem → α × FakeFilesystem) :
    LeafSim hosts events (Leaf.onFs op) (Leaf.onFs op) := by
  refine Sim.get_bind fun M M' hM => SimAt.modify_bind (SimAt.pure ⟨?_, hM.2, hM.3, hM.4, hM.5, hM.6⟩ ?_)
  · rw [hM.fs]
  · rw [hM.fs]

theorem sim_getContentStr (path : Str) : LeafSim hosts events (Leaf.getContentStr path) (Leaf.getContentStr path) := by
  refine (sim_onFs _).bind_eq fun content => ?_
  cases content with
  | text t => exact Sim.pure rfl
  | bytes b => exact Sim.pure rfl

theorem sim_tick : LeafSim hosts events Leaf.tick Leaf.tick := by
  refine Sim.get_bind fun M M' hM => SimAt.modify_bind (SimAt.pure ⟨hM.1, hM.2, hM.3, ?_, hM.5, hM.6⟩ hM.ticks)
  exact congrArg (· + 1) hM.ticks

/-- The second shell logs nothing. -/
theorem sim_logEvent (eventType : Str) (data : List (Str × Str)) :
    LeafSim hosts events (Leaf.logEvent v eventType data) (Leaf.logEvent (v.outside h) eventType data) := by
  intro M M' hM _
  by_cases hlogger : v.logger = true
  · rw [Leaf.logEvent, if_pos hlogger]
    exact ⟨rfl, hM.1, hM.2, hM.3, hM.4, hM.5, hM.6⟩
  · rw [Leaf.logEvent, if_neg hlogger]
    exact ⟨rfl, hM⟩

theorem sim_logUnknown (name : String) (parsed : Parsed) :
    LeafSim hosts events (logUnknown v name args parsed) (logUnknown (v.outside h) name args parsed) :=
  Sim.ite (fun _ => Sim.pure rfl) fun _ => sim_logEvent _ _

theorem sim_concat (a : Str) (b : Content) : LeafSim hosts events (Leaf.concat a b) (Leaf.concat a b) := by
  cases b with
  | text b => exact Sim.pure rfl
  | bytes b => exact Sim.throw

theorem sim_joinTexts (sep : Str) (parts : List Content) :
    LeafSim hosts events (Leaf.joinTexts sep parts) (Leaf.joinTexts sep parts) := by
  unfold Leaf.joinTexts
  split
  · exact Sim.pure rfl
  · exact Sim.throw

theorem sim_orRecursion {m m' : Leaf (Except RecursionError Bool)} (hm : LeafSim hosts events m m') :
    LeafSim hosts events (Leaf.orRecursion m) (Leaf.orRecursion m') := by
  refine hm.bind_eq fun r => ?_
  cases r with
  | ok b => exact Sim.pure rfl
  | error x => exact Sim.throw

/-- What follows the parser gets what it makes of the arguments. -/
theorem sim_parseArgs_bind {α : Type} (P : Parser) (name : String) {f f' : Parsed → Leaf α}
    (hf : ∀ parsed ∈ parseKnownArgs P (readInt W.unicode) args, LeafSim hosts events (f parsed) (f' parsed)) :
    LeafSim hosts events (parseArgs W v P name args >>= f) (parseArgs W (v.outside h) P name args >>= f') := by
  unfold parseArgs
  cases hparsed : parseKnownArgs P (readInt W.unicode) args with
  | none =>
    -- the parser exits, so that nothing follows
    refine Sim.bind (P := fun _ _ => False) ?_ fun _ _ hfalse => hfalse.elim
    exact (sim_logEvent _ _).bind_eq fun _ => Sim.throw
  | some parsed => exact hf parsed hparsed

theorem sim_parseArgs (P : Parser) (name : String) :
    LeafSim hosts events (parseArgs W v P name args) (parseArgs W (v.outside h) P name args) := by
  unfold parseArgs
  split
  · exact (sim_logEvent _ _).bind_eq fun _ => Sim.throw
  · exact Sim.pure rfl

/-! ### Commands on files -/

theorem sim_catFlags (output : Str) (files : List Str) :
    LeafSim hosts events (catFlags v output files) (catFlags (v.outside h) output files) := by
  induction files generalizing output with
  | nil => exact Sim.pure rfl
  | cons f files ih =>
    refine Sim.ite (fun _ => ?_) fun _ => ih _
    exact (sim_onFs _).bind_eq fun _ => (sim_concat _ _).bind_eq fun _ => ih _

theorem sim_catFile (arg : Str) : LeafSim hosts events (catFile v arg) (catFile (v.outside h) arg) := by
  refine sim_fs.bind_eq fun s => Sim.ite (fun _ => ?_) fun _ => ?_
  · exact (sim_getContentStr _).bind_eq fun _ => Sim.pure rfl
  · exact Sim.ite (fun _ => Sim.pure rfl) fun _ => Sim.pure rfl

theorem sim_catLoop (output : Str) (args : List Str) :
    LeafSim hosts events (catLoop v output args) (catLoop (v.outside h) output args) := by
  induction args generalizing output with
  | nil => exact Sim.pure rfl
  | cons arg args ih =>
    refine Sim.ite (fun _ => Sim.bind_eq ?_ fun _ => ih _) fun _ => ?_
    · refine Sim.ite (fun _ => ?_) fun _ => Sim.pure rfl
      exact sim_fs.bind_eq fun _ => sim_catFlags _ _
    · exact (sim_catFile arg).bind_eq fun r => Sim.ite (fun _ => Sim.pure rfl) fun _ => ih _

theorem sim_catCommand (input : Content) :
    LeafSim hosts events (catCommand v args input) (catCommand (v.outside h) args input) :=
  Sim.ite (fun _ => Sim.pure rfl) fun _ => (sim_catLoop _ _).bind_eq fun _ => Sim.pure rfl

theorem sim_cpLoop (recursive : Bool) (destStr : Str) (sources : List Str) :
    LeafSim hosts events (cpLoop W v recursive destStr sources) (cpLoop W (v.outside h) recursive destStr sources) := by
  induction sources with
  | nil => exact Sim.pure rfl
  | cons srcStr sources ih =>
    refine sim_fs.bind_eq fun s => Sim.ite (fun _ => Sim.pure rfl) fun _ => ?_
    refine (sim_orRecursion (sim_onFs _)).bind_eq fun copied => Sim.ite (fun _ => ih) fun _ => ?_
    exact sim_fs.bind_eq fun s => Sim.ite (fun _ => Sim.pure rfl) fun _ => Sim.pure rfl

theorem sim_mvLoop (destStr : Str) (sources : List Str) :
    LeafSim hosts events (mvLoop W v destStr sources) (mvLoop W (v.outside h) destStr sources) := by
  induction sources with
  | nil => exact Sim.pure rfl
  | cons srcStr sources ih =>
    refine sim_fs.bind_eq fun s => Sim.ite (fun _ => Sim.pure rfl) fun _ => ?_
    refine (sim_orRecursion (sim_onFs _)).bind_eq fun moved => ?_
    exact Sim.ite (fun _ => ih) fun _ => Sim.pure rfl

theorem sim_cpCommand : LeafSim hosts events (cpCommand W v args) (cpCommand W (v.outside h) args) := by
  unfold cpCommand
  dsimp only
  split
  · exact sim_cpLoop _ _ _
  · exact Sim.pure rfl

theorem sim_mvCommand : LeafSim hosts events (mvCommand W v args) (mvCommand W (v.outside h) args) := by
  refine Sim.ite (fun _ => Sim.pure rfl) fun _ => ?_
  split
  · exact sim_mvLoop _ _
  · exact Sim.pure rfl

theorem sim_rmLoop (recursive force : Bool) (args : List Str) :
    LeafSim hosts events (rmLoop v recursive force args) (rmLoop (v.outside h) recursive force args) := by
  induction args with
  | nil => exact Sim.pure rfl
  | cons arg args ih =>
    refine sim_fs.bind_eq fun s => ?_
    dsimp only
    split
    · exact Sim.ite (fun _ => ih) fun _ => Sim.pure rfl
    · exact Sim.ite (fun _ => Sim.pure rfl) fun _ => (sim_onFs _).bind_eq fun _ => ih

theorem sim_rmdirLoop (args : List Str) :
    LeafSim hosts events (rmdirLoop v args) (rmdirLoop (v.outside h) args) := by
  induction args with
  | nil => exact Sim.pure rfl
  | cons arg args ih =>
    refine sim_fs.bind_eq fun s => Sim.ite (fun _ => Sim.pure rfl) fun _ => ?_
    refine Sim.ite (fun _ => Sim.pure rfl) fun _ => Sim.ite (fun _ => Sim.pure rfl) fun _ => ?_
    exact (sim_onFs _).bind_eq fun removed => Sim.ite (fun _ => ih) fun _ => Sim.pure rfl

theorem sim_mkdirLoop (parents : Bool) (paths : List Str) :
    LeafSim hosts events (mkdirLoop v parents paths) (mkdirLoop (v.outside h) parents paths) := by
  induction paths with
  | nil => exact Sim.pure rfl
  | cons pathStr paths ih =>
    refine sim_fs.bind_eq fun s => Sim.ite (fun _ => Sim.pure rfl) fun _ => ?_
    refine Sim.ite (fun _ => Sim.pure rfl) fun _ => (sim_onFs _).bind_eq fun _ => ?_
    exact (sim_logEvent _ _).bind_eq fun _ => ih

theorem sim_mkdirCommand : LeafSim hosts events (mkdirCommand W v args) (mkdirCommand W (v.outside h) args) := by
  refine (sim_parseArgs _ _).bind_eq fun parsed => (sim_logUnknown _ _).bind_eq fun _ => ?_
  exact Sim.ite (fun _ => Sim.pure rfl) fun _ => sim_mkdirLoop _ _

theorem sim_touchLoop (args : List Str) :
    LeafSim hosts events (touchLoop v args) (touchLoop (v.outside h) args) := by
  induction args with
  | nil => exact Sim.pure rfl
  | cons arg args ih =>
    refine Sim.ite (fun _ => ih) fun _ => (sim_onFs _).bind_eq fun node => ?_
    exact Sim.ite (fun _ => Sim.pure rfl) fun _ => ih

theorem sim_chmodLoop (mode : Str) (targets : List Str) :
    LeafSim hosts events (chmodLoop W v mode targets) (chmodLoop W (v.outside h) mode targets) := by
  induction targets with
  | nil => exact Sim.pure rfl
  | cons target targets ih =>
    refine sim_fs.bind_eq fun s => ?_
    dsimp only
    split
    · exact Sim.pure rfl
    · split
      · exact Sim.throw
      · split
        · exact Sim.throw
        · exact (sim_onFs _).bind_eq fun _ => ih

theorem sim_chmodCommand : LeafSim hosts events (chmodCommand W v args) (chmodCommand W (v.outside h) args) := by
  unfold chmodCommand
  split
  · exact sim_chmodLoop _ _
  · exact Sim.pure rfl

theorem sim_gccCommand : LeafSim hosts events (gccCommand v args) (gccCommand (v.outside h) args) := by
  refine Sim.ite (fun _ => Sim.pure rfl) fun _ => Sim.ite (fun _ => Sim.pure rfl) fun _ => ?_
  refine sim_fs.bind_eq fun s => ?_
  dsimp only
  split
  · exact Sim.pure rfl
  · refine Sim.ite (fun _ => (sim_onFs _).bind_eq fun _ => ?_) fun _ => ?_
    · exact (sim_logEvent _ _).bind_eq fun _ => Sim.pure rfl
    · exact (sim_logEvent _ _).bind_eq fun _ => Sim.pure rfl

/-! ### Commands that read -/

theorem sim_linesCommand (name : String) (keep : Int → List Content → List Content) (input : Content) :
    LeafSim hosts events (linesCommand W v name keep args input)
      (linesCommand W (v.outside h) name keep args input) := by
  refine (sim_parseArgs _ _).bind_eq fun parsed => (sim_logUnknown _ _).bind_eq fun _ => ?_
  dsimp only
  split
  · exact (sim_joinTexts _ _).bind_eq fun _ => Sim.pure rfl
  · refine sim_fs.bind_eq fun s => Sim.ite (fun _ => Sim.pure rfl) fun _ => ?_
    refine Sim.ite (fun _ => (sim_getContentStr _).bind_eq fun _ => ?_) fun _ => Sim.pure rfl
    exact (sim_joinTexts _ _).bind_eq fun _ => Sim.pure rfl

theorem sim_grepFiles (paths : List Str) : LeafSim hosts events (grepFiles W paths) (grepFiles W paths) := by
  refine Sim.foldlM _ (fun lines lines' path hlines => ?_) rfl
  subst hlines
  exact (sim_onFs _).bind_eq fun _ => Sim.pure rfl

theorem sim_grepCollect (recursive : Bool) (lines : List Content) (files : List Str) :
    LeafSim hosts events (grepCollect W v recursive lines files)
      (grepCollect W (v.outside h) recursive lines files) := by
  induction files generalizing lines with
  | nil => exact Sim.pure rfl
  | cons f files ih =>
    refine sim_fs.bind_eq fun s => Sim.ite (fun _ => ?_) fun _ => Sim.ite (fun _ => ?_) fun _ => ?_
    · dsimp only
      split
      · exact Sim.throw
      · exact (sim_grepFiles _).bind_eq fun _ => ih _
    · exact (sim_getContentStr _).bind_eq fun _ => ih _
    · exact Sim.ite (fun _ => Sim.pure rfl) fun _ => Sim.pure rfl

theorem sim_grepFilter (pattern : Str) (ignoreCase invert : Bool) (output : Str) (lines : List Content) :
    LeafSim hosts events (grepFilter W pattern ignoreCase invert output lines)
      (grepFilter W pattern ignoreCase invert output lines) := by
  induction lines generalizing output with
  | nil => exact Sim.pure rfl
  | cons line lines ih =>
    cases line with
    | bytes b => exact Sim.throw
    | text line => exact Sim.ite (fun _ => ih _) fun _ => ih _

theorem sim_grepCommand (input : Content) :
    LeafSim hosts events (grepCommand W v args input) (grepCommand W (v.outside h) args input) := by
  refine (sim_parseArgs _ _).bind_eq fun parsed => (sim_logUnknown _ _).bind_eq fun _ => ?_
  refine Sim.ite (fun _ => Sim.pure rfl) fun _ => Sim.bind_eq ?_ fun collected => ?_
  · refine Sim.tryCatch (Sim.ite (fun _ => Sim.pure rfl) fun _ => sim_grepCollect _ _ _) fun x => ?_
    cases x with
    | raised message => exact Sim.pure rfl
    | systemExit => exact Sim.throw
    | endless => exact Sim.throw
  · cases collected with
    | error message => exact Sim.pure rfl
    | ok lines => exact (sim_grepFilter _ _ _ _ _).bind_eq fun _ => Sim.pure rfl

theorem sim_awkLine (separator : Str) (fields : List Int) (line : Content) :
    LeafSim hosts events (awkLine separator fields line) (awkLine separator fields line) := by
  refine Sim.ite (fun _ => Sim.pure rfl) fun _ => Sim.bind_eq ?_ fun _ => ?_
  · cases line with
    | text line =>
      exact Sim.ite (fun _ => Sim.pure rfl) fun _ => Sim.ite (fun _ => Sim.throw) fun _ => Sim.pure rfl
    | bytes line => exact Sim.ite (fun _ => Sim.pure rfl) fun _ => Sim.throw
  · exact (sim_joinTexts _ _).bind_eq fun _ => Sim.pure rfl

theorem sim_awkCollect (lines : List Content) (files : List Str) :
    LeafSim hosts events (awkCollect v lines files) (awkCollect (v.outside h) lines files) := by
  induction files generalizing lines with
  | nil => exact Sim.pure rfl
  | cons f files ih =>
    refine sim_fs.bind_eq fun s => Sim.ite (fun _ => ?_) fun _ => ?_
    · exact (sim_onFs _).bind_eq fun _ => ih _
    · exact Sim.ite (fun _ => Sim.pure rfl) fun _ => ih _

theorem sim_awkOutput (separator : Str) (fields : List Int) (output : List Str) (lines : List Content) :
    LeafSim hosts events (awkOutput separator fields output lines) (awkOutput separator fields output lines) := by
  induction lines generalizing output with
  | nil => exact Sim.pure rfl
  | cons line lines ih =>
    refine (sim_awkLine _ _ _).bind_eq fun row => ?_
    cases row with
    | none => exact ih _
    | some row => exact ih _

theorem sim_awkCommand (input : Content) :
    LeafSim hosts events (awkCommand W v args input) (awkCommand W (v.outside h) args input) := by
  refine (sim_parseArgs _ _).bind_eq fun parsed => (sim_logUnknown _ _).bind_eq fun _ => ?_
  refine Sim.ite (fun _ => Sim.pure rfl) fun _ => Sim.ite (fun _ => Sim.pure rfl) fun _ => ?_
  refine Sim.bind_eq (Sim.ite (fun _ => Sim.pure rfl) fun _ => sim_awkCollect _ _) fun collected => ?_
  cases collected with
  | error r => exact Sim.pure rfl
  | ok lines => exact (sim_awkOutput _ _ _ _).bind_eq fun _ => Sim.pure rfl

theorem sim_findCommand : LeafSim hosts events (findCommand W v args) (findCommand W (v.outside h) args) := by
  unfold findCommand
  split
  · exact Sim.pure rfl
  · refine sim_fs.bind_eq fun s => Sim.ite (fun _ => Sim.pure rfl) fun _ => ?_
    dsimp only
    split
    · exact Sim.throw
    · exact Sim.pure rfl

theorem sim_longLines (output : Str) (nodes : List (Node × Str)) :
    LeafSim hosts events (longLines W output nodes) (longLines W output nodes) := by
  induction nodes generalizing output with
  | nil => exact Sim.pure rfl
  | cons node nodes ih =>
    refine sim_tick.bind_eq fun tick => ?_
    dsimp only
    split
    · exact Sim.throw
    · exact ih _

theorem sim_formatOutput (nodes : List (Node × Str)) (longFormat : Bool) :
    LeafSim hosts events (formatOutput W nodes longFormat) (formatOutput W nodes longFormat) := by
  refine Sim.ite (fun _ => (sim_longLines _ _).bind_eq fun _ => Sim.pure rfl) fun _ => ?_
  exact Sim.ite (fun _ => Sim.pure rfl) fun _ => Sim.pure rfl

theorem sim_lsQueue (s : FakeFilesystem) (showAll longFormat : Bool) (patience : ℕ) (output : Str)
    (queue : List (Str × Str)) :
    LeafSim hosts events (lsQueue W s showAll longFormat patience output queue)
      (lsQueue W s showAll longFormat patience output queue) := by
  induction patience generalizing output queue with
  | zero =>
    cases queue with
    | nil => exact Sim.pure rfl
    | cons dir queue => exact Sim.throw
  | succ patience ih =>
    cases queue with
    | nil => exact Sim.pure rfl
    | cons dir queue =>
      unfold lsQueue
      split
      · exact ih _ _
      · exact Sim.ite (fun _ => ih _ _) fun _ => (sim_formatOutput _ _).bind_eq fun _ => ih _ _

theorem sim_lsCommand : LeafSim hosts events (lsCommand W v args) (lsCommand W (v.outside h) args) := by
  refine sim_fs.bind_eq fun s => ?_
  dsimp only
  split
  · exact Sim.pure rfl
  · refine Sim.ite (fun _ => (sim_lsQueue _ _ _ _ _ _).bind_eq fun _ => Sim.pure rfl) fun _ => ?_
    exact (sim_formatOutput _ _).bind_eq fun _ => Sim.pure rfl

/-! ### Commands about the system -/

theorem sim_unameCommand : LeafSim hosts events (unameCommand args) (unameCommand args) := by
  refine Sim.ite (fun _ => Sim.pure rfl) fun _ => Sim.ite (fun _ => Sim.pure rfl) fun _ => ?_
  refine Sim.ite (fun _ => Sim.pure rfl) fun _ => ?_
  split
  · exact Sim.pure rfl
  · split
    · exact Sim.throw
    · exact Sim.pure rfl

theorem sim_uptimeCommand : LeafSim hosts events (uptimeCommand W) (uptimeCommand W) := by
  refine (sim_onFs _).bind_eq fun content => ?_
  split
  · exact Sim.throw
  · exact sim_tick.bind_eq fun _ => Sim.pure rfl

theorem sim_makeCommand : LeafSim hosts events (makeCommand v) (makeCommand (v.outside h)) := by
  refine sim_fs.bind_eq fun s => Sim.ite (fun _ => ?_) fun _ => Sim.pure rfl
  exact (sim_logEvent _ _).bind_eq fun _ => Sim.pure rfl

theorem sim_runScriptFile (name : String) (missing : Str → Str) (file : Str) :
    LeafSim hosts events (runScriptFile v name missing file) (runScriptFile (v.outside h) name missing file) := by
  refine sim_fs.bind_eq fun s => Sim.ite (fun _ => ?_) fun _ => Sim.pure rfl
  exact (sim_onFs _).bind_eq fun _ => (sim_logEvent _ _).bind_eq fun _ => Sim.pure rfl

theorem sim_runOneLiner (name flag : String) (missing : Output) :
    LeafSim hosts events (runOneLiner v name flag missing args) (runOneLiner (v.outside h) name flag missing args) := by
  unfold runOneLiner
  split
  · exact (sim_logEvent _ _).bind_eq fun _ => Sim.pure rfl
  · exact Sim.pure rfl

theorem sim_perlCommand : LeafSim hosts events (perlCommand v args) (perlCommand (v.outside h) args) := by
  refine (sim_logEvent _ _).bind_eq fun _ => Sim.ite (fun _ => Sim.pure rfl) fun _ => ?_
  refine Sim.ite (fun _ => sim_runOneLiner _ _ _) fun _ => ?_
  split
  · exact Sim.pure rfl
  · exact Sim.ite (fun _ => Sim.pure rfl) fun _ => sim_runScriptFile _ _ _

theorem sim_ncCommand : LeafSim hosts events (ncCommand v args) (ncCommand (v.outside h) args) := by
  refine (sim_logEvent _ _).bind_eq fun _ => Sim.ite (fun _ => Sim.pure rfl) fun _ => ?_
  split
  · exact (sim_logEvent _ _).bind_eq fun _ => Sim.pure rfl
  · split
    · exact Sim.pure rfl
    · exact Sim.pure rfl

theorem sim_installArchives (missing : Str → Output) (installed : Str → Str) (output : Str) (targets : List Str) :
    LeafSim hosts events (installArchives v missing installed output targets)
      (installArchives (v.outside h) missing installed output targets) := by
  induction targets generalizing output with
  | nil => exact Sim.pure rfl
  | cons target targets ih => exact sim_fs.bind_eq fun s => Sim.ite (fun _ => Sim.pure rfl) fun _ => ih _

/-! ### Package managers -/

/-- The package manager is there with the configuration just when it is there without one. -/
def PackagesAlike (W : World) (v : View) (mgr : String) (M : Machine) : Prop :=
  v.config.packageManagers = [] ∨
    isSupportedByConfig mgr.toList v.config.packageManagers = isSupportedByProfile W mgr.toList M.osProfile

theorem simAt_packageManager {mgr : String} {m m' : Leaf Output} {M M' : Machine} (hm : LeafSim hosts events m m')
    (hM : SameMachine hosts events M M') (halike : PackagesAlike W v mgr M) :
    SimAt (fun _ => True) (SameMachine hosts events) Eq (packageManager W v mgr m)
      (packageManager W (v.outside h) mgr m') M M' := by
  have hcond : (if v.config.packageManagers = [] then isSupportedByProfile W mgr.toList M.osProfile
      else isSupportedByConfig mgr.toList v.config.packageManagers) =
        isSupportedByProfile W mgr.toList M'.osProfile := by
    rw [← hM.osProfile]
    rcases halike with hnil | halike
    · rw [if_pos hnil]
    · rw [halike, ite_self]
  refine SimAt.get_bind ?_
  rw [hcond]
  exact Sim.ite (fun _ => hm) (fun _ => Sim.pure rfl) M M' hM

theorem simAt_aptCommand {M M' : Machine} (hM : SameMachine hosts events M M') (halike : PackagesAlike W v "apt" M) :
    SimAt (fun _ => True) (SameMachine hosts events) Eq (aptCommand W v args) (aptCommand W (v.outside h) args)
      M M' := by
  refine simAt_packageManager ?_ hM halike
  split
  · exact Sim.pure rfl
  · refine Sim.ite (fun _ => Sim.pure rfl) fun _ => Sim.ite (fun _ => Sim.pure rfl) fun _ => ?_
    refine Sim.ite (fun _ => Sim.pure rfl) fun _ => Sim.ite (fun _ => ?_) fun _ => Sim.pure rfl
    split
    · exact Sim.pure rfl
    · exact Sim.pure rfl

theorem simAt_dpkgCommand {M M' : Machine} (hM : SameMachine hosts events M M')
    (halike : PackagesAlike W v "dpkg" M) :
    SimAt (fun _ => True) (SameMachine hosts events) Eq (dpkgCommand W v args) (dpkgCommand W (v.outside h) args)
      M M' := by
  refine simAt_packageManager ?_ hM halike
  split
  · exact Sim.pure rfl
  · refine Sim.ite (fun _ => ?_) fun _ => Sim.ite (fun _ => Sim.pure rfl) fun _ => Sim.pure rfl
    exact Sim.ite (fun _ => Sim.pure rfl) fun _ => sim_installArchives _ _ _ _

theorem simAt_rpmCommand {M M' : Machine} (hM : SameMachine hosts events M M') (halike : PackagesAlike W v "rpm" M) :
    SimAt (fun _ => True) (SameMachine hosts events) Eq (rpmCommand W v args) (rpmCommand W (v.outside h) args)
      M M' := by
  refine simAt_packageManager ?_ hM halike
  split
  · exact Sim.pure rfl
  · refine Sim.ite (fun _ => ?_) fun _ => Sim.ite (fun _ => Sim.pure rfl) fun _ => Sim.pure rfl
    exact Sim.ite (fun _ => Sim.pure rfl) fun _ => sim_installArchives _ _ _ _

theorem simAt_yumCommand {M M' : Machine} (hM : SameMachine hosts events M M') (halike : PackagesAlike W v "yum" M) :
    SimAt (fun _ => True) (SameMachine hosts events) Eq (yumCommand W v args) (yumCommand W (v.outside h) args)
      M M' := by
  refine simAt_packageManager ?_ hM halike
  split
  · exact Sim.pure rfl
  · refine Sim.ite (fun _ => Sim.pure rfl) fun _ => Sim.ite (fun _ => Sim.pure rfl) fun _ => ?_
    refine Sim.ite (fun _ => ?_) fun _ => Sim.pure rfl
    split
    · exact Sim.pure rfl
    · exact Sim.pure rfl

/-! ### Commands on the network -/

/-- What a URL is resolved to does not depend on the configuration, and its host is in no cache of the session. -/
def NetworkAlike (W : World) (hosts : Str → Prop) (v : View) (url : Str) : Prop :=
  ∀ scheme host, W.urlparse url = .ok (scheme, some host) → scheme = "http".toList ∨ scheme = "https".toList →
    host ≠ [] → v.config.allowLocalNetwork = ({} : ShellConfig).allowLocalNetwork ∧
      v.config.dnsCacheTtl = ({} : ShellConfig).dnsCacheTtl ∧ ¬hosts host

theorem sim_checkDnsCache {host : Str} (hhost : ¬hosts host) :
    LeafSim hosts events (checkDnsCache W host) (checkDnsCache W host) := by
  refine sim_tick.bind_eq fun tick => Sim.get_bind fun M M' hM => ?_
  rw [hM.dnsCache host hhost]
  cases M'.dnsCache.lookup host with
  | none => exact SimAt.pure hM rfl
  | some entry => exact Sim.ite (fun _ => Sim.pure rfl) (fun _ => Sim.pure rfl) M M' hM

theorem sim_resolveAndVerifyIp {host : Str} (httl : v.config.dnsCacheTtl = ({} : ShellConfig).dnsCacheTtl)
    (allowLocal : Bool) :
    LeafSim hosts events (resolveAndVerifyIp W v host allowLocal)
      (resolveAndVerifyIp W (v.outside h) host allowLocal) := by
  refine sim_tick.bind_eq fun tick => ?_
  dsimp only
  split
  · exact Sim.pure rfl
  · exact Sim.pure rfl
  · split
    · exact Sim.pure rfl
    · exact Sim.pure rfl
    · rw [httl]
      refine sim_tick.bind_eq fun tick => Sim.bind_eq (Sim.modify fun M M' hM => ?_) fun _ => Sim.pure rfl
      refine ⟨hM.1, hM.2, hM.3, hM.4, fun other hother => ?_, hM.6⟩
      by_cases heq : other = host
      · rw [heq, AList.lookup_insert, AList.lookup_insert]
      · rw [AList.lookup_insert_ne heq, AList.lookup_insert_ne heq]
        exact hM.dnsCache other hother

theorem sim_validateUrl {url : Str} (hurl : NetworkAlike W hosts v url) :
    LeafSim hosts events (validateUrl W v url) (validateUrl W (v.outside h) url) := by
  unfold validateUrl
  split
  · exact Sim.pure rfl
  · rename_i scheme hostname hparse
    refine Sim.ite (fun _ => Sim.pure rfl) fun hscheme => ?_
    split
    · exact Sim.pure rfl
    · exact Sim.pure rfl
    · rename_i host hne
      obtain ⟨hlocal, httl, hhost⟩ := hurl scheme host hparse (by tauto) (by simpa using hne)
      refine (sim_checkDnsCache hhost).bind_eq fun cached => ?_
      split
      · exact Sim.pure rfl
      · rw [hlocal]
        exact sim_resolveAndVerifyIp httl _

theorem sim_quarantineDownload (filename : Str) (content : List UInt8) :
    LeafSim hosts events (quarantineDownload v filename content)
      (quarantineDownload (v.outside h) filename content) := by
  refine Sim.ite (fun _ => Sim.modify fun M M' hM => ⟨hM.1, hM.2, ?_, hM.4, hM.5, hM.6⟩) fun _ => Sim.pure rfl
  exact congrArg ((filename, content) :: ·) hM.quarantine

theorem sim_pingCommand
    (hurl : ∀ host ∈ (cleanArgs args).getLast?, NetworkAlike W hosts v ("https://".toList ++ host)) :
    LeafSim hosts events (pingCommand W v args) (pingCommand W (v.outside h) args) := by
  unfold pingCommand
  split
  · exact Sim.pure rfl
  · rename_i host hlast
    refine (sim_validateUrl (hurl host hlast)).bind_eq fun checked => ?_
    split
    · exact Sim.pure rfl
    · exact Sim.pure rfl
    · exact Sim.pure rfl

theorem sim_curlFetch (url : Str) (parsed : Parsed) :
    LeafSim hosts events (curlFetch W v url parsed) (curlFetch W (v.outside h) url parsed) := by
  refine sim_tick.bind_eq fun tick => ?_
  dsimp only
  split
  · exact Sim.pure rfl
  · exact Sim.pure rfl
  · refine Sim.ite (fun _ => Sim.pure rfl) fun _ => Sim.ite (fun _ => Sim.pure rfl) fun _ => ?_
    refine (sim_quarantineDownload _ _).bind_eq fun _ => ?_
    split
    · refine sim_fs.bind_eq fun s => Sim.ite (fun _ => Sim.pure rfl) fun _ => ?_
      refine (sim_onFs _).bind_eq fun node => Sim.ite (fun _ => Sim.pure rfl) fun _ => ?_
      exact Sim.ite (fun _ => Sim.pure rfl) fun _ => Sim.pure rfl
    · exact Sim.pure rfl

/-- The URL that `curl` is given. -/
def curlUrl (parsed : Parsed) : Str := orText (parsed.text "url".toList) (parsed.extras.getLast?.getD [])

theorem sim_curlCommand
    (hurl : ∀ parsed ∈ parseKnownArgs curlParser (readInt W.unicode) args, NetworkAlike W hosts v (curlUrl parsed)) :
    LeafSim hosts events (curlCommand W v args) (curlCommand W (v.outside h) args) := by
  refine sim_parseArgs_bind _ _ fun parsed hparsed => ?_
  have hchecked := hurl parsed hparsed
  unfold curlUrl at hchecked
  split
  · exact Sim.pure rfl
  · refine (sim_validateUrl hchecked).bind_eq fun checked => (sim_logEvent _ _).bind_eq fun _ => ?_
    split
    · exact Sim.pure rfl
    · exact sim_curlFetch _ _

theorem sim_wgetDownload (url : Str) (parsed : Parsed) (resolvedIp : Option Str) :
    LeafSim hosts events (wgetDownload W v url parsed resolvedIp)
      (wgetDownload W (v.outside h) url parsed resolvedIp) := by
  refine sim_tick.bind_eq fun tick => ?_
  dsimp only
  split
  · exact Sim.pure rfl
  · refine Sim.ite (fun _ => Sim.pure rfl) fun _ => (sim_quarantineDownload _ _).bind_eq fun _ => ?_
    exact (sim_onFs _).bind_eq fun _ => Sim.ite (fun _ => Sim.pure rfl) fun _ => Sim.pure rfl

theorem sim_wgetCommand
    (hurl : ∀ parsed ∈ parseKnownArgs wgetParser (readInt W.unicode) args,
      NetworkAlike W hosts v ((parsed.text "url".toList).getD [])) :
    LeafSim hosts events (wgetCommand W v args) (wgetCommand W (v.outside h) args) := by
  refine sim_parseArgs_bind _ _ fun parsed hparsed => (sim_logUnknown _ _).bind_eq fun _ => ?_
  have hchecked := hurl parsed hparsed
  split
  · exact Sim.pure rfl
  · refine (sim_validateUrl hchecked).bind_eq fun checked => (sim_logEvent _ _).bind_eq fun _ => ?_
    split
    · exact Sim.pure rfl
    · exact sim_wgetDownload _ _ _

/-! ### All commands -/

/-- The command, given these arguments, sees the same in another shell at the same place. -/
def LeafCommand.SeesAlike (W : World) (hosts : Str → Prop) (ownHistory : Prop) (cls : LeafCommand) (name : Str)
    (args : List Str) (v : View) (M : Machine) : Prop :=
  match cls with
  | .apt => PackagesAlike W v "apt" M
  | .dpkg => PackagesAlike W v "dpkg" M
  | .rpm => PackagesAlike W v "rpm" M
  | .yum => PackagesAlike W v "yum" M
  | .curl => ∀ parsed ∈ parseKnownArgs curlParser (readInt W.unicode) args, NetworkAlike W hosts v (curlUrl parsed)
  | .wget => ∀ parsed ∈ parseKnownArgs wgetParser (readInt W.unicode) args,
      NetworkAlike W hosts v ((parsed.text "url".toList).getD [])
  | .ping => ∀ host ∈ (cleanArgs args).getLast?, NetworkAlike W hosts v ("https://".toList ++ host)
  | .history => ¬ownHistory
  | .report => ∀ history n, (¬ownHistory → history = v.history) →
      W.report name args v n = W.report name args (v.outside history) n
  | _ => True

/-- A command that sees the same does the same, but that it logs nothing. -/
theorem leaf_alike {cls : LeafCommand} {ownHistory : Prop} {name : Str} {M M' : Machine} (input : Content)
    (hM : SameMachine hosts events M M') (hsees : cls.SeesAlike W hosts ownHistory name args v M)
    (hh : ¬ownHistory → h = v.history) :
    SimAt (fun _ => True) (SameMachine hosts events) Eq (cls.execute W v name args input)
      (cls.execute W (v.outside h) name args input) M M' := by
  have hall : ∀ {m m' : Leaf Output}, LeafSim hosts events m m' → SimAt (fun _ => True) (SameMachine hosts events) Eq
      (Output.toResult <$> m) (Output.toResult <$> m') M M' := fun hm => hm.map_eq M M' hM
  cases cls with
  | apt => exact (simAt_aptCommand hM hsees).map_eq
  | awk => exact hall (sim_awkCommand input)
  | cat => exact sim_catCommand input M M' hM
  | chmod => exact hall sim_chmodCommand
  | cp => exact hall sim_cpCommand
  | curl => exact hall (sim_curlCommand hsees)
  | dpkg => exact (simAt_dpkgCommand hM hsees).map_eq
  | echo => exact hall (Sim.pure rfl)
  | env => exact hall (Sim.pure rfl)
  | find => exact hall sim_findCommand
  | gcc => exact hall sim_gccCommand
  | grep => exact hall (sim_grepCommand input)
  | head => exact hall (sim_linesCommand _ _ input)
  | help => exact hall (Sim.pure rfl)
  | history =>
    rw [hh hsees]
    exact hall (Sim.pure rfl)
  | id => exact hall (Sim.pure rfl)
  | ls => exact hall sim_lsCommand
  | make => exact hall sim_makeCommand
  | mkdir => exact hall sim_mkdirCommand
  | mv => exact hall sim_mvCommand
  | nc => exact hall sim_ncCommand
  | perl => exact hall sim_perlCommand
  | ping => exact hall (sim_pingCommand hsees)
  | pwd => exact hall (Sim.pure rfl)
  | report =>
    refine hall (sim_tick.bind_eq fun n => Sim.pure ?_)
    exact congrArg (fun r : Str × Str × Int => (⟨r.1, r.2.1, r.2.2⟩ : Output)) (hsees h n hh)
  | rm => exact hall (Sim.ite (fun _ => Sim.pure rfl) fun _ => sim_rmLoop _ _ _)
  | rmdir => exact hall (Sim.ite (fun _ => Sim.pure rfl) fun _ => sim_rmdirLoop _)
  | rpm => exact (simAt_rpmCommand hM hsees).map_eq
  | tail => exact hall (sim_linesCommand _ _ input)
  | touch => exact hall (Sim.ite (fun _ => Sim.pure rfl) fun _ => sim_touchLoop _)
  | uname => exact hall sim_unameCommand
  | uptime => exact hall sim_uptimeCommand
  | wget => exact hall (sim_wgetCommand hsees)
  | whoami => exact hall (Sim.pure rfl)
  | yum => exact (simAt_yumCommand hM hsees).map_eq

end Leaf

end Cyanide
