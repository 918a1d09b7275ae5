import Cyanide.Shell.Emulator

/-!
# What commands raise

Commands that work on the machine raise `SystemExit` just when they have a parser and it rejects the arguments
(`systemExit_iff`), and only `ls` may not end; everything else that they raise is taken by a handler for `Exception`
(`caught_execute`).
-/

namespace Cyanide

open PosixPath PyText Traced Argparse

/-- What a handler for `Exception` takes. -/
def Exn.Caught (x : Exn) : Prop := ∃ message, x = .raised message

/-- The parser of a command, if it has one. -/
def LeafCommand.parser : LeafCommand → Option Parser
  | .awk => some awkParser
  | .curl => some curlParser
  | .grep => some grepParser
  | .head | .tail => some linesParser
  | .mkdir => some mkdirParser
  | .wget => some wgetParser
  | _ => none

/-- The parser of the command does not exit. -/
def LeafCommand.accepts (W : World) (cls : LeafCommand) (args : List Str) : Bool :=
  cls.parser.all fun P => (parseKnownArgs P (readInt W.unicode) args).isSome

section Raises

variable {F : Exn → Prop} {W : World} {v : View} {args : List Str}

/-! ### Operations on the machine -/

theorem raisesOnly_fs : RaisesOnly F Leaf.fs := RaisesOnly.get.bind fun _ => RaisesOnly.pure

theorem raisesOnly_onFs {α : Type} (op : FakeFilesystem → α × FakeFilesystem) : RaisesOnly F (Leaf.onFs op) :=
  RaisesOnly.get.bind fun _ => RaisesOnly.modify.bind fun _ => RaisesOnly.pure

theorem raisesOnly_getContentStr (path : Str) : RaisesOnly F (Leaf.getContentStr path) := by
  refine (raisesOnly_onFs _).bind fun content => ?_
  cases content with
  | text t => exact RaisesOnly.pure
  | bytes b => exact RaisesOnly.pure

theorem raisesOnly_logEvent (eventType : Str) (data : List (Str × Str)) :
    RaisesOnly F (Leaf.logEvent v eventType data) := RaisesOnly.ite (fun _ => RaisesOnly.modify) fun _ => RaisesOnly.pure

theorem raisesOnly_tick : RaisesOnly F Leaf.tick :=
  RaisesOnly.get.bind fun _ => RaisesOnly.modify.bind fun _ => RaisesOnly.pure

theorem raisesOnly_logUnknown (name : String) (parsed : Parsed) : RaisesOnly F (logUnknown v name args parsed) :=
  RaisesOnly.ite (fun _ => RaisesOnly.pure) fun _ => raisesOnly_logEvent _ _

/-- A computation whose exceptions a handler takes. -/
abbrev Catchable {α : Type} (m : Leaf α) : Prop := RaisesOnly Exn.Caught m

theorem catchable_throw {α : Type} (message : Str) : Catchable (throw (.raised message) : Leaf α) :=
  RaisesOnly.throw ⟨message, rfl⟩

theorem catchable_concat (a : Str) (b : Content) : Catchable (Leaf.concat a b) := by
  cases b with
  | text b => exact RaisesOnly.pure
  | bytes b => exact catchable_throw _

theorem catchable_joinTexts (sep : Str) (parts : List Content) : Catchable (Leaf.joinTexts sep parts) := by
  unfold Leaf.joinTexts
  split
  · exact RaisesOnly.pure
  · exact catchable_throw _

theorem catchable_orRecursion {m : Leaf (Except RecursionError Bool)} (hm : Catchable m) :
    Catchable (Leaf.orRecursion m) := by
  refine hm.bind fun r => ?_
  cases r with
  | ok b => exact RaisesOnly.pure
  | error x => exact catchable_throw _

/-- The parser of a command that accepts its arguments. -/
theorem catchable_parseArgs {P : Parser} (h : (parseKnownArgs P (readInt W.unicode) args).isSome = true)
    (name : String) : Catchable (parseArgs W v P name args) := by
  obtain ⟨parsed, hparsed⟩ := Option.isSome_iff_exists.1 h
  simp only [parseArgs, hparsed]
  exact RaisesOnly.pure

/-- The parser of a command that rejects its arguments. -/
theorem parseArgs_exits {P : Parser} (h : (parseKnownArgs P (readInt W.unicode) args).isSome = false)
    (name : String) (M : Machine) : (parseArgs W v P name args M).result = .error .systemExit := by
  rw [Option.isSome_eq_false_iff, Option.isNone_iff_eq_none] at h
  simp only [parseArgs, h]
  by_cases hlogger : v.logger = true
  · rw [Leaf.logEvent, if_pos hlogger]
    rfl
  · rw [Leaf.logEvent, if_neg hlogger]
    rfl

/-! ### Commands on files -/

theorem catchable_catFlags (output : Str) (files : List Str) : Catchable (catFlags v output files) := by
  induction files generalizing output with
  | nil => exact RaisesOnly.pure
  | cons f files ih =>
    refine RaisesOnly.ite (fun _ => ?_) fun _ => ih _
    exact (raisesOnly_onFs _).bind fun _ => (catchable_concat _ _).bind fun _ => ih _

theorem raisesOnly_catFile (arg : Str) : RaisesOnly F (catFile v arg) := by
  refine raisesOnly_fs.bind fun s => RaisesOnly.ite (fun _ => ?_) fun _ => ?_
  · exact (raisesOnly_getContentStr _).bind fun _ => RaisesOnly.pure
  · exact RaisesOnly.ite (fun _ => RaisesOnly.pure) fun _ => RaisesOnly.pure

theorem catchable_catLoop (output : Str) (args : List Str) : Catchable (catLoop v output args) := by
  induction args generalizing output with
  | nil => exact RaisesOnly.pure
  | cons arg args ih =>
    refine RaisesOnly.ite (fun _ => RaisesOnly.bind ?_ fun _ => ih _) fun _ => ?_
    · refine RaisesOnly.ite (fun _ => ?_) fun _ => RaisesOnly.pure
      exact raisesOnly_fs.bind fun _ => catchable_catFlags _ _
    · exact (raisesOnly_catFile arg).bind fun r => RaisesOnly.ite (fun _ => RaisesOnly.pure) fun _ => ih _

theorem catchable_catCommand (input : Content) : Catchable (catCommand v args input) :=
  RaisesOnly.ite (fun _ => RaisesOnly.pure) fun _ => (catchable_catLoop _ _).bind fun _ => RaisesOnly.pure

theorem catchable_cpLoop (recursive : Bool) (destStr : Str) (sources : List Str) :
    Catchable (cpLoop W v recursive destStr sources) := by
  induction sources with
  | nil => exact RaisesOnly.pure
  | cons srcStr sources ih =>
    refine raisesOnly_fs.bind fun s => RaisesOnly.ite (fun _ => RaisesOnly.pure) fun _ => ?_
    refine (catchable_orRecursion (raisesOnly_onFs _)).bind fun copied => RaisesOnly.ite (fun _ => ih) fun _ => ?_
    exact raisesOnly_fs.bind fun s => RaisesOnly.ite (fun _ => RaisesOnly.pure) fun _ => RaisesOnly.pure

theorem catchable_mvLoop (destStr : Str) (sources : List Str) : Catchable (mvLoop W v destStr sources) := by
  induction sources with
  | nil => exact RaisesOnly.pure
  | cons srcStr sources ih =>
    refine raisesOnly_fs.bind fun s => RaisesOnly.ite (fun _ => RaisesOnly.pure) fun _ => ?_
    refine (catchable_orRecursion (raisesOnly_onFs _)).bind fun moved => ?_
    exact RaisesOnly.ite (fun _ => ih) fun _ => RaisesOnly.pure

theorem catchable_cpCommand : Catchable (cpCommand W v args) := by
  unfold cpCommand
  dsimp only
  split
  · exact catchable_cpLoop _ _ _
  · exact RaisesOnly.pure

theorem catchable_mvCommand : Catchable (mvCommand W v args) := by
  refine RaisesOnly.ite (fun _ => RaisesOnly.pure) fun _ => ?_
  split
  · exact catchable_mvLoop _ _
  · exact RaisesOnly.pure

theorem raisesOnly_rmLoop (recursive force : Bool) (args : List Str) :
    RaisesOnly F (rmLoop v recursive force args) := by
  induction args with
  | nil => exact RaisesOnly.pure
  | cons arg args ih =>
    refine raisesOnly_fs.bind fun s => ?_
    split
    · exact RaisesOnly.ite (fun _ => ih) fun _ => RaisesOnly.pure
    · exact RaisesOnly.ite (fun _ => RaisesOnly.pure) fun _ => (raisesOnly_onFs _).bind fun _ => ih

theorem raisesOnly_rmCommand : RaisesOnly F (rmCommand v args) :=
  RaisesOnly.ite (fun _ => RaisesOnly.pure) fun _ => raisesOnly_rmLoop _ _ _

theorem raisesOnly_rmdirLoop (args : List Str) : RaisesOnly F (rmdirLoop v args) := by
  induction args with
  | nil => exact RaisesOnly.pure
  | cons arg args ih =>
    refine raisesOnly_fs.bind fun s => RaisesOnly.ite (fun _ => RaisesOnly.pure) fun _ => ?_
    refine RaisesOnly.ite (fun _ => RaisesOnly.pure) fun _ => RaisesOnly.ite (fun _ => RaisesOnly.pure) fun _ => ?_
    exact (raisesOnly_onFs _).bind fun removed => RaisesOnly.ite (fun _ => ih) fun _ => RaisesOnly.pure

theorem raisesOnly_mkdirLoop (parents : Bool) (paths : List Str) : RaisesOnly F (mkdirLoop v parents paths) := by
  induction paths with
  | nil => exact RaisesOnly.pure
  | cons pathStr paths ih =>
    refine raisesOnly_fs.bind fun s => RaisesOnly.ite (fun _ => RaisesOnly.pure) fun _ => ?_
    refine RaisesOnly.ite (fun _ => RaisesOnly.pure) fun _ => (raisesOnly_onFs _).bind fun _ => ?_
    exact (raisesOnly_logEvent _ _).bind fun _ => ih

theorem raisesOnly_touchLoop (args : List Str) : RaisesOnly F (touchLoop v args) := by
  induction args with
  | nil => exact RaisesOnly.pure
  | cons arg args ih =>
    refine RaisesOnly.ite (fun _ => ih) fun _ => (raisesOnly_onFs _).bind fun node => ?_
    exact RaisesOnly.ite (fun _ => RaisesOnly.pure) fun _ => ih

theorem catchable_chmodLoop (mode : Str) (targets : List Str) : Catchable (chmodLoop W v mode targets) := by
  induction targets with
  | nil => exact RaisesOnly.pure
  | cons target targets ih =>
    refine raisesOnly_fs.bind fun s => ?_
    split
    · exact RaisesOnly.pure
    · split
      · exact catchable_throw _
      · split
        · exact catchable_throw _
        · exact (raisesOnly_onFs _).bind fun _ => ih

theorem catchable_chmodCommand : Catchable (chmodCommand W v args) := by
  unfold chmodCommand
  split
  · exact catchable_chmodLoop _ _
  · exact RaisesOnly.pure

theorem raisesOnly_gccCommand : RaisesOnly F (gccCommand v args) := by
  refine RaisesOnly.ite (fun _ => RaisesOnly.pure) fun _ => RaisesOnly.ite (fun _ => RaisesOnly.pure) fun _ => ?_
  refine raisesOnly_fs.bind fun s => ?_
  split
  · exact RaisesOnly.pure
  · refine RaisesOnly.ite (fun _ => (raisesOnly_onFs _).bind fun _ => ?_) fun _ => ?_
    · exact (raisesOnly_logEvent _ _).bind fun _ => RaisesOnly.pure
    · exact (raisesOnly_logEvent _ _).bind fun _ => RaisesOnly.pure

/-! ### Commands that read -/

theorem catchable_linesCommand (name : String) (keep : Int → List Content → List Content) (input : Content)
    (h : (parseKnownArgs linesParser (readInt W.unicode) args).isSome = true) :
    Catchable (linesCommand W v name keep args input) := by
  refine (catchable_parseArgs h _).bind fun parsed => (raisesOnly_logUnknown _ _).bind fun _ => ?_
  dsimp only
  split
  · exact (catchable_joinTexts _ _).bind fun _ => RaisesOnly.pure
  · refine raisesOnly_fs.bind fun s => RaisesOnly.ite (fun _ => RaisesOnly.pure) fun _ => ?_
    refine RaisesOnly.ite (fun _ => (raisesOnly_getContentStr _).bind fun _ => ?_) fun _ => RaisesOnly.pure
    exact (catchable_joinTexts _ _).bind fun _ => RaisesOnly.pure

theorem catchable_grepCollect (recursive : Bool) (lines : List Content) (files : List Str) :
    Catchable (grepCollect W v recursive lines files) := by
  induction files generalizing lines with
  | nil => exact RaisesOnly.pure
  | cons f files ih =>
    refine raisesOnly_fs.bind fun s => RaisesOnly.ite (fun _ => ?_) fun _ => RaisesOnly.ite (fun _ => ?_) fun _ => ?_
    · split
      · exact catchable_throw _
      · refine RaisesOnly.bind (RaisesOnly.foldlM _ (fun _ path => ?_) _) fun _ => ih _
        exact (raisesOnly_onFs _).bind fun _ => RaisesOnly.pure
    · exact (raisesOnly_getContentStr _).bind fun _ => ih _
    · exact RaisesOnly.ite (fun _ => RaisesOnly.pure) fun _ => RaisesOnly.pure

theorem catchable_grepFilter (pattern : Str) (ignoreCase invert : Bool) (output : Str) (lines : List Content) :
    Catchable (grepFilter W pattern ignoreCase invert output lines) := by
  induction lines generalizing output with
  | nil => exact RaisesOnly.pure
  | cons line lines ih =>
    cases line with
    | bytes b => exact catchable_throw _
    | text line => exact RaisesOnly.ite (fun _ => ih _) fun _ => ih _

theorem catchable_grepCommand (input : Content)
    (h : (parseKnownArgs grepParser (readInt W.unicode) args).isSome = true) :
    Catchable (grepCommand W v args input) := by
  refine (catchable_parseArgs h _).bind fun parsed => (raisesOnly_logUnknown _ _).bind fun _ => ?_
  refine RaisesOnly.ite (fun _ => RaisesOnly.pure) fun _ => RaisesOnly.bind ?_ fun collected => ?_
  · refine RaisesOnly.tryCatch (?_ : RaisesOnly Exn.Caught _) ?_
    · exact RaisesOnly.ite (fun _ => RaisesOnly.pure) fun _ => catchable_grepCollect _ _ _
    · rintro x ⟨message, rfl⟩
      exact RaisesOnly.pure
  · cases collected with
    | error message => exact RaisesOnly.pure
    | ok lines => exact (catchable_grepFilter _ _ _ _ _).bind fun _ => RaisesOnly.pure

theorem catchable_awkLine (separator : Str) (fields : List Int) (line : Content) :
    Catchable (awkLine separator fields line) := by
  refine RaisesOnly.ite (fun _ => RaisesOnly.pure) fun _ => RaisesOnly.bind ?_ fun _ => ?_
  · cases line with
    | text line =>
      exact RaisesOnly.ite (fun _ => RaisesOnly.pure) fun _ =>
        RaisesOnly.ite (fun _ => catchable_throw _) fun _ => RaisesOnly.pure
    | bytes line => exact RaisesOnly.ite (fun _ => RaisesOnly.pure) fun _ => catchable_throw _
  · exact (catchable_joinTexts _ _).bind fun _ => RaisesOnly.pure

theorem raisesOnly_awkCollect (lines : List Content) (files : List Str) : RaisesOnly F (awkCollect v lines files) := by
  induction files generalizing lines with
  | nil => exact RaisesOnly.pure
  | cons f files ih =>
    refine raisesOnly_fs.bind fun s => RaisesOnly.ite (fun _ => ?_) fun _ => ?_
    · exact (raisesOnly_onFs _).bind fun _ => ih _
    · exact RaisesOnly.ite (fun _ => RaisesOnly.pure) fun _ => ih _

theorem catchable_awkOutput (separator : Str) (fields : List Int) (output : List Str) (lines : List Content) :
    Catchable (awkOutput separator fields output lines) := by
  induction lines generalizing output with
  | nil => exact RaisesOnly.pure
  | cons line lines ih =>
    refine (catchable_awkLine _ _ _).bind fun row => ?_
    cases row with
    | none => exact ih _
    | some row => exact ih _

theorem catchable_awkCommand (input : Content)
    (h : (parseKnownArgs awkParser (readInt W.unicode) args).isSome = true) : Catchable (awkCommand W v args input) := by
  refine (catchable_parseArgs h _).bind fun parsed => (raisesOnly_logUnknown _ _).bind fun _ => ?_
  refine RaisesOnly.ite (fun _ => RaisesOnly.pure) fun _ => RaisesOnly.ite (fun _ => RaisesOnly.pure) fun _ => ?_
  refine RaisesOnly.bind (RaisesOnly.ite (fun _ => RaisesOnly.pure) fun _ => raisesOnly_awkCollect _ _) fun collected => ?_
  cases collected with
  | error r => exact RaisesOnly.pure
  | ok lines => exact (catchable_awkOutput _ _ _ _).bind fun _ => RaisesOnly.pure

theorem catchable_findCommand : Catchable (findCommand W v args) := by
  unfold findCommand
  split
  · exact RaisesOnly.pure
  · refine raisesOnly_fs.bind fun s => RaisesOnly.ite (fun _ => RaisesOnly.pure) fun _ => ?_
    split
    · exact catchable_throw _
    · exact RaisesOnly.pure

theorem catchable_longLines (output : Str) (nodes : List (Node × Str)) : Catchable (longLines W output nodes) := by
  induction nodes generalizing output with
  | nil => exact RaisesOnly.pure
  | cons node nodes ih =>
    refine raisesOnly_tick.bind fun tick => ?_
    split
    · exact catchable_throw _
    · exact ih _

theorem catchable_formatOutput (nodes : List (Node × Str)) (longFormat : Bool) :
    Catchable (formatOutput W nodes longFormat) := by
  refine RaisesOnly.ite (fun _ => (catchable_longLines _ _).bind fun _ => RaisesOnly.pure) fun _ => ?_
  exact RaisesOnly.ite (fun _ => RaisesOnly.pure) fun _ => RaisesOnly.pure

/-- The queue of `ls -R` may never run empty. -/
theorem raisesOnly_lsQueue (s : FakeFilesystem) (showAll longFormat : Bool) (patience : ℕ) (output : Str)
    (queue : List (Str × Str)) :
    RaisesOnly (fun x => x.Caught ∨ x = .endless) (lsQueue W s showAll longFormat patience output queue) := by
  induction patience generalizing output queue with
  | zero =>
    cases queue with
    | nil => exact RaisesOnly.pure
    | cons dir queue => exact RaisesOnly.throw (.inr rfl)
  | succ patience ih =>
    cases queue with
    | nil => exact RaisesOnly.pure
    | cons dir queue =>
      unfold lsQueue
      split
      · exact ih _ _
      · refine RaisesOnly.ite (fun _ => ih _ _) fun _ => ?_
        exact ((catchable_formatOutput _ _).mono fun _ hx => .inl hx).bind fun _ => ih _ _

theorem raisesOnly_lsCommand : RaisesOnly (fun x => x.Caught ∨ x = .endless) (lsCommand W v args) := by
  refine raisesOnly_fs.bind fun s => ?_
  split
  · exact RaisesOnly.pure
  · refine RaisesOnly.ite (fun _ => (raisesOnly_lsQueue _ _ _ _ _ _).bind fun _ => RaisesOnly.pure) fun _ => ?_
    exact ((catchable_formatOutput _ _).mono fun _ hx => .inl hx).bind fun _ => RaisesOnly.pure

/-! ### Commands about the system and the network -/

theorem catchable_unameCommand : Catchable (unameCommand args) := by
  refine RaisesOnly.ite (fun _ => RaisesOnly.pure) fun _ => RaisesOnly.ite (fun _ => RaisesOnly.pure) fun _ => ?_
  refine RaisesOnly.ite (fun _ => RaisesOnly.pure) fun _ => ?_
  split
  · exact RaisesOnly.pure
  · split
    · exact catchable_throw _
    · exact RaisesOnly.pure

theorem catchable_uptimeCommand : Catchable (uptimeCommand W) := by
  refine (raisesOnly_onFs _).bind fun content => ?_
  split
  · exact catchable_throw _
  · exact raisesOnly_tick.bind fun _ => RaisesOnly.pure

theorem raisesOnly_makeCommand : RaisesOnly F (makeCommand v) := by
  refine raisesOnly_fs.bind fun s => RaisesOnly.ite (fun _ => ?_) fun _ => RaisesOnly.pure
  exact (raisesOnly_logEvent _ _).bind fun _ => RaisesOnly.pure

theorem raisesOnly_runScriptFile (name : String) (missing : Str → Str) (file : Str) :
    RaisesOnly F (runScriptFile v name missing file) := by
  refine raisesOnly_fs.bind fun s => RaisesOnly.ite (fun _ => ?_) fun _ => RaisesOnly.pure
  exact (raisesOnly_onFs _).bind fun _ => (raisesOnly_logEvent _ _).bind fun _ => RaisesOnly.pure

theorem raisesOnly_runOneLiner (name flag : String) (missing : Output) :
    RaisesOnly F (runOneLiner v name flag missing args) := by
  unfold runOneLiner
  split
  · exact (raisesOnly_logEvent _ _).bind fun _ => RaisesOnly.pure
  · exact RaisesOnly.pure

theorem raisesOnly_perlCommand : RaisesOnly F (perlCommand v args) := by
  refine (raisesOnly_logEvent _ _).bind fun _ => RaisesOnly.ite (fun _ => RaisesOnly.pure) fun _ => ?_
  refine RaisesOnly.ite (fun _ => raisesOnly_runOneLiner _ _ _) fun _ => ?_
  split
  · exact RaisesOnly.pure
  · exact RaisesOnly.ite (fun _ => RaisesOnly.pure) fun _ => raisesOnly_runScriptFile _ _ _

theorem raisesOnly_packageManager (mgr : String) {m : Leaf Output} (hm : RaisesOnly F m) :
    RaisesOnly F (packageManager W v mgr m) :=
  RaisesOnly.get.bind fun _ => RaisesOnly.ite (fun _ => hm) fun _ => RaisesOnly.pure

theorem raisesOnly_installArchives (missing : Str → Output) (installed : Str → Str) (output : Str)
    (targets : List Str) : RaisesOnly F (installArchives v missing installed output targets) := by
  induction targets generalizing output with
  | nil => exact RaisesOnly.pure
  | cons target targets ih => exact raisesOnly_fs.bind fun s => RaisesOnly.ite (fun _ => RaisesOnly.pure) fun _ => ih _

theorem raisesOnly_aptCommand : RaisesOnly F (aptCommand W v args) := by
  refine raisesOnly_packageManager _ ?_
  split
  · exact RaisesOnly.pure
  · refine RaisesOnly.ite (fun _ => RaisesOnly.pure) fun _ => RaisesOnly.ite (fun _ => RaisesOnly.pure) fun _ => ?_
    refine RaisesOnly.ite (fun _ => RaisesOnly.pure) fun _ => RaisesOnly.ite (fun _ => ?_) fun _ => RaisesOnly.pure
    split
    · exact RaisesOnly.pure
    · exact RaisesOnly.pure

theorem raisesOnly_dpkgCommand : RaisesOnly F (dpkgCommand W v args) := by
  refine raisesOnly_packageManager _ ?_
  split
  · exact RaisesOnly.pure
  · refine RaisesOnly.ite (fun _ => ?_) fun _ => RaisesOnly.ite (fun _ => RaisesOnly.pure) fun _ => RaisesOnly.pure
    exact RaisesOnly.ite (fun _ => RaisesOnly.pure) fun _ => raisesOnly_installArchives _ _ _ _

theorem raisesOnly_rpmCommand : RaisesOnly F (rpmCommand W v args) := by
  refine raisesOnly_packageManager _ ?_
  split
  · exact RaisesOnly.pure
  · refine RaisesOnly.ite (fun _ => ?_) fun _ => RaisesOnly.ite (fun _ => RaisesOnly.pure) fun _ => RaisesOnly.pure
    exact RaisesOnly.ite (fun _ => RaisesOnly.pure) fun _ => raisesOnly_installArchives _ _ _ _

theorem raisesOnly_yumCommand : RaisesOnly F (yumCommand W v args) := by
  refine raisesOnly_packageManager _ ?_
  split
  · exact RaisesOnly.pure
  · refine RaisesOnly.ite (fun _ => RaisesOnly.pure) fun _ => RaisesOnly.ite (fun _ => RaisesOnly.pure) fun _ => ?_
    refine RaisesOnly.ite (fun _ => ?_) fun _ => RaisesOnly.pure
    split
    · exact RaisesOnly.pure
    · exact RaisesOnly.pure

theorem raisesOnly_validateUrl (url : Str) : RaisesOnly F (validateUrl W v url) := by
  unfold validateUrl
  split
  · exact RaisesOnly.pure
  · refine RaisesOnly.ite (fun _ => RaisesOnly.pure) fun _ => ?_
    split
    · exact RaisesOnly.pure
    · exact RaisesOnly.pure
    · refine RaisesOnly.bind ?_ fun cached => ?_
      · refine raisesOnly_tick.bind fun _ => RaisesOnly.get.bind fun M => ?_
        split
        · exact RaisesOnly.ite (fun _ => RaisesOnly.pure) fun _ => RaisesOnly.pure
        · exact RaisesOnly.pure
      · split
        · exact RaisesOnly.pure
        · refine raisesOnly_tick.bind fun _ => ?_
          split
          · exact RaisesOnly.pure
          · exact RaisesOnly.pure
          · split
            · exact RaisesOnly.pure
            · exact RaisesOnly.pure
            · exact raisesOnly_tick.bind fun _ => RaisesOnly.modify.bind fun _ => RaisesOnly.pure

theorem raisesOnly_pingCommand : RaisesOnly F (pingCommand W v args) := by
  unfold pingCommand
  split
  · exact RaisesOnly.pure
  · refine (raisesOnly_validateUrl _).bind fun checked => ?_
    split
    · exact RaisesOnly.pure
    · exact RaisesOnly.pure
    · exact RaisesOnly.pure

theorem raisesOnly_quarantineDownload (filename : Str) (content : List UInt8) :
    RaisesOnly F (quarantineDownload v filename content) :=
  RaisesOnly.ite (fun _ => RaisesOnly.modify) fun _ => RaisesOnly.pure

theorem raisesOnly_curlFetch (url : Str) (parsed : Parsed) : RaisesOnly F (curlFetch W v url parsed) := by
  refine raisesOnly_tick.bind fun tick => ?_
  split
  · exact RaisesOnly.pure
  · exact RaisesOnly.pure
  · refine RaisesOnly.ite (fun _ => RaisesOnly.pure) fun _ => RaisesOnly.ite (fun _ => RaisesOnly.pure) fun _ => ?_
    refine (raisesOnly_quarantineDownload _ _).bind fun _ => ?_
    split
    · refine raisesOnly_fs.bind fun s => RaisesOnly.ite (fun _ => RaisesOnly.pure) fun _ => ?_
      refine (raisesOnly_onFs _).bind fun node => RaisesOnly.ite (fun _ => RaisesOnly.pure) fun _ => ?_
      exact RaisesOnly.ite (fun _ => RaisesOnly.pure) fun _ => RaisesOnly.pure
    · exact RaisesOnly.pure

theorem catchable_curlCommand (h : (parseKnownArgs curlParser (readInt W.unicode) args).isSome = true) :
    Catchable (curlCommand W v args) := by
  refine (catchable_parseArgs h _).bind fun parsed => ?_
  split
  · exact RaisesOnly.pure
  · refine (raisesOnly_validateUrl _).bind fun checked => (raisesOnly_logEvent _ _).bind fun _ => ?_
    split
    · exact RaisesOnly.pure
    · exact raisesOnly_curlFetch _ _

theorem raisesOnly_wgetDownload (url : Str) (parsed : Parsed) (resolvedIp : Option Str) :
    RaisesOnly F (wgetDownload W v url parsed resolvedIp) := by
  refine raisesOnly_tick.bind fun tick => ?_
  split
  · exact RaisesOnly.pure
  · refine RaisesOnly.ite (fun _ => RaisesOnly.pure) fun _ => (raisesOnly_quarantineDownload _ _).bind fun _ => ?_
    exact (raisesOnly_onFs _).bind fun _ => RaisesOnly.ite (fun _ => RaisesOnly.pure) fun _ => RaisesOnly.pure

theorem catchable_wgetCommand (h : (parseKnownArgs wgetParser (readInt W.unicode) args).isSome = true) :
    Catchable (wgetCommand W v args) := by
  refine (catchable_parseArgs h _).bind fun parsed => (raisesOnly_logUnknown _ _).bind fun _ => ?_
  split
  · exact RaisesOnly.pure
  · refine (raisesOnly_validateUrl _).bind fun checked => (raisesOnly_logEvent _ _).bind fun _ => ?_
    split
    · exact RaisesOnly.pure
    · exact raisesOnly_wgetDownload _ _ _

theorem raisesOnly_ncCommand : RaisesOnly F (ncCommand v args) := by
  refine (raisesOnly_logEvent _ _).bind fun _ => RaisesOnly.ite (fun _ => RaisesOnly.pure) fun _ => ?_
  split
  · exact (raisesOnly_logEvent _ _).bind fun _ => RaisesOnly.pure
  · split
    · exact RaisesOnly.pure
    · exact RaisesOnly.pure

theorem catchable_mkdirCommand (h : (parseKnownArgs mkdirParser (readInt W.unicode) args).isSome = true) :
    Catchable (mkdirCommand W v args) := by
  refine (catchable_parseArgs h _).bind fun parsed => (raisesOnly_logUnknown _ _).bind fun _ => ?_
  exact RaisesOnly.ite (fun _ => RaisesOnly.pure) fun _ => raisesOnly_mkdirLoop _ _

/-! ### All commands -/

/-- A command whose arguments its parser accepts, if it has one. -/
theorem caught_execute {cls : LeafCommand} (h : cls.accepts W args = true) (name : Str) (input : Content) :
    RaisesOnly (fun x => x.Caught ∨ (cls = .ls ∧ x = .endless)) (cls.execute W v name args input) := by
  have hcaught : ∀ {α : Type} {m : Leaf α}, Catchable m →
      RaisesOnly (fun x => x.Caught ∨ (cls = .ls ∧ x = .endless)) m := fun hm => hm.mono fun x hx => .inl hx
  cases cls with
  | apt => exact raisesOnly_aptCommand.map
  | awk => exact hcaught (catchable_awkCommand input h).map
  | cat => exact hcaught (catchable_catCommand input)
  | chmod => exact hcaught catchable_chmodCommand.map
  | cp => exact hcaught catchable_cpCommand.map
  | curl => exact hcaught (catchable_curlCommand h).map
  | dpkg => exact raisesOnly_dpkgCommand.map
  | echo => exact RaisesOnly.pure.map
  | env => exact RaisesOnly.pure.map
  | find => exact hcaught catchable_findCommand.map
  | gcc => exact raisesOnly_gccCommand.map
  | grep => exact hcaught (catchable_grepCommand input h).map
  | head => exact hcaught (catchable_linesCommand _ _ input h).map
  | help => exact RaisesOnly.pure.map
  | history => exact RaisesOnly.pure.map
  | id => exact RaisesOnly.pure.map
  | ls => exact (raisesOnly_lsCommand.mono fun x hx => hx.imp_right fun hx => ⟨rfl, hx⟩).map
  | make => exact raisesOnly_makeCommand.map
  | mkdir => exact hcaught (catchable_mkdirCommand h).map
  | mv => exact hcaught catchable_mvCommand.map
  | nc => exact raisesOnly_ncCommand.map
  | perl => exact raisesOnly_perlCommand.map
  | ping => exact raisesOnly_pingCommand.map
  | pwd => exact RaisesOnly.pure.map
  | report => exact (raisesOnly_tick.bind fun _ => RaisesOnly.pure).map
  | rm => exact raisesOnly_rmCommand.map
  | rmdir => exact (RaisesOnly.ite (fun _ => RaisesOnly.pure) fun _ => raisesOnly_rmdirLoop _).map
  | rpm => exact raisesOnly_rpmCommand.map
  | tail => exact hcaught (catchable_linesCommand _ _ input h).map
  | touch => exact (RaisesOnly.ite (fun _ => RaisesOnly.pure) fun _ => raisesOnly_touchLoop _).map
  | uname => exact hcaught catchable_unameCommand.map
  | uptime => exact hcaught catchable_uptimeCommand.map
  | wget => exact hcaught (catchable_wgetCommand h).map
  | whoami => exact RaisesOnly.pure.map
  | yum => exact raisesOnly_yumCommand.map

/-- A command whose parser rejects the arguments. -/
theorem exits_execute {cls : LeafCommand} (h : cls.accepts W args = false) (name : Str) (input : Content)
    (M : Machine) : (cls.execute W v name args input M).result = .error .systemExit := by
  have hexits : ∀ {P : Parser} {name : String} {f : Parsed → Leaf Output},
      (parseKnownArgs P (readInt W.unicode) args).isSome = false →
        ((Output.toResult <$> (parseArgs W v P name args >>= f)) M).result = .error .systemExit := by
    intro P name f hP
    rw [map_bind, bind_error (parseArgs_exits hP name M)]
  cases cls with
  | awk => exact hexits h
  | curl => exact hexits h
  | grep => exact hexits h
  | head => exact hexits h
  | mkdir => exact hexits h
  | tail => exact hexits h
  | wget => exact hexits h
  | _ => cases h

theorem systemExit_iff {cls : LeafCommand} (name : Str) (input : Content) (M : Machine) :
    (cls.execute W v name args input M).result = .error .systemExit ↔ cls.accepts W args = false := by
  refine ⟨fun h => ?_, fun h => exits_execute h name input M⟩
  by_contra hacc
  obtain ⟨message, hmessage⟩ | ⟨-, hendless⟩ := caught_execute (Bool.not_eq_false _ ▸ hacc) name input M _ h
  · cases hmessage
  · cases hendless

end Raises

end Cyanide
