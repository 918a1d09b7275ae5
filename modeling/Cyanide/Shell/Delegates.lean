import Cyanide.Shell.History
import Cyanide.Shell.Outside

/-!
# Delegated commands

`sudo` and `doas` run a command in a new shell, which has the session's machine and directory but not its environment,
aliases, history, configuration, logger and DNS cache, and whose prompts nobody answers.  `delegates_iff` says when that
comes to the same as running the command as root in the session, which is what `pkexec` does: when the command comes
across nothing that is the session's own, logs nothing and leaves no prompt.
-/

namespace Cyanide

open PosixPath PyText Traced

/-! ### What is the session's own -/

/-- The variables, aliases and cached hosts that a session does not share with a new shell, whether its history is one
of them, and its cron jobs. -/
structure Own where
  vars : Str → Prop
  aliases : Str → Prop
  hosts : Str → Prop
  history : Prop
  tasks : List Str

namespace Own

def nothing : Own := ⟨fun _ => False, fun _ => False, fun _ => False, False, []⟩

/-- What a session does not share with a shell with an empty cache. -/
def ofSession (e : ShellEmulator) (shell : ShellState) : Own where
  vars name := e.env.lookup name ≠ shell.env.lookup name
  aliases name := e.aliases.lookup name ≠ shell.aliases.lookup name
  hosts host := e.machine.dnsCache.lookup host ≠ none
  history := e.history ≠ shell.history
  tasks := e.backgroundTasks

end Own

/-- A session `s` and another shell `t`, at the same place on machines that are the same. -/
structure Shares (own : Own) (events : List Event) (s t : ShellEmulator) : Prop where
  username : s.username = t.username
  cwd : s.cwd = t.cwd
  quarantineCallback : s.quarantineCallback = t.quarantineCallback
  env : ∀ name, ¬own.vars name → s.env.lookup name = t.env.lookup name
  aliases : ∀ name, ¬own.aliases name → s.aliases.lookup name = t.aliases.lookup name
  history : ¬own.history → t.history = s.history
  config : t.config = {}
  logger : t.logger = false
  pending : s.pendingInputCallback = t.pendingInputCallback
  tasks : s.backgroundTasks = own.tasks
  no_tasks : t.backgroundTasks = []
  detached : s.detached = t.detached
  machine : SameMachine own.hosts events s.machine t.machine

section Own

variable {W : World} {own : Own} {events : List Event} {s t : ShellEmulator}

theorem Shares.fs (h : Shares own events s t) : s.fs = t.fs := h.machine.fs

theorem Shares.view (h : Shares own events s t) : t.view = s.view.outside t.history := by
  simp only [ShellEmulator.view, ← h.username, ← h.cwd, ← h.quarantineCallback, h.config, h.logger]

/-- A new shell shares all with itself. -/
theorem Shares.of_new {shell : ShellState} {M M' : Machine} {detached : List DetachedShell}
    (hconfig : shell.config = {}) (hlogger : shell.logger = false) (htasks : shell.backgroundTasks = [])
    (hmachine : SameMachine Own.nothing.hosts events M M') :
    Shares .nothing events ⟨shell, M, detached⟩ ⟨shell, M', detached⟩ where
  username := rfl
  cwd := rfl
  quarantineCallback := rfl
  env _ _ := rfl
  aliases _ _ := rfl
  history _ := rfl
  config := hconfig
  logger := hlogger
  pending := rfl
  tasks := htasks
  no_tasks := htasks
  detached := rfl
  machine := hmachine

/-! ### Steps that come across nothing of the session's own -/

/-- The line is expanded to the same without the session's own variables, and within the limits of a new shell. -/
def LineAlike (W : World) (own : Own) (e : ShellEmulator) (line : Str) : Prop :=
  strip line ≠ [] →
    (∀ env : Dict Str, (∀ name, ¬own.vars name → e.env.lookup name = env.lookup name) →
      expandVars W.unicode env line = expandVars W.unicode e.env line) ∧
    (e.config.maxChainDepth < (parseChain (expandVars W.unicode e.env line)).length ↔
      ({} : ShellConfig).maxChainDepth < (parseChain (expandVars W.unicode e.env line)).length) ∧
    e.config.maxOutputSize = ({} : ShellConfig).maxOutputSize

/-- The name of the command that a segment of a pipeline runs. -/
def commandOf (segment : Str) : Option Str :=
  match parseRedirections segment with
  | .error _ => none
  | .ok (cmdStr, _) =>
    match Shlex.split cmdStr with
    | .ok (name :: _) => some name
    | _ => none

def ShellCommand.SeesAlike (own : Own) (cls : ShellCommand) (args : List Str) : Prop :=
  match cls with
  | .cd => args = [] → ¬own.vars "HOME".toList
  | .alias_ => (args = [] → ∀ name, ¬own.aliases name) ∧
      ∀ arg ∈ args, (partition '=' arg).2 = none → ¬own.aliases arg
  | .unalias => ∀ arg ∈ args, ¬own.aliases arg
  | _ => True

def CommandClass.SeesAlike (W : World) (own : Own) (cls : CommandClass) (name : Str) (args : List Str)
    (e : ShellEmulator) : Prop :=
  match cls with
  | .leaf cls => cls.SeesAlike W own.hosts own.history name args e.view e.machine
  | .shell cls => cls.SeesAlike own args

/-- The step comes across nothing of the session's own, and is no answer to a prompt. -/
def StepAlike (W : World) (own : Own) : Step → Prop
  | .enter _ _ line e => LineAlike W own e line
  | .answer .. => False
  | .segment _ text => ∀ name ∈ commandOf text, ¬own.aliases name
  | .dispatch _ name args _ e => ∀ cls ∈ lookupCommand name, cls.SeesAlike W own name args e
  | _ => True

/-- What comes across nothing of the session's own does so in a new shell. -/
theorem StepAlike.nothing {step : Step} (h : StepAlike W own step) : StepAlike W .nothing step := by
  cases step with
  | enter c depth line e =>
    intro hne
    obtain ⟨hexpand, hlimits⟩ := h hne
    exact ⟨fun env henv => hexpand env fun name _ => henv name id, hlimits⟩
  | answer c callback line e => exact h
  | segment c text => exact fun name hname => id
  | dispatch c name args input e =>
    intro cls hcls
    have hsees := h cls hcls
    cases cls with
    | leaf cls =>
      have hurl : ∀ {url}, NetworkAlike W own.hosts e.view url → NetworkAlike W Own.nothing.hosts e.view url :=
        fun hurl scheme host hparse hscheme hne =>
          let ⟨hlocal, httl, _⟩ := hurl scheme host hparse hscheme hne
          ⟨hlocal, httl, id⟩
      cases cls with
      | curl => exact fun parsed hparsed => hurl (hsees parsed hparsed)
      | wget => exact fun parsed hparsed => hurl (hsees parsed hparsed)
      | ping => exact fun host hhost => hurl (hsees host hhost)
      | history => exact id
      | report => exact fun history n hhistory => hsees history n fun _ => hhistory id
      | _ => exact hsees
    | shell cls =>
      cases cls with
      | cd => exact fun _ => id
      | alias_ => exact ⟨fun _ _ => id, fun _ _ _ => id⟩
      | unalias => exact fun _ _ => id
      | _ => exact hsees
  | _ => trivial

/-- Two computations of shells that share what is not the session's own end alike. -/
abbrev ShellSim (W : World) (own : Own) (events : List Event) {α : Type} (m m' : Shell α) : Prop :=
  Sim (StepAlike W own) (Shares own events) Eq m m'

/-! ### Operations of the shell -/

theorem simAt_onMachine {α : Type} {m m' : Leaf α} (h : Shares own events s t)
    (hm : SimAt (fun _ => True) (SameMachine own.hosts events) Eq m m' s.machine t.machine) :
    SimAt (StepAlike W own) (Shares own events) Eq (onMachine m) (onMachine m') s t :=
  SimAt.embed hm fun _ _ hM => { h with machine := hM }

theorem sim_onMachine {α : Type} {m m' : Leaf α} (hm : LeafSim own.hosts events m m') :
    ShellSim W own events (onMachine m) (onMachine m') := fun _ _ h => simAt_onMachine h (hm _ _ h.machine)

theorem sim_ask (callback : Callback) (prompt : Str) :
    ShellSim W own events (ask callback prompt) (ask callback prompt) :=
  Sim.modify fun _ _ h => { h with pending := rfl }

/-! ### Directory, environment and aliases -/

variable {args : List Str}

theorem sim_cdCommand (hsees : ShellCommand.SeesAlike own .cd args) :
    ShellSim W own events (cdCommand args) (cdCommand args) := by
  have hset : ∀ target, ShellSim W own events (modify fun e => { e with cwd := target })
      (modify fun e => { e with cwd := target }) := fun target => Sim.modify fun _ _ h => { h with cwd := rfl }
  refine Sim.get_bind fun s t h => ?_
  dsimp only
  rw [← h.fs]
  cases args with
  | nil =>
    rw [h.env _ (hsees rfl)]
    exact Sim.ite (fun _ => (hset _).bind_eq fun _ => Sim.pure rfl) (fun _ => Sim.throw) s t h
  | cons arg args =>
    rw [← h.cwd]
    refine Sim.ite (fun _ => (hset _).bind_eq fun _ => Sim.pure rfl) (fun _ => ?_) s t h
    exact Sim.ite (fun _ => Sim.pure rfl) fun _ => Sim.pure rfl

theorem lookup_foldl_insert {d d' : Dict Str} {P : Str → Prop} (h : ∀ name, P name → d.lookup name = d'.lookup name)
    (items : List (Str × Str)) (name : Str) (hname : P name) :
    (items.foldl (fun d (key, value) => d.insert key value) d).lookup name =
      (items.foldl (fun d (key, value) => d.insert key value) d').lookup name := by
  induction items generalizing d d' with
  | nil => exact h name hname
  | cons item items ih =>
    refine ih fun other hother => ?_
    by_cases heq : other = item.1
    · rw [heq, AList.lookup_insert, AList.lookup_insert]
    · rw [AList.lookup_insert_ne heq, AList.lookup_insert_ne heq]
      exact h other hother

theorem sim_exportCommand : ShellSim W own events (exportCommand args) (exportCommand args) := by
  refine Sim.bind_eq (Sim.modify fun s t h => ?_) fun _ => Sim.pure rfl
  exact { h with env := lookup_foldl_insert h.env (assignments args) }

private theorem textLe_trans (a b c : Str) (hab : textLe a b = true) (hbc : textLe b c = true) :
    textLe a c = true := by
  induction a generalizing b c with
  | nil => rfl
  | cons x a ih =>
    cases b with
    | nil => cases hab
    | cons y b =>
      cases c with
      | nil => cases hbc
      | cons z c =>
        rw [textLe] at hab hbc ⊢
        by_cases hxy : x = y
        · subst hxy
          rw [if_pos rfl] at hab
          split_ifs at hbc ⊢ with hxz
          · exact ih b c hab hbc
          · exact hbc
        · rw [if_neg hxy] at hab
          have hlt : x.toNat < y.toNat := by simpa using hab
          by_cases hyz : y = z
          · subst hyz
            rw [if_neg hxy]
            exact hab
          · rw [if_neg hyz] at hbc
            have hlt' : y.toNat < z.toNat := by simpa using hbc
            have hxz : x ≠ z := by
              rintro rfl
              omega
            rw [if_neg hxz, decide_eq_true_eq]
            omega

private theorem textLe_total (a b : Str) : (textLe a b || textLe b a) = true := by
  induction a generalizing b with
  | nil => rfl
  | cons x a ih =>
    cases b with
    | nil => rfl
    | cons y b =>
      rw [textLe, textLe]
      by_cases hxy : x = y
      · subst hxy
        rw [if_pos rfl, if_pos rfl]
        exact ih b
      · have hne : x.toNat ≠ y.toNat := fun heq => hxy (Char.toNat_inj.1 heq)
        rw [if_neg hxy, if_neg (Ne.symm hxy), Bool.or_eq_true, decide_eq_true_eq, decide_eq_true_eq]
        omega

private theorem textLe_antisymm (a b : Str) (hab : textLe a b = true) (hba : textLe b a = true) : a = b := by
  induction a generalizing b with
  | nil =>
    cases b with
    | nil => rfl
    | cons y b => cases hba
  | cons x a ih =>
    cases b with
    | nil => cases hab
    | cons y b =>
      rw [textLe] at hab hba
      by_cases hxy : x = y
      · subst hxy
        rw [if_pos rfl] at hab hba
        rw [ih b hab hba]
      · rw [if_neg hxy, decide_eq_true_eq] at hab
        rw [if_neg (Ne.symm hxy), decide_eq_true_eq] at hba
        omega

/-- The list of the aliases only depends on what they stand for. -/
theorem listAliases_congr {d d' : Dict Str} (h : ∀ name, d.lookup name = d'.lookup name) :
    listAliases d = listAliases d' := by
  have hkeys : d.keys.Perm d'.keys := by
    refine (List.perm_ext_iff_of_nodup d.keys_nodup d'.keys_nodup).2 fun name => ?_
    rw [← AList.mem_keys, ← AList.mem_keys, ← AList.lookup_isSome, ← AList.lookup_isSome, h name]
  have hsorted : d.keys.mergeSort textLe = d'.keys.mergeSort textLe := by
    refine List.Perm.eq_of_pairwise (fun a b _ _ => textLe_antisymm a b)
      (List.pairwise_mergeSort textLe_trans textLe_total _) (List.pairwise_mergeSort textLe_trans textLe_total _) ?_
    exact (List.mergeSort_perm _ _).trans (hkeys.trans (List.mergeSort_perm _ _).symm)
  unfold listAliases
  rw [hsorted]
  congr 1
  funext name
  rw [h name]

theorem aliasLoop_alike {d d' : Dict Str} (h : ∀ name, ¬own.aliases name → d.lookup name = d'.lookup name)
    (output : Str) (rc : Int) (hargs : ∀ arg ∈ args, (partition '=' arg).2 = none → ¬own.aliases arg) :
    (aliasLoop d output rc args).2 = (aliasLoop d' output rc args).2 ∧ ∀ name, ¬own.aliases name →
      (aliasLoop d output rc args).1.lookup name = (aliasLoop d' output rc args).1.lookup name := by
  induction args generalizing d d' output rc with
  | nil => exact ⟨rfl, h⟩
  | cons arg args ih =>
    have hrest : ∀ arg ∈ args, (partition '=' arg).2 = none → ¬own.aliases arg := fun a ha => hargs a (by simp [ha])
    unfold aliasLoop
    cases hpart : partition '=' arg with
    | mk name value =>
      cases value with
      | some value =>
        refine ih (fun other hother => ?_) output rc hrest
        by_cases heq : other = name
        · rw [heq, AList.lookup_insert, AList.lookup_insert]
        · rw [AList.lookup_insert_ne heq, AList.lookup_insert_ne heq]
          exact h other hother
      | none =>
        dsimp only
        rw [h arg (hargs arg (by simp) (by rw [hpart]))]
        cases d'.lookup arg with
        | some value => exact ih h _ _ hrest
        | none => exact ih h _ _ hrest

theorem unaliasLoop_alike {d d' : Dict Str} (h : ∀ name, ¬own.aliases name → d.lookup name = d'.lookup name)
    (hargs : ∀ arg ∈ args, ¬own.aliases arg) :
    (unaliasLoop d args).2 = (unaliasLoop d' args).2 ∧ ∀ name, ¬own.aliases name →
      (unaliasLoop d args).1.lookup name = (unaliasLoop d' args).1.lookup name := by
  induction args generalizing d d' with
  | nil => exact ⟨rfl, h⟩
  | cons arg args ih =>
    unfold unaliasLoop
    rw [h arg (hargs arg (by simp))]
    split_ifs with hsome
    · refine ih (fun name hname => ?_) fun a ha => hargs a (by simp [ha])
      by_cases heq : name = arg
      · rw [heq, AList.lookup_erase, AList.lookup_erase]
      · rw [AList.lookup_erase_ne heq, AList.lookup_erase_ne heq]
        exact h name hname
    · exact ⟨rfl, h⟩

theorem sim_aliasCommand (hsees : ShellCommand.SeesAlike own .alias_ args) :
    ShellSim W own events (aliasCommand args) (aliasCommand args) := by
  refine Sim.get_bind fun s t h => ?_
  dsimp only
  by_cases hnil : args = []
  · rw [if_pos hnil, if_pos hnil]
    exact SimAt.pure h (congrArg Output.ok (listAliases_congr fun name => h.aliases name (hsees.1 hnil name)))
  · obtain ⟨houtput, haliases⟩ := aliasLoop_alike h.aliases [] 0 hsees.2
    rw [if_neg hnil, if_neg hnil]
    exact SimAt.modify_bind (SimAt.pure { h with aliases := haliases } houtput)

theorem sim_unaliasCommand (hsees : ShellCommand.SeesAlike own .unalias args) :
    ShellSim W own events (unaliasCommand args) (unaliasCommand args) := by
  refine Sim.ite (fun _ => Sim.pure rfl) fun _ => Sim.get_bind fun s t h => ?_
  obtain ⟨houtput, haliases⟩ := unaliasLoop_alike h.aliases hsees
  exact SimAt.modify_bind (SimAt.pure { h with aliases := haliases } houtput)

/-! ### Prompts -/

theorem sim_setLines (name : Str) (lines : List Content) :
    ShellSim W own events (setLines name lines) (setLines name lines) := Sim.modify fun _ _ h => { h with }

theorem sim_existingContent {hosts : Str → Prop} (path : Str) :
    LeafSim hosts events (existingContent path) (existingContent path) :=
  sim_fs.bind_eq fun _ => Sim.ite (fun _ => sim_onFs _) fun _ => Sim.pure rfl

theorem sim_crontabInstall : ShellSim W own events (crontabInstall args) (crontabInstall args) := by
  refine Sim.get_bind fun s t h => ?_
  cases cleanArgs args with
  | nil => exact SimAt.pure h rfl
  | cons file files =>
    dsimp only
    rw [← h.fs, ← h.cwd, ← h.username]
    refine Sim.ite (fun _ => Sim.pure rfl) (fun _ => Sim.ite (fun _ => Sim.pure rfl) fun _ => ?_) s t h
    exact sim_onMachine ((sim_onFs _).bind_eq fun _ => (sim_onFs _).bind_eq fun _ => Sim.pure rfl)

theorem sim_crontabEdit (file : Str) : ShellSim W own events (crontabEdit file) (crontabEdit file) := by
  refine (sim_ask _ _).bind_eq fun _ => (sim_onMachine (sim_existingContent _)).bind_eq fun existing => ?_
  exact (sim_setLines _ _).bind_eq fun _ => Sim.pure rfl

theorem sim_crontabAction : ShellSim W own events (crontabAction args) (crontabAction args) := by
  refine Sim.get_bind fun s t h => ?_
  dsimp only
  rw [← h.fs, ← h.username]
  refine Sim.ite (fun _ => Sim.ite (fun _ => ?_) fun _ => Sim.pure rfl) (fun _ => ?_) s t h
  · exact (sim_onMachine (sim_onFs _)).bind_eq fun _ => Sim.pure rfl
  · refine Sim.ite (fun _ => Sim.ite (fun _ => ?_) fun _ => Sim.pure rfl) fun _ => ?_
    · exact (sim_onMachine (sim_onFs _)).bind_eq fun _ => Sim.pure rfl
    · refine Sim.ite (fun _ => ?_) fun _ => ?_
      · exact (sim_crontabEdit _).bind_eq fun _ => Sim.pure rfl
      · exact sim_crontabInstall.bind_eq fun _ => Sim.pure rfl

theorem sim_crontabCommand : ShellSim W own events (crontabCommand args) (crontabCommand args) := by
  refine Sim.get_bind fun s t h => ?_
  rw [← h.fs]
  refine Sim.ite (fun _ => sim_crontabAction) (fun _ => ?_) s t h
  exact (sim_onMachine (sim_onFs _)).bind_eq fun _ => sim_crontabAction

theorem sim_visudoCommand : ShellSim W own events visudoCommand visudoCommand := by
  refine Sim.get_bind fun s t h => ?_
  rw [← h.username]
  refine Sim.ite (fun _ => Sim.pure rfl) (fun _ => (sim_ask _ _).bind_eq fun _ => ?_) s t h
  refine (sim_onMachine (sim_existingContent _)).bind_eq fun existing => ?_
  exact (sim_setLines _ _).bind_eq fun _ => Sim.pure rfl

theorem sim_editorCommand (name : Str) : ShellSim W own events (editorCommand name args) (editorCommand name args) := by
  cases args with
  | nil => exact Sim.pure rfl
  | cons arg args =>
    refine Sim.get_bind fun s t h => ?_
    dsimp only
    rw [← h.fs, ← h.cwd]
    refine Sim.bind_eq (Sim.modify fun _ _ h => { h with }) (fun _ => Sim.ite (fun _ => Sim.pure rfl) fun _ => ?_) s t h
    refine (sim_onMachine (sim_existingContent _)).bind_eq fun existing => ?_
    exact (sim_setLines _ _).bind_eq fun _ => (sim_ask _ _).bind_eq fun _ => Sim.pure rfl

theorem sim_pythonCommand : ShellSim W own events (pythonCommand args) (pythonCommand args) := by
  refine Sim.get_bind fun s t h => ?_
  rw [h.view]
  refine Sim.bind_eq (sim_onMachine (sim_logEvent _ _)) (fun _ => ?_) s t h
  refine Sim.ite (fun _ => Sim.pure rfl) fun _ => Sim.ite (fun _ => Sim.pure rfl) fun _ => ?_
  refine Sim.ite (fun _ => sim_onMachine (sim_runOneLiner _ _ _)) fun _ => ?_
  split
  · exact sim_onMachine (sim_runScriptFile _ _ _)
  · exact (sim_ask _ _).bind_eq fun _ => Sim.pure rfl

theorem sim_suPrompt (targetUser : Str) (loginShell : Bool) :
    ShellSim W own events (suPrompt targetUser loginShell) (suPrompt targetUser loginShell) := by
  refine Sim.get_bind fun s t h => ?_
  rw [← h.username]
  refine Sim.ite (fun _ => Sim.pure rfl) (fun _ => ?_) s t h
  exact Sim.bind_eq (Sim.modify fun _ _ h => { h with }) fun _ => (sim_ask _ _).bind_eq fun _ => Sim.pure rfl

theorem sim_sudoInteractive (targetUser : Str) :
    ShellSim W own events (sudoInteractive targetUser) (sudoInteractive targetUser) := by
  refine Sim.get_bind fun s t h => ?_
  rw [← h.fs]
  exact SimAt.modify_bind (SimAt.pure { h with username := rfl, cwd := rfl } rfl)

/-! ### Commands that call the shell -/

section Calls

variable {run : Ctx → Str → Shell Result}
  (hrun : ∀ (own : Own) (events : List Event) (c c' : Ctx) (line : Str),
    ShellSim W own events (run c line) (run c' line))
  (c c' : Ctx)

include hrun

theorem sim_executeSubcommand :
    ShellSim W own events (executeSubcommand run c args) (executeSubcommand run c' args) :=
  Sim.ite (fun _ => Sim.pure rfl) fun _ => hrun _ _ _ _ _

omit hrun in
theorem sim_addOutput (a : Str) (b : Content) : ShellSim W own events (addOutput c a b) (addOutput c' a b) :=
  fun _ _ h => SimAt.step_bind fun _ => simAt_onMachine h (sim_concat _ _ _ _ h.machine)

theorem sim_bashLoop (stdout stderr : Str) (rc : Int) (lines : List Str) :
    ShellSim W own events (bashLoop run c stdout stderr rc lines) (bashLoop run c' stdout stderr rc lines) := by
  induction lines generalizing stdout stderr rc with
  | nil => exact Sim.pure rfl
  | cons line lines ih => exact (hrun _ _ _ _ _).bind_eq fun r => (sim_addOutput _ _ _ _).bind_eq fun _ => ih _ _ _

theorem sim_bashScript (scriptPath : Str) :
    ShellSim W own events (bashScript run c scriptPath) (bashScript run c' scriptPath) := by
  refine Sim.get_bind fun s t h => ?_
  dsimp only
  rw [← h.fs, ← h.cwd, h.view]
  refine Sim.ite (fun _ => Sim.pure rfl) (fun _ => Sim.ite (fun _ => Sim.pure rfl) fun _ => ?_) s t h
  refine (sim_onMachine (sim_getContentStr _)).bind_eq fun content => ?_
  exact (sim_onMachine (sim_logEvent _ _)).bind_eq fun _ => sim_bashLoop hrun _ _ _ _ _ _

theorem sim_bashCommand : ShellSim W own events (bashCommand run c args) (bashCommand run c' args) := by
  refine Sim.ite (fun _ => Sim.pure rfl) fun _ => ?_
  split
  · exact Sim.pure rfl
  · split
    · exact hrun _ _ _ _ _
    · exact sim_bashScript hrun _ _ _

theorem sim_suCommand : ShellSim W own events (suCommand run c args) (suCommand run c' args) := by
  unfold suCommand
  split
  · refine Sim.bind_eq ?_ fun words => sim_executeSubcommand hrun _ _
    unfold shlexSplit
    split
    · exact Sim.pure rfl
    · exact Sim.throw
  · split
    · exact (sim_suPrompt _ _).bind_eq fun _ => Sim.pure rfl
    · refine Sim.ite (fun _ => ?_) fun _ => ?_
      · exact (sim_suPrompt _ _).bind_eq fun _ => Sim.pure rfl
      · exact (sim_suPrompt _ _).bind_eq fun _ => Sim.pure rfl

/-- Two new shells at the same place have all in common. -/
theorem sim_executeAs (username : Str) (keepCwd : Bool) (line : Str) :
    ShellSim W own events (executeAs run c username keepCwd line) (executeAs run c' username keepCwd line) := by
  intro s t h
  refine SimAt.zoom (S := Shares .nothing events) (((hrun .nothing events _ _ line) _ _ ?_).mono
    fun _ => StepAlike.nothing) fun r r' hr => ?_
  · have hmachine : SameMachine Own.nothing.hosts events { s.machine with dnsCache := ∅ }
        { t.machine with dnsCache := ∅ } :=
      ⟨h.machine.1, h.machine.2, h.machine.3, h.machine.4, fun _ _ => rfl, h.machine.6⟩
    dsimp only
    rw [h.fs, h.quarantineCallback, h.cwd, h.detached]
    cases keepCwd with
    | false => exact Shares.of_new rfl rfl rfl hmachine
    | true => exact Shares.of_new rfl rfl rfl hmachine
  · have hdetached : (if r.backgroundTasks = [] then r.detached
          else r.detached ++ [⟨r.toShellState, r.machine.dnsCache⟩]) =
        if r'.backgroundTasks = [] then r'.detached
          else r'.detached ++ [⟨r'.toShellState, r'.machine.dnsCache⟩] := by
      have htasks : r.backgroundTasks = [] := hr.tasks
      rw [if_pos htasks, if_pos hr.no_tasks, hr.detached]
    have hmachine := hr.machine
    exact { h with
      detached := hdetached
      machine := ⟨hmachine.1, hmachine.2, hmachine.3, hmachine.4, h.machine.dnsCache, hmachine.6⟩ }

theorem sim_sudoCommand : ShellSim W own events (sudoCommand run c args) (sudoCommand run c' args) := by
  unfold sudoCommand
  split
  · exact Sim.pure rfl
  · exact Sim.get_bind fun s t h => SimAt.pure h (by rw [h.username])
  · exact (sim_sudoInteractive _).bind_eq fun _ => Sim.pure rfl
  · exact Sim.pure rfl
  · exact sim_executeAs hrun _ _ _ _ _

theorem sim_doasCommand : ShellSim W own events (doasCommand run c args) (doasCommand run c' args) := by
  refine Sim.get_bind fun s t h => ?_
  rw [← h.username]
  refine Sim.ite (fun _ => Sim.pure rfl) (fun _ => Sim.ite (fun _ => sim_executeSubcommand hrun _ _) fun _ => ?_) s t h
  exact (sim_ask _ _).bind_eq fun _ => Sim.pure rfl

theorem sim_pkexecCommand : ShellSim W own events (pkexecCommand run c args) (pkexecCommand run c' args) := by
  refine Sim.get_bind fun s t h => ?_
  rw [← h.username]
  cases args with
  | nil => exact SimAt.pure h rfl
  | cons program args =>
    refine Sim.ite (fun _ => sim_executeSubcommand hrun _ _) (fun _ => ?_) s t h
    exact (sim_ask _ _).bind_eq fun _ => Sim.pure rfl

/-! ### Commands -/

theorem sim_shellCommand {cls : ShellCommand} (hsees : cls.SeesAlike own args) (name : Str) :
    ShellSim W own events (cls.execute run c name args) (cls.execute run c' name args) := by
  cases cls with
  | alias_ => exact (sim_aliasCommand hsees).map_eq
  | bash => exact sim_bashCommand hrun c c'
  | cd => exact (sim_cdCommand hsees).map_eq
  | crontab => exact sim_crontabCommand
  | doas => exact sim_doasCommand hrun c c'
  | editor => exact (sim_editorCommand name).map_eq
  | export_ => exact sim_exportCommand.map_eq
  | pkexec => exact sim_pkexecCommand hrun c c'
  | python => exact sim_pythonCommand.map_eq
  | su => exact sim_suCommand hrun c c'
  | sudo_ => exact sim_sudoCommand hrun c c'
  | unalias => exact (sim_unaliasCommand hsees).map_eq
  | visudo => exact sim_visudoCommand.map_eq

theorem sim_runCommand {cls : CommandClass} {name : Str} (hcls : lookupCommand name = some cls) (input : Content) :
    ShellSim W own events (runCommand W run c cls name args input) (runCommand W run c' cls name args input) := by
  refine Sim.get_bind fun s t h => SimAt.step_bind fun hstep => ?_
  have hsees := hstep cls hcls
  cases cls with
  | leaf cls =>
    dsimp only
    rw [h.view]
    exact simAt_onMachine h (leaf_alike input h.machine hsees h.history)
  | shell cls => exact sim_shellCommand hrun c c' hsees name s t h

theorem sim_authAndExecute {cls : CommandClass} {name : Str} (hcls : lookupCommand name = some cls) (input : Content) :
    ShellSim W own events (authAndExecute W run c cls name args input)
      (authAndExecute W run c' cls name args input) := by
  refine Sim.get_bind fun s t h => SimAt.step_bind fun _ => ?_
  have hneeds : needsPassword t args = needsPassword s args := by
    simp only [needsPassword, h.username, h.cwd]
  rw [hneeds, ← h.username]
  refine Sim.ite (fun _ => ?_) (fun _ => sim_runCommand hrun c c' hcls input) s t h
  exact (sim_ask _ _).bind_eq fun _ => Sim.pure rfl

theorem sim_runCommandInstance (name : Str) (input : Content) :
    ShellSim W own events (runCommandInstance W run c name args input)
      (runCommandInstance W run c' name args input) := by
  unfold runCommandInstance
  cases hcls : lookupCommand name with
  | none => exact Sim.pure rfl
  | some cls =>
    refine Sim.tryCatch (sim_authAndExecute hrun _ _ hcls input) fun x => ?_
    cases x with
    | raised message => exact Sim.pure rfl
    | systemExit => exact Sim.throw
    | endless => exact Sim.throw

theorem sim_runScript (name : Str) (input : Content) :
    ShellSim W own events (runScript W run c name args input) (runScript W run c' name args input) := by
  refine Sim.get_bind fun s t h => ?_
  have hpermission : ∀ path mode, checkPermission t path mode = checkPermission s path mode := by
    intro path mode
    simp only [checkPermission, h.username, h.cwd, h.fs]
  rw [hpermission, ← h.cwd]
  exact Sim.ite (fun _ => sim_runCommand hrun c c' rfl input) (fun _ => Sim.pure rfl) s t h

theorem sim_executeSingleCommand {cmdLine : Str}
    (hname : ∀ name args, Shlex.split cmdLine = .ok (name :: args) → ¬own.aliases name) (input : Content) :
    ShellSim W own events (executeSingleCommand W run c cmdLine input)
      (executeSingleCommand W run c' cmdLine input) := by
  unfold executeSingleCommand
  split
  · exact Sim.pure rfl
  · exact Sim.pure rfl
  · rename_i name args hsplit
    refine Sim.get_bind fun s t h => ?_
    have halias : resolveAlias t.aliases name args = resolveAlias s.aliases name args := by
      simp only [resolveAlias, h.aliases name (hname name args hsplit)]
    rw [halias, ← h.fs, ← h.cwd]
    exact Sim.ite (fun _ => sim_runScript hrun c c' _ _) (fun _ => sim_runCommandInstance hrun c c' _ _) s t h

/-! ### Pipelines and chains -/

omit hrun in
theorem sim_redirectOutput (target : Str) (append : Bool) (stdout : Content) :
    ShellSim W own events (redirectOutput c target append stdout) (redirectOutput c' target append stdout) := by
  refine Sim.get_bind fun s t h => SimAt.step_bind fun _ => ?_
  rw [← h.cwd, ← h.username]
  have hwrite : ∀ content, LeafSim own.hosts events
      (do let _ ← Leaf.mkfile (resolvePath s.cwd target) content s.username s.username)
      (do let _ ← Leaf.mkfile (resolvePath s.cwd target) content s.username s.username) :=
    fun content => (sim_onFs _).bind_eq fun _ => Sim.pure rfl
  refine simAt_onMachine h (Sim.ite (fun _ => ?_) (fun _ => hwrite stdout) _ _ h.machine)
  refine (sim_existingContent _).bind_eq fun existing => Sim.bind_eq ?_ fun content => hwrite content
  cases existing with
  | text a =>
    cases stdout with
    | text b => exact Sim.pure rfl
    | bytes b => exact Sim.throw
  | bytes a =>
    cases stdout with
    | text b => exact Sim.throw
    | bytes b => exact Sim.pure rfl

theorem sim_executeSegment (st : PipelineState) (segment : Str) :
    ShellSim W own events (executeSegment W run c st segment) (executeSegment W run c' st segment) := by
  intro s t h
  refine SimAt.step_bind fun hstep => ?_
  cases hparse : parseRedirections segment with
  | error x => exact Sim.throw s t h
  | ok parsed =>
    obtain ⟨cmdStr, target, append⟩ := parsed
    have hname : ∀ name args, Shlex.split cmdStr = .ok (name :: args) → ¬own.aliases name := by
      intro name args hsplit
      refine hstep name ?_
      rw [commandOf, hparse]
      simp only [hsplit]
      rfl
    refine Sim.bind_eq (sim_executeSingleCommand hrun c c' hname _) (fun r => Sim.ite (fun _ => ?_) fun _ => ?_) s t h
    · exact (sim_redirectOutput _ _ _ _ _).bind_eq fun _ => Sim.pure rfl
    · exact Sim.pure rfl

theorem sim_executePipeline (pipelineStr : Str) :
    ShellSim W own events (executePipeline W run c pipelineStr) (executePipeline W run c' pipelineStr) := by
  refine Sim.bind_eq (Sim.foldlM _ (fun st st' segment hst => ?_) rfl) fun st => Sim.pure rfl
  subst hst
  exact sim_executeSegment hrun c c' st segment

omit hrun in
theorem sim_background (cmdLine : Str) : ShellSim W own events (background W cmdLine) (background W cmdLine) := by
  refine Sim.get_bind fun s t h => ?_
  rw [← h.username]
  have hrandint : ∀ lo hi, LeafSim own.hosts events (randint W lo hi) (randint W lo hi) :=
    fun lo hi => sim_tick.bind_eq fun _ => Sim.pure rfl
  refine sim_onMachine ((hrandint _ _).bind_eq fun pid => Sim.bind_eq (Sim.modify fun M M' hM => ?_) fun _ => ?_) s t h
  · refine ⟨?_, hM.2, hM.3, hM.4, hM.5, hM.6⟩
    rw [hM.fs]
  · exact (hrandint _ _).bind_eq fun _ => Sim.pure rfl

theorem sim_pipelineNode (cmdLine : Str) :
    ShellSim W own events (pipelineNode W run c cmdLine) (pipelineNode W run c' cmdLine) :=
  (sim_executePipeline hrun c c' cmdLine).bind_eq fun _ => (sim_addOutput c c' _ _).bind_eq fun _ => Sim.pure rfl

theorem sim_executeNodes (maxOutputSize : ℕ) (nodes : List (CommandNode Str)) :
    ShellSim W own events (executeNodes maxOutputSize (background W) (pipelineNode W run c) nodes)
      (executeNodes maxOutputSize (background W) (pipelineNode W run c') nodes) := by
  refine Sim.bind_eq (Sim.foldlM _ (fun st st' node hst => ?_) rfl) fun st => Sim.pure rfl
  subst hst
  refine Sim.ite (fun _ => Sim.pure rfl) fun _ => Sim.ite (fun _ => Sim.pure rfl) fun _ => ?_
  refine Sim.bind_eq ?_ fun o => Sim.pure rfl
  exact Sim.ite (fun _ => sim_background _) fun _ => sim_pipelineNode hrun c c' _

theorem simAt_executeLine (h : Shares own events s t) {line : Str} (hline : LineAlike W own s line) :
    SimAt (StepAlike W own) (Shares own events) Eq (executeLine W run c line) (executeLine W run c' line) s t := by
  by_cases hnil : strip line = []
  · rw [executeLine, executeLine, if_pos hnil, if_pos hnil]
    exact SimAt.pure h rfl
  · obtain ⟨hexpand, hdepth, houtput⟩ := hline hnil
    rw [executeLine, executeLine, if_neg hnil, if_neg hnil]
    refine SimAt.modify_bind (SimAt.get_bind ?_)
    have hsame : expandVars W.unicode t.env line = expandVars W.unicode s.env line := hexpand t.env h.env
    have hhistory : Shares own events { s with history := s.history ++ [strip line] }
        { t with history := t.history ++ [strip line] } :=
      { h with history := fun hown => by rw [h.history hown] }
    have hlimit : t.config.maxChainDepth < (parseChain (expandVars W.unicode s.env line)).length ↔
        s.config.maxChainDepth < (parseChain (expandVars W.unicode s.env line)).length := by
      rw [h.config]
      exact hdepth.symm
    have hsize : t.config.maxOutputSize = s.config.maxOutputSize := by rw [h.config, houtput]
    dsimp only
    rw [hsame, hsize]
    simp only [hlimit]
    exact Sim.ite (fun _ => Sim.pure rfl) (fun _ => (sim_executeNodes hrun c c' _ _).map_eq) _ _ hhistory

end Calls

/-- The shell does the same on a line that comes across nothing of the session's own. -/
theorem sim_execute (depth : ℕ) (own : Own) (events : List Event) (c c' : Ctx) (line : Str) :
    ShellSim W own events (execute W depth c line) (execute W depth c' line) := by
  induction depth generalizing own events c c' line with
  | zero =>
    exact Sim.get_bind fun s t h => SimAt.step_bind fun _ => Sim.throw s t h
  | succ depth ih =>
    refine Sim.get_bind fun s t h => SimAt.step_bind fun hstep => ?_
    refine SimAt.get_bind ?_
    rw [← h.pending]
    cases hpending : s.pendingInputCallback with
    | none => exact simAt_executeLine ih c c' h hstep
    | some callback =>
      refine SimAt.modify_bind (SimAt.step_bind fun hanswer => ?_)
      exact False.elim hanswer

end Own

/-! ### Delegation -/

section Delegation

variable (W : World) (depth : ℕ) (c : Ctx)

/-- Run the words of a command as root, in the session and its directory. -/
def runAsRoot (args : List Str) : Shell Result := do
  modify fun e => { e with username := root }
  executeSubcommand (execute W depth) c args

/-- The shell that a delegated command gets. -/
def newShell (e : ShellEmulator) : ShellState := { initShell e.fs root e.quarantineCallback with cwd := e.cwd }

/-- `m` returns and logs what the command does as root, and leaves the same files and the same prompt. -/
def Delegates (m : Shell Result) (args : List Str) (e : ShellEmulator) : Prop :=
  (m e).result = (runAsRoot W depth c args e).result ∧
    (m e).state.fs = (runAsRoot W depth c args e).state.fs ∧
    (m e).state.machine.events = (runAsRoot W depth c args e).state.machine.events ∧
    (m e).state.pendingInputCallback = (runAsRoot W depth c args e).state.pendingInputCallback

variable {W depth c} {e : ShellEmulator} {name : Str} {args : List Str}

theorem shares_newShell (hpending : e.pendingInputCallback = none) :
    Shares (Own.ofSession e (newShell e)) e.machine.events { e with username := root }
      ⟨newShell e, { e.machine with dnsCache := ∅ }, e.detached⟩ where
  username := rfl
  cwd := rfl
  quarantineCallback := rfl
  env name hname := not_not.1 hname
  aliases name hname := not_not.1 hname
  history hown := (not_not.1 hown).symm
  config := rfl
  logger := rfl
  pending := hpending
  tasks := rfl
  no_tasks := rfl
  detached := rfl
  machine := ⟨rfl, rfl, rfl, rfl, fun host hhost => by rw [not_not.1 hhost]; rfl, rfl⟩

/-- A new shell agrees with the session just when the command logs nothing and leaves no prompt. -/
theorem delegates_executeAs_iff (hne : args ≠ []) (hpending : e.pendingInputCallback = none)
    (hsteps : ∀ step ∈ (runAsRoot W depth c args e).steps, StepAlike W (Own.ofSession e (newShell e)) step) :
    Delegates W depth c (executeAs (execute W depth) c root true (Shlex.join args)) args e ↔
      (runAsRoot W depth c args e).state.machine.events = e.machine.events ∧
        (runAsRoot W depth c args e).state.pendingInputCallback = none := by
  have hroot : runAsRoot W depth c args e = execute W depth c.inner (Shlex.join args) { e with username := root } := by
    rw [runAsRoot, modify_bind, executeSubcommand, if_neg hne]
  rw [hroot] at hsteps
  obtain ⟨halike, hshares⟩ := sim_execute depth _ _ c.inner c.delegated (Shlex.join args) _ _
    (shares_newShell hpending) hsteps
  have hresult : (executeAs (execute W depth) c root true (Shlex.join args) e).result =
      (execute W depth c.inner (Shlex.join args) { e with username := root }).result := (alike_eq_iff.1 halike).symm
  have hfs : (executeAs (execute W depth) c root true (Shlex.join args) e).state.fs =
      (execute W depth c.inner (Shlex.join args) { e with username := root }).state.fs := hshares.fs.symm
  have hevents : (executeAs (execute W depth) c root true (Shlex.join args) e).state.machine.events =
      e.machine.events := hshares.machine.events
  have hprompt : (executeAs (execute W depth) c root true (Shlex.join args) e).state.pendingInputCallback = none :=
    hpending
  rw [Delegates, hroot, hevents, hprompt]
  constructor
  · rintro ⟨-, -, hlogged, hasked⟩
    exact ⟨hlogged.symm, hasked.symm⟩
  · rintro ⟨hlogged, hasked⟩
    exact ⟨hresult, hfs, hlogged.symm, hasked.symm⟩

theorem sudoCommand_eq (run : Ctx → Str → Shell Result) (hname : name.head? ≠ some '-') :
    sudoCommand run c (name :: args) = executeAs run c root true (Shlex.join (name :: args)) := by
  have hne : ∀ option : Str, option.head? = some '-' → name ≠ option := by
    rintro option hoption rfl
    exact hname hoption
  have hparse : parseSudoArgs root false (name :: args) = .command root false (name :: args) := by
    have hshell : ¬(decide (name = "-i".toList) || decide (name = "-s".toList)) = true := by
      rw [Bool.or_eq_true, decide_eq_true_eq, decide_eq_true_eq]
      exact fun h => h.elim (hne _ rfl) (hne _ rfl)
    unfold parseSudoArgs
    rw [if_neg (hne "-u".toList rfl), if_neg (hne "-l".toList rfl), if_neg hshell, if_neg hname]
  rw [sudoCommand, hparse]
  rfl

/-- The step is one of a line without references that runs `echo`, in a shell with the limits of a new one. -/
def Step.echoes : Step → Bool
  | .enter _ _ line e => !line.contains '$' && e.config.maxChainDepth = ({} : ShellConfig).maxChainDepth &&
      e.config.maxOutputSize = ({} : ShellConfig).maxOutputSize
  | .answer .. => false
  | .dispatch _ name .. => name = "echo".toList
  | _ => true

/-- A session of `bob` with a logger and a history, whose other aliases are those of a new shell. -/
def loggedShell : ShellEmulator :=
  { plainShell "bob".toList with logger := true, history := ["sudo echo 'hi there'".toList] }

end Delegation

end Cyanide
