import Cyanide.Shell.Frames
import Cyanide.Shell.History

/-!
# Prompts

A prompt that a command raises is answered by the next line that reaches the shell, whoever sends it.  `Guarded` says of
each step of a history that it does not set this trap: a command that gives lines to its own shell does so when nothing
is pending, and a line of a script that is not the last one raises no prompt.  Where all steps are guarded, only the
client answers (`answered_run`).
-/

namespace Cyanide

open PosixPath PyText Traced

/-! ### The condition -/

/-- The text of a file as `get_content_str` gives it. -/
def FakeFilesystem.contentText (s : FakeFilesystem) (path : Str) : Str :=
  match (s.getContent path).1 with
  | .text t => t
  | .bytes b => decodeReplace b

/-- The lines that `bash` gives to its shell. -/
def bashLines (e : ShellEmulator) (args : List Str) : List Str :=
  if args.contains "-i".toList then []
  else
    match args.filter fun a => a.head? ≠ some '-' || a = "-c".toList with
    | [] => []
    | scriptPath :: rest =>
      match if scriptPath = "-c".toList then rest.head? else none with
      | some cmd => [cmd]
      | none =>
        let absPath := resolvePath e.cwd scriptPath
        if e.fs.pathExists absPath = false ∨ e.fs.isDir absPath = true then []
        else scriptLines (e.fs.contentText absPath)

/-- The lines that a command gives to the shell it runs in. -/
def ShellCommand.innerLines (e : ShellEmulator) (args : List Str) : ShellCommand → List Str
  | .bash => bashLines e args
  | .su =>
    match (argAfter "-c".toList args).map Shlex.split with
    | some (.ok (name :: params)) => [Shlex.join (name :: params)]
    | _ => []
  | .doas | .pkexec => if args ≠ [] ∧ e.username = root then [Shlex.join args] else []
  | _ => []

/-- A command of a known class is called in the state `e`. -/
def GuardedCall (c : Ctx) (args : List Str) (e : ShellEmulator) : Option CommandClass → Prop
  | some (.shell cls) =>
    (cls.innerLines e args ≠ [] → e.pendingInputCallback = none) ∧ (c.more = true → cls.prompts e args = false)
  | _ => True

/-- No step leads to a prompt that is answered by what the shell itself runs. -/
def Guarded : Step → Prop
  | .authenticate c _ args e => c.more = true → needsPassword e args = false
  | .dispatch c name args _ e => GuardedCall c args e (lookupCommand name)
  | .cron _ e => e.pendingInputCallback = none
  | _ => True

instance (c : Ctx) (args : List Str) (e : ShellEmulator) : DecidablePred (GuardedCall c args e)
  | none => inferInstanceAs (Decidable True)
  | some (.leaf _) => inferInstanceAs (Decidable True)
  | some (.shell cls) => inferInstanceAs (Decidable ((cls.innerLines e args ≠ [] → e.pendingInputCallback = none) ∧
      (c.more = true → cls.prompts e args = false)))

instance : DecidablePred Guarded
  | .enter .. | .answer .. | .segment .. | .redirect .. | .output .. => inferInstanceAs (Decidable True)
  | .authenticate c _ args e => inferInstanceAs (Decidable (c.more = true → needsPassword e args = false))
  | .dispatch c name args _ e => inferInstanceAs (Decidable (GuardedCall c args e (lookupCommand name)))
  | .cron _ e => inferInstanceAs (Decidable (e.pendingInputCallback = none))

/-- A pending callback gets a line only from the client. -/
def AnsweredByClient : Step → Prop
  | .answer c _ _ _ => c.nested = false
  | _ => True

instance : DecidablePred AnsweredByClient
  | .answer c _ _ _ => inferInstanceAs (Decidable (c.nested = false))
  | .enter .. | .segment .. | .authenticate .. | .dispatch .. | .redirect .. | .output .. | .cron .. =>
    inferInstanceAs (Decidable True)

/-! ### What is kept -/

section Kept

variable {C G : Step → Prop} {α : Type} {p : Option Callback → Prop} {m : Shell α} {e : ShellEmulator}
  {o : Option Callback}

/-- What holds of the pending callback holds afterwards. -/
abbrev Kept (C G : Step → Prop) (p : Option Callback → Prop) (m : Shell α) : Prop :=
  Keeps C G (fun e => p e.pendingInputCallback) m

theorem kept_of_leaves (h : LeavesAt o m e) (hp : p e.pendingInputCallback) (ho : ∀ cb, o = some cb → p (some cb)) :
    Triple C G (· = e) m (fun _ e => p e.pendingInputCallback) fun e => p e.pendingInputCallback := by
  rintro e' rfl -
  obtain ⟨hsteps, hleaves⟩ := h fun _ _ => trivial
  have hend : p (m e').state.pendingInputCallback := by
    cases o with
    | none => rwa [hleaves.callback]
    | some cb =>
      rw [hleaves.callback]
      exact ho cb rfl
  refine ⟨fun t ht => ?_, ?_⟩
  · rw [hsteps] at ht
    cases ht
  · cases (m e').result <;> exact hend

theorem kept_of_frames (h : Frames m) : Kept C G p m := by
  intro e hp
  exact kept_of_leaves (o := none) (h e) hp (fun _ ho => by cases ho) e rfl

end Kept

/-! ### Commands that call the shell -/

theorem getContentStr_result (path : Str) (M : Machine) :
    (Leaf.getContentStr path M).result = .ok (M.fs.contentText path) := by
  have hget : (Leaf.getContent path M).result = .ok (M.fs.getContent path).1 := rfl
  unfold Leaf.getContentStr FakeFilesystem.contentText
  rw [bind_ok hget]
  cases (M.fs.getContent path).1 <;> rfl

/-- Where a script has a later line, nothing is pending. -/
def Calm (c : Ctx) (e : ShellEmulator) : Prop := c.more = true → e.pendingInputCallback = none

/-- From `P`, if all steps are guarded, pending callbacks get lines only from the client, and the shell ends up calm. -/
def CalmTriple {α : Type} (c : Ctx) (P : ShellEmulator → Prop) (m : Shell α) : Prop :=
  Triple Guarded AnsweredByClient P m (fun _ => Calm c) (Calm c)

/-- A computation that leaves the shell calm. -/
abbrev CalmKeeps {α : Type} (c : Ctx) (m : Shell α) : Prop := Keeps Guarded AnsweredByClient (Calm c) m

/-- A shell that another command calls finds nothing pending. -/
def Enterable (c : Ctx) (e : ShellEmulator) : Prop :=
  c.nested = true ∨ c.more = true → e.pendingInputCallback = none

section Calm

variable {W : World} {run : Ctx → Str → Shell Result} {c : Ctx} {e₀ : ShellEmulator} {α : Type}

/-- A computation that asks at most where nothing needs to be calm. -/
theorem calm_of_leaves {m : Shell α} {o : Option Callback} (h : LeavesAt o m e₀) (hc : Calm c e₀)
    (ho : c.more = true → o = none) : CalmTriple c (· = e₀) m := by
  refine kept_of_leaves (p := fun cb => c.more = true → cb = none) h hc fun cb hcb hmore => ?_
  rw [ho hmore] at hcb
  cases hcb

theorem calm_of_frames {m : Shell α} (h : Frames m) : CalmKeeps c m :=
  kept_of_frames (p := fun cb => c.more = true → cb = none) h

theorem CalmTriple.mono {P P' : ShellEmulator → Prop} {m : Shell α} (h : CalmTriple c P m) (hP : ∀ e, P' e → P e) :
    CalmTriple c P' m := Triple.conseq h hP (fun _ _ h => h) fun _ h => h

theorem calm_ask {callback : Callback} {prompt : Str} (h : c.more = true → False) : CalmKeeps c (ask callback prompt) :=
  Keeps.modify fun _ _ hmore => (h hmore).elim

variable (hrun : ∀ c line, CalmTriple c (Enterable c) (run c line))

include hrun

theorem calm_executeSubcommand (args : List Str) :
    CalmTriple c (fun e => Calm c e ∧ (args ≠ [] → e.pendingInputCallback = none))
      (executeSubcommand run c args) := by
  unfold executeSubcommand
  by_cases h : args = []
  · rw [if_pos h]
    exact Triple.pure fun _ hP => hP.1
  · rw [if_neg h]
    exact (hrun c.inner _).mono fun _ hP _ => hP.2 h

theorem calm_bashLoop (stdout stderr : Str) (rc : Int) (lines : List Str) :
    CalmTriple c (fun e => Calm c e ∧ (lines ≠ [] → e.pendingInputCallback = none))
      (bashLoop run c stdout stderr rc lines) := by
  induction lines generalizing stdout stderr rc with
  | nil => exact Triple.pure fun _ hP => hP.1
  | cons line lines ih =>
    unfold bashLoop
    refine Triple.bind (Q := fun _ e => Calm c e ∧ (lines ≠ [] → e.pendingInputCallback = none)) ?_ fun r => ?_
    · refine Triple.conseq (hrun (c.line (lines ≠ [])) line) (fun e hP _ => hP.2 (List.cons_ne_nil _ _)) ?_ ?_
      · intro _ e h
        refine ⟨fun hmore => h ?_, fun hlines => h ?_⟩
        · simp [Ctx.line, hmore]
        · simp [Ctx.line, hlines]
      · intro e h hmore
        exact h (by simp [Ctx.line, hmore])
    · refine Triple.bind ?_ fun _ => ih _ _ _
      unfold addOutput
      refine Triple.bind (Q := fun _ e => Calm c e ∧ (lines ≠ [] → e.pendingInputCallback = none))
        (Triple.step fun _ hP _ => ⟨trivial, hP⟩) fun _ => ?_
      exact Triple.embed (fun _ _ _ hP => hP) fun _ _ hP => hP.1

theorem calm_bashScript {scriptPath : Str} (hc : Calm c e₀)
    (h : e₀.fs.pathExists (resolvePath e₀.cwd scriptPath) = true →
      e₀.fs.isDir (resolvePath e₀.cwd scriptPath) = false →
      scriptLines (e₀.fs.contentText (resolvePath e₀.cwd scriptPath)) ≠ [] → e₀.pendingInputCallback = none) :
    CalmTriple c (· = e₀) (bashScript run c scriptPath) := by
  unfold bashScript
  refine Triple.get_bind_eq ?_
  dsimp only
  by_cases hexists : e₀.fs.pathExists (resolvePath e₀.cwd scriptPath) = false
  · rw [if_pos hexists]
    exact Keeps.of_eq Keeps.pure hc
  by_cases hdir : e₀.fs.isDir (resolvePath e₀.cwd scriptPath) = true
  · rw [if_neg hexists, if_pos hdir]
    exact Keeps.of_eq Keeps.pure hc
  rw [if_neg hexists, if_neg hdir]
  have hlines := h (Bool.not_eq_false _ ▸ hexists) (Bool.not_eq_true _ ▸ hdir)
  refine Triple.bind (Q := fun content e => content = e₀.fs.contentText (resolvePath e₀.cwd scriptPath) ∧
    e.pendingInputCallback = e₀.pendingInputCallback) ?_ fun content => ?_
  · rintro e rfl _
    refine ⟨fun t ht => absurd ht List.not_mem_nil, ?_⟩
    simp only [onMachine, embed, getContentStr_result]
    exact ⟨rfl, rfl⟩
  · refine Triple.bind (Q := fun _ e => Calm c e ∧ (scriptLines content ≠ [] → e.pendingInputCallback = none)) ?_
      fun _ => calm_bashLoop hrun _ _ _ _
    refine Triple.embed ?_ ?_
    · rintro e _ M ⟨rfl, he⟩
      refine ⟨fun hmore => he.trans (hc hmore), fun hne => he.trans (hlines hne)⟩
    · rintro e M ⟨rfl, he⟩ hmore
      exact he.trans (hc hmore)

theorem calm_bashCommand {args : List Str} (hc : Calm c e₀)
    (h : ShellCommand.innerLines e₀ args .bash ≠ [] → e₀.pendingInputCallback = none) :
    CalmTriple c (· = e₀) (bashCommand run c args) := by
  unfold bashCommand
  simp only [ShellCommand.innerLines, bashLines] at h
  split
  · exact Keeps.of_eq Keeps.pure hc
  next hi =>
  rw [if_neg hi] at h
  split
  · exact Keeps.of_eq Keeps.pure hc
  next scriptPath rest hargs =>
  simp only [hargs] at h
  split
  next cmd hcmd =>
    simp only [hcmd] at h
    refine (hrun c.inner cmd).mono ?_
    rintro e rfl _
    exact h (List.cons_ne_nil _ _)
  next hcmd =>
    simp only [hcmd] at h
    refine calm_bashScript hrun hc fun hexists hdir hne => h ?_
    rw [if_neg (by simp [hexists, hdir])]
    exact hne

theorem calm_suCommand {args : List Str} (hc : Calm c e₀)
    (h : ShellCommand.innerLines e₀ args .su ≠ [] → e₀.pendingInputCallback = none)
    (hp : c.more = true → ShellCommand.prompts e₀ args .su = false) : CalmTriple c (· = e₀) (suCommand run c args) := by
  cases hcmd : argAfter "-c".toList args with
  | none =>
    exact calm_of_leaves (leaves_suCommand run c hcmd [] e₀) hc fun hmore => asksFor_of_not (hp hmore)
  | some cmdLine =>
    unfold suCommand
    simp only [hcmd]
    simp only [ShellCommand.innerLines, hcmd, Option.map_some] at h
    unfold shlexSplit
    cases hsplit : Shlex.split cmdLine with
    | error x =>
      refine Triple.bind (Q := fun _ _ => False) (Triple.throw fun _ he => he ▸ hc) fun _ _ hfalse => hfalse.elim
    | ok words =>
      rw [hsplit] at h
      rw [pure_bind]
      refine (calm_executeSubcommand hrun words).mono ?_
      rintro e rfl
      refine ⟨hc, fun hne => h ?_⟩
      cases words with
      | nil => exact absurd rfl hne
      | cons name params => exact List.cons_ne_nil _ _

/-- A delegated command has a shell of its own, with nothing pending. -/
theorem calm_executeAs (username : Str) (keepCwd : Bool) (cmdLine : Str) :
    CalmKeeps c (executeAs run c username keepCwd cmdLine) := by
  unfold executeAs inTempShell
  refine Triple.zoom fun e hc => ?_
  refine Triple.conseq (hrun c.delegated cmdLine) ?_ (fun _ _ _ => hc) fun _ _ => hc
  rintro t rfl _
  dsimp only
  split <;> rfl

theorem calm_sudoCommand (args : List Str) : CalmKeeps c (sudoCommand run c args) := by
  unfold sudoCommand
  split
  · exact Keeps.pure
  · exact Keeps.bind Keeps.get fun _ => Keeps.pure
  · exact Keeps.bind (calm_of_frames (frames_sudoInteractive _)) fun _ => Keeps.pure
  · exact Keeps.pure
  · exact calm_executeAs hrun _ _ _

theorem calm_doasCommand {args : List Str} (hc : Calm c e₀)
    (h : ShellCommand.innerLines e₀ args .doas ≠ [] → e₀.pendingInputCallback = none)
    (hp : c.more = true → ShellCommand.prompts e₀ args .doas = false) :
    CalmTriple c (· = e₀) (doasCommand run c args) := by
  unfold doasCommand
  refine Triple.get_bind_eq ?_
  by_cases hargs : args = []
  · rw [if_pos hargs]
    exact Keeps.of_eq Keeps.pure hc
  rw [if_neg hargs]
  by_cases hroot : e₀.username = root
  · rw [if_pos hroot]
    refine (calm_executeSubcommand hrun args).mono ?_
    rintro e rfl
    refine ⟨hc, fun _ => h ?_⟩
    rw [ShellCommand.innerLines, if_pos ⟨hargs, hroot⟩]
    exact List.cons_ne_nil _ _
  · rw [if_neg hroot]
    refine Keeps.of_eq (Keeps.bind (calm_ask fun hmore => ?_) fun _ => Keeps.pure) hc
    simp [ShellCommand.prompts, hargs, hroot] at hp
    simp [hp] at hmore

theorem calm_pkexecCommand {args : List Str} (hc : Calm c e₀)
    (h : ShellCommand.innerLines e₀ args .pkexec ≠ [] → e₀.pendingInputCallback = none)
    (hp : c.more = true → ShellCommand.prompts e₀ args .pkexec = false) :
    CalmTriple c (· = e₀) (pkexecCommand run c args) := by
  unfold pkexecCommand
  refine Triple.get_bind_eq ?_
  cases args with
  | nil => exact Keeps.of_eq Keeps.pure hc
  | cons program params =>
    dsimp only
    by_cases hroot : e₀.username = root
    · rw [if_pos hroot]
      refine (calm_executeSubcommand hrun _).mono ?_
      rintro e rfl
      refine ⟨hc, fun hargs => h ?_⟩
      rw [ShellCommand.innerLines, if_pos ⟨hargs, hroot⟩]
      exact List.cons_ne_nil _ _
    · rw [if_neg hroot]
      refine Keeps.of_eq (Keeps.bind (calm_ask fun hmore => ?_) fun _ => Keeps.pure) hc
      simp [ShellCommand.prompts, hroot] at hp
      simp [hp] at hmore

/-- A guarded call of a command that changes the shell or calls it. -/
theorem calm_execute (cls : ShellCommand) (name : Str) {args : List Str} (hc : Calm c e₀)
    (h : cls.innerLines e₀ args ≠ [] → e₀.pendingInputCallback = none)
    (hp : c.more = true → cls.prompts e₀ args = false) :
    CalmTriple c (· = e₀) (cls.execute run c name args) := by
  by_cases hleaves : cls.prompts e₀ args = true ∨ cls.callsShell = false
  · exact calm_of_leaves (leaves_execute run c hleaves name) hc fun hmore => asksFor_of_not (hp hmore)
  obtain ⟨hasks, hcalls⟩ := not_or.1 hleaves
  cases cls with
  | bash => exact calm_bashCommand hrun hc h
  | doas => exact calm_doasCommand hrun hc h hp
  | pkexec => exact calm_pkexecCommand hrun hc h hp
  | su => exact calm_suCommand hrun hc h hp
  | sudo_ => exact CalmTriple.mono (calm_sudoCommand hrun args) fun _ he => he ▸ hc
  | _ => exact absurd rfl hcalls

theorem calm_runCommand {cls : CommandClass} {name : Str} (hcls : lookupCommand name = some cls) (args : List Str)
    (input : Content) : CalmKeeps c (runCommand W run c cls name args input) := by
  unfold runCommand
  refine Triple.get_bind fun e => Triple.bind (Q := fun _ e' => (Calm c e' ∧ e' = e) ∧ GuardedCall c args e (some cls))
    (Triple.step fun _ he hguard => ⟨trivial, he, hcls ▸ hguard⟩) fun _ => ?_
  cases cls with
  | leaf cls => exact Triple.embed (fun _ _ _ he => he.1.1) fun _ _ he => he.1.1
  | shell cls =>
    rintro e' ⟨⟨hc, rfl⟩, hguard⟩
    exact calm_execute hrun cls name hc hguard.1 hguard.2 e' rfl

theorem calm_authAndExecute {cls : CommandClass} {name : Str} (hcls : lookupCommand name = some cls)
    (args : List Str) (input : Content) : CalmKeeps c (authAndExecute W run c cls name args input) := by
  unfold authAndExecute
  refine Triple.get_bind fun e => Triple.bind
    (Q := fun _ e' => Calm c e' ∧ (c.more = true → needsPassword e args = false))
    (Triple.step fun _ he hguard => ⟨trivial, he.1, hguard⟩) fun _ => ?_
  by_cases hneeds : needsPassword e args = true
  · rw [if_pos hneeds]
    refine Triple.bind (Triple.modify (Q := fun _ => Calm c) fun e' he hmore => ?_) fun _ => Keeps.pure
    rw [he.2 hmore] at hneeds
    cases hneeds
  · rw [if_neg hneeds]
    exact CalmTriple.mono (calm_runCommand hrun hcls args input) fun _ he => he.1

theorem calm_runCommandInstance (cmdName : Str) (params : List Str) (input : Content) :
    CalmKeeps c (runCommandInstance W run c cmdName params input) := by
  unfold runCommandInstance
  split
  · exact Keeps.pure
  next cls hcls =>
    refine Triple.tryCatch (calm_authAndExecute (c := c.caught) hrun hcls params input) fun x => ?_
    cases x with
    | raised message => exact Keeps.pure
    | systemExit => exact Keeps.throw
    | endless => exact Keeps.throw

theorem calm_executeSingleCommand (cmdLine : Str) (input : Content) :
    CalmKeeps c (executeSingleCommand W run c cmdLine input) := by
  unfold executeSingleCommand
  split
  · exact Keeps.pure
  · exact Keeps.pure
  next name args hsplit =>
    refine Keeps.bind Keeps.get fun e => ?_
    dsimp only
    refine Keeps.ite (fun _ => ?_) fun _ => calm_runCommandInstance hrun _ _ _
    unfold runScript
    refine Keeps.bind Keeps.get fun e => Keeps.ite (fun _ => ?_) fun _ => Keeps.pure
    exact calm_runCommand hrun rfl _ _

theorem calm_executePipeline (pipelineStr : Str) :
    CalmKeeps c (executePipeline W run c pipelineStr) := by
  unfold executePipeline
  refine Triple.bind (Triple.foldlM (I := fun _ => Calm c) _ (fun st segment _ => ?_) _) fun _ => Keeps.pure
  unfold executeSegment
  refine Keeps.bind (Keeps.step fun _ => trivial) fun _ => ?_
  split
  · exact Keeps.throw
  next cmdStr target append hparse =>
    refine Keeps.bind (calm_executeSingleCommand hrun _ _) fun r => ?_
    dsimp only
    refine Keeps.ite (fun _ => Keeps.bind ?_ fun _ => Keeps.pure) fun _ => Keeps.pure
    unfold redirectOutput
    exact Keeps.bind Keeps.get fun e => Keeps.bind (Keeps.step fun _ => trivial) fun _ => Keeps.embed fun _ _ h => h

theorem calm_executeLine (commandLine : Str) : CalmKeeps c (executeLine W run c commandLine) := by
  have hbackground : ∀ cmd, CalmKeeps c (background W cmd) := fun cmd =>
    Keeps.bind Keeps.get fun _ => Keeps.embed fun _ _ h => h
  have hpipeline : ∀ cmd, CalmKeeps c (pipelineNode W run c cmd) := fun cmd =>
    Keeps.bind (calm_executePipeline hrun cmd) fun r =>
      Keeps.bind (Keeps.bind (Keeps.step fun _ => trivial) fun _ => Keeps.embed fun _ _ h => h) fun _ => Keeps.pure
  unfold executeLine
  refine Keeps.ite (fun _ => Keeps.pure) fun _ => Keeps.bind (Keeps.modify fun _ h => h) fun _ => ?_
  refine Keeps.bind Keeps.get fun e => Keeps.ite (fun _ => Keeps.pure) fun _ => Keeps.map ?_
  unfold executeNodes executeLoop
  refine Keeps.bind (Triple.foldlM (I := fun _ => Calm c) _ (fun st node _ => ?_) _) fun _ => Keeps.pure
  unfold executeNode
  refine Keeps.ite (fun _ => Keeps.pure) fun _ => Keeps.ite (fun _ => Keeps.pure) fun _ => ?_
  refine Keeps.bind ?_ fun _ => Keeps.pure
  unfold runNode
  exact Keeps.ite (fun _ => hbackground _) fun _ => hpipeline _

/-- Only a call that is not nested meets a pending callback, and afterwards nothing needs to be calm. -/
theorem calm_answer (hmore : c.more = false) (callback : Callback) (line : Str) :
    CalmTriple c (fun e => e.pendingInputCallback = none) (answer W run c callback line) := by
  have hcalm : ∀ e, Calm c e := fun e h => by rw [hmore] at h; cases h
  have hsome : ∀ {m : Shell Result} {cb}, (∀ e, LeavesSome cb m e) → CalmTriple c (·.pendingInputCallback = none) m := by
    intro m cb h e _
    have hnone : ∀ o : Option Callback, c.more = true → o = none := fun o h => by rw [hmore] at h; cases h
    rcases h e with h | h <;> exact calm_of_leaves h (hcalm e) (hnone _) e rfl
  cases callback with
  | passwordAuth name args input =>
    show CalmTriple c _ (onPasswordAuth W run c name args input)
    unfold onPasswordAuth
    refine Triple.bind (Triple.modify (Q := fun _ => Calm c) fun e _ => hcalm _) fun _ => ?_
    split
    next cls hcls => exact calm_runCommand hrun hcls _ _
    · exact Keeps.pure
  | suPassword => exact CalmTriple.mono (calm_of_frames (frames_onPassword line).map) fun e _ => hcalm e
  | doasAuth args => exact CalmTriple.mono (calm_executeAs hrun _ _ _) fun e _ => hcalm e
  | pkexecAuth args =>
    show CalmTriple c _ (onPkexecAuth run c args)
    unfold onPkexecAuth
    exact Triple.bind (Triple.modify fun e he => ⟨hcalm _, fun _ => he⟩) fun _ => calm_executeSubcommand hrun args
  | crontabInput => exact hsome fun e => (leaves_crontabInput line e).map
  | visudoInput => exact hsome fun e => (leaves_visudoInput line e).map
  | editorInput name => exact hsome fun e => (leaves_editorInput name line e).map
  | pythonInput => exact hsome fun e => (leaves_pythonInput line e).map

theorem calm_executeWith (commandLine : Str) :
    CalmTriple c (Enterable c) (executeWith W run c commandLine) := by
  unfold executeWith
  refine Triple.get_bind fun e => ?_
  cases hpending : e.pendingInputCallback with
  | some callback =>
    by_cases hinner : c.nested = true ∨ c.more = true
    · rintro e' ⟨hP, rfl⟩
      rw [hP hinner] at hpending
      cases hpending
    · obtain ⟨hnested, hmore⟩ := not_or.1 hinner
      rw [Bool.not_eq_true] at hnested hmore
      refine Triple.bind (Triple.modify (Q := fun _ e => e.pendingInputCallback = none) fun _ _ => rfl) fun _ => ?_
      refine Triple.bind (Triple.step (Q := fun _ e => e.pendingInputCallback = none) fun _ he _ => ⟨hnested, he⟩)
        fun _ => ?_
      exact calm_answer hrun hmore callback commandLine
  | none =>
    refine CalmTriple.mono (calm_executeLine hrun commandLine) ?_
    rintro e' ⟨-, rfl⟩ _
    exact hpending

omit hrun

/-- The shell, by induction on the number of nested calls left. -/
theorem calm_shell (depth : ℕ) : ∀ c line, CalmTriple c (Enterable c) (execute W depth c line) := by
  induction depth with
  | zero =>
    intro c line
    unfold execute
    refine Triple.get_bind fun e => Triple.bind (Q := fun _ => Calm c) (Triple.step fun e' he _ => ⟨trivial, ?_⟩)
      fun _ => Keeps.throw
    exact fun hmore => he.1 (.inr hmore)
  | succ depth ih =>
    intro c line
    unfold execute
    refine Triple.get_bind fun e => Triple.bind (Q := fun _ => Enterable c) (Triple.step fun e' he _ => ⟨trivial, he.1⟩)
      fun _ => calm_executeWith ih line

end Calm

/-! ### Histories -/

/-- Computations whose steps, if they are guarded, give no line but the client's to a pending callback. -/
abbrev Answered {α : Type} (m : Shell α) : Prop := Keeps Guarded AnsweredByClient (fun _ => True) m

variable (W : World)

theorem answered_execute {c : Ctx} {P : ShellEmulator → Prop} (h : ∀ e, P e → Enterable c e) (depth : ℕ) (line : Str) :
    Triple Guarded AnsweredByClient P (execute W depth c line) (fun _ _ => True) fun _ => True :=
  Triple.conseq (calm_shell depth c line) h (fun _ _ _ => trivial) fun _ _ => trivial

theorem answered_scheduleCronJob (entry : Str) : Answered (scheduleCronJob W entry) := by
  unfold scheduleCronJob
  dsimp only
  refine Keeps.ite (fun _ => Keeps.pure) fun _ => Triple.get_bind fun e => ?_
  by_cases hmalicious : (e.analytics && W.isMalicious (List.intercalate [' '] ((words entry).drop 5))) = true
  · rw [if_pos hmalicious]
    exact Triple.embed (fun _ _ _ _ => trivial) fun _ _ _ => trivial
  rw [if_neg hmalicious]
  refine Triple.bind (Q := fun _ e' => e'.pendingInputCallback = e.pendingInputCallback)
    (Triple.embed (fun _ _ _ he => by rw [← he.2]; rfl) fun _ _ _ => trivial) fun _ => ?_
  refine Triple.bind (Q := fun _ e' => e'.pendingInputCallback = none)
    (Triple.step fun e' he hguard => ⟨trivial, he.trans hguard⟩) fun _ => ?_
  have hrun : Triple Guarded AnsweredByClient (fun e => e.pendingInputCallback = none)
      (do let _ ← execute W W.recursionLimit .cron (List.intercalate [' '] ((words entry).drop 5)))
      (fun _ _ => True) fun _ => True :=
    Triple.bind (answered_execute W (fun _ he _ => he) _ _) fun _ => Keeps.pure
  refine Triple.tryCatch hrun fun x => ?_
  cases x with
  | raised message => exact Keeps.pure
  | systemExit => exact Keeps.throw
  | endless => exact Keeps.throw

theorem answered_fireJob (job : ℕ) : Answered (fireJob W job) := by
  unfold fireJob
  refine Keeps.bind Keeps.get fun e => ?_
  split
  · exact Keeps.pure
  · exact Keeps.bind (Keeps.modify fun _ _ => trivial) fun _ => answered_scheduleCronJob W _

theorem answered_handleInput (input : Input) : Answered (handleInput W input) := by
  have hclient : ∀ e, True → Enterable .client e := by
    rintro e - (h | h) <;> cases h
  match input with
  | .line s => exact Keeps.bind (answered_execute W hclient _ s) fun _ => Keeps.pure
  | .cron none job => exact answered_fireJob W job
  | .cron (some i) job =>
    unfold handleInput
    refine Keeps.bind Keeps.get fun e => ?_
    split
    · exact Keeps.pure
    · refine Triple.zoom fun e' _ => ?_
      exact Triple.conseq (answered_fireJob W job) (fun _ _ => trivial) (fun _ _ h => h) fun _ h => h

/-- Where all steps of a history are guarded, pending callbacks get their lines from the client. -/
theorem answered_run (e : ShellEmulator) (inputs : List Input) (h : ∀ t ∈ (history W inputs e).steps, Guarded t) :
    ∀ t ∈ (history W inputs e).steps, AnsweredByClient t := by
  have hrun : Answered (history W inputs) :=
    Keeps.foldlM inputs (fun _ input => Keeps.tryCatch (answered_handleInput W input) fun _ => Keeps.pure) ()
  exact (hrun e trivial h).1

/-- A user becomes root and back again, with a script that asks in its last line. -/
def politeInputs : List Input :=
  [.line "su root".toList, .line "root".toList, .line "bash -c 'su bob'; id".toList, .line "x".toList]

theorem answered_run_su :
    (history plainWorld politeInputs (plainShell "bob".toList)).steps.countP (· matches .answer ..) = 2 ∧
      ∀ t ∈ (history plainWorld politeInputs (plainShell "bob".toList)).steps, AnsweredByClient t :=
  ⟨by decide +kernel, answered_run plainWorld (plainShell "bob".toList) politeInputs (by decide +kernel)⟩

/-- The password that `su` asks for is given by a command of the same line, and the user becomes root. -/
theorem not_answered_su :
    (history plainWorld [.line "su; bash -c root".toList] (plainShell "bob".toList)).state.username = root ∧
      ¬∀ t ∈ (history plainWorld [.line "su; bash -c root".toList] (plainShell "bob".toList)).steps,
        AnsweredByClient t := by
  decide +kernel

end Cyanide
