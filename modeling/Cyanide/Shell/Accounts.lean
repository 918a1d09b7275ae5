import Cyanide.Shell.Frames

/-!
# Accounts of a command line

An account relates the state before a call of the shell, the steps of the call and the state after it.  It comes as four
relations: of a whole call (`S`), of a call without its first step (`T`), of the commands of a line (`R`), and of what a
command does by calling a shell (`N`).  `Account` lists what has to be checked of these for each kind of step, and
`Account.executeWith` says that the shell then keeps the account, for all commands and all callbacks.
-/

namespace Cyanide

open PosixPath PyText Traced

/-- A relation between states with steps in between, in a context. -/
abbrev Relation := Ctx → ShellEmulator → List Step → ShellEmulator → Prop

/-- Nothing is pending any more. -/
structure Cleared (e e' : ShellEmulator) : Prop where
  callback : e'.pendingInputCallback = none
  prompt : e'.pendingInputPrompt = none
  detached : e'.detached = e.detached

/-- The shell that a delegated command runs in, called from the state `e`. -/
def TempShell (e t : ShellEmulator) : Prop := Cleared e t

/-- The state after a delegated command whose shell ended as `t`. -/
structure Returned (e t e' : ShellEmulator) : Prop where
  callback : e'.pendingInputCallback = e.pendingInputCallback
  prompt : e'.pendingInputPrompt = e.pendingInputPrompt
  detached : e'.detached = t.detached ∨ ∃ dnsCache, e'.detached = t.detached ++ [⟨t.toShellState, dnsCache⟩]

/-- The steps that tell where output and redirections go, taken in the state `e`. -/
def Step.IsPlain (e : ShellEmulator) : Step → Prop
  | .segment .. | .output .. => True
  | .redirect _ _ _ _ e' => e' = e
  | _ => False

structure Account (C : Step → Prop) (S T R N : Relation) : Prop where
  composeR : ∀ c, Composable (R c)
  composeN : ∀ c, Composable (N c)
  framedR : ∀ {c e e'}, Framed e e' → R c e [] e'
  framedN : ∀ {c e e'}, Framed e e' → N c e [] e'
  plainR : ∀ {c e t}, t.IsPlain e → C t → R c e [t] e
  plainN : ∀ {c e t}, t.IsPlain e → C t → N c e [t] e
  /-- The context without the note of a handler. -/
  caught : ∀ {c e l e'}, R c.caught e l e' → R c e l e'
  authenticated : ∀ {c name args e}, needsPassword e args = false → C (.authenticate c name args e) →
    R c e [.authenticate c name args e] e
  deferred : ∀ {c name args input cls e e'}, lookupCommand name = some cls → needsPassword e args = true →
    C (.authenticate c name args e) → Asked (.passwordAuth name args input) e e' →
    R c e [.authenticate c name args e] e'
  leaf : ∀ {c name args input cls e e'}, lookupCommand name = some (.leaf cls) → C (.dispatch c name args input e) →
    Framed e e' → R c e [.dispatch c name args input e] e'
  shell : ∀ {c name args input cls e e'}, lookupCommand name = some (.shell cls) →
    C (.dispatch c name args input e) → Leaves (cls.asksFor e name args) e e' → R c e [.dispatch c name args input e] e'
  calls : ∀ {c name args input cls e l e'}, lookupCommand name = some (.shell cls) → cls.prompts e args = false →
    C (.dispatch c name args input e) → N c e l e' → R c e (.dispatch c name args input e :: l) e'
  inner : ∀ {c e l e'}, S c.inner e l e' → N c e l e'
  line : ∀ {c later e l e'}, S (c.line later) e l e' → N c e l e'
  temp : ∀ {c e t l t' e'}, TempShell e t → S c.delegated t l t' → Returned e t' e' → N c e l e'
  idle : ∀ {c e l e'}, e.pendingInputCallback = none → R c e l e' → T c e l e'
  answered : ∀ {c cb s e t o e'}, e.pendingInputCallback = some cb → C (.answer c cb s e) → Cleared e t →
    o = none ∨ o = some cb → Leaves o t e' → T c e [.answer c cb s e] e'
  password : ∀ {c name args input s e t l e'}, e.pendingInputCallback = some (.passwordAuth name args input) →
    C (.answer c (.passwordAuth name args input) s e) → Cleared e t → R c t l e' →
    T c e (.answer c (.passwordAuth name args input) s e :: l) e'
  pkexec : ∀ {c args s e t l e'}, e.pendingInputCallback = some (.pkexecAuth args) →
    C (.answer c (.pkexecAuth args) s e) → Cleared e t → S c.inner t l e' →
    T c e (.answer c (.pkexecAuth args) s e :: l) e'
  doas : ∀ {c args s e t u l u' e'}, e.pendingInputCallback = some (.doasAuth args) →
    C (.answer c (.doasAuth args) s e) → Cleared e t → TempShell t u → S c.delegated u l u' → Returned t u' e' →
    T c e (.answer c (.doasAuth args) s e :: l) e'

namespace Account

variable {C : Step → Prop} {S T R N : Relation} {W : World} {run : Ctx → Str → Shell Result} {c : Ctx}
  (hA : Account C S T R N) (hrun : ∀ c line, Along C (S c) (run c line))

section Commands

include hA

theorem frames {α : Type} {m : Shell α} (h : Frames m) : Along C (N c) m := fun e => (h e).of_quiet fun _ => hA.framedN

theorem pure {α : Type} (a : α) : Along C (N c) (Pure.pure a : Shell α) := Along.pure (hA.composeN c)

theorem bind {α β : Type} {m : Shell α} {f : α → Shell β} (hm : Along C (N c) m) (hf : ∀ a, Along C (N c) (f a)) :
    Along C (N c) (m >>= f) := Along.bind (hA.composeN c) hm hf

include hrun

theorem executeSubcommand (args : List Str) : Along C (N c) (executeSubcommand run c args) := by
  unfold Cyanide.executeSubcommand
  exact Along.ite (fun _ => hA.pure _) fun _ => (hrun c.inner _).mono fun _ _ _ => hA.inner

theorem bashLoop (stdout stderr : Str) (rc : Int) (lines : List Str) :
    Along C (N c) (bashLoop run c stdout stderr rc lines) := by
  induction lines generalizing stdout stderr rc with
  | nil => exact hA.pure _
  | cons line lines ih =>
    unfold Cyanide.bashLoop
    refine hA.bind ((hrun _ line).mono fun _ _ _ => hA.line) fun r => ?_
    refine hA.bind ?_ fun _ => ih _ _ _
    unfold addOutput
    exact hA.bind (Along.step fun _ => hA.plainN trivial) fun _ => hA.frames (frames_onMachine _)

theorem bashCommand (args : List Str) : Along C (N c) (bashCommand run c args) := by
  have hscript : ∀ scriptPath, Along C (N c) (bashScript run c scriptPath) := by
    intro scriptPath
    unfold bashScript
    refine hA.bind (hA.frames frames_get) fun e => Along.ite (fun _ => hA.pure _) fun _ => ?_
    refine Along.ite (fun _ => hA.pure _) fun _ => hA.bind (hA.frames (frames_onMachine _)) fun _ => ?_
    exact hA.bind (hA.frames (frames_onMachine _)) fun _ => hA.bashLoop hrun _ _ _ _
  unfold Cyanide.bashCommand
  refine Along.ite (fun _ => hA.pure _) fun _ => ?_
  split
  · exact hA.pure _
  · split
    · exact (hrun c.inner _).mono fun _ _ _ => hA.inner
    · exact hscript _

theorem suCommand {args : List Str} {e : ShellEmulator} (h : ShellCommand.prompts e args .su = false) :
    AlongAt C (N c) (suCommand run c args) e := by
  cases hcmd : argAfter "-c".toList args with
  | none =>
    have hleaves := leaves_suCommand run c hcmd [] e
    rw [asksFor_of_not h] at hleaves
    exact hleaves.of_quiet fun _ => hA.framedN
  | some cmdLine =>
    have hsplit : Along C (N c) (shlexSplit cmdLine) := by
      unfold shlexSplit
      split
      · exact hA.pure _
      · exact Along.throw (hA.composeN c)
    unfold Cyanide.suCommand
    simp only [hcmd]
    exact hA.bind hsplit (fun _ => hA.executeSubcommand hrun _) e

theorem executeAs (username : Str) (keepCwd : Bool) (cmdLine : Str) :
    Along C (N c) (executeAs run c username keepCwd cmdLine) := by
  intro e
  unfold Cyanide.executeAs inTempShell
  refine AlongAt.zoom (hrun c.delegated cmdLine _) fun l t ht => hA.temp ?_ ht ?_
  · dsimp only
    split <;> exact ⟨rfl, rfl, rfl⟩
  · refine ⟨rfl, rfl, ?_⟩
    dsimp only
    split
    · exact .inl rfl
    · exact .inr ⟨_, rfl⟩

/-- A command that calls a shell and does not ask. -/
theorem runShellCommand {cls : ShellCommand} {e : ShellEmulator} {args : List Str} (hcalls : cls.callsShell = true)
    (h : cls.prompts e args = false) (name : Str) : AlongAt C (N c) (cls.execute run c name args) e := by
  cases cls with
  | bash => exact hA.bashCommand hrun args e
  | su => exact hA.suCommand hrun h
  | sudo_ =>
    -- usage, the version, an interactive shell or nothing to run: only the last form executes a line
    show AlongAt C (N c) (sudoCommand run c args) e
    unfold sudoCommand
    split
    · exact hA.pure _ e
    · exact hA.bind (hA.frames frames_get) (fun _ => hA.pure _) e
    · exact hA.bind (hA.frames (frames_sudoInteractive _)) (fun _ => hA.pure _) e
    · exact hA.pure _ e
    · exact hA.executeAs hrun _ _ _ e
  | doas =>
    show AlongAt C (N c) (doasCommand run c args) e
    unfold doasCommand
    refine AlongAt.get_bind ?_
    by_cases hargs : args = []
    · rw [if_pos hargs]
      exact hA.pure _ e
    by_cases hroot : e.username = root
    · rw [if_neg hargs, if_pos hroot]
      exact hA.executeSubcommand hrun args e
    · -- it would ask for the password
      simp [ShellCommand.prompts, hargs, hroot] at h
  | pkexec =>
    show AlongAt C (N c) (pkexecCommand run c args) e
    unfold pkexecCommand
    refine AlongAt.get_bind ?_
    cases args with
    | nil => exact hA.pure _ e
    | cons program params =>
      dsimp only
      by_cases hroot : e.username = root
      · rw [if_pos hroot]
        exact hA.executeSubcommand hrun _ e
      · simp [ShellCommand.prompts, hroot] at h
  | _ => cases hcalls

theorem runCommand {cls : CommandClass} {name : Str} (hcls : lookupCommand name = some cls) (args : List Str)
    (input : Content) : Along C (R c) (runCommand W run c cls name args input) := by
  unfold Cyanide.runCommand
  refine Along.get_bind fun e => ?_
  cases cls with
  | leaf cls =>
    refine AlongAt.step_bind (fun _ => frames_onMachine _ e |>.of_quiet (R := Quiet Framed) fun _ h => ⟨rfl, h⟩) ?_
    rintro l u ht ⟨rfl, hframed⟩
    exact hA.leaf hcls ht hframed
  | shell cls =>
    by_cases hleaves : cls.prompts e args = true ∨ cls.callsShell = false
    · refine AlongAt.step_bind (S := Quiet (Leaves (cls.asksFor e name args)))
        (fun _ => (leaves_execute run c hleaves name).of_quiet fun _ h => ⟨rfl, h⟩) ?_
      rintro l u ht ⟨rfl, h⟩
      exact hA.shell hcls ht h
    · obtain ⟨hasks, hcalls⟩ := not_or.1 hleaves
      rw [Bool.not_eq_true] at hasks
      rw [Bool.not_eq_false] at hcalls
      exact AlongAt.step_bind (fun _ => hA.runShellCommand hrun hcalls hasks name) fun l u ht h => hA.calls hcls hasks ht h

/-! ### Lines -/

theorem authAndExecute {cls : CommandClass} {name : Str} (hcls : lookupCommand name = some cls) (args : List Str)
    (input : Content) : Along C (R c) (authAndExecute W run c cls name args input) := by
  unfold Cyanide.authAndExecute
  refine Along.get_bind fun e => ?_
  by_cases hneeds : needsPassword e args = true
  · rw [if_pos hneeds]
    refine AlongAt.step_bind (S := Quiet (Asked (.passwordAuth name args input)))
      (fun _ => AlongAt.modify_bind (S := Quiet Framed) (frames_pure _ _ |>.of_quiet fun _ h => ⟨rfl, h⟩) ?_) ?_
    · rintro l t ⟨rfl, h⟩
      exact ⟨rfl, h.callback, h.prompt ▸ rfl, h.detached⟩
    · rintro l u ht ⟨rfl, h⟩
      exact hA.deferred hcls hneeds ht h
  · rw [if_neg hneeds]
    rw [Bool.not_eq_true] at hneeds
    exact AlongAt.step_bind (fun _ => hA.runCommand hrun hcls args input e) fun l u ht h =>
      (hA.composeR c).trans (hA.authenticated hneeds ht) h

theorem runCommandInstance (cmdName : Str) (params : List Str) (input : Content) :
    Along C (R c) (runCommandInstance W run c cmdName params input) := by
  unfold Cyanide.runCommandInstance
  split
  · exact Along.pure (hA.composeR c)
  next cls hcls =>
    refine Along.tryCatch (hA.composeR c) ((hA.authAndExecute (c := c.caught) hrun hcls params input).mono
      fun _ _ _ => hA.caught) fun x => ?_
    cases x with
    | raised message => exact Along.pure (hA.composeR c)
    | systemExit => exact Along.throw (hA.composeR c)
    | endless => exact Along.throw (hA.composeR c)

theorem executeSingleCommand (cmdLine : Str) (input : Content) :
    Along C (R c) (executeSingleCommand W run c cmdLine input) := by
  unfold Cyanide.executeSingleCommand
  split
  · exact Along.pure (hA.composeR c)
  · exact Along.pure (hA.composeR c)
  next name args hsplit =>
    refine Along.get_bind fun e => ?_
    dsimp only
    refine Along.ite (fun _ => ?_) (fun _ => hA.runCommandInstance hrun _ _ _) e
    unfold runScript
    refine Along.get_bind fun e => Along.ite (fun _ => ?_) (fun _ => Along.pure (hA.composeR c)) e
    exact hA.runCommand hrun rfl _ _

theorem executePipeline (pipelineStr : Str) : Along C (R c) (executePipeline W run c pipelineStr) := by
  have hR := hA.composeR c
  have hmachine : ∀ {α : Type} (m : Leaf α), Along C (R c) (onMachine m) := fun m e =>
    (frames_onMachine m e).of_quiet fun _ => hA.framedR
  unfold Cyanide.executePipeline
  refine Along.bind hR (Along.foldlM hR _ (fun st segment => ?_) _) fun _ => Along.pure hR
  unfold executeSegment
  refine Along.bind hR (Along.step fun _ => hA.plainR trivial) fun _ => ?_
  split
  · exact Along.throw hR
  next cmdStr target append hparse =>
    refine Along.bind hR (hA.executeSingleCommand hrun _ _) fun r => ?_
    dsimp only
    refine Along.ite (fun _ => Along.bind hR ?_ fun _ => Along.pure hR) fun _ => Along.pure hR
    unfold redirectOutput
    refine Along.get_bind fun e => AlongAt.bind hR (fun hC => ?_) fun _ _ => hmachine _ _
    exact hA.plainR rfl (hC _ (List.mem_singleton.2 rfl))

theorem executeLine (commandLine : Str) : Along C (R c) (executeLine W run c commandLine) := by
  have hR := hA.composeR c
  have hmachine : ∀ {α : Type} (m : Leaf α), Along C (R c) (onMachine m) := fun m e =>
    (frames_onMachine m e).of_quiet fun _ => hA.framedR
  have hbackground : ∀ cmd, Along C (R c) (background W cmd) := fun cmd =>
    Along.bind hR (Along.get hR) fun _ => hmachine _
  have hpipeline : ∀ cmd, Along C (R c) (pipelineNode W run c cmd) := fun cmd =>
    Along.bind hR (hA.executePipeline hrun cmd) fun r =>
      Along.bind hR (Along.bind hR (Along.step fun _ => hA.plainR trivial) fun _ => hmachine _) fun _ => Along.pure hR
  unfold Cyanide.executeLine
  refine Along.ite (fun _ => Along.pure hR) fun _ => ?_
  refine Along.bind hR (Along.modify fun e => hA.framedR ⟨rfl, rfl, rfl⟩) fun _ => ?_
  refine Along.bind hR (Along.get hR) fun e => Along.ite (fun _ => Along.pure hR) fun _ => Along.map ?_
  unfold executeNodes executeLoop
  refine Along.bind hR (Along.foldlM hR _ (fun st node => ?_) _) fun _ => Along.pure hR
  unfold executeNode
  refine Along.ite (fun _ => Along.pure hR) fun _ => Along.ite (fun _ => Along.pure hR) fun _ => ?_
  refine Along.bind hR ?_ fun _ => Along.pure hR
  unfold runNode
  exact Along.ite (fun _ => hbackground _) fun _ => hpipeline _

/-! ### Calls -/

omit hrun in
/-- A callback that runs no command. -/
theorem leavesSome {cb : Callback} {m : Shell Result} {s : Str} {e t : ShellEmulator}
    (hcb : e.pendingInputCallback = some cb) (ht : Cleared e t) (h : LeavesSome cb m t) :
    AlongAt C (fun _ => T c e) (Traced.step (.answer c cb s e) >>= fun _ => m) t := by
  obtain ⟨o, ho, hleaves⟩ : ∃ o, (o = none ∨ o = some cb) ∧ LeavesAt o m t :=
    h.elim (fun h => ⟨none, .inl rfl, h⟩) fun h => ⟨some cb, .inr rfl, h⟩
  refine AlongAt.step_bind (S := Quiet (Leaves o)) (fun _ => hleaves.of_quiet fun _ h => ⟨rfl, h⟩) ?_
  rintro l u hC ⟨rfl, hu⟩
  exact hA.answered hcb hC ht ho hu

/-- A callback gets the line. -/
theorem answer {cb : Callback} (s : Str) {e t : ShellEmulator} (hcb : e.pendingInputCallback = some cb)
    (ht : Cleared e t) :
    AlongAt C (fun _ => T c e) (Traced.step (.answer c cb s e) >>= fun _ => Cyanide.answer W run c cb s) t := by
  have hroot : Cleared e { t with username := root } := ⟨ht.callback, ht.prompt, ht.detached⟩
  cases cb with
  | suPassword => exact hA.leavesSome hcb ht (.inl (frames_onPassword s t).map)
  | crontabInput => exact hA.leavesSome hcb ht (leaves_crontabInput s t).map
  | visudoInput => exact hA.leavesSome hcb ht (leaves_visudoInput s t).map
  | editorInput name => exact hA.leavesSome hcb ht (leaves_editorInput name s t).map
  | pythonInput => exact hA.leavesSome hcb ht (leaves_pythonInput s t).map
  | passwordAuth name args input =>
    refine AlongAt.step_bind (S := fun _ l u => R c { t with username := root } l u) (fun _ => ?_)
      fun l u hC h => hA.password hcb hC hroot h
    show AlongAt C _ (onPasswordAuth W run c name args input) t
    unfold onPasswordAuth
    refine AlongAt.modify_bind (S := R c) ?_ fun _ _ h => h
    split
    next cls hcls => exact hA.runCommand hrun hcls args input _
    · exact Along.pure (hA.composeR c) _
  | pkexecAuth args =>
    by_cases hargs : args = []
    · -- no arguments: the user changes and nothing is executed
      have hframes : Frames (onPkexecAuth run c args) := by
        unfold onPkexecAuth Cyanide.executeSubcommand
        rw [if_pos hargs]
        exact Frames.bind (frames_modify fun _ => ⟨rfl, rfl, rfl⟩) fun _ => frames_pure _
      exact hA.leavesSome hcb ht (.inl (hframes t))
    · refine AlongAt.step_bind (S := fun _ l u => S c.inner { t with username := root } l u) (fun _ => ?_)
        fun l u hC h => hA.pkexec hcb hC hroot h
      show AlongAt C _ (onPkexecAuth run c args) t
      unfold onPkexecAuth Cyanide.executeSubcommand
      rw [if_neg hargs]
      exact AlongAt.modify_bind (hrun c.inner _ _) fun _ _ h => h
  | doasAuth args =>
    -- the line goes to a shell of its own, of which only the machine comes back
    refine AlongAt.step_bind (S := fun s l e' => ∃ u u', TempShell s u ∧ S c.delegated u l u' ∧ Returned s u' e')
      (fun _ => ?_) fun l e' hC ⟨u, u', hu, hS, he'⟩ => hA.doas hcb hC ht hu hS he'
    show AlongAt C _ (Cyanide.executeAs run c root true (Shlex.join args)) t
    unfold Cyanide.executeAs inTempShell
    refine AlongAt.zoom (hrun c.delegated _ _) fun l u' hu' => ⟨_, u', ?_, hu', rfl, rfl, ?_⟩
    · exact ⟨rfl, rfl, rfl⟩
    · dsimp only
      split
      · exact .inl rfl
      · exact .inr ⟨_, rfl⟩

theorem executeWith (commandLine : Str) : Along C (T c) (executeWith W run c commandLine) := by
  unfold Cyanide.executeWith
  refine Along.get_bind fun e => ?_
  cases hpending : e.pendingInputCallback with
  | none => exact (hA.executeLine hrun commandLine e).mono fun _ _ => hA.idle hpending
  | some cb =>
    exact AlongAt.modify_bind (hA.answer hrun commandLine hpending ⟨rfl, rfl, rfl⟩) fun _ _ h => h

end Commands

/-- The shell, by induction on the number of nested calls left. -/
theorem execute (hA : Account C S T R N)
    (hzero : ∀ {c line e}, C (.enter c 0 line e) → S c e [.enter c 0 line e] e)
    (henter : ∀ {c depth line e l e'}, C (.enter c (depth + 1) line e) → T c e l e' →
      S c e (.enter c (depth + 1) line e :: l) e') (depth : ℕ) (c : Ctx) (line : Str) :
    Along C (S c) (Cyanide.execute W depth c line) := by
  induction depth generalizing c line with
  | zero =>
    -- the interpreter's limit: the call is entered and raises
    unfold Cyanide.execute
    refine Along.get_bind fun e => AlongAt.step_bind (S := fun e l e' => e' = e ∧ l = []) (fun _ _ => ⟨rfl, rfl⟩) ?_
    rintro l u hC ⟨rfl, rfl⟩
    exact hzero hC
  | succ depth ih =>
    unfold Cyanide.execute
    exact Along.get_bind fun e => AlongAt.step_bind (fun _ => hA.executeWith ih line e) fun l u hC h => henter hC h

end Account

end Cyanide
