import Cyanide.Lib.Along
import Cyanide.Shell.Emulator

/-!
# What commands do to the prompt

Most commands leave what is pending alone (`Framed`).  Those that ask the client for a line set the callback and the
prompt together (`Asked`), and a command does so just when `ShellCommand.prompts` says it.  Commands that give lines to
a shell are only covered here where they ask.
-/

namespace Cyanide

open PosixPath PyText Traced

/-- The same is pending, and the detached shells are the same. -/
structure Framed (e e' : ShellEmulator) : Prop where
  callback : e'.pendingInputCallback = e.pendingInputCallback
  prompt : e'.pendingInputPrompt = e.pendingInputPrompt
  detached : e'.detached = e.detached

/-- The client has been asked for a line for the callback. -/
structure Asked (cb : Callback) (e e' : ShellEmulator) : Prop where
  callback : e'.pendingInputCallback = some cb
  prompt : e'.pendingInputPrompt.isSome = true
  detached : e'.detached = e.detached

/-- The client has been asked for a line for the callback, if one is given. -/
def Leaves : Option Callback → ShellEmulator → ShellEmulator → Prop
  | none => Framed
  | some cb => Asked cb

variable {e t u : ShellEmulator} {cb : Callback} {o : Option Callback}

theorem Framed.refl (e : ShellEmulator) : Framed e e := ⟨rfl, rfl, rfl⟩

theorem Framed.trans (h : Framed e t) (h' : Framed t u) : Framed e u :=
  ⟨h'.callback.trans h.callback, h'.prompt.trans h.prompt, h'.detached.trans h.detached⟩

theorem Framed.leaves (h : Framed e t) (h' : Leaves o t u) : Leaves o e u := by
  cases o with
  | none => exact h.trans h'
  | some cb => exact ⟨h'.callback, h'.prompt, h'.detached.trans h.detached⟩

theorem Leaves.framed (h : Leaves o e t) (h' : Framed t u) : Leaves o e u := by
  cases o with
  | none => exact h.trans h'
  | some cb => exact ⟨h'.callback.trans h.callback, h'.prompt ▸ h.prompt, h'.detached.trans h.detached⟩

/-- A computation without steps that leaves what is pending alone. -/
abbrev Frames {α : Type} (m : Shell α) : Prop := Along (fun _ => True) (Quiet Framed) m

/-- A computation without steps that asks the client, from `e`, if a callback is given. -/
abbrev LeavesAt {α : Type} (o : Option Callback) (m : Shell α) (e : ShellEmulator) : Prop :=
  AlongAt (fun _ => True) (Quiet (Leaves o)) m e

section Rules

variable {α β : Type} {m : Shell α} {f : α → Shell β}

theorem composable_framed : Composable (Quiet Framed : ShellEmulator → List Step → ShellEmulator → Prop) :=
  composable_quiet Framed.refl Framed.trans

theorem frames_pure (a : α) : Frames (pure a : Shell α) := Along.pure composable_framed

theorem frames_throw (x : Exn) : Frames (throw x : Shell α) := Along.throw composable_framed

theorem frames_get : Frames (get : Shell ShellEmulator) := Along.get composable_framed

theorem frames_modify {g : ShellEmulator → ShellEmulator} (h : ∀ e, Framed e (g e)) : Frames (modify g) :=
  Along.modify fun e => ⟨rfl, h e⟩

theorem frames_onMachine (m : Leaf α) : Frames (onMachine m) := Along.embed fun _ _ => ⟨rfl, rfl, rfl, rfl⟩

theorem Frames.bind (hm : Frames m) (hf : ∀ a, Frames (f a)) : Frames (m >>= f) := Along.bind composable_framed hm hf

/-- What has been asked for stays asked for. -/
theorem LeavesAt.bind (hm : LeavesAt o m e) (hf : ∀ a, Frames (f a)) : LeavesAt o (m >>= f) e :=
  AlongAt.seq hm (fun a _ => hf a _) (fun _ _ h => h) fun _ _ _ _ h h' => ⟨by rw [h.1, h'.1]; rfl, h.2.framed h'.2⟩

/-- After something that returns, the client is asked. -/
theorem LeavesAt.after {a : α} (hm : Frames m) (hok : (m e).result = .ok a) (hf : ∀ t, LeavesAt o (f a) t) :
    LeavesAt o (m >>= f) e := by
  refine AlongAt.seq (hm e) (fun b hb => ?_) (fun x hx _ => ?_) fun l t l' u h (h' : Quiet (Leaves o) t l' u) =>
    ⟨by rw [h.1, h'.1]; rfl, h.2.leaves h'.2⟩
  · obtain rfl := Except.ok.inj (hok.symm.trans hb)
    exact hf _
  · rw [hok] at hx
    cases hx

theorem leaves_ask (cb : Callback) (prompt : Str) (e : ShellEmulator) : LeavesAt (some cb) (ask cb prompt) e :=
  AlongAt.modify ⟨rfl, rfl, rfl, rfl⟩

end Rules

/-! ### Commands that do not ask -/

theorem frames_cdCommand (args : List Str) : Frames (cdCommand args) := by
  unfold cdCommand
  refine frames_get.bind fun e => ?_
  dsimp only
  refine Along.ite (fun _ => Frames.bind (frames_modify fun _ => ⟨rfl, rfl, rfl⟩) fun _ => frames_pure _) fun _ => ?_
  cases args with
  | nil => exact frames_throw _
  | cons arg args => exact Along.ite (fun _ => frames_pure _) fun _ => frames_pure _

theorem frames_exportCommand (args : List Str) : Frames (exportCommand args) := by
  unfold exportCommand
  exact Frames.bind (frames_modify fun _ => ⟨rfl, rfl, rfl⟩) fun _ => frames_pure _

theorem frames_aliasCommand (args : List Str) : Frames (aliasCommand args) := by
  unfold aliasCommand
  refine frames_get.bind fun e => Along.ite (fun _ => frames_pure _) fun _ => ?_
  exact Frames.bind (frames_modify fun _ => ⟨rfl, rfl, rfl⟩) fun _ => frames_pure _

theorem frames_unaliasCommand (args : List Str) : Frames (unaliasCommand args) := by
  unfold unaliasCommand
  refine Along.ite (fun _ => frames_pure _) fun _ => frames_get.bind fun e => ?_
  exact Frames.bind (frames_modify fun _ => ⟨rfl, rfl, rfl⟩) fun _ => frames_pure _

theorem frames_crontabInstall (args : List Str) : Frames (crontabInstall args) := by
  unfold crontabInstall
  refine frames_get.bind fun e => ?_
  cases cleanArgs args with
  | nil => exact frames_pure _
  | cons file files =>
    exact Along.ite (fun _ => frames_pure _) fun _ => Along.ite (fun _ => frames_pure _) fun _ => frames_onMachine _

theorem frames_capturedLines (name : Str) : Frames (capturedLines name) := frames_get.bind fun _ => frames_pure _

theorem frames_setLines (name : Str) (lines : List Content) : Frames (setLines name lines) :=
  frames_modify fun _ => ⟨rfl, rfl, rfl⟩

theorem frames_sudoInteractive (targetUser : Str) : Frames (sudoInteractive targetUser) := by
  unfold sudoInteractive
  exact frames_get.bind fun _ => Frames.bind (frames_modify fun _ => ⟨rfl, rfl, rfl⟩) fun _ => frames_pure _

theorem frames_onPassword (line : Str) : Frames (onPassword line) := by
  unfold onPassword
  refine frames_get.bind fun _ => Along.ite (fun _ => ?_) fun _ => frames_pure _
  refine Frames.bind ?_ fun _ => frames_pure _
  unfold updateEmulatorState
  refine frames_get.bind fun _ => Frames.bind (frames_modify fun _ => ⟨rfl, rfl, rfl⟩) fun _ => ?_
  exact Along.ite (fun _ => frames_onMachine _) fun _ => frames_pure _

/-! ### Commands that ask -/

/-- The user that `su` changes to. -/
def suUser : List Str → Str
  | [] => root
  | arg :: rest => if arg = ['-'] then rest.head?.getD root else arg

/-- Whether a command raises a prompt. -/
def ShellCommand.prompts (e : ShellEmulator) (args : List Str) : ShellCommand → Bool
  | .crontab => !args.contains "-l".toList && !args.contains "-r".toList && args.contains "-e".toList
  | .doas | .pkexec => args ≠ [] && e.username ≠ root
  | .editor => args.head?.any fun arg => !e.fs.isDir (resolvePath e.cwd arg)
  | .python => !(["-h", "--help", "--version", "-V", "-c"].any fun flag => args.contains flag.toList) &&
      (args.head?.filter (·.head? ≠ some '-')).isNone
  | .su => (argAfter "-c".toList args).isNone && e.username ≠ suUser args
  | .visudo => e.username = root
  | _ => false

/-- What a command asks for. -/
def ShellCommand.callback (name : Str) (args : List Str) : ShellCommand → Option Callback
  | .crontab => some .crontabInput
  | .doas => some (.doasAuth args)
  | .pkexec => some (.pkexecAuth args)
  | .editor => some (.editorInput name)
  | .python => some .pythonInput
  | .su => some .suPassword
  | .visudo => some .visudoInput
  | _ => none

/-- The callback that a command leaves, if it asks. -/
def ShellCommand.asksFor (e : ShellEmulator) (name : Str) (args : List Str) (cls : ShellCommand) : Option Callback :=
  if cls.prompts e args then cls.callback name args else none

theorem asksFor_of_prompts {name : Str} {args : List Str} {cls : ShellCommand} (h : cls.prompts e args = true) :
    cls.asksFor e name args = cls.callback name args := if_pos h

theorem asksFor_of_not {name : Str} {args : List Str} {cls : ShellCommand} (h : cls.prompts e args = false) :
    cls.asksFor e name args = none := if_neg (by rw [h]; decide)

/-- The commands that give lines to a shell. -/
def ShellCommand.callsShell : ShellCommand → Bool
  | .bash | .doas | .pkexec | .su | .sudo_ => true
  | _ => false

theorem existingContent_result (path : Str) (M : Machine) : ∃ content, (existingContent path M).result = .ok content := by
  by_cases h : M.fs.pathExists path = true
  · refine ⟨(M.fs.getContent path).1, ?_⟩
    have hfs : (Leaf.fs M).result = .ok M.fs := rfl
    unfold existingContent
    rw [bind_ok hfs]
    show ((if M.fs.pathExists path = true then Leaf.getContent path else Pure.pure (.text [])) M).result = _
    rw [if_pos h]
    rfl
  · refine ⟨.text [], ?_⟩
    have hfs : (Leaf.fs M).result = .ok M.fs := rfl
    unfold existingContent
    rw [bind_ok hfs]
    show ((if M.fs.pathExists path = true then Leaf.getContent path else Pure.pure (.text [])) M).result = _
    rw [if_neg h]
    rfl

theorem leaves_crontabAction (name : Str) (args : List Str) (e t : ShellEmulator) :
    LeavesAt (ShellCommand.asksFor e name args .crontab) (crontabAction args) t := by
  have hprompts : ShellCommand.prompts e args .crontab =
    (!args.contains "-l".toList && !args.contains "-r".toList && args.contains "-e".toList) := rfl
  unfold crontabAction
  refine AlongAt.get_bind ?_
  by_cases hl : args.contains "-l".toList = true
  · rw [asksFor_of_not (by rw [hprompts, hl]; rfl), if_pos hl]
    exact Along.ite (fun _ => Frames.bind (frames_onMachine _) fun _ => frames_pure _) (fun _ => frames_pure _) t
  rw [if_neg hl]
  by_cases hr : args.contains "-r".toList = true
  · rw [asksFor_of_not (by rw [hprompts, hr, Bool.not_true, Bool.and_false, Bool.false_and]), if_pos hr]
    exact Along.ite (fun _ => Frames.bind (frames_onMachine _) fun _ => frames_pure _) (fun _ => frames_pure _) t
  rw [if_neg hr]
  by_cases he : args.contains "-e".toList = true
  · rw [asksFor_of_prompts (by rw [hprompts, Bool.eq_false_iff.2 hl, Bool.eq_false_iff.2 hr, he]; rfl), if_pos he]
    refine LeavesAt.bind ?_ fun _ => frames_pure _
    unfold crontabEdit
    refine LeavesAt.bind (leaves_ask _ _ _) fun _ => Frames.bind (frames_onMachine _) fun _ => ?_
    exact Frames.bind (frames_setLines _ _) fun _ => frames_pure _
  · rw [asksFor_of_not (by rw [hprompts, Bool.eq_false_iff.2 he, Bool.and_false]), if_neg he]
    exact Frames.bind (frames_crontabInstall args) (fun _ => frames_pure _) t

theorem leaves_crontabCommand (name : Str) (args : List Str) (e : ShellEmulator) :
    LeavesAt (ShellCommand.asksFor e name args .crontab) (crontabCommand args) e := by
  unfold crontabCommand
  refine AlongAt.get_bind ?_
  by_cases hdir : e.fs.pathExists cronDir = true
  · rw [if_pos hdir]
    exact leaves_crontabAction name args e e
  · rw [if_neg hdir]
    exact LeavesAt.after (frames_onMachine _) rfl (leaves_crontabAction name args e)

theorem leaves_visudoCommand (name : Str) (args : List Str) (e : ShellEmulator) :
    LeavesAt (ShellCommand.asksFor e name args .visudo) visudoCommand e := by
  unfold visudoCommand
  refine AlongAt.get_bind ?_
  have hprompts : ShellCommand.prompts e args .visudo = decide (e.username = root) := rfl
  by_cases hroot : e.username = root
  · rw [asksFor_of_prompts (hprompts.trans (decide_eq_true hroot)), if_neg (not_not.2 hroot)]
    refine LeavesAt.bind (leaves_ask _ _ _) fun _ => Frames.bind (frames_onMachine _) fun _ => ?_
    exact Frames.bind (frames_setLines _ _) fun _ => frames_pure _
  · rw [asksFor_of_not (hprompts.trans (decide_eq_false hroot)), if_pos hroot]
    exact frames_pure _ e

theorem leaves_editorCommand (name : Str) (args : List Str) (e : ShellEmulator) :
    LeavesAt (ShellCommand.asksFor e name args .editor) (editorCommand name args) e := by
  unfold editorCommand
  cases args with
  | nil => exact frames_pure _ e
  | cons arg args =>
    refine AlongAt.get_bind ?_
    refine LeavesAt.after (a := ()) (frames_modify fun _ => ⟨rfl, rfl, rfl⟩) rfl fun t => ?_
    by_cases hdir : e.fs.isDir (resolvePath e.cwd arg) = true
    · have hprompts : ShellCommand.prompts e (arg :: args) .editor = false := by
        simp only [ShellCommand.prompts, List.head?_cons, Option.any_some, hdir, Bool.not_true]
      rw [asksFor_of_not hprompts, if_pos hdir]
      exact frames_pure _ t
    · have hprompts : ShellCommand.prompts e (arg :: args) .editor = true := by
        simp only [ShellCommand.prompts, List.head?_cons, Option.any_some, Bool.not_eq_true', hdir]
      obtain ⟨content, hcontent⟩ := existingContent_result (resolvePath e.cwd arg) t.machine
      rw [asksFor_of_prompts hprompts, if_neg hdir]
      refine LeavesAt.after (frames_onMachine _) hcontent fun u => ?_
      refine LeavesAt.after (frames_setLines _ _) rfl fun v => ?_
      exact LeavesAt.bind (leaves_ask _ _ _) fun _ => frames_pure _

theorem logEvent_result (v : View) (eventType : Str) (data : List (Str × Str)) (M : Machine) :
    (Leaf.logEvent v eventType data M).result = .ok () := by
  unfold Leaf.logEvent
  split <;> rfl

theorem logEvent_fs (v : View) (eventType : Str) (data : List (Str × Str)) (M : Machine) :
    (Leaf.logEvent v eventType data M).state.fs = M.fs := by
  unfold Leaf.logEvent
  split <;> rfl

theorem leaves_pythonCommand (name : Str) (args : List Str) (e : ShellEmulator) :
    LeavesAt (ShellCommand.asksFor e name args .python) (pythonCommand args) e := by
  have hprompts : ShellCommand.prompts e args .python =
    (!(["-h", "--help", "--version", "-V", "-c"].any fun flag => args.contains flag.toList) &&
      (args.head?.filter (·.head? ≠ some '-')).isNone) := rfl
  simp only [List.any_cons, List.any_nil, Bool.or_false] at hprompts
  unfold pythonCommand
  refine AlongAt.get_bind ?_
  refine LeavesAt.after (frames_onMachine _) (logEvent_result _ _ _ _) fun t => ?_
  generalize args.contains "-h".toList = h at hprompts ⊢
  generalize args.contains "--help".toList = help at hprompts ⊢
  generalize args.contains "--version".toList = version at hprompts ⊢
  generalize args.contains "-V".toList = v at hprompts ⊢
  generalize args.contains "-c".toList = c at hprompts ⊢
  by_cases hhelp : (h || help) = true
  · rw [asksFor_of_not (by rw [hprompts, ← Bool.or_assoc, hhelp, Bool.true_or]; rfl), if_pos hhelp]
    exact frames_pure _ t
  rw [if_neg hhelp]
  rw [Bool.not_eq_true] at hhelp
  by_cases hversion : (version || v) = true
  · have hnone : ShellCommand.prompts e args .python = false := by
      rw [hprompts, ← Bool.or_assoc, hhelp, Bool.false_or, ← Bool.or_assoc, hversion, Bool.true_or]
      rfl
    rw [asksFor_of_not hnone, if_pos hversion]
    exact frames_pure _ t
  rw [if_neg hversion]
  rw [Bool.not_eq_true] at hversion
  rw [← Bool.or_assoc, hhelp, Bool.false_or, ← Bool.or_assoc, hversion, Bool.false_or] at hprompts
  cases c with
  | true =>
    rw [asksFor_of_not (by rw [hprompts]; rfl), if_pos rfl]
    exact frames_onMachine _ t
  | false =>
    rw [if_neg (by decide)]
    rw [Bool.not_false, Bool.true_and] at hprompts
    cases hfile : args.head?.filter (·.head? ≠ some '-') with
    | some file =>
      rw [asksFor_of_not (by rw [hprompts, hfile]; rfl)]
      exact frames_onMachine _ t
    | none =>
      rw [asksFor_of_prompts (by rw [hprompts, hfile]; rfl)]
      exact LeavesAt.bind (leaves_ask _ _ _) fun _ => frames_pure _

theorem leaves_suPrompt (targetUser : Str) (loginShell : Bool) (e : ShellEmulator) :
    LeavesAt (if e.username = targetUser then none else some .suPassword) (suPrompt targetUser loginShell) e := by
  unfold suPrompt
  refine AlongAt.get_bind ?_
  by_cases h : e.username = targetUser
  · rw [if_pos h, if_pos h]
    exact frames_pure _ e
  · rw [if_neg h, if_neg h]
    refine LeavesAt.after (a := ()) (frames_modify fun _ => ⟨rfl, rfl, rfl⟩) rfl fun t => ?_
    exact LeavesAt.bind (leaves_ask _ _ _) fun _ => frames_pure _

section Run

variable (run : Ctx → Str → Shell Result) (c : Ctx)

/-- Without `-c`, `su` asks unless the user is already the one to change to. -/
theorem leaves_suCommand {args : List Str} (hc : argAfter "-c".toList args = none) (name : Str) (e : ShellEmulator) :
    LeavesAt (ShellCommand.asksFor e name args .su) (suCommand run c args) e := by
  have hasks : ShellCommand.asksFor e name args .su = if e.username = suUser args then none else some .suPassword := by
    have hprompts : ShellCommand.prompts e args .su = decide (e.username ≠ suUser args) := by
      simp only [ShellCommand.prompts, hc, Option.isNone_none, Bool.true_and]
    by_cases h : e.username = suUser args
    · rw [asksFor_of_not (hprompts.trans (decide_eq_false (not_not.2 h))), if_pos h]
    · rw [asksFor_of_prompts (hprompts.trans (decide_eq_true h)), if_neg h]
      rfl
  have hsu : ∀ loginShell, LeavesAt (ShellCommand.asksFor e name args .su)
      (do return (← suPrompt (suUser args) loginShell).toResult : Shell Result) e := by
    intro loginShell
    rw [hasks]
    exact LeavesAt.bind (leaves_suPrompt _ _ e) fun _ => frames_pure _
  unfold suCommand
  rw [hc]
  cases args with
  | nil => exact hsu false
  | cons arg rest =>
    by_cases harg : arg = ['-']
    · have := hsu true
      rw [suUser, if_pos harg] at this
      simpa [harg] using this
    · have := hsu false
      rw [suUser, if_neg harg] at this
      simpa [harg] using this

theorem leaves_doasCommand {args : List Str} {e : ShellEmulator} (h : ShellCommand.prompts e args .doas = true) :
    LeavesAt (some (.doasAuth args)) (doasCommand run c args) e := by
  have hboth : args ≠ [] ∧ e.username ≠ root := by simpa [ShellCommand.prompts] using h
  unfold doasCommand
  refine AlongAt.get_bind ?_
  rw [if_neg hboth.1, if_neg hboth.2]
  exact LeavesAt.bind (leaves_ask _ _ _) fun _ => frames_pure _

theorem leaves_pkexecCommand {args : List Str} {e : ShellEmulator} (h : ShellCommand.prompts e args .pkexec = true) :
    LeavesAt (some (.pkexecAuth args)) (pkexecCommand run c args) e := by
  have hboth : args ≠ [] ∧ e.username ≠ root := by simpa [ShellCommand.prompts] using h
  unfold pkexecCommand
  refine AlongAt.get_bind ?_
  cases args with
  | nil => exact absurd rfl hboth.1
  | cons program params =>
    dsimp only
    rw [if_neg hboth.2]
    exact LeavesAt.bind (leaves_ask _ _ _) fun _ => frames_pure _

/-- A command that asks, or that calls no shell. -/
theorem leaves_execute {cls : ShellCommand} {e : ShellEmulator} {args : List Str}
    (h : cls.prompts e args = true ∨ cls.callsShell = false) (name : Str) :
    LeavesAt (cls.asksFor e name args) (cls.execute run c name args) e := by
  cases cls with
  | alias_ => exact (frames_aliasCommand args e).map
  | cd => exact (frames_cdCommand args e).map
  | crontab => exact leaves_crontabCommand name args e
  | editor => exact (leaves_editorCommand name args e).map
  | export_ => exact (frames_exportCommand args e).map
  | python => exact (leaves_pythonCommand name args e).map
  | unalias => exact (frames_unaliasCommand args e).map
  | visudo => exact (leaves_visudoCommand name args e).map
  | bash => rcases h with h | h <;> cases h
  | sudo_ => rcases h with h | h <;> cases h
  | doas =>
    have hprompts := h.resolve_right (by decide)
    rw [asksFor_of_prompts hprompts]
    exact leaves_doasCommand run c hprompts
  | pkexec =>
    have hprompts := h.resolve_right (by decide)
    rw [asksFor_of_prompts hprompts]
    exact leaves_pkexecCommand run c hprompts
  | su =>
    have hprompts := h.resolve_right (by decide)
    refine leaves_suCommand run c ?_ name e
    simp only [ShellCommand.prompts, Bool.and_eq_true, Option.isNone_iff_eq_none] at hprompts
    exact hprompts.1

end Run

/-! ### Callbacks -/

theorem leaves_captureLine (name line : Str) (cb : Callback) (prompt : String) (e : ShellEmulator) :
    LeavesAt (some cb) (captureLine name line cb prompt) e := by
  unfold captureLine
  refine LeavesAt.after (frames_capturedLines name) rfl fun t => ?_
  refine LeavesAt.after (frames_setLines _ _) rfl fun u => ?_
  exact LeavesAt.bind (leaves_ask _ _ _) fun _ => frames_pure _

/-- What a callback may leave that runs no command: nothing, or itself. -/
def LeavesSome {α : Type} (cb : Callback) (m : Shell α) (e : ShellEmulator) : Prop :=
  LeavesAt none m e ∨ LeavesAt (some cb) m e

theorem LeavesSome.after {α β : Type} {m : Shell α} {f : α → Shell β} (hm : Frames m)
    (hf : ∀ a t, LeavesSome cb (f a) t) : LeavesSome cb (m >>= f) e := by
  cases hres : (m e).result with
  | error x =>
    refine .inl (AlongAt.seq (hm e) (fun a ha => ?_) (fun _ _ h => h) fun l t l' u h (h' : Quiet Framed t l' u) =>
      ⟨by rw [h.1, h'.1]; rfl, h.2.trans h'.2⟩)
    rw [hres] at ha
    cases ha
  | ok a =>
    have hcontinue : ∀ o, LeavesAt o (f a) (m e).state → LeavesAt o (m >>= f) e := by
      intro o h
      refine AlongAt.seq (hm e) (fun b hb => ?_) (fun x hx _ => ?_) fun l t l' u h (h' : Quiet (Leaves o) t l' u) =>
        ⟨by rw [h.1, h'.1]; rfl, h.2.leaves h'.2⟩
      · obtain rfl := Except.ok.inj (hres.symm.trans hb)
        exact h
      · rw [hres] at hx
        cases hx
    exact (hf a (m e).state).imp (hcontinue none) (hcontinue (some cb))

theorem LeavesSome.map {α β : Type} {m : Shell α} {g : α → β} (h : LeavesSome cb m e) : LeavesSome cb (g <$> m) e :=
  h.imp AlongAt.map AlongAt.map

theorem leaves_crontabInput (line : Str) (e : ShellEmulator) : LeavesSome .crontabInput (crontabInput line) e := by
  unfold crontabInput
  by_cases hcancel : strip line = "CANCEL".toList
  · rw [if_pos hcancel]
    exact .inl (frames_pure _ e)
  rw [if_neg hcancel]
  by_cases hdone : strip line = "DONE".toList
  · rw [if_pos hdone]
    refine .inl (Frames.bind frames_get (fun _ => Frames.bind (frames_capturedLines _) fun _ => ?_) e)
    refine Frames.bind (frames_onMachine _) fun _ => ?_
    exact Frames.bind (frames_modify fun _ => ⟨rfl, rfl, rfl⟩) fun _ => frames_pure _
  · rw [if_neg hdone]
    exact .inr (leaves_captureLine _ _ _ _ e)

theorem leaves_visudoInput (line : Str) (e : ShellEmulator) : LeavesSome .visudoInput (visudoInput line) e := by
  unfold visudoInput
  by_cases hcancel : strip line = "CANCEL".toList
  · rw [if_pos hcancel]
    exact .inl (frames_pure _ e)
  rw [if_neg hcancel]
  by_cases hdone : strip line = "DONE".toList
  · rw [if_pos hdone]
    refine .inl (Frames.bind frames_get (fun _ => Frames.bind (frames_capturedLines _) fun _ => ?_) e)
    exact Frames.bind (frames_onMachine _) fun _ => frames_pure _
  · rw [if_neg hdone]
    exact .inr (leaves_captureLine _ _ _ _ e)

theorem leaves_editorInput (name line : Str) (e : ShellEmulator) :
    LeavesSome (.editorInput name) (editorInput name line) e := by
  have hasks : ∀ (out : Output) t, LeavesAt (some (.editorInput name))
      (do ask (.editorInput name) editorPrompt.toList; return out : Shell Output) t :=
    fun _ t => LeavesAt.bind (leaves_ask _ _ t) fun _ => frames_pure _
  unfold editorInput
  dsimp only
  split
  · refine LeavesSome.after frames_get fun a t => LeavesSome.after (frames_capturedLines _) fun _ _ => ?_
    refine LeavesSome.after (frames_onMachine _) fun _ u => ?_
    split
    · exact .inr (hasks _ u)
    · exact .inl (frames_pure _ u)
  · split
    · exact .inl (frames_pure _ e)
    · exact .inr (leaves_captureLine _ _ _ _ e)

theorem leaves_pythonInput (line : Str) (e : ShellEmulator) : LeavesSome .pythonInput (pythonInput line) e := by
  have hasks : ∀ (out : Output) t, LeavesAt (some .pythonInput)
      (do ask .pythonInput pythonPrompt; return out : Shell Output) t :=
    fun _ t => LeavesAt.bind (leaves_ask _ _ t) fun _ => frames_pure _
  unfold pythonInput
  dsimp only
  split
  · exact .inl (frames_pure _ e)
  · refine LeavesSome.after frames_get fun a t => ?_
    split
    · exact LeavesSome.after (frames_onMachine _) fun _ u => .inr (hasks _ u)
    · exact .inr (hasks _ t)

end Cyanide
