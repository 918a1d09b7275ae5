import Cyanide.Shell.Accounts
import Cyanide.Shell.History

/-!
# The prompt and its callback

Several commands set the callback and the prompt, and set them again while they read lines; `execute` clears both before
it calls the callback.  `paired_history` says that one of them is set just when the other is, in every state of every
history, and that a line that comes while they are set goes to the callback and nowhere else.
-/

namespace Cyanide

open PosixPath PyText Traced

/-- A callback comes with a prompt. -/
def ShellState.Paired (s : ShellState) : Prop := s.pendingInputCallback.isSome = s.pendingInputPrompt.isSome

/-- So it is in the shell and in all shells that were left behind. -/
structure ShellEmulator.Paired (e : ShellEmulator) : Prop where
  own : e.toShellState.Paired
  detached : ∀ d ∈ e.detached, d.shell.Paired

/-- The shell without its prompt. -/
def ShellEmulator.cleared (e : ShellEmulator) : ShellEmulator :=
  { e with pendingInputCallback := none, pendingInputPrompt := none }

/-- The state in which a step is taken, where the step has it. -/
def Step.state : Step → Option ShellEmulator
  | .enter _ _ _ e | .answer _ _ _ e | .authenticate _ _ _ e | .dispatch _ _ _ _ e | .redirect _ _ _ _ e => some e
  | .segment .. | .output .. | .cron .. => none

/-! ### The account -/

/-- From a paired state all states on the way are paired. -/
def Pairs (e : ShellEmulator) (l : List Step) (e' : ShellEmulator) : Prop :=
  e.Paired → e'.Paired ∧ ∀ t ∈ l, ∀ u, t.state = some u → u.Paired

section Pairs

variable {e t u : ShellEmulator} {l : List Step} {s : Step}

theorem composable_pairs : Composable Pairs where
  refl e h := ⟨h, fun t ht => absurd ht List.not_mem_nil⟩
  trans h h' he := by
    obtain ⟨ht, hl⟩ := h he
    obtain ⟨hu, hl'⟩ := h' ht
    exact ⟨hu, fun s hs => (List.mem_append.1 hs).elim (hl s) (hl' s)⟩

theorem Framed.paired (h : Framed e u) (he : e.Paired) : u.Paired := by
  refine ⟨?_, by rw [h.detached]; exact he.detached⟩
  have hown := he.own
  unfold ShellState.Paired at hown ⊢
  rw [h.callback, h.prompt, hown]

theorem Leaves.paired {o : Option Callback} (h : Leaves o e u) (he : e.Paired) : u.Paired := by
  cases o with
  | none => exact Framed.paired h he
  | some cb =>
    refine ⟨?_, by rw [h.detached]; exact he.detached⟩
    unfold ShellState.Paired
    rw [h.callback, h.prompt]
    rfl

theorem Cleared.paired (h : Cleared e u) (he : e.Paired) : u.Paired := by
  refine ⟨?_, by rw [h.detached]; exact he.detached⟩
  unfold ShellState.Paired
  rw [h.callback, h.prompt]
  rfl

theorem Returned.paired (h : Returned e t u) (he : e.Paired) (ht : t.Paired) : u.Paired := by
  refine ⟨?_, ?_⟩
  · have hown := he.own
    unfold ShellState.Paired at hown ⊢
    rw [h.callback, h.prompt, hown]
  · rcases h.detached with hd | ⟨dnsCache, hd⟩ <;> rw [hd]
    · exact ht.detached
    · intro d hmem
      rcases List.mem_append.1 hmem with hmem | hmem
      · exact ht.detached d hmem
      · rw [List.mem_singleton.1 hmem]
        exact ht.own

/-- A step that is taken in the first state. -/
theorem Pairs.step (hs : ∀ v, s.state = some v → v = e) (h : e.Paired → Pairs t l u) (ht : e.Paired → t.Paired) :
    Pairs e (s :: l) u := by
  intro he
  obtain ⟨hu, hl⟩ := h he (ht he)
  refine ⟨hu, fun t' ht' v hv => ?_⟩
  rcases List.mem_cons.1 ht' with rfl | ht'
  · rw [hs v hv]
    exact he
  · exact hl t' ht' v hv

/-- A step in the first state, and nothing after it. -/
theorem Pairs.single (hs : ∀ v, s.state = some v → v = e) (h : e.Paired → u.Paired) : Pairs e [s] u :=
  Pairs.step hs (fun _ => composable_pairs.refl u) h

theorem Step.state_of_isPlain (h : s.IsPlain e) (hs : s.state = some u) : u = e := by
  cases s with
  | redirect => exact (Option.some.inj hs).symm.trans h
  | segment | output | cron => cases hs
  | _ => exact False.elim h

theorem account_pairs : Account (fun _ => True) (fun _ => Pairs) (fun _ => Pairs) (fun _ => Pairs) fun _ => Pairs where
  composeR _ := composable_pairs
  composeN _ := composable_pairs
  framedR h he := ⟨h.paired he, fun _ ht => absurd ht List.not_mem_nil⟩
  framedN h he := ⟨h.paired he, fun _ ht => absurd ht List.not_mem_nil⟩
  plainR h _ := Pairs.single (fun v hv => Step.state_of_isPlain h hv) id
  plainN h _ := Pairs.single (fun v hv => Step.state_of_isPlain h hv) id
  caught h := h
  authenticated _ _ := Pairs.single (fun _ hv => (Option.some.inj hv).symm) id
  deferred _ _ _ h := Pairs.single (fun _ hv => (Option.some.inj hv).symm) (Leaves.paired (o := some _) h)
  leaf _ _ h := Pairs.single (fun _ hv => (Option.some.inj hv).symm) h.paired
  shell _ _ h := Pairs.single (fun _ hv => (Option.some.inj hv).symm) h.paired
  calls _ _ _ h := Pairs.step (fun _ hv => (Option.some.inj hv).symm) (fun _ => h) id
  inner h := h
  line h := h
  temp ht h hr he := by
    obtain ⟨ht', hl⟩ := h (ht.paired he)
    exact ⟨hr.paired he ht', hl⟩
  idle _ h := h
  answered _ _ hclear _ h :=
    Pairs.single (fun _ hv => (Option.some.inj hv).symm) fun he => h.paired (hclear.paired he)
  password _ _ hclear h := Pairs.step (fun _ hv => (Option.some.inj hv).symm) (fun _ => h) hclear.paired
  pkexec _ _ hclear h := Pairs.step (fun _ hv => (Option.some.inj hv).symm) (fun _ => h) hclear.paired
  doas _ _ hclear ht h hr := by
    refine Pairs.step (fun _ hv => (Option.some.inj hv).symm) (fun _ he => ?_) hclear.paired
    obtain ⟨ht', hl⟩ := h (ht.paired he)
    exact ⟨hr.paired he ht', hl⟩

end Pairs

/-! ### Histories -/

section History

variable (W : World)

theorem pairs_execute (depth : ℕ) (c : Ctx) (line : Str) : Along (fun _ => True) Pairs (execute W depth c line) := by
  refine account_pairs.execute (fun _ => ?_) (fun _ h => ?_) depth c line
  · exact Pairs.single (fun _ hv => (Option.some.inj hv).symm) id
  · exact Pairs.step (fun _ hv => (Option.some.inj hv).symm) (fun _ => h) id

theorem pairs_frames {α : Type} {m : Shell α} (h : Frames m) : Along (fun _ => True) Pairs m := fun e =>
  (h e).of_quiet fun _ => account_pairs.framedR (c := .client)

theorem pairs_scheduleCronJob (entry : Str) : Along (fun _ => True) Pairs (scheduleCronJob W entry) := by
  have hR := composable_pairs
  unfold scheduleCronJob
  dsimp only
  refine Along.ite (fun _ => Along.pure hR) fun _ => Along.bind hR (Along.get hR) fun e => ?_
  refine Along.ite (fun _ => pairs_frames (frames_onMachine _)) fun _ => ?_
  refine Along.bind hR (pairs_frames (frames_onMachine _)) fun _ => ?_
  refine Along.bind hR (Along.step fun _ _ => Pairs.single (fun _ hv => by cases hv) id) fun _ => ?_
  refine Along.tryCatch hR (Along.bind hR (pairs_execute W _ _ _) fun _ => Along.pure hR) fun x => ?_
  cases x with
  | raised message => exact Along.pure hR
  | systemExit => exact Along.throw hR
  | endless => exact Along.throw hR

theorem pairs_fireJob (job : ℕ) : Along (fun _ => True) Pairs (fireJob W job) := by
  have hR := composable_pairs
  unfold fireJob
  refine Along.bind hR (Along.get hR) fun e => ?_
  split
  · exact Along.pure hR
  · refine Along.bind hR (pairs_frames (frames_modify fun _ => ⟨rfl, rfl, rfl⟩)) fun _ => ?_
    exact pairs_scheduleCronJob W _

/-- A job in a detached shell, which is put back among the others. -/
theorem pairs_inDetached {e : ShellEmulator} {i : ℕ} {d : DetachedShell} (hd : d ∈ e.detached) (job : ℕ) :
    AlongAt (fun _ => True) Pairs (inDetached i d (fireJob W job)) e := by
  unfold inDetached
  refine AlongAt.zoom (pairs_fireJob W job _) fun l t h he => ?_
  obtain ⟨ht, hl⟩ := h ⟨he.detached d hd, he.detached⟩
  refine ⟨⟨he.own, fun d' hd' => ?_⟩, hl⟩
  rcases List.mem_or_eq_of_mem_set hd' with hmem | rfl
  · exact ht.detached d' hmem
  · exact ht.own

theorem pairs_handleInput (input : Input) : Along (fun _ => True) Pairs (handleInput W input) := by
  have hR := composable_pairs
  match input with
  | .line s => exact Along.bind hR (pairs_execute W _ _ s) fun _ => Along.pure hR
  | .cron none job => exact pairs_fireJob W job
  | .cron (some i) job =>
    unfold handleInput
    refine Along.get_bind fun e => ?_
    split
    · exact Along.pure hR e
    next d hd => exact pairs_inDetached W (List.mem_of_getElem? hd) job

theorem pairs_history (inputs : List Input) : Along (fun _ => True) Pairs (history W inputs) :=
  Along.foldlM composable_pairs inputs (fun _ input =>
    Along.tryCatch composable_pairs (pairs_handleInput W input) fun _ => Along.pure composable_pairs) ()

end History

/-! ### What the callback gets -/

/-- The history of the shell is the same. -/
def SameHistory (e e' : ShellEmulator) : Prop := e'.history = e.history

theorem composable_sameHistory : Composable (Quiet SameHistory : ShellEmulator → List Step → ShellEmulator → Prop) :=
  composable_quiet (fun _ => rfl) fun h h' => h'.trans h

/-- No step is taken, and the history stays the same. -/
abbrev Silent {α : Type} (m : Shell α) : Prop := Along (fun _ => True) (Quiet SameHistory) m

section Silent

variable {α β : Type} {m : Shell α} {f : α → Shell β}

theorem silent_pure (a : α) : Silent (pure a : Shell α) := Along.pure composable_sameHistory

theorem silent_get : Silent (get : Shell ShellEmulator) := Along.get composable_sameHistory

theorem silent_modify {g : ShellEmulator → ShellEmulator} (h : ∀ e, (g e).history = e.history) : Silent (modify g) :=
  Along.modify fun e => ⟨rfl, h e⟩

theorem silent_onMachine (m : Leaf α) : Silent (onMachine m) := Along.embed fun _ _ => ⟨rfl, rfl⟩

theorem Silent.bind (hm : Silent m) (hf : ∀ a, Silent (f a)) : Silent (m >>= f) :=
  Along.bind composable_sameHistory hm hf

theorem silent_ask (cb : Callback) (prompt : Str) : Silent (ask cb prompt) := silent_modify fun _ => rfl

end Silent

theorem silent_captureLine (name line : Str) (cb : Callback) (prompt : String) :
    Silent (captureLine name line cb prompt) := by
  unfold captureLine capturedLines setLines
  refine Silent.bind (silent_get.bind fun _ => silent_pure _) fun _ => ?_
  exact Silent.bind (silent_modify fun _ => rfl) fun _ => (silent_ask _ _).bind fun _ => silent_pure _

theorem silent_onPassword (line : Str) : Silent (onPassword line) := by
  unfold onPassword updateEmulatorState
  refine silent_get.bind fun _ => Along.ite (fun _ => Silent.bind ?_ fun _ => silent_pure _) fun _ => silent_pure _
  refine silent_get.bind fun _ => Silent.bind (silent_modify fun _ => rfl) fun _ => ?_
  exact Along.ite (fun _ => silent_onMachine _) fun _ => silent_pure _

theorem silent_crontabInput (line : Str) : Silent (crontabInput line) := by
  unfold crontabInput capturedLines
  refine Along.ite (fun _ => silent_pure _) fun _ => Along.ite (fun _ => ?_) fun _ => silent_captureLine _ _ _ _
  refine silent_get.bind fun _ => Silent.bind (silent_get.bind fun _ => silent_pure _) fun _ => ?_
  exact Silent.bind (silent_onMachine _) fun _ => Silent.bind (silent_modify fun _ => rfl) fun _ => silent_pure _

theorem silent_visudoInput (line : Str) : Silent (visudoInput line) := by
  unfold visudoInput capturedLines
  refine Along.ite (fun _ => silent_pure _) fun _ => Along.ite (fun _ => ?_) fun _ => silent_captureLine _ _ _ _
  refine silent_get.bind fun _ => Silent.bind (silent_get.bind fun _ => silent_pure _) fun _ => ?_
  exact Silent.bind (silent_onMachine _) fun _ => silent_pure _

theorem silent_editorInput (name line : Str) : Silent (editorInput name line) := by
  unfold editorInput capturedLines
  dsimp only
  refine Along.ite (fun _ => ?_) fun _ => Along.ite (fun _ => silent_pure _) fun _ => silent_captureLine _ _ _ _
  refine silent_get.bind fun _ => Silent.bind (silent_get.bind fun _ => silent_pure _) fun _ => ?_
  refine Silent.bind (silent_onMachine _) fun _ => Along.ite (fun _ => ?_) fun _ => silent_pure _
  exact (silent_ask _ _).bind fun _ => silent_pure _

theorem silent_pythonInput (line : Str) : Silent (pythonInput line) := by
  have hasks : ∀ cmd, Silent (do ask .pythonInput pythonPrompt; return .ok (pythonOutput cmd) : Shell Output) :=
    fun cmd => (silent_ask _ _).bind fun _ => silent_pure _
  unfold pythonInput
  dsimp only
  refine Along.ite (fun _ => silent_pure _) fun _ => silent_get.bind fun _ => ?_
  exact Along.ite (fun _ => Silent.bind (silent_onMachine _) fun _ => hasks _) fun _ => hasks _

/-- A callback does not look at its line, or only looks at it and takes no step. -/
theorem answer_ignores_or_silent (W : World) (run : Ctx → Str → Shell Result) (c : Ctx) (cb : Callback) :
    (∀ line line', answer W run c cb line = answer W run c cb line') ∨ ∀ line, Silent (answer W run c cb line) := by
  cases cb with
  | passwordAuth | doasAuth | pkexecAuth => exact .inl fun _ _ => rfl
  | suPassword => exact .inr fun line => (silent_onPassword line).map
  | crontabInput => exact .inr fun line => (silent_crontabInput line).map
  | visudoInput => exact .inr fun line => (silent_visudoInput line).map
  | editorInput name => exact .inr fun line => (silent_editorInput name line).map
  | pythonInput => exact .inr fun line => (silent_pythonInput line).map

theorem executeWith_pending {W : World} {run : Ctx → Str → Shell Result} {e : ShellEmulator} {cb : Callback}
    (h : e.pendingInputCallback = some cb) {c : Ctx} {line : Str} :
    let r := answer W run c cb line e.cleared
    executeWith W run c line e = ⟨r.result, r.state, .answer c cb line e :: r.steps⟩ := by
  unfold executeWith
  rw [get_bind, h]
  rfl

theorem execute_succ (W : World) (depth : ℕ) (c : Ctx) (line : Str) (e : ShellEmulator) :
    let r := executeWith W (execute W depth) c line e
    execute W (depth + 1) c line e = ⟨r.result, r.state, .enter c (depth + 1) line e :: r.steps⟩ := by
  show (step (.enter c (depth + 1) line e) >>= fun _ => executeWith W (execute W depth) c line : Shell Result) e = _
  rw [bind_ok rfl]
  rfl

/-- The shell with a callback pending gives it the line, after the prompt has been cleared. -/
theorem execute_pending {W : World} {e : ShellEmulator} {cb : Callback} (h : e.pendingInputCallback = some cb)
    (depth : ℕ) (c : Ctx) (line : Str) :
    let r := answer W (execute W depth) c cb line e.cleared
    execute W (depth + 1) c line e =
      ⟨r.result, r.state, .enter c (depth + 1) line e :: .answer c cb line e :: r.steps⟩ := by
  intro r
  rw [execute_succ, executeWith_pending h]

/-- In a shell that starts with nothing pending, a prompt is set just when a callback is, in all states of all
histories; and wherever a callback is pending, the next line goes to it alone. -/
theorem paired_history (W : World) (e : ShellEmulator) (hcallback : e.pendingInputCallback = none)
    (hprompt : e.pendingInputPrompt = none) (hdetached : e.detached = []) (inputs : List Input) :
    (history W inputs e).state.Paired ∧
      (∀ t ∈ (history W inputs e).steps, ∀ u, t.state = some u → u.Paired) ∧
      ∀ (u : ShellEmulator) cb depth c line, u.pendingInputCallback = some cb →
        let r := answer W (execute W depth) c cb line u.cleared
        execute W (depth + 1) c line u =
            ⟨r.result, r.state, .enter c (depth + 1) line u :: .answer c cb line u :: r.steps⟩ ∧
          ((∀ line', answer W (execute W depth) c cb line' u.cleared = r) ∨
            r.steps = [] ∧ r.state.history = u.history) := by
  have he : e.Paired := by
    refine ⟨?_, fun d hd => ?_⟩
    · unfold ShellState.Paired
      rw [hcallback, hprompt]
      rfl
    · -- there are no shells of cron jobs yet
      rw [hdetached] at hd
      cases hd
  obtain ⟨hend, hsteps⟩ := pairs_history W inputs e (fun _ _ => trivial) he
  refine ⟨hend, hsteps, fun u cb depth c line hcb => ⟨execute_pending hcb depth c line, ?_⟩⟩
  rcases answer_ignores_or_silent W (execute W depth) c cb with hignores | hsilent
  · exact .inl fun line' => by rw [hignores line' line]
  · exact .inr (hsilent line u.cleared fun _ _ => trivial)

theorem paired_history_crontab :
    (history plainWorld [.line "crontab -e".toList, .line "id".toList] (plainShell "bob".toList)).state.Paired ∧
      (history plainWorld [.line "crontab -e".toList, .line "id".toList]
        (plainShell "bob".toList)).state.pendingInputCallback = some .crontabInput :=
  ⟨(paired_history plainWorld (plainShell "bob".toList) rfl rfl rfl
    [.line "crontab -e".toList, .line "id".toList]).1, by decide +kernel⟩

end Cyanide
