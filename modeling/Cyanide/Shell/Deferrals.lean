import Cyanide.Shell.Pairing

/-!
# Deferred commands

A command that needs a password is kept as the pending callback and runs when the next line comes.  There is room for
one: another command that asks takes its place, and a line that the shell gives to itself answers it.  What it prints
goes to the client, whatever the line said.  `served_of_undisturbed` says that a command is served, once and in its
place, when nothing of the kind happens.
-/

namespace Cyanide

open PosixPath PyText Traced

/-- A command that waits for a password. -/
inductive Deferral where
  | command (name : Str) (args : List Str)
  | doas (args : List Str)
  | pkexec (args : List Str)
  deriving DecidableEq

/-- Where a line sends the output of a command. -/
inductive Outlet where
  | terminal | pipe | file
  deriving DecidableEq

/-- The command that a callback runs. -/
def Callback.deferral : Callback → Option Deferral
  | .passwordAuth name args _ => some (.command name args)
  | .doasAuth args => some (.doas args)
  | .pkexecAuth args => some (.pkexec args)
  | _ => none

/-- The command that is waiting in a shell. -/
def deferredIn (e : ShellEmulator) : Option Deferral := e.pendingInputCallback.bind Callback.deferral

/-- The command that a step defers, among those of the client's line. -/
def Step.defers : Step → Option Deferral
  | .authenticate c name args e => if c.nested = false ∧ needsPassword e args then some (.command name args) else none
  | .dispatch c name args _ e =>
    match lookupCommand name with
    | some (.shell cls) =>
      if c.nested = false ∧ cls.prompts e args then (cls.callback name args).bind Callback.deferral else none
    | _ => none
  | _ => none

/-- Where the output goes before the given steps: a segment follows, or a redirection, or neither. -/
def outlet : List Step → Outlet
  | .segment .. :: _ => .pipe
  | .redirect .. :: _ => .file
  | _ => .terminal

/-- The deferred commands of a line, in order, with where the line sends their output. -/
def deferrals : List Step → List (Deferral × Outlet)
  | [] => []
  | t :: l => (t.defers.map (·, outlet l)).toList ++ deferrals l

/-- Whether a step starts a deferred command. -/
def Deferral.startedBy : Deferral → Step → Bool
  | .command name args, .dispatch c name' args' _ _ => !c.nested && name' = name && args' = args
  | .doas args, .enter _ _ line _ | .pkexec args, .enter _ _ line _ => line = Shlex.join args
  | _, _ => false

/-- The waiting command that gets a line of the client. -/
def Step.answers : Step → Option Deferral
  | .answer c cb _ _ => if c.nested = false then cb.deferral else none
  | _ => none

/-- The deferred commands that get a line of the client and are started by the step after it, in order.  What a
callback returns is what the call returns, so that their output goes to the client. -/
def executions : List Step → List (Deferral × Outlet)
  | [] => []
  | t :: l => ((t.answers.filter fun d => l.head?.any d.startedBy).map (·, Outlet.terminal)).toList ++ executions l

/-- After a line with deferred commands come as many passwords; none of the commands is run before, and then each is,
in the order of the line and with its output where the line sent it. -/
def Served (W : World) (e : ShellEmulator) (line : Str) : Prop :=
  executions (history W [.line line] e).steps = [] ∧
    ∀ passwords : List Str, passwords.length = (deferrals (history W [.line line] e).steps).length →
      executions (history W (passwords.map .line) (history W [.line line] e).state).steps =
        deferrals (history W [.line line] e).steps

/-- A command of a known class is called in the state `e`, and does not ask while another one is waiting. -/
def UndisturbedCall (args : List Str) (e : ShellEmulator) : Option CommandClass → Prop
  | some (.shell cls) => cls.prompts e args = true → deferredIn e = none
  | _ => True

/-- While a command is waiting, no other one asks, and the shell gives no line to itself. -/
def Undisturbed : Step → Prop
  | .enter c _ _ e => c.nested = true → deferredIn e = none
  | .authenticate _ _ args e => needsPassword e args = true → deferredIn e = none
  | .dispatch _ name args _ e => UndisturbedCall args e (lookupCommand name)
  | _ => True

instance (args : List Str) (e : ShellEmulator) : DecidablePred (UndisturbedCall args e)
  | none => inferInstanceAs (Decidable True)
  | some (.leaf _) => inferInstanceAs (Decidable True)
  | some (.shell cls) => inferInstanceAs (Decidable (cls.prompts e args = true → deferredIn e = none))

instance : DecidablePred Undisturbed
  | .enter c _ _ e => inferInstanceAs (Decidable (c.nested = true → deferredIn e = none))
  | .authenticate _ _ args e => inferInstanceAs (Decidable (needsPassword e args = true → deferredIn e = none))
  | .dispatch _ name args _ e => inferInstanceAs (Decidable (UndisturbedCall args e (lookupCommand name)))
  | .answer .. | .segment .. | .redirect .. | .output .. | .cron .. => inferInstanceAs (Decidable True)

/-! ### Who answers -/

/-- The waiting commands that get a line of the client, in order. -/
def answered (l : List Step) : List Deferral := l.filterMap Step.answers

theorem answered_append (l l' : List Step) : answered (l ++ l') = answered l ++ answered l' :=
  List.filterMap_append ..

theorem answered_cons (t : Step) (l : List Step) : answered (t :: l) = t.answers.toList ++ answered l := by
  unfold answered
  cases h : t.answers with
  | none => rw [List.filterMap_cons_none h, Option.toList_none, List.nil_append]
  | some d => rw [List.filterMap_cons_some h, Option.toList_some, List.singleton_append]

theorem executions_of_answered {l : List Step} (h : answered l = []) : executions l = [] := by
  induction l with
  | nil => rfl
  | cons t l ih =>
    rw [answered_cons, List.append_eq_nil_iff, Option.toList_eq_nil_iff] at h
    unfold executions
    rw [h.1, ih h.2]
    rfl

/-- The command that the client's next line leads to. -/
def firstAnswered (c : Ctx) (e : ShellEmulator) : List Deferral :=
  if c.nested = false then (deferredIn e).toList else []

theorem answered_plain {e : ShellEmulator} {t : Step} (h : t.IsPlain e) : answered [t] = [] := by
  cases t with
  | answer => exact False.elim h
  | _ => rfl

theorem answered_answer {c : Ctx} {cb : Callback} {s : Str} {e : ShellEmulator} (h : e.pendingInputCallback = some cb)
    (l : List Step) : answered (.answer c cb s e :: l) = firstAnswered c e ++ answered l := by
  have hanswers : (Step.answer c cb s e).answers.toList = firstAnswered c e := by
    show (if c.nested = false then cb.deferral else none).toList = _
    unfold firstAnswered deferredIn
    rw [h]
    split <;> rfl
  rw [answered_cons, hanswers]

/-- Only the first step of a call gives a waiting command what it waits for. -/
theorem account_answered : Account (fun _ => True) (fun c e l _ => firstAnswered c e = [] → answered l = [])
    (fun c e l _ => answered l = firstAnswered c e) (fun _ _ l _ => answered l = []) fun _ _ l _ => answered l = [] where
  composeR _ := ⟨fun _ => rfl, fun h h' => by rw [answered_append, h, h']; rfl⟩
  composeN _ := ⟨fun _ => rfl, fun h h' => by rw [answered_append, h, h']; rfl⟩
  framedR _ := rfl
  framedN _ := rfl
  plainR h _ := answered_plain h
  plainN h _ := answered_plain h
  caught h := h
  authenticated _ _ := rfl
  deferred _ _ _ _ := rfl
  leaf _ _ _ := rfl
  shell _ _ _ := rfl
  calls _ _ _ h := h
  inner h := h rfl
  line h := h rfl
  temp _ h _ := h rfl
  idle hnone h := by
    rw [h]
    unfold firstAnswered deferredIn
    rw [hnone]
    exact (ite_self _).symm
  answered hcb _ _ _ _ := (answered_answer hcb []).trans (List.append_nil _)
  password hcb _ _ h := by rw [answered_answer hcb, h, List.append_nil]
  pkexec hcb _ _ h := by rw [answered_answer hcb, h rfl, List.append_nil]
  doas hcb _ _ _ h _ := by rw [answered_answer hcb, h rfl, List.append_nil]

/-! ### Who is waiting -/

/-- The commands that a line defers, in order. -/
def deferred (l : List Step) : List Deferral := l.filterMap Step.defers

theorem deferred_append (l l' : List Step) : deferred (l ++ l') = deferred l ++ deferred l' := List.filterMap_append ..

theorem deferred_cons (t : Step) (l : List Step) : deferred (t :: l) = t.defers.toList ++ deferred l := by
  unfold deferred
  cases h : t.defers with
  | none => rw [List.filterMap_cons_none h, Option.toList_none, List.nil_append]
  | some d => rw [List.filterMap_cons_some h, Option.toList_some, List.singleton_append]

theorem map_deferrals (l : List Step) : (deferrals l).map Prod.fst = deferred l := by
  induction l with
  | nil => rfl
  | cons t l ih =>
    rw [deferred_cons, ← ih]
    show ((t.defers.map (·, outlet l)).toList ++ deferrals l).map Prod.fst = _
    rw [List.map_append]
    cases t.defers <;> rfl

/-- A command that can be started. -/
def Deferral.Known : Deferral → Prop
  | .command name _ => lookupCommand name ≠ none
  | .doas _ => True
  | .pkexec args => args ≠ []

/-- From one that is waiting, over those that are deferred, to one that is waiting. -/
def Link (p : Option Deferral) (D : List Deferral) (q : Option Deferral) : Prop :=
  (D = [] ∧ (p ≠ none → q = p)) ∨ ∃ d, d.Known ∧ D = [d] ∧ p = none ∧ q = some d

theorem Link.refl (p : Option Deferral) : Link p [] p := .inl ⟨rfl, fun _ => rfl⟩

theorem Link.trans {p q u : Option Deferral} {D D' : List Deferral} (h : Link p D q) (h' : Link q D' u) :
    Link p (D ++ D') u := by
  rcases h with ⟨rfl, hq⟩ | ⟨d, hd, rfl, rfl, rfl⟩
  · rcases h' with ⟨rfl, hu⟩ | ⟨d', hd', rfl, rfl, rfl⟩
    · refine .inl ⟨rfl, fun hp => ?_⟩
      rw [hu (hq hp ▸ hp), hq hp]
    · refine .inr ⟨d', hd', rfl, ?_, rfl⟩
      by_contra hp
      exact hp (hq hp).symm
  · rcases h' with ⟨rfl, hu⟩ | ⟨d', hd', -, hnone, -⟩
    · exact .inr ⟨d, hd, List.append_nil _, rfl, hu (Option.some_ne_none d)⟩
    · cases hnone

/-- Nothing is deferred, and what is waiting goes on waiting. -/
def Waits (e : ShellEmulator) (l : List Step) (e' : ShellEmulator) : Prop :=
  deferred l = [] ∧ (deferredIn e ≠ none → deferredIn e' = deferredIn e)

/-- A line of the client, or a line that the shell gives to itself, which defers nothing by itself. -/
def Links (c : Ctx) (e : ShellEmulator) (l : List Step) (e' : ShellEmulator) : Prop :=
  Link (deferredIn e) (deferred l) (deferredIn e') ∧ (c.nested = true → deferred l = [])

theorem deferredIn_framed {e e' : ShellEmulator} (h : Framed e e') : deferredIn e' = deferredIn e := by
  unfold deferredIn
  rw [h.callback]

theorem deferredIn_asked {e e' : ShellEmulator} {cb : Callback} (h : Asked cb e e') : deferredIn e' = cb.deferral := by
  unfold deferredIn
  rw [h.callback]
  rfl

section Links

variable {c : Ctx} {e e' : ShellEmulator} {l : List Step} {t : Step}

theorem composable_waits : Composable Waits where
  refl e := ⟨rfl, fun _ => rfl⟩
  trans h h' := by
    refine ⟨by rw [deferred_append, h.1, h'.1]; rfl, fun hp => ?_⟩
    rw [h'.2 (h.2 hp ▸ hp), h.2 hp]

theorem composable_links : Composable (Links c) where
  refl e := ⟨Link.refl _, fun _ => rfl⟩
  trans h h' := by
    refine ⟨by rw [deferred_append]; exact h.1.trans h'.1, fun hnested => ?_⟩
    rw [deferred_append, h.2 hnested, h'.2 hnested]
    rfl

theorem Waits.links (h : Waits e l e') : Links c e l e' := ⟨.inl h, fun _ => h.1⟩

theorem waits_single (ht : t.defers = none) (h : deferredIn e' = deferredIn e) : Waits e [t] e' := by
  refine ⟨?_, fun _ => h⟩
  rw [deferred_cons, ht]
  rfl

theorem Step.defers_of_isPlain (h : t.IsPlain e) : t.defers = none := by
  cases t with
  | authenticate | dispatch => exact False.elim h
  | _ => rfl

/-- A command that asks, where none is waiting. -/
theorem links_asked {cb : Callback} {d : Deferral} (h : Asked cb e e') (hnone : deferredIn e = none) (hd : d.Known)
    (hcb : cb.deferral = some d) (ht : t.defers = if c.nested = false then some d else none) : Links c e [t] e' := by
  have hdeferred : deferred [t] = (if c.nested = false then some d else none).toList := by
    rw [deferred_cons, ht]
    exact List.append_nil _
  rw [Links, hdeferred, hnone, deferredIn_asked h, hcb]
  by_cases hnested : c.nested = false
  · rw [if_pos hnested]
    refine ⟨.inr ⟨d, hd, rfl, rfl, rfl⟩, fun h => ?_⟩
    rw [hnested] at h
    cases h
  · rw [if_neg hnested]
    exact ⟨.inl ⟨rfl, fun h => absurd rfl h⟩, fun _ => rfl⟩

/-- A command that asks for something else, where none is waiting. -/
theorem links_other (hnone : deferredIn e = none) (ht : t.defers = none) : Links c e [t] e' := by
  have hdeferred : deferred [t] = [] := by
    rw [deferred_cons, ht]
    rfl
  exact ⟨.inl ⟨hdeferred, fun h => absurd hnone h⟩, fun _ => hdeferred⟩

theorem defers_dispatch {name : Str} {args : List Str} {input : Content} {cls : ShellCommand}
    (h : lookupCommand name = some (.shell cls)) : (Step.dispatch c name args input e).defers =
      if c.nested = false ∧ cls.prompts e args then (cls.callback name args).bind Callback.deferral else none := by
  unfold Step.defers
  simp only [h]

theorem defers_leaf {name : Str} {args : List Str} {input : Content} {cls : LeafCommand}
    (h : lookupCommand name = some (.leaf cls)) : (Step.dispatch c name args input e).defers = none := by
  unfold Step.defers
  simp only [h]

theorem defers_authenticate {name : Str} {args : List Str} (h : needsPassword e args = false) :
    (Step.authenticate c name args e).defers = none := by
  show (if c.nested = false ∧ needsPassword e args = true then some (Deferral.command name args) else none) = none
  rw [h]
  exact if_neg fun h => Bool.false_ne_true h.2

theorem known_callback {name : Str} {args : List Str} {cls : ShellCommand} {cb : Callback} {d : Deferral}
    (h : cls.prompts e args = true) (hcb : cls.callback name args = some cb) (hd : cb.deferral = some d) : d.Known := by
  cases cls with
  | doas =>
    obtain rfl := Option.some.inj hcb
    obtain rfl := Option.some.inj hd
    trivial
  | pkexec =>
    obtain rfl := Option.some.inj hcb
    obtain rfl := Option.some.inj hd
    have hboth : args ≠ [] ∧ e.username ≠ root := by simpa [ShellCommand.prompts] using h
    exact hboth.1
  | crontab | editor | python | su | visudo =>
    obtain rfl := Option.some.inj hcb
    cases hd
  | _ => cases hcb

theorem links_shell {name : Str} {args : List Str} {input : Content} {cls : ShellCommand}
    (h : lookupCommand name = some (.shell cls)) (hC : Undisturbed (.dispatch c name args input e))
    (hleaves : Leaves (cls.asksFor e name args) e e') : Links c e [.dispatch c name args input e] e' := by
  have hdefers := @defers_dispatch c e name args input cls h
  by_cases hprompts : cls.prompts e args = true
  · -- the callback replaces whatever is pending, which `Undisturbed` says is no deferred command
    have hnone : deferredIn e = none := by
      have hcall : UndisturbedCall args e (lookupCommand name) := hC
      rw [h] at hcall
      exact hcall hprompts
    rw [asksFor_of_prompts hprompts] at hleaves
    cases hcb : cls.callback name args with
    | none =>
      rw [hcb] at hdefers
      exact links_other hnone (hdefers.trans (ite_self _))
    | some cb =>
      rw [hcb] at hdefers hleaves
      cases hd : cb.deferral with
      | none =>
        have hbind : (some cb).bind Callback.deferral = none := hd
        rw [hbind] at hdefers
        exact links_other hnone (hdefers.trans (ite_self _))
      | some d =>
        refine links_asked hleaves hnone (known_callback hprompts hcb hd) hd (hdefers.trans ?_)
        simp only [hprompts, and_true, Option.bind_some, hd]
  · rw [asksFor_of_not (Bool.not_eq_true _ ▸ hprompts)] at hleaves
    refine (waits_single ?_ (deferredIn_framed hleaves)).links
    rw [hdefers, if_neg fun h => hprompts h.2]

/-- Where a command is waiting, nothing is said about the call. -/
theorem waits_of_deferral {cb : Callback} {d : Deferral} {D : List Deferral} {P : Prop}
    (h : e.pendingInputCallback = some cb) (hd : cb.deferral = some d) :
    (c.nested = true → deferredIn e = none → D = []) ∧ (c.nested = false → e.pendingInputCallback = none → P) := by
  refine ⟨fun _ hnone => ?_, fun _ hnone => ?_⟩
  · rw [deferredIn, h] at hnone
    exact absurd (hd.symm.trans hnone) (Option.some_ne_none d)
  · rw [h] at hnone
    cases hnone

/-- One command is waiting at most, and it is the one that was deferred. -/
theorem account_links : Account Undisturbed
    (fun c e l e' => (c.nested = true → deferredIn e = none ∧ deferred l = []) ∧
      (c.nested = false → e.pendingInputCallback = none → Links c e l e'))
    (fun c e l e' => (c.nested = true → deferredIn e = none → deferred l = []) ∧
      (c.nested = false → e.pendingInputCallback = none → Links c e l e')) Links fun _ => Waits where
  composeR _ := composable_links
  composeN _ := composable_waits
  framedR h := Waits.links ⟨rfl, fun _ => deferredIn_framed h⟩
  framedN h := ⟨rfl, fun _ => deferredIn_framed h⟩
  plainR h _ := (waits_single (Step.defers_of_isPlain h) rfl).links
  plainN h _ := waits_single (Step.defers_of_isPlain h) rfl
  caught h := h
  authenticated h _ := (waits_single (defers_authenticate h) rfl).links
  deferred hcls h hC hasked := links_asked hasked (hC h) (by rw [Deferral.Known, hcls]; exact Option.some_ne_none _) rfl
    (if_congr (and_iff_left h) rfl rfl)
  leaf h _ hframed := (waits_single (defers_leaf h) (deferredIn_framed hframed)).links
  shell h hC hleaves := links_shell h hC hleaves
  calls h hprompts _ hN := by
    refine composable_links.trans (waits_single ?_ rfl).links hN.links
    rw [defers_dispatch h, hprompts]
    exact if_neg fun h => Bool.false_ne_true h.2
  inner h := ⟨(h.1 rfl).2, fun hp => absurd (h.1 rfl).1 hp⟩
  line h := ⟨(h.1 rfl).2, fun hp => absurd (h.1 rfl).1 hp⟩
  temp _ h hr := ⟨(h.1 rfl).2, fun _ => by rw [deferredIn, hr.callback]; rfl⟩
  idle hnone h := ⟨fun hnested _ => h.2 hnested, fun _ _ => h⟩
  answered hcb _ _ _ _ := ⟨fun _ _ => rfl, fun _ hnone => by rw [hcb] at hnone; cases hnone⟩
  password hcb _ _ h := waits_of_deferral hcb rfl
  pkexec hcb _ _ h := waits_of_deferral hcb rfl
  doas hcb _ _ _ h _ := waits_of_deferral hcb rfl

end Links

/-! ### The line and the password -/

section Runs

variable (W : World)

theorem firstAnswered_execute (depth : ℕ) (c : Ctx) (line : Str) :
    Along (fun _ => True) (fun e l _ => firstAnswered c e = [] → answered l = []) (execute W depth c line) :=
  account_answered.execute (fun _ _ => rfl) (fun _ h hnone => h.trans hnone) depth c line

/-- What comes after the client's line has been given to a waiting command. -/
theorem answered_answer_steps {e : ShellEmulator} {cb : Callback} (h : e.pendingInputCallback = some cb) (depth : ℕ)
    (c : Ctx) (line : Str) : answered (answer W (execute W depth) c cb line e.cleared).steps = [] := by
  have hwith := account_answered.executeWith (W := W) (c := c) (firstAnswered_execute W depth) line e fun _ _ => trivial
  rw [executeWith_pending h, answered_answer h] at hwith
  exact List.append_cancel_left (hwith.trans (List.append_nil _).symm)

theorem links_execute (depth : ℕ) (c : Ctx) (line : Str) :
    Along Undisturbed (fun e l e' => (c.nested = true → deferredIn e = none ∧ deferred l = []) ∧
      (c.nested = false → e.pendingInputCallback = none → Links c e l e')) (execute W depth c line) := by
  refine account_links.execute (fun hC => ?_) (fun hC h => ?_) depth c line
  · exact ⟨fun hnested => ⟨hC hnested, rfl⟩, fun _ _ => (waits_single rfl rfl).links⟩
  · refine ⟨fun hnested => ⟨hC hnested, ?_⟩, fun hclient hnone => ?_⟩
    · rw [deferred_cons, h.1 hnested (hC hnested)]
      rfl
    · exact composable_links.trans (waits_single rfl rfl).links (h.2 hclient hnone)

theorem head_execute (depth : ℕ) (c : Ctx) (line : Str) (e : ShellEmulator) :
    (execute W depth c line e).steps.head? = some (.enter c depth line e) := by
  cases depth with
  | zero => rfl
  | succ depth =>
    rw [execute_succ]
    rfl

/-- The line that a command waits for starts it. -/
theorem starts_answer {cb : Callback} {d : Deferral} (h : cb.deferral = some d) (hd : d.Known) (depth : ℕ)
    (line : Str) (e : ShellEmulator) :
    (answer W (execute W depth) .client cb line e).steps.head?.any d.startedBy = true := by
  cases cb with
  | passwordAuth name args input =>
    obtain rfl := Option.some.inj h
    obtain ⟨cls, hcls⟩ := Option.ne_none_iff_exists'.1 hd
    show (onPasswordAuth W (execute W depth) .client name args input e).steps.head?.any _ = true
    unfold onPasswordAuth
    rw [modify_bind, hcls]
    have hstart : (Deferral.command name args).startedBy (.dispatch .client name args input { e with username := root })
        = true := by
      simp only [Deferral.startedBy, Ctx.client, Bool.not_false, decide_true, Bool.and_self]
    cases cls <;> exact hstart
  | doasAuth args =>
    obtain rfl := Option.some.inj h
    show (execute W depth Ctx.client.delegated (Shlex.join args) _).steps.head?.any _ = true
    rw [head_execute]
    exact decide_eq_true rfl
  | pkexecAuth args =>
    obtain rfl := Option.some.inj h
    show ((if args = [] then return .ok [] else execute W depth Ctx.client.inner (Shlex.join args) : Shell Result)
      { e with username := root }).steps.head?.any _ = true
    rw [if_neg hd, head_execute]
    exact decide_eq_true rfl
  | suPassword | crontabInput | visudoInput | editorInput | pythonInput => cases h

/-- A line of the client as a history. -/
theorem history_line (line : Str) (e : ShellEmulator) :
    (history W [.line line] e).steps = (execute W W.recursionLimit .client line e).steps ∧
      (history W [.line line] e).state = (execute W W.recursionLimit .client line e).state := by
  have hhistory : history W [.line line] = tryCatch (handleInput W (.line line)) fun _ => Pure.pure () := by
    unfold history
    rw [List.foldlM_cons]
    exact bind_pure _
  rw [hhistory]
  unfold Traced.tryCatch handleInput
  cases hres : (execute W W.recursionLimit .client line e).result with
  | ok r =>
    simp only [bind_ok hres]
    exact ⟨List.append_nil _, rfl⟩
  | error x =>
    simp only [bind_error hres]
    exact ⟨List.append_nil _, rfl⟩

/-- Where nothing disturbs a command that is waiting, and all output of deferred commands is for the client, the
deferred commands of a line are served. -/
theorem served_of_undisturbed (e : ShellEmulator) (line : Str) (hnone : e.pendingInputCallback = none)
    (hsteps : ∀ t ∈ (history W [.line line] e).steps, Undisturbed t)
    (houtlet : ∀ d ∈ deferrals (history W [.line line] e).steps, d.2 = .terminal) : Served W e line := by
  obtain ⟨hline, hstate⟩ := history_line W line e
  unfold Served
  rw [hline] at hsteps houtlet ⊢
  rw [hstate]
  set r := execute W W.recursionLimit .client line e with hr
  have hnow : executions r.steps = [] := by
    refine executions_of_answered (firstAnswered_execute W _ _ line e (fun _ _ => trivial) ?_)
    rw [firstAnswered, deferredIn, hnone]
    rfl
  refine ⟨hnow, fun passwords hlength => ?_⟩
  -- the line defers nothing, or one command, which is then the one that waits
  have hlink := ((links_execute W _ .client line e hsteps).2 rfl hnone).1
  have hmap := map_deferrals r.steps
  rcases hlink with ⟨hD, -⟩ | ⟨d, hd, hD, -, hq⟩
  · rw [← hr, ← hmap, List.map_eq_nil_iff] at hD
    rw [hD] at hlength ⊢
    rw [List.length_eq_zero_iff.1 hlength]
    rfl
  · obtain ⟨⟨d', o⟩, hdeferrals, rfl⟩ := List.map_eq_singleton_iff.1 (hmap.trans hD)
    obtain rfl : o = .terminal := houtlet (d', o) (by rw [hdeferrals]; exact List.mem_singleton.2 rfl)
    rw [hdeferrals] at hlength ⊢
    obtain ⟨password, rfl⟩ := List.length_eq_one_iff.1 hlength
    obtain ⟨cb, hcb, hdcb⟩ := Option.bind_eq_some_iff.1 hq
    -- something was deferred, so the interpreter has at least one call left
    obtain ⟨depth, hdepth⟩ : ∃ depth, W.recursionLimit = depth + 1 := by
      cases hlimit : W.recursionLimit with
      | zero =>
        rw [hr, hlimit] at hdeferrals
        cases hdeferrals
      | succ depth => exact ⟨depth, rfl⟩
    have hstart := starts_answer W hdcb hd depth password r.state.cleared
    have hrest := executions_of_answered (answered_answer_steps W hcb depth .client password)
    rw [List.map_singleton, (history_line W password _).1, hdepth, execute_pending hcb]
    show ((cb.deferral.filter fun d => List.head? _ |>.any d.startedBy).map (·, Outlet.terminal)).toList ++
      executions _ = _
    rw [hdcb, hrest, Option.filter_some, if_pos hstart]
    rfl

end Runs

theorem served_of_undisturbed_cat :
    Served plainWorld (plainShell "bob".toList) "cd /; cat /root/a; id".toList ∧
      deferrals (history plainWorld [.line "cd /; cat /root/a; id".toList] (plainShell "bob".toList)).steps =
        [(.command "cat".toList ["/root/a".toList], .terminal)] :=
  ⟨served_of_undisturbed plainWorld (plainShell "bob".toList) "cd /; cat /root/a; id".toList rfl (by decide +kernel)
    (by decide +kernel), by decide +kernel⟩

/-- Of two commands the first is dropped, and what the second prints goes to the client, not to the file. -/
theorem not_served_cat :
    ¬Served plainWorld (plainShell "bob".toList) "cat /root/a; cat /root/b".toList ∧
      ¬Served plainWorld (plainShell "bob".toList) "cat /root/a > b".toList := by
  have hnot : ∀ (line : Str) (passwords : List Str),
      passwords.length = (deferrals (history plainWorld [.line line] (plainShell "bob".toList)).steps).length →
      executions (history plainWorld (passwords.map .line)
        (history plainWorld [.line line] (plainShell "bob".toList)).state).steps ≠
          deferrals (history plainWorld [.line line] (plainShell "bob".toList)).steps →
      ¬Served plainWorld (plainShell "bob".toList) line := fun line passwords hlength hne h =>
    hne (h.2 passwords hlength)
  exact ⟨hnot _ ["x".toList, "y".toList] (by decide +kernel) (by decide +kernel),
    hnot _ ["x".toList] (by decide +kernel) (by decide +kernel)⟩

end Cyanide
