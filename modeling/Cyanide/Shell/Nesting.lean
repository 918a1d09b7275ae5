import Mathlib.Data.Finset.Lattice.Fold
import Cyanide.Lib.Refuel
import Cyanide.Shell.Accounts
import Cyanide.Shell.Arguments
import Cyanide.Shell.Prompts

/-!
# Nested executions

`max_chain_depth` counts the nodes of one line.  A script that a line runs is executed by new calls of `execute`, each
with a count of its own, so that a script that runs itself goes on until the interpreter's recursion limit.
`finitely_many_iff` says for which lines there is a bound that does not depend on that limit: those whose calls nest
finitely deep.
-/

namespace Cyanide

open PosixPath PyText Traced

/-- The commands that are executed. -/
def dispatches (l : List Step) : ℕ := l.countP fun
  | .dispatch .. => true
  | _ => false

/-- The shell is entered when no nested call is left. -/
def Step.Exhausts : Step → Prop
  | .enter _ 0 _ _ => True
  | _ => False

/-- A step without the number of nested calls that are left. -/
def Step.timeless : Step → Step
  | .enter c _ line e => .enter c 0 line e
  | t => t

/-- Two computations that are the same where the first one is not exhausted. -/
abbrev Refuels {α : Type} (m m' : Shell α) : Prop := Agree (fun t => ¬t.Exhausts) Step.timeless m m'

/-! ### More nested calls -/

section Refuel

variable {W : World} {run run' : Ctx → Str → Shell Result} {c : Ctx}
  (hrun : ∀ c line, Refuels (run c line) (run' c line))

include hrun

theorem refuels_executeSubcommand (args : List Str) :
    Refuels (executeSubcommand run c args) (executeSubcommand run' c args) := by
  unfold executeSubcommand
  exact Agree.ite (Agree.refl _) (hrun _ _)

theorem refuels_bashLoop (stdout stderr : Str) (rc : Int) (lines : List Str) :
    Refuels (bashLoop run c stdout stderr rc lines) (bashLoop run' c stdout stderr rc lines) := by
  induction lines generalizing stdout stderr rc with
  | nil => exact Agree.refl _
  | cons line lines ih =>
    unfold bashLoop
    exact (hrun _ line).bind fun r => (Agree.refl _).bind fun _ => ih _ _ _

theorem refuels_bashCommand (args : List Str) : Refuels (bashCommand run c args) (bashCommand run' c args) := by
  have hscript : ∀ scriptPath, Refuels (bashScript run c scriptPath) (bashScript run' c scriptPath) := by
    intro scriptPath
    unfold bashScript
    refine (Agree.refl _).bind fun e => Agree.ite (Agree.refl _) (Agree.ite (Agree.refl _) ?_)
    exact (Agree.refl _).bind fun _ => (Agree.refl _).bind fun _ => refuels_bashLoop hrun _ _ _ _
  unfold bashCommand
  refine Agree.ite (Agree.refl _) ?_
  split
  · exact Agree.refl _
  · split
    · exact hrun _ _
    · exact hscript _

theorem refuels_suCommand (args : List Str) : Refuels (suCommand run c args) (suCommand run' c args) := by
  unfold suCommand
  split
  · exact (Agree.refl _).bind fun _ => refuels_executeSubcommand hrun _
  · exact Agree.refl _

theorem refuels_executeAs (username : Str) (keepCwd : Bool) (cmdLine : Str) :
    Refuels (executeAs run c username keepCwd cmdLine) (executeAs run' c username keepCwd cmdLine) := by
  unfold executeAs inTempShell
  exact Agree.zoom (hrun _ _)

theorem refuels_runShellCommand (cls : ShellCommand) (name : Str) (args : List Str) :
    Refuels (cls.execute run c name args) (cls.execute run' c name args) := by
  cases cls with
  | bash => exact refuels_bashCommand hrun args
  | su => exact refuels_suCommand hrun args
  | sudo_ =>
    show Refuels (sudoCommand run c args) (sudoCommand run' c args)
    unfold sudoCommand
    split
    -- only the last form of the command executes a line
    case h_5 => exact refuels_executeAs hrun _ _ _
    all_goals exact Agree.refl _
  | doas =>
    show Refuels (doasCommand run c args) (doasCommand run' c args)
    unfold doasCommand
    refine (Agree.refl _).bind fun e => Agree.ite (Agree.refl _) (Agree.ite ?_ (Agree.refl _))
    exact refuels_executeSubcommand hrun _
  | pkexec =>
    show Refuels (pkexecCommand run c args) (pkexecCommand run' c args)
    unfold pkexecCommand
    refine (Agree.refl _).bind fun e => ?_
    cases args with
    | nil => exact Agree.refl _
    | cons program params => exact Agree.ite (refuels_executeSubcommand hrun _) (Agree.refl _)
  | _ => exact Agree.refl _

theorem refuels_runCommand (cls : CommandClass) (name : Str) (args : List Str) (input : Content) :
    Refuels (runCommand W run c cls name args input) (runCommand W run' c cls name args input) := by
  unfold runCommand
  refine (Agree.refl _).bind fun e => Agree.step_bind rfl fun _ => ?_
  cases cls with
  | leaf cls => exact Agree.refl _
  | shell cls => exact refuels_runShellCommand hrun cls name args

theorem refuels_runCommandInstance (cmdName : Str) (params : List Str) (input : Content) :
    Refuels (runCommandInstance W run c cmdName params input) (runCommandInstance W run' c cmdName params input) := by
  unfold runCommandInstance
  split
  · exact Agree.refl _
  · refine Agree.tryCatch ?_
    unfold authAndExecute
    refine (Agree.refl _).bind fun e => Agree.step_bind rfl fun _ => Agree.ite (Agree.refl _) ?_
    exact refuels_runCommand hrun _ _ _ _

theorem refuels_executeSingleCommand (cmdLine : Str) (input : Content) :
    Refuels (executeSingleCommand W run c cmdLine input) (executeSingleCommand W run' c cmdLine input) := by
  unfold executeSingleCommand
  split
  · exact Agree.refl _
  · exact Agree.refl _
  · refine (Agree.refl _).bind fun e => ?_
    dsimp only
    refine Agree.ite ?_ (refuels_runCommandInstance hrun _ _ _)
    unfold runScript
    exact (Agree.refl _).bind fun e => Agree.ite (refuels_runCommand hrun _ _ _ _) (Agree.refl _)

theorem refuels_executePipeline (pipelineStr : Str) :
    Refuels (executePipeline W run c pipelineStr) (executePipeline W run' c pipelineStr) := by
  unfold executePipeline
  refine Agree.bind (Agree.foldlM _ (fun st segment => ?_) _) fun _ => Agree.refl _
  unfold executeSegment
  refine Agree.step_bind rfl fun _ => ?_
  split
  · exact Agree.refl _
  · exact (refuels_executeSingleCommand hrun _ _).bind fun _ => Agree.refl _

theorem refuels_executeLine (commandLine : Str) :
    Refuels (executeLine W run c commandLine) (executeLine W run' c commandLine) := by
  unfold executeLine
  refine Agree.ite (Agree.refl _) ((Agree.refl _).bind fun _ => (Agree.refl _).bind fun e => ?_)
  dsimp only
  refine Agree.ite (Agree.refl _) (Agree.map ?_)
  unfold executeNodes executeLoop
  refine Agree.bind (Agree.foldlM _ (fun st node => ?_) _) fun _ => Agree.refl _
  unfold executeNode
  refine Agree.ite (Agree.refl _) (Agree.ite (Agree.refl _) (Agree.bind ?_ fun _ => Agree.refl _))
  unfold runNode pipelineNode
  exact Agree.ite (Agree.refl _) ((refuels_executePipeline hrun _).bind fun _ => Agree.refl _)

theorem refuels_answer (cb : Callback) (line : Str) :
    Refuels (answer W run c cb line) (answer W run' c cb line) := by
  cases cb with
  | passwordAuth name args input =>
    show Refuels (onPasswordAuth W run c name args input) (onPasswordAuth W run' c name args input)
    unfold onPasswordAuth
    refine (Agree.refl _).bind fun _ => ?_
    split
    · exact refuels_runCommand hrun _ _ _ _
    · exact Agree.refl _
  | doasAuth args => exact refuels_executeAs hrun _ _ _
  | pkexecAuth args => exact (Agree.refl _).bind fun _ => refuels_executeSubcommand hrun args
  | _ => exact Agree.refl _

theorem refuels_executeWith (commandLine : Str) :
    Refuels (executeWith W run c commandLine) (executeWith W run' c commandLine) := by
  unfold executeWith
  refine (Agree.refl _).bind fun e => ?_
  split
  · exact (Agree.refl _).bind fun _ => Agree.step_bind rfl fun _ => refuels_answer hrun _ _
  · exact refuels_executeLine hrun commandLine

end Refuel

/-- With more nested calls a line does the same, if it has not run out of them. -/
theorem refuels_execute (W : World) {depth depth' : ℕ} (h : depth ≤ depth') (c : Ctx) (line : Str) :
    Refuels (execute W depth c line) (execute W depth' c line) := by
  induction depth generalizing depth' c line with
  | zero =>
    intro e hC
    exact absurd trivial (hC (.enter c 0 line e) List.mem_cons_self)
  | succ depth ih =>
    obtain ⟨n, rfl⟩ := Nat.exists_eq_add_of_lt h
    unfold execute
    refine (Agree.refl _).bind fun e => Agree.step_bind rfl fun _ => ?_
    exact refuels_executeWith (fun c line => ih (by omega) c line) line

/-! ### Few nested calls -/

theorem dispatches_append (l l' : List Step) : dispatches (l ++ l') = dispatches l + dispatches l' := List.countP_append

theorem dispatches_timeless (l : List Step) : dispatches (l.map Step.timeless) = dispatches l := by
  unfold dispatches
  rw [List.countP_map]
  congr 1
  funext t
  cases t <;> rfl

/-- If the steps run out of nested calls, at least `n` steps were taken, where a command counts for two. -/
def Costs (n : ℕ) (l : List Step) : Prop := (∃ t ∈ l, t.Exhausts) → n ≤ 2 * dispatches l

section Costs

variable {n k : ℕ} {l l' : List Step} {t : Step}

theorem Costs.nil : Costs n [] := by
  rintro ⟨t, ht, -⟩
  cases ht

theorem Costs.mono (h : Costs n l) (hk : k ≤ n) : Costs k l := fun hl => hk.trans (h hl)

theorem Costs.append (h : Costs n l) (h' : Costs n l') : Costs n (l ++ l') := by
  rintro ⟨t, ht, hexhausts⟩
  rw [dispatches_append]
  rcases List.mem_append.1 ht with ht | ht
  · have := h ⟨t, ht, hexhausts⟩
    omega
  · have := h' ⟨t, ht, hexhausts⟩
    omega

/-- A step that enters no shell. -/
theorem Costs.cons (ht : ¬t.Exhausts) (h : Costs n l) : Costs n (t :: l) := by
  rintro ⟨u, hu, hexhausts⟩
  have hl : ∃ u ∈ l, u.Exhausts := by
    rcases List.mem_cons.1 hu with rfl | hu
    · exact absurd hexhausts ht
    · exact ⟨u, hu, hexhausts⟩
  have hcount : dispatches l ≤ dispatches (t :: l) := (List.sublist_cons_self t l).countP_le
  have := h hl
  omega

theorem Costs.single (ht : ¬t.Exhausts) : Costs n [t] := Costs.cons ht Costs.nil

theorem Costs.dispatch {c : Ctx} {name : Str} {args : List Str} {input : Content} {e : ShellEmulator}
    (h : Costs n l) : Costs (n + 2) (.dispatch c name args input e :: l) := by
  rintro ⟨u, hu, hexhausts⟩
  have hl : ∃ u ∈ l, u.Exhausts := by
    rcases List.mem_cons.1 hu with rfl | hu
    · exact absurd hexhausts id
    · exact ⟨u, hu, hexhausts⟩
  have hcount : dispatches (.dispatch c name args input e :: l) = dispatches l + 1 := List.countP_cons_of_pos rfl
  have := h hl
  omega

theorem Step.not_exhausts_of_isPlain {e : ShellEmulator} (h : t.IsPlain e) : ¬t.Exhausts := by
  cases t with
  | enter => exact fun _ => h
  | _ => exact id

/-- What is pending counts for one. -/
def pendingCost (e : ShellEmulator) : ℕ := if e.pendingInputCallback.isSome then 1 else 0

theorem pendingCost_le (e : ShellEmulator) : pendingCost e ≤ 1 := by
  unfold pendingCost
  split <;> omega

theorem pendingCost_cleared {e u : ShellEmulator} (h : Cleared e u) : pendingCost u = 0 := by
  unfold pendingCost
  rw [h.callback]
  rfl

theorem pendingCost_some {e : ShellEmulator} {cb : Callback} (h : e.pendingInputCallback = some cb) :
    pendingCost e = 1 := by
  unfold pendingCost
  rw [h]
  rfl

end Costs

/-- Every nested call costs a command, but for the one that answers a prompt. -/
theorem account_costs (depth : ℕ) : Account (fun _ => True) (fun _ e l _ => Costs (depth - pendingCost e) l)
    (fun _ e l _ => Costs (depth + 1 - pendingCost e) l) (fun _ _ l _ => Costs (depth + 1) l)
    fun _ _ l _ => Costs (depth - 1) l where
  composeR _ := ⟨fun _ => Costs.nil, Costs.append⟩
  composeN _ := ⟨fun _ => Costs.nil, Costs.append⟩
  framedR _ := Costs.nil
  framedN _ := Costs.nil
  plainR h _ := Costs.single (Step.not_exhausts_of_isPlain h)
  plainN h _ := Costs.single (Step.not_exhausts_of_isPlain h)
  caught h := h
  authenticated _ _ := Costs.single id
  deferred _ _ _ _ := Costs.single id
  leaf _ _ _ := Costs.single id
  shell _ _ _ := Costs.single id
  calls _ _ _ h := h.dispatch.mono (by omega)
  inner {_ e _ _} h := h.mono (by have := pendingCost_le e; omega)
  line {_ _ e _ _} h := h.mono (by have := pendingCost_le e; omega)
  temp ht h _ := h.mono (by rw [pendingCost_cleared ht]; omega)
  idle _ h := h.mono (Nat.sub_le _ _)
  answered _ _ _ _ _ := Costs.single id
  password _ _ _ h := (Costs.cons id h).mono (Nat.sub_le _ _)
  pkexec hcb _ hclear h := (Costs.cons id h).mono (by rw [pendingCost_cleared hclear, pendingCost_some hcb]; omega)
  doas hcb _ _ ht h _ := (Costs.cons id h).mono (by rw [pendingCost_cleared ht, pendingCost_some hcb]; omega)

theorem costs_execute (W : World) (depth : ℕ) (c : Ctx) (line : Str) :
    Along (fun _ => True) (fun e l _ => Costs (depth - pendingCost e) l) (execute W depth c line) := by
  induction depth generalizing c line with
  | zero =>
    intro e _ _
    rw [Nat.zero_sub]
    exact Nat.zero_le _
  | succ depth ih =>
    unfold execute
    refine Along.get_bind fun e => AlongAt.step_bind (fun _ => (account_costs depth).executeWith ih line e) ?_
    exact fun l u _ h => Costs.cons id h

/-! ### The bound -/

/-- The number of commands that a line executes, with a number of nested calls. -/
def executed (W : World) (depth : ℕ) (c : Ctx) (line : Str) (e : ShellEmulator) : ℕ :=
  dispatches (execute W depth c line e).steps

/-- A line that runs out of nested calls, however many there are, executes more commands than any bound allows. -/
theorem executed_unbounded {W : World} {c : Ctx} {line : Str} {e : ShellEmulator}
    (h : ∀ depth, ∃ t ∈ (execute W depth c line e).steps, t.Exhausts) : ¬∃ N, ∀ depth, executed W depth c line e ≤ N := by
  rintro ⟨N, hN⟩
  -- enough nested calls that those used up cost more commands than the bound
  have hcost := costs_execute W (2 * N + 2) c line e (fun _ _ => trivial) (h (2 * N + 2))
  have hone := pendingCost_le e
  have hle : dispatches (execute W (2 * N + 2) c line e).steps ≤ N := hN _
  omega

/-- The computation runs out of nested calls. -/
def RunsOut {α : Type} (m : Shell α) (e : ShellEmulator) : Prop := ∃ t ∈ (m e).steps, t.Exhausts

section RunsOut

variable {α β : Type} {m : Shell α} {f : α → Shell β} {e : ShellEmulator}

theorem RunsOut.bind_left (h : RunsOut m e) : RunsOut (m >>= f) e := by
  obtain ⟨t, ht, hexhausts⟩ := h
  exact ⟨t, (steps_prefix_bind m f e).subset ht, hexhausts⟩

theorem RunsOut.map {g : α → β} (h : RunsOut m e) : RunsOut (g <$> m) e := by
  rw [map_eq_pure_bind]
  exact h.bind_left

theorem RunsOut.bind_right {a : α} (ha : (m e).result = .ok a) (h : RunsOut (f a) (m e).state) :
    RunsOut (m >>= f) e := by
  obtain ⟨t, ht, hexhausts⟩ := h
  refine ⟨t, ?_, hexhausts⟩
  rw [bind_ok ha]
  exact List.mem_append_right _ ht

theorem RunsOut.tryCatch {handler : Exn → Shell α} (h : RunsOut m e) : RunsOut (tryCatch m handler) e := by
  obtain ⟨t, ht, hexhausts⟩ := h
  exact ⟨t, (steps_prefix_tryCatch m handler e).subset ht, hexhausts⟩

end RunsOut

def loopFile : Str := "/s".toList

/-- The line that runs the script, which is also what is in it. -/
def loopLine : Str := Shlex.join ["bash".toList, loopFile]

/-- A shell with such a script, in which nothing stands in its way. -/
structure Loops (e : ShellEmulator) : Prop where
  pending : e.pendingInputCallback = none
  chain : 1 ≤ e.config.maxChainDepth
  aliases : e.aliases.lookup "bash".toList = none
  isFile : e.fs.pathExists loopFile = true ∧ e.fs.isDir loopFile = false
  content : e.fs.contentText loopFile = loopLine

/-- Reading a file only leaves a record. -/
theorem getContent_unread (s : FakeFilesystem) (path : Str) :
    ((s.getContent path).2.pathExists = s.pathExists ∧ (s.getContent path).2.isDir = s.isDir) ∧
      (s.getContent path).2.contentText = s.contentText := by
  unfold FakeFilesystem.getContent
  dsimp only
  split
  · exact ⟨⟨rfl, rfl⟩, rfl⟩
  · refine ⟨⟨rfl, rfl⟩, ?_⟩
    funext q
    have hget : ((s.record (.read (resolve path))).getContent q).1 = (s.getContent q).1 := by
      unfold FakeFilesystem.getContent
      dsimp only
      by_cases hq : resolve q ∈ s.deletedPaths
      · rw [if_pos hq, if_pos (show resolve q ∈ (s.record _).deletedPaths from hq)]
      · rw [if_neg hq, if_neg (show resolve q ∉ (s.record _).deletedPaths from hq)]
        rfl
    unfold FakeFilesystem.contentText
    rw [hget]

theorem getContentStr_state (path : Str) (M : Machine) :
    (Leaf.getContentStr path M).state = { M with fs := (M.fs.getContent path).2 } := by
  have hget : (Leaf.getContent path M).result = .ok (M.fs.getContent path).1 := rfl
  unfold Leaf.getContentStr
  rw [bind_ok hget]
  cases (M.fs.getContent path).1 <;> rfl

/-- What a script's start changes. -/
theorem Loops.of_fs {e u : ShellEmulator} (h : Loops e) (hstate : u.pendingInputCallback = e.pendingInputCallback ∧
    u.config = e.config ∧ u.aliases = e.aliases) (hfs : u.fs = e.fs ∨ u.fs = (e.fs.getContent loopFile).2) :
    Loops u := by
  obtain ⟨hpending, hconfig, haliases⟩ := hstate
  obtain ⟨⟨hexists, hdir⟩, htext⟩ := getContent_unread e.fs loopFile
  refine ⟨hpending.trans h.pending, hconfig ▸ h.chain, haliases ▸ h.aliases, ?_, ?_⟩
  · rcases hfs with hfs | hfs
    · rw [hfs]
      exact h.isFile
    · rw [hfs, hexists, hdir]
      exact h.isFile
  · rcases hfs with hfs | hfs
    · rw [hfs]
      exact h.content
    · rw [hfs, htext]
      exact h.content

section Loops

variable {W : World} {run : Ctx → Str → Shell Result} {e : ShellEmulator}
  (hrun : ∀ c e, Loops e → RunsOut (run c loopLine) e)

theorem resolvePath_loopFile (cwd : Str) : resolvePath cwd loopFile = loopFile := by
  unfold resolvePath
  rw [if_pos (by decide)]
  decide +kernel

include hrun

theorem Loops.runsOut_bashCommand (h : Loops e) (c : Ctx) : RunsOut (bashCommand run c [loopFile]) e := by
  show RunsOut (bashScript run c loopFile) e
  unfold bashScript
  refine RunsOut.bind_right (a := e) rfl ?_
  show RunsOut (if e.fs.pathExists (resolvePath e.cwd loopFile) = false then _ else _) e
  rw [resolvePath_loopFile, if_neg (by rw [h.isFile.1]; decide), if_neg (by rw [h.isFile.2]; decide)]
  refine RunsOut.bind_right (m := onMachine _) (getContentStr_result loopFile e.machine) ?_
  rw [show e.machine.fs.contentText loopFile = loopLine from h.content]
  refine RunsOut.bind_right (m := onMachine _) (logEvent_result _ _ _ _) ?_
  rw [show scriptLines loopLine = [loopLine] by decide +kernel]
  unfold bashLoop
  refine RunsOut.bind_left (hrun _ _ (h.of_fs ⟨rfl, rfl, rfl⟩ (.inr ?_)))
  show (Leaf.logEvent _ _ _ _).state.fs = _
  rw [logEvent_fs]
  show (Leaf.getContentStr loopFile e.machine).state.fs = _
  rw [getContentStr_state]
  rfl

theorem Loops.runsOut_runCommandInstance (h : Loops e) (c : Ctx) (input : Content) :
    RunsOut (runCommandInstance W run c "bash".toList [loopFile] input) e := by
  unfold runCommandInstance
  rw [show lookupCommand "bash".toList = some (.shell .bash) by decide +kernel]
  refine RunsOut.tryCatch ?_
  unfold authAndExecute
  refine RunsOut.bind_right (a := e) rfl (RunsOut.bind_right (a := ()) rfl ?_)
  have hneeds : needsPassword e [loopFile] = false := by
    unfold needsPassword
    rw [List.any_cons, resolvePath_loopFile, List.any_nil, show inRoot loopFile = false by decide +kernel]
    exact Bool.and_false _
  show RunsOut (if needsPassword e [loopFile] = true then _ else _) e
  rw [if_neg (by rw [hneeds]; decide)]
  unfold runCommand
  refine RunsOut.bind_right (a := e) rfl (RunsOut.bind_right (a := ()) rfl ?_)
  exact h.runsOut_bashCommand hrun _

theorem Loops.runsOut_executeLine (h : Loops e) (c : Ctx) : RunsOut (executeLine W run c loopLine) e := by
  have hexpand : expandVars W.unicode e.env loopLine = loopLine :=
    expandVars_of_no_dollar _ _ (by decide +kernel)
  have hline := executeLine_join run (c := c) (W := W) (List.cons_ne_nil _ _) hexpand h.chain
  have hbash : (lookupCommand "bash".toList).isSome = true := by decide +kernel
  have hplain : ∀ word ∈ ["bash".toList, loopFile].dropLast, ¬IsRedirection word := by
    intro word hword
    obtain rfl := List.mem_singleton.1 hword
    decide +kernel
  have hloops : Loops { e with history := e.history ++ [loopLine] } := h.of_fs ⟨rfl, rfl, rfl⟩ (.inl rfl)
  have hsegment := executeSegment_join (W := W) (c := c) (e := { e with history := e.history ++ [loopLine] }) run hbash
    h.aliases hplain
  rw [loopLine] at hsegment
  rw [RunsOut, loopLine, hline, hsegment]
  refine RunsOut.bind_right (a := ()) rfl (RunsOut.bind_left ?_)
  exact hloops.runsOut_runCommandInstance hrun c _

omit hrun

/-- However many nested calls there are, the script uses them up. -/
theorem Loops.runsOut_execute (W : World) (h : Loops e) (depth : ℕ) (c : Ctx) :
    RunsOut (execute W depth c loopLine) e := by
  induction depth generalizing e c with
  | zero => exact ⟨.enter c 0 loopLine e, List.mem_cons_self, trivial⟩
  | succ depth ih =>
    unfold execute
    refine RunsOut.bind_right (a := e) rfl (RunsOut.bind_right (a := ()) rfl ?_)
    have hidle : executeWith W (execute W depth) c loopLine e = executeLine W (execute W depth) c loopLine e := by
      unfold executeWith
      rw [get_bind, h.pending]
    obtain ⟨t, ht, hexhausts⟩ := h.runsOut_executeLine (fun c u hu => ih hu c) c
    rw [← hidle] at ht
    exact ⟨t, ht, hexhausts⟩

end Loops

/-- A shell with the script. -/
def loopShell : ShellEmulator :=
  let e := plainShell "bob".toList
  { e with machine := { e.machine with fs := (plainFs.mkfile loopFile (.text loopLine) root).2 } }

end Cyanide
