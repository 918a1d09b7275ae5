import Cyanide.Shell.Pairing

/-!
# The size of the output

`_execute_nodes` cuts the output of a line off at `max_output_size` and adds a notice.  The reply to a prompt does not
pass through it: `bounded_iff` says which replies are bounded none the less.
-/

namespace Cyanide

open PosixPath PyText Traced

def truncationNotice : Str := "\n[output truncated]\n".toList

/-- The number of characters that a shell may return. -/
def ShellEmulator.outputLimit (e : ShellEmulator) : ℕ := e.config.maxOutputSize + truncationNotice.length

/-- What is returned, if anything is, is not longer than the limit. -/
def Bounded (limit : ℕ) (out : Outcome Exn ShellEmulator Step Result) : Prop :=
  ∀ r, out.result = .ok r → r.stdout.len ≤ limit

/-! ### Replies -/

/-- What an editor has captured can be joined: it is text. -/
def CapturedText (e : ShellEmulator) (name : Str) : Prop :=
  ∀ l ∈ (e.captureLines.lookup name).getD [], l.isBytes = false

/-- The reply of `crontab`'s editor. -/
def crontabReply (line : Str) : Str :=
  if strip line = "CANCEL".toList then "crontab: edits aborted\n".toList
  else if strip line = "DONE".toList then "crontab: installing new crontab\n".toList
  else []

/-- The reply of `visudo`'s editor. -/
def visudoReply (line : Str) : Str :=
  if strip line = "CANCEL".toList then "visudo: edits aborted\n".toList
  else if strip line = "DONE".toList then "visudo: /etc/sudoers: success\n".toList
  else []

/-- The words on which an editor writes its file. -/
def writesFile (line : Str) : Bool := [":wq".toList, "wq".toList, "^X".toList, ":w".toList].contains (strip line)

/-- The reply of an editor. -/
def editorReply (e : ShellEmulator) (name line : Str) : Str :=
  let target := (e.targetFile.lookup name).getD []
  if writesFile line then
    if strip line = ":w".toList then '"' :: target ++ "\" written\n".toList
    else '"' :: target ++ "\" written, exit.\n".toList
  else if [":q!".toList, "q!".toList, "^C".toList, ":q".toList].contains (strip line) then "Aborted.\n".toList
  else []

/-- The reply of the interactive interpreter. -/
def pythonReply (line : Str) : Str :=
  if ["quit()".toList, "exit()".toList, "exit".toList, "quit".toList].contains (strip line) then []
  else pythonOutput (strip line)

/-- The reply to a prompt fits: the deferred command prints no more as it is run by itself, and so on.  `su` prints
nothing, and `pkexec` leaves its command to the same shell. -/
def Callback.Fits (W : World) (depth : ℕ) (c : Ctx) (line : Str) (e : ShellEmulator) : Callback → Prop
  | .passwordAuth name args input => ∀ cls, lookupCommand name = some cls →
    Bounded e.outputLimit (runCommand W (execute W depth) c cls name args input { e.cleared with username := root })
  | .doasAuth args => Bounded e.outputLimit (executeAs (execute W depth) c root true (Shlex.join args) e.cleared)
  | .crontabInput =>
    (strip line = "DONE".toList → CapturedText e crontabName) → (crontabReply line).length ≤ e.outputLimit
  | .visudoInput =>
    (strip line = "DONE".toList → CapturedText e visudoName) → (visudoReply line).length ≤ e.outputLimit
  | .editorInput name => (writesFile line → CapturedText e name) → (editorReply e name line).length ≤ e.outputLimit
  | .pythonInput => (pythonReply line).length ≤ e.outputLimit
  | .suPassword | .pkexecAuth _ => True

/-! ### Lines -/

section Lines

variable {W : World} {run : Ctx → Str → Shell Result} {c : Ctx} {e : ShellEmulator} {line : Str}

/-- The loop cuts off what it has collected, after each node. -/
theorem returnsOnly_executeNodes (max : ℕ) (bg pl : Str → Shell Output)
    (nodes : List (CommandNode Str)) :
    ReturnsOnly (fun o : Output => o.stdout.length ≤ max + truncationNotice.length) (executeNodes max bg pl nodes) := by
  unfold executeNodes executeLoop
  refine ReturnsOnly.bind (F := fun st : ExecState => st.fullStdout.length ≤ max + truncationNotice.length) ?_
    fun st hst => ReturnsOnly.pure hst
  refine ReturnsOnly.foldlM _ (fun st node hst => ?_) (Nat.zero_le _)
  unfold executeNode
  split
  · exact ReturnsOnly.pure hst
  split
  · exact ReturnsOnly.pure hst
  refine ReturnsOnly.of_bind fun o => ReturnsOnly.pure ?_
  unfold afterNode
  dsimp only
  split
  · have htake := List.length_take_le max (st.fullStdout ++ o.stdout)
    rw [List.length_append]
    exact Nat.add_le_add_right htake _
  next hmax => exact (Nat.le_of_not_lt hmax).trans (Nat.le_add_right _ _)

theorem bounded_executeLine : Bounded e.outputLimit (executeLine W run c line e) := by
  intro r hr
  unfold executeLine at hr
  split at hr
  · cases hr
    exact Nat.zero_le _
  · rw [modify_bind, get_bind] at hr
    dsimp only at hr
    split at hr
    · cases hr
      exact Nat.zero_le _
    · obtain ⟨o, ho, rfl⟩ := map_eq_ok hr
      exact returnsOnly_executeNodes _ _ _ _ _ o ho

theorem bounded_execute (h : e.pendingInputCallback = none) (depth : ℕ) :
    Bounded e.outputLimit (execute W depth c line e) := by
  cases depth with
  | zero =>
    intro r hr
    cases hr
  | succ depth =>
    rw [execute_succ]
    unfold executeWith
    rw [get_bind, h]
    exact bounded_executeLine

end Lines

/-! ### Prompts -/

section Prompts

variable {e : ShellEmulator} {limit : ℕ} {line : Str}

theorem capturedText_ok {lines : List Content} (h : ∀ l ∈ lines, l.isBytes = false) (M : Machine) :
    ∃ t, (capturedText lines M).result = .ok t := by
  unfold capturedText
  split
  · exact ⟨_, rfl⟩
  · have hjoin : (Leaf.joinTexts ['\n'] lines M).result = .ok (List.intercalate ['\n'] (lines.map Content.chars)) := by
      unfold Leaf.joinTexts
      rw [List.findIdx?_eq_none_iff.2 h]
      rfl
    rw [bind_ok hjoin]
    exact ⟨_, rfl⟩

theorem text_of_capturedText {lines : List Content} {M : Machine} {t : Str}
    (h : (capturedText lines M).result = .ok t) : ∀ l ∈ lines, l.isBytes = false := by
  unfold capturedText at h
  split at h
  next hnil =>
    rw [hnil]
    exact fun l hl => absurd hl List.not_mem_nil
  · obtain ⟨t', ht', -⟩ := bind_eq_ok h
    unfold Leaf.joinTexts at ht'
    cases hfind : lines.findIdx? Content.isBytes with
    | none => exact List.findIdx?_eq_none_iff.1 hfind
    | some item =>
      rw [hfind] at ht'
      cases ht'

/-- A command that replies with the same text whenever it replies. -/
theorem bounded_reply {m : Shell Output} {reply : Str} {P : Prop} (hok : P → (m e).result = .ok (.ok reply))
    (hP : ∀ o, (m e).result = .ok o → P) : Bounded limit ((Output.toResult <$> m) e) ↔ (P → reply.length ≤ limit) := by
  constructor
  · intro h hp
    refine h (.ok reply) ?_
    rw [map_eq_pure_bind, bind_ok (hok hp)]
    rfl
  · intro h r hr
    obtain ⟨o, ho, rfl⟩ := map_eq_ok hr
    obtain rfl := Except.ok.inj ((hok (hP o ho)).symm.trans ho)
    exact h (hP _ ho)

theorem not_cancel_of_done (h : strip line = "DONE".toList) : strip line ≠ "CANCEL".toList := by
  rw [h]
  decide

theorem bounded_crontabInput : Bounded limit ((Output.toResult <$> crontabInput line) e) ↔
    ((strip line = "DONE".toList → CapturedText e crontabName) → (crontabReply line).length ≤ limit) := by
  refine bounded_reply (fun htext => ?_) fun o ho hdone => ?_
  · unfold crontabInput crontabReply
    split
    · rfl
    split
    next hdone =>
      obtain ⟨t, ht⟩ := capturedText_ok (htext hdone) e.machine
      have hfile : (onMachine (do
          let _ ← Leaf.mkfile (cronFile e.username)
            (.text (← capturedText ((e.captureLines.lookup crontabName).getD []))) e.username) e).result = .ok () := by
        exact congrArg Outcome.result (bind_ok (s := e.machine) ht _)
      exact congrArg Outcome.result (bind_ok hfile _)
    · rfl
  · unfold crontabInput at ho
    rw [if_neg (not_cancel_of_done hdone), if_pos hdone] at ho
    obtain ⟨u, hu, -⟩ := bind_eq_ok (m := onMachine _) (s := e) ho
    obtain ⟨t, ht, -⟩ := bind_eq_ok (s := e.machine) hu
    exact text_of_capturedText ht

theorem bounded_visudoInput : Bounded limit ((Output.toResult <$> visudoInput line) e) ↔
    ((strip line = "DONE".toList → CapturedText e visudoName) → (visudoReply line).length ≤ limit) := by
  refine bounded_reply (fun htext => ?_) fun o ho hdone => ?_
  · unfold visudoInput visudoReply
    split
    · rfl
    split
    next hdone =>
      obtain ⟨t, ht⟩ := capturedText_ok (htext hdone) e.machine
      have hfile : (onMachine (do
          let content ← capturedText ((e.captureLines.lookup visudoName).getD [])
          let _ ← Leaf.mkfile sudoersFile (.text content) root
          Leaf.logEvent e.view "sudoers_modified".toList [("content".toList, content)]) e).result = .ok () := by
        refine (congrArg Outcome.result (bind_ok (s := e.machine) ht _)).trans ?_
        refine (congrArg Outcome.result (bind_ok rfl _)).trans ?_
        exact logEvent_result _ _ _ _
      exact congrArg Outcome.result (bind_ok hfile _)
    · rfl
  · unfold visudoInput at ho
    rw [if_neg (not_cancel_of_done hdone), if_pos hdone] at ho
    obtain ⟨u, hu, -⟩ := bind_eq_ok (m := onMachine _) (s := e) ho
    obtain ⟨t, ht, -⟩ := bind_eq_ok (s := e.machine) hu
    exact text_of_capturedText ht

/-- What an editor does to write its file. -/
private def writeCaptured (target : Str) (captured : List Content) (username : Str) : Leaf Unit := do
  let content ← capturedText captured
  if dirname target ≠ [] then Leaf.mkdirP (dirname target) root
  let _ ← Leaf.mkfile target (.text content) username

theorem writeCaptured_ok {target username : Str} {captured : List Content} {M : Machine}
    (h : ∀ l ∈ captured, l.isBytes = false) : (writeCaptured target captured username M).result = .ok () := by
  obtain ⟨t, ht⟩ := capturedText_ok h M
  refine (congrArg Outcome.result (bind_ok ht _)).trans ?_
  by_cases hdir : dirname target ≠ []
  · simp only [if_pos hdir]
    rfl
  · simp only [if_neg hdir]
    rfl

theorem bounded_editorInput (name : Str) : Bounded limit ((Output.toResult <$> editorInput name line) e) ↔
    ((writesFile line → CapturedText e name) → (editorReply e name line).length ≤ limit) := by
  refine bounded_reply (fun htext => ?_) fun o ho hwrites => ?_
  · unfold editorInput editorReply
    dsimp only
    split
    next hwrites =>
      have hfile : (onMachine (writeCaptured ((e.targetFile.lookup name).getD [])
        ((e.captureLines.lookup name).getD []) e.username) e).result = .ok () := writeCaptured_ok (htext hwrites)
      rw [if_pos (show writesFile line = true from hwrites)]
      refine (congrArg Outcome.result (bind_ok (m := onMachine _) (s := e) hfile _)).trans ?_
      dsimp only
      split <;> rfl
    next hwrites =>
      rw [if_neg (show ¬writesFile line = true from hwrites)]
      split <;> rfl
  · unfold editorInput at ho
    rw [show [":wq".toList, "wq".toList, "^X".toList, ":w".toList].contains (strip line) = true from hwrites] at ho
    obtain ⟨u, hu, -⟩ := bind_eq_ok (m := onMachine _) (s := e) ho
    obtain ⟨t, ht, -⟩ := bind_eq_ok (s := e.machine) hu
    exact text_of_capturedText ht

theorem bounded_pythonInput :
    Bounded limit ((Output.toResult <$> pythonInput line) e) ↔ (pythonReply line).length ≤ limit := by
  refine (bounded_reply (P := True) (fun _ => ?_) fun _ _ => trivial).trans ⟨fun h => h trivial, fun h _ => h⟩
  unfold pythonInput pythonReply
  dsimp only
  split
  · rfl
  · refine (congrArg Outcome.result (get_bind _ _)).trans ?_
    split
    · exact congrArg Outcome.result (bind_ok (m := onMachine _) (logEvent_result _ _ _ _) _)
    · rfl

theorem bounded_answer {W : World} {depth : ℕ} {c : Ctx} (cb : Callback) :
    Bounded e.outputLimit (answer W (execute W depth) c cb line e.cleared) ↔ cb.Fits W depth c line e := by
  cases cb with
  | passwordAuth name args input =>
    show Bounded _ (onPasswordAuth W (execute W depth) c name args input e.cleared) ↔ _
    unfold onPasswordAuth
    rw [modify_bind]
    cases hcls : lookupCommand name with
    | none =>
      refine ⟨fun _ cls h => ?_, fun _ r hr => ?_⟩
      · rw [hcls] at h
        cases h
      · cases hr
        exact Nat.zero_le _
    | some cls =>
      refine ⟨fun h cls' hcls' => ?_, fun h => h cls hcls⟩
      obtain rfl := Option.some.inj (hcls.symm.trans hcls')
      exact h
  | doasAuth args => exact Iff.rfl
  | crontabInput => exact bounded_crontabInput
  | visudoInput => exact bounded_visudoInput
  | editorInput name => exact bounded_editorInput name
  | pythonInput => exact bounded_pythonInput
  | suPassword =>
    refine iff_of_true (fun r hr => ?_) trivial
    obtain ⟨o, ho, rfl⟩ := map_eq_ok hr
    unfold onPassword at ho
    rw [get_bind] at ho
    split at ho
    · obtain ⟨_, _, ho⟩ := bind_eq_ok ho
      cases ho
      exact Nat.zero_le _
    · cases ho
      exact Nat.zero_le _
  | pkexecAuth args =>
    refine iff_of_true ?_ trivial
    show Bounded _ ((if args = [] then return .ok [] else execute W depth c.inner (Shlex.join args) : Shell Result)
      { e.cleared with username := root })
    split
    · intro r hr
      cases hr
      exact Nat.zero_le _
    · exact bounded_execute rfl depth

end Prompts

/-- What the shell returns is bounded just when no callback is pending whose reply does not fit. -/
theorem bounded_iff (W : World) (depth : ℕ) (c : Ctx) (line : Str) (e : ShellEmulator) :
    Bounded e.outputLimit (execute W depth c line e) ↔
      ∀ cb d, e.pendingInputCallback = some cb → depth = d + 1 → cb.Fits W d c line e := by
  cases depth with
  | zero =>
    refine iff_of_true (fun r hr => ?_) fun cb d _ hd => ?_
    · cases hr
    · cases hd
  | succ depth =>
    cases hcb : e.pendingInputCallback with
    | none => exact iff_of_true (bounded_execute hcb _) fun cb d h => by cases h
    | some cb =>
      have hanswer := @bounded_answer e line W depth c cb
      rw [execute_pending hcb]
      refine hanswer.trans ⟨fun h cb' d hcb' hd => ?_, fun h => h cb depth rfl rfl⟩
      obtain rfl := Option.some.inj hcb'
      obtain rfl := Nat.succ.inj hd
      exact h

/-- A shell of which little output is wanted, and a file of root with more. -/
def terseShell : ShellEmulator :=
  let e := plainShell "bob".toList
  { e with
    config := { maxOutputSize := 5 }
    machine := { e.machine with fs := (plainFs.mkfile "/root/a".toList (.text (List.replicate 40 'x')) root).2 } }

/-- The file is printed as a whole when the password has come. -/
theorem not_bounded_cat :
    let e := (history plainWorld [.line "cat /root/a".toList] terseShell).state
    ¬Bounded e.outputLimit (execute plainWorld 10 .client "password".toList e) := by
  intro e h
  have hlimit : e.outputLimit = 25 := by decide +kernel
  have hprinted : (execute plainWorld 10 .client "password".toList e).result.toOption.map (·.stdout.len) = some 40 := by
    decide +kernel
  cases hresult : (execute plainWorld 10 .client "password".toList e).result with
  | error x =>
    rw [hresult] at hprinted
    cases hprinted
  | ok r =>
    rw [hresult] at hprinted
    have hlength : r.stdout.len = 40 := Option.some.inj hprinted
    have hle := h r hresult
    omega

end Cyanide
