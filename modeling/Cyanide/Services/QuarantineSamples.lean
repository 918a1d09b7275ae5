import Cyanide.Services.Quarantine

/-!
# What the quarantine keeps

A file is named after the last component of what the attacker calls it and after the session, so two samples can have
one name; the one stored later replaces the other.  Where all samples of a name have the same bytes, `Stored` says that
some save has written them as far as it says, and the last save to finish leaves all of them.
-/

namespace Cyanide

open PosixPath Transition

namespace SavePc

/-- The sample was given up. -/
def isLost : SavePc → Bool
  | refused _ | failed | dropped => true
  | _ => false

def isWriting : SavePc → Bool
  | writing _ => true
  | _ => false

end SavePc

namespace SaveTask

/-- How much of the content has been written, once the file is open. -/
def progress (task : SaveTask) : Option ℕ :=
  match task.pc with
  | .writing written => some written
  | .saved => some task.content.length
  | _ => none

end SaveTask

namespace Quarantine

variable (s : Quarantine)

/-- No sample was given up, and those that are saved are in their files, as long as no other save is writing there. -/
structure Kept : Prop where
  notLost : ∀ task ∈ s.tasks, task.pc.isLost = false
  stored : ∀ task ∈ s.tasks, task.pc = .saved →
    (∀ other ∈ s.tasks, other.name = task.name → other.pc.isWriting = false) →
    (s.file task.name).toList = task.content

/-- No save reaches the quota. -/
def Fits : QuarantineEvent → Prop
  | .run i => ∀ task ∈ s.tasks[i]?, ∀ measured ∈ task.pc.measured, measured + task.content.length ≤ s.quota
  | .capture _ _ _ _ => True
  | .write _ _ => True

/-- A sample comes over SSH, under a name that can be opened and that no sample with other bytes has. -/
def Apart : QuarantineEvent → Prop
  | .capture protocol filename content sessionId =>
    protocol = .ssh ∧ s.canOpen (safeName filename sessionId) = true ∧
      ∀ task ∈ s.tasks, task.name = safeName filename sessionId → task.content = content
  | .run _ => True
  | .write _ _ => True

instance : DecidablePred s.Fits
  | .run _ => inferInstanceAs (Decidable (∀ _ ∈ _, ∀ _ ∈ _, _ ≤ _))
  | .capture _ _ _ _ => inferInstanceAs (Decidable True)
  | .write _ _ => inferInstanceAs (Decidable True)

instance : DecidablePred s.Apart
  | .run _ => inferInstanceAs (Decidable True)
  | .capture _ _ _ _ => inferInstanceAs (Decidable (_ = _ ∧ _ = _ ∧ ∀ _ ∈ _, _ = _ → _ = _))
  | .write _ _ => inferInstanceAs (Decidable True)

/-- One of the saves of a name has written the file as far as it says. -/
def Stored (name : Str) (content : List UInt8) : Prop :=
  ∃ task ∈ s.tasks, task.name = name ∧ ∃ n ∈ task.progress, (s.file name).Begins content n

/-- What the names of the tasks have to satisfy. -/
structure Labelled : Prop where
  notLost : ∀ task ∈ s.tasks, task.pc.isLost = false
  canOpen : ∀ task ∈ s.tasks, s.canOpen task.name = true
  same : ∀ task ∈ s.tasks, ∀ other ∈ s.tasks, other.name = task.name → other.content = task.content

structure Sound : Prop extends s.Labelled where
  written : ∀ task ∈ s.tasks, ∀ n ∈ task.progress, n ≤ task.content.length ∧ s.Stored task.name task.content

variable {s}

theorem Sound.kept (h : s.Sound) : s.Kept where
  notLost := h.notLost
  stored task hm hsaved hother := by
    have hprogress : task.content.length ∈ task.progress := by
      rw [SaveTask.progress, hsaved]
      rfl
    obtain ⟨u, hu, hname, n, hn, hbegins⟩ := (h.written task hm _ hprogress).2
    have hcontent := h.same task hm u hu hname
    have hidle := hother u hu hname
    -- the save that vouches for the file is not writing, so it has written everything
    cases hpc : u.pc with
    | saved =>
      rw [SaveTask.progress, hpc] at hn
      obtain rfl : u.content.length = n := Option.some.inj hn
      rw [hcontent] at hbegins
      exact hbegins.toList_eq
    | writing written =>
      rw [hpc] at hidle
      exact absurd hidle Bool.noConfusion
    | created | measuring | opening | refused | failed | dropped =>
      rw [SaveTask.progress, hpc] at hn
      exact absurd hn (Option.not_mem_none _)

/-! ### The steps -/

private theorem begins_pwrite_piece {f : SparseArray UInt8} {content : List UInt8} {n offset : ℕ}
    (h : f.Begins content n) (hoffset : offset ≤ content.length) (k : ℕ) :
    (pwrite f offset ((content.drop offset).take k)).Begins content n := by
  unfold pwrite
  split
  · exact h
  · exact h.write_piece hoffset k

private theorem begins_pwrite_next {f : SparseArray UInt8} {content : List UInt8} {n : ℕ} (h : f.Begins content n)
    (k : ℕ) :
    (pwrite f n ((content.drop n).take k)).Begins content (n + ((content.drop n).take k).length) := by
  unfold pwrite
  split
  · rename_i hnil
    rw [hnil]
    exact h
  · exact h.write_next k

private theorem ne_of_progress {task u : SaveTask} {n : ℕ} (htask : task.progress = none) (hn : n ∈ u.progress) :
    u ≠ task := by
  rintro rfl
  rw [htask] at hn
  exact Option.not_mem_none _ hn

private theorem Labelled.goto (h : s.Labelled) {i : ℕ} {task : SaveTask} {pc : SavePc} (hi : s.tasks[i]? = some task)
    (hlost : pc.isLost = false) : (s.goto i task pc).Labelled := by
  have hmem := List.mem_of_getElem? hi
  have hold : ∀ u ∈ (s.goto i task pc).tasks, ∃ v ∈ s.tasks, v.name = u.name ∧ v.content = u.content := by
    intro u hu
    rcases mem_tasks_goto hu with hm | rfl
    · exact ⟨u, hm, rfl, rfl⟩
    · exact ⟨task, hmem, rfl, rfl⟩
  refine ⟨fun u hu => ?_, fun u hu => ?_, fun u hu u' hu' hname => ?_⟩
  · rcases mem_tasks_goto hu with hm | rfl
    · exact h.notLost u hm
    · exact hlost
  · obtain ⟨v, hv, hname, -⟩ := hold u hu
    rw [← hname]
    exact h.canOpen v hv
  · obtain ⟨v, hv, hvname, hvcontent⟩ := hold u hu
    obtain ⟨v', hv', hvname', hvcontent'⟩ := hold u' hu'
    rw [← hvcontent, ← hvcontent']
    exact h.same v hv v' hv' (by rw [hvname, hvname', hname])

/-- A task whose file is not open yet goes on. -/
private theorem sound_goto (h : s.Sound) {i : ℕ} {task : SaveTask} {pc : SavePc} (hi : s.tasks[i]? = some task)
    (hprogress : task.progress = none) (hprogress' : ({ task with pc } : SaveTask).progress = none)
    (hlost : pc.isLost = false) : (s.goto i task pc).Sound := by
  refine ⟨h.toLabelled.goto hi hlost, fun u hu n hn => ?_⟩
  have hm : u ∈ s.tasks := by
    rcases mem_tasks_goto hu with hm | rfl
    · exact hm
    · rw [hprogress'] at hn
      exact absurd hn (Option.not_mem_none _)
  obtain ⟨hle, v, hv, hname, m, hmprogress, hbegins⟩ := h.written u hm n hn
  refine ⟨hle, v, ?_, hname, m, hmprogress, hbegins⟩
  exact (mem_or_eq_of_mem_tasks hi pc hv).resolve_left (ne_of_progress hprogress hmprogress)

/-- A task goes on and its file is changed. -/
private theorem sound_setFile (h : s.Sound) {i n : ℕ} {task : SaveTask} {pc : SavePc} {f : SparseArray UInt8}
    (hi : s.tasks[i]? = some task) (hlost : pc.isLost = false)
    (hprogress : ({ task with pc } : SaveTask).progress = some n) (hle : n ≤ task.content.length)
    (hstored : ((s.setFile task.name f).goto i task pc).Stored task.name task.content) :
    ((s.setFile task.name f).goto i task pc).Sound := by
  have hset : (s.setFile task.name f).tasks[i]? = some task := hi
  have hlabelled : (s.setFile task.name f).Labelled := ⟨h.notLost, h.canOpen, h.same⟩
  refine ⟨hlabelled.goto hset hlost, fun u hu m hm => ?_⟩
  rcases mem_tasks_goto hu with hu | rfl
  · obtain ⟨hle', v, hv, hname, k, hk, hbegins⟩ := h.written u hu m hm
    refine ⟨hle', ?_⟩
    by_cases hsame : u.name = task.name
    · rw [h.same task (List.mem_of_getElem? hi) u hu hsame, hsame]
      exact hstored
    · -- the file of another name, and the save that vouches for it
      have hne : v ≠ task := by
        rintro rfl
        exact hsame hname.symm
      refine ⟨v, (mem_or_eq_of_mem_tasks hset pc hv).resolve_left hne, hname, k, hk, ?_⟩
      rw [file_goto, file_setFile_of_ne hsame]
      exact hbegins
  · obtain rfl : n = m := Option.some.inj (hprogress.symm.trans hm)
    exact ⟨hle, hstored⟩

/-- A thread writes the next piece of a file. -/
private theorem sound_write (h : s.Sound) {i written : ℕ} {task : SaveTask} {pc : SavePc} (k : ℕ)
    (hi : s.tasks[i]? = some task) (hpc : task.pc = .writing written) (hlost : pc.isLost = false)
    (hprogress : ({ task with pc } : SaveTask).progress =
      some (written + ((task.content.drop written).take k).length)) :
    ((s.setFile task.name (pwrite (s.file task.name) written ((task.content.drop written).take k))).goto i task
      pc).Sound := by
  have hmem := List.mem_of_getElem? hi
  have hwriting : written ∈ task.progress := by
    rw [SaveTask.progress, hpc]
    rfl
  obtain ⟨hle, v, hv, hname, n, hn, hbegins⟩ := h.written task hmem written hwriting
  refine sound_setFile h hi hlost hprogress ?_ ?_
  · rw [List.length_take, List.length_drop]
    omega
  · have hset : ∀ f, (s.setFile task.name f).tasks[i]? = some task := fun _ => hi
    rcases mem_or_eq_of_mem_tasks (hset _) pc hv with rfl | hv'
    · obtain rfl : written = n := Option.some.inj (hwriting.symm.trans hn)
      refine ⟨_, mem_tasks_goto_self (hset _) pc, rfl, _, hprogress, ?_⟩
      rw [file_goto, file_setFile]
      exact begins_pwrite_next hbegins k
    · refine ⟨v, hv', hname, n, hn, ?_⟩
      rw [file_goto, file_setFile]
      exact begins_pwrite_piece hbegins hle k

private theorem sound_runTask (h : s.Sound) {i : ℕ} {task : SaveTask} (hi : s.tasks[i]? = some task)
    (hfits : s.Fits (.run i)) : (s.runTask i task).Sound := by
  have hmem := List.mem_of_getElem? hi
  have hstep := taskStep_runTask s i task
  generalize s.runTask i task = t at hstep ⊢
  cases hstep with
  | idle => exact h
  | measure names size hpc =>
    have hprogress : task.progress = none := by
      rw [SaveTask.progress]
      rcases hpc with hpc | ⟨names', size', hpc⟩ <;> rw [hpc]
    exact sound_goto h hi hprogress rfl rfl
  | refuse measured hpc hfull =>
    have hroom := hfits task hi measured (SavePc.mem_measured.2 hpc)
    omega
  | accept measured hpc => exact sound_goto h hi (by rw [SaveTask.progress, hpc]) rfl rfl
  | fail _ hopen =>
    rw [h.canOpen task hmem] at hopen
    exact Bool.noConfusion hopen
  | openFile =>
    refine sound_setFile h hi rfl rfl (Nat.zero_le _) ?_
    refine ⟨_, mem_tasks_goto_self (s := s.setFile task.name (.ofList [])) hi _, rfl, 0, rfl, ?_⟩
    rw [file_goto, file_setFile]
    exact SparseArray.begins_ofList_nil task.content
  | close written hpc =>
    have hwriting : written ∈ task.progress := by
      rw [SaveTask.progress, hpc]
      rfl
    have hle := (h.written task hmem written hwriting).1
    have hall : task.content.drop written = (task.content.drop written).take task.content.length :=
      (List.take_of_length_le (by rw [List.length_drop]; omega)).symm
    rw [hall]
    refine sound_write h task.content.length hi hpc rfl ?_
    show some task.content.length = _
    rw [← hall, List.length_drop, Nat.add_sub_cancel' hle]

private theorem sound_writeTask (h : s.Sound) {i : ℕ} {task : SaveTask} (hi : s.tasks[i]? = some task) (n : ℕ) :
    (s.writeTask i task n).Sound := by
  unfold writeTask
  split
  · rename_i written hpc
    exact sound_write h n hi hpc rfl rfl
  · exact h

/-- A new sample. -/
private theorem sound_capture (h : s.Sound) (task : SaveTask) (hcreated : task.pc = .created)
    (hopen : s.canOpen task.name = true) (hsame : ∀ u ∈ s.tasks, u.name = task.name → u.content = task.content) :
    ({ s with tasks := s.tasks ++ [task] } : Quarantine).Sound := by
  have hsplit : ∀ {u}, u ∈ s.tasks ++ [task] → u ∈ s.tasks ∨ u = task := fun hu =>
    (List.mem_append.1 hu).imp_right List.mem_singleton.1
  refine ⟨⟨fun u hu => ?_, fun u hu => ?_, fun u hu u' hu' hname => ?_⟩, fun u hu n hn => ?_⟩
  · rcases hsplit hu with hm | rfl
    · exact h.notLost u hm
    · rw [hcreated]
      rfl
  · rcases hsplit hu with hm | rfl
    · exact h.canOpen u hm
    · exact hopen
  · rcases hsplit hu with hm | rfl <;> rcases hsplit hu' with hm' | rfl
    · exact h.same u hm u' hm' hname
    · exact (hsame u hm hname.symm).symm
    · exact hsame u' hm' hname
    · rfl
  · rcases hsplit hu with hm | rfl
    · obtain ⟨hle, v, hv, hstored⟩ := h.written u hm n hn
      exact ⟨hle, v, List.mem_append_left _ hv, hstored⟩
    · rw [SaveTask.progress, hcreated] at hn
      exact absurd hn (Option.not_mem_none _)

theorem sound_step (h : s.Sound) (e : QuarantineEvent) (hfits : s.Fits e) (hapart : s.Apart e) : (s.step e).Sound := by
  cases e with
  | capture protocol filename content sessionId =>
    obtain ⟨rfl, hopen, hsame⟩ := hapart
    exact sound_capture h _ rfl hopen hsame
  | run i =>
    rw [step]
    split
    · rename_i task hi
      exact sound_runTask h hi hfits
    · exact h
  | write i n =>
    rw [step]
    split
    · rename_i task hi
      exact sound_writeTask h hi n
    · exact h

theorem sound_start (maxMb : ℕ) (canOpen : Str → Bool) (files : Dict (SparseArray UInt8)) :
    (start maxMb canOpen files).Sound where
  notLost _ hm := absurd hm List.not_mem_nil
  canOpen _ hm := absurd hm List.not_mem_nil
  same _ hm := absurd hm List.not_mem_nil
  written _ hm := absurd hm List.not_mem_nil

/-! ### The condition is exact -/

/-- No save is under way. -/
def Done (s : Quarantine) : Prop := ∀ task ∈ s.tasks, task.pc = .saved ∨ task.pc.isLost = true

/-- The tasks of a state are still there, and what Telnet dropped is not saved. -/
def Lasts (s t : Quarantine) : Prop :=
  ∀ task ∈ s.tasks, ∃ u ∈ t.tasks, u.name = task.name ∧ u.content = task.content ∧
    (task.pc = .dropped → u.pc = .dropped)

private theorem Lasts.trans {t r : Quarantine} (h : s.Lasts t) (h' : t.Lasts r) : s.Lasts r := by
  intro task hm
  obtain ⟨u, hu, hname, hcontent, hdropped⟩ := h task hm
  obtain ⟨v, hv, hname', hcontent', hdropped'⟩ := h' u hu
  exact ⟨v, hv, hname'.trans hname, hcontent'.trans hcontent, fun hpc => hdropped' (hdropped hpc)⟩

private theorem lasts_refl (s : Quarantine) : s.Lasts s := fun task hm => ⟨task, hm, rfl, rfl, id⟩

private theorem lasts_goto {i : ℕ} {task : SaveTask} {pc : SavePc} (hi : s.tasks[i]? = some task)
    (hpc : task.pc ≠ .dropped) : s.Lasts (s.goto i task pc) := by
  intro u hu
  rcases mem_or_eq_of_mem_tasks hi pc hu with rfl | hm
  · exact ⟨_, mem_tasks_goto_self hi pc, rfl, rfl, fun hdropped => absurd hdropped hpc⟩
  · exact ⟨u, hm, rfl, rfl, id⟩

private theorem lasts_runTask {i : ℕ} {task : SaveTask} (hi : s.tasks[i]? = some task) :
    s.Lasts (s.runTask i task) := by
  have hstep := taskStep_runTask s i task
  generalize s.runTask i task = t at hstep ⊢
  cases hstep with
  | idle => exact lasts_refl s
  | measure names size hpc =>
    refine lasts_goto hi ?_
    rcases hpc with hpc | ⟨names', size', hpc⟩ <;> simp [hpc]
  | refuse measured hpc => exact lasts_goto hi (by simp [hpc])
  | accept measured hpc => exact lasts_goto hi (by simp [hpc])
  | fail hpc => exact lasts_goto hi (by simp [hpc])
  | openFile hpc => exact lasts_goto (s := s.setFile task.name (.ofList [])) hi (by simp [hpc])
  | close written hpc => exact lasts_goto (s := s.setFile task.name _) hi (by simp [hpc])

private theorem lasts_step (s : Quarantine) (e : QuarantineEvent) : s.Lasts (s.step e) := by
  cases e with
  | capture protocol =>
    cases protocol <;> exact fun task hm => ⟨task, List.mem_append_left _ hm, rfl, rfl, id⟩
  | run i =>
    rw [step]
    split
    · rename_i task hi
      exact lasts_runTask hi
    · exact lasts_refl s
  | write i n =>
    rw [step]
    split
    · rename_i task hi
      unfold writeTask
      split
      · rename_i written hpc
        exact lasts_goto (s := s.setFile task.name _) hi (by simp [hpc])
      · exact lasts_refl s
    · exact lasts_refl s

private theorem lasts_run (s : Quarantine) (es : List QuarantineEvent) : s.Lasts (run step s es) := by
  induction es generalizing s with
  | nil => exact lasts_refl s
  | cons e es ih => exact (lasts_step s e).trans (ih (s.step e))

/-- Only files that can be opened are written. -/
def Opened (s : Quarantine) : Prop := ∀ task ∈ s.tasks, task.progress ≠ none → s.canOpen task.name = true

private theorem opened_goto {i : ℕ} {task : SaveTask} {pc : SavePc} (h : s.Opened) (hi : s.tasks[i]? = some task)
    (hprogress : ({ task with pc } : SaveTask).progress ≠ none → task.progress ≠ none ∨ s.canOpen task.name = true) :
    (s.goto i task pc).Opened := by
  intro u hu hne
  rcases mem_tasks_goto hu with hm | rfl
  · exact h u hm hne
  · exact (hprogress hne).elim (h task (List.mem_of_getElem? hi)) id

private theorem opened_runTask {i : ℕ} {task : SaveTask} (h : s.Opened) (hi : s.tasks[i]? = some task) :
    (s.runTask i task).Opened := by
  have hstep := taskStep_runTask s i task
  generalize s.runTask i task = t at hstep ⊢
  cases hstep with
  | idle => exact h
  | measure names size => exact opened_goto h hi fun hne => absurd rfl hne
  | refuse measured => exact opened_goto h hi fun hne => absurd rfl hne
  | accept measured => exact opened_goto h hi fun hne => absurd rfl hne
  | fail => exact opened_goto h hi fun hne => absurd rfl hne
  | openFile _ hopen => exact opened_goto (s := s.setFile task.name (.ofList [])) h hi fun _ => .inr hopen
  | close written hpc =>
    exact opened_goto (s := s.setFile task.name _) h hi fun _ => .inl (by simp [SaveTask.progress, hpc])

private theorem opened_step (h : s.Opened) (e : QuarantineEvent) : (s.step e).Opened := by
  cases e with
  | capture protocol filename content sessionId =>
    have hnew : ∀ task : SaveTask, task.progress = none →
        ({ s with tasks := s.tasks ++ [task] } : Quarantine).Opened := by
      intro task hnone u hu hne
      rcases List.mem_append.1 hu with hm | hm
      · exact h u hm hne
      · rw [List.mem_singleton.1 hm] at hne
        exact absurd hnone hne
    cases protocol with
    | ssh => exact hnew _ rfl
    | telnet => exact hnew _ rfl
  | run i =>
    rw [step]
    split
    · rename_i task hi
      exact opened_runTask h hi
    · exact h
  | write i n =>
    rw [step]
    split
    · rename_i task hi
      unfold writeTask
      split
      · rename_i written hpc
        exact opened_goto (s := s.setFile task.name _) h hi fun _ => .inl (by simp [SaveTask.progress, hpc])
      · exact h
    · exact h

/-- A capture before an end that keeps all samples. -/
private theorem apart_of_lasts {t : Quarantine} {e : QuarantineEvent} (h : (s.step e).Lasts t) (hkept : t.Kept)
    (hdone : t.Done) (hopened : t.Opened) (hcan : t.canOpen = s.canOpen) : s.Apart e := by
  have hsaved : ∀ task ∈ t.tasks, task.pc = .saved := fun task hm =>
    (hdone task hm).resolve_right (by rw [hkept.notLost task hm]; exact Bool.noConfusion)
  have hstored : ∀ task ∈ t.tasks, (t.file task.name).toList = task.content := fun task hm =>
    hkept.stored task hm (hsaved task hm) fun other hm' _ => by rw [hsaved other hm']; rfl
  cases e with
  | run => trivial
  | write => trivial
  | capture protocol filename content sessionId =>
    have hnew : ∃ pc, (⟨safeName filename sessionId, content, pc⟩ : SaveTask) ∈
        (s.step (.capture protocol filename content sessionId)).tasks ∧ (protocol = .telnet → pc = .dropped) := by
      cases protocol with
      | ssh => exact ⟨.created, List.mem_append_right _ (List.mem_singleton_self _), Protocol.noConfusion⟩
      | telnet => exact ⟨.dropped, List.mem_append_right _ (List.mem_singleton_self _), fun _ => rfl⟩
    obtain ⟨pc, hmem, htelnet⟩ := hnew
    obtain ⟨u, hu, hname, hcontent, hdropped⟩ := h _ hmem
    have hupc := hsaved u hu
    refine ⟨?_, ?_, fun v hv hvname => ?_⟩
    · cases protocol with
      | ssh => rfl
      | telnet =>
        rw [hdropped (htelnet rfl)] at hupc
        exact absurd hupc SavePc.noConfusion
    · have hopen := hopened u hu (by simp [SaveTask.progress, hupc])
      rwa [hname, hcan] at hopen
    · have hv' : v ∈ (s.step (.capture protocol filename content sessionId)).tasks := by
        cases protocol <;> exact List.mem_append_left _ hv
      obtain ⟨w, hw, hwname, hwcontent, -⟩ := h v hv'
      rw [← hwcontent, ← hstored w hw, hwname, hvname]
      have hfile := hstored u hu
      rw [hname, hcontent] at hfile
      exact hfile

end Quarantine

open Quarantine

/-- A sample that is captured again from another directory. -/
def sameBytes : List QuarantineEvent :=
  [.capture .ssh "a/x".toList [1] "s".toList, .run 0, .run 0, .run 0, .run 0, .capture .ssh "b/x".toList [1] "s".toList,
    .run 1, .run 1, .run 1, .run 1, .run 1]

theorem kept_run (maxMb : ℕ) (canOpen : Str → Bool) (files : Dict (SparseArray UInt8)) (events : List QuarantineEvent)
    (hfits : Meets step Fits (start maxMb canOpen files) events)
    (hapart : Meets step Apart (start maxMb canOpen files) events) :
    ∀ es, es <+: events → (run step (start maxMb canOpen files) es).Kept := by
  intro es hes
  have hG := (hfits.initial hes).and (hapart.initial hes)
  exact (invariant_of_steps (I := Sound) (fun _ e hs hG => sound_step hs e hG.1 hG.2)
    (sound_start maxMb canOpen files) hG).kept

/-- Two samples of one file, one of them from another directory. -/
theorem kept_run_sameBytes : (run step (start 1 (fun _ => true) ∅) sameBytes).Kept :=
  kept_run 1 (fun _ => true) ∅ sameBytes (by decide +kernel) (by decide +kernel) sameBytes List.prefix_rfl

/-- Two files of one name in different directories. -/
theorem not_kept_sameName :
    ¬ ∀ events : List QuarantineEvent, Meets step Fits (start 1 (fun _ => true) ∅) events →
      (run step (start 1 (fun _ => true) ∅) events).Kept := by
  intro h
  have hrun := (h [.capture .ssh "a/x".toList [1] "s".toList, .run 0, .run 0, .run 0, .run 0,
    .capture .ssh "b/x".toList [2] "s".toList, .run 1, .run 1, .run 1, .run 1, .run 1] (by decide +kernel)).stored
  revert hrun
  decide +kernel

/-- When no save is under way at the end, the condition is exact. -/
theorem apart_of_kept (maxMb : ℕ) (canOpen : Str → Bool) (files : Dict (SparseArray UInt8))
    (events : List QuarantineEvent) (hdone : (run step (start maxMb canOpen files) events).Done)
    (hkept : (run step (start maxMb canOpen files) events).Kept) :
    Meets step Apart (start maxMb canOpen files) events := by
  have hopened : (run step (start maxMb canOpen files) events).Opened :=
    invariant_of_steps (I := Opened) (G := fun _ _ => True) (s := start maxMb canOpen files)
      (fun _ e hs _ => opened_step hs e) (fun _ hm => absurd hm List.not_mem_nil)
      (meets_of_forall fun _ _ _ => trivial)
  rw [meets_iff]
  rintro bs e ⟨cs, rfl⟩
  have hlasts : ((run step (start maxMb canOpen files) bs).step e).Lasts
      (run step (start maxMb canOpen files) (bs ++ [e] ++ cs)) := by
    rw [run_append, run_append]
    exact lasts_run _ cs
  refine apart_of_lasts hlasts hkept hdone hopened ?_
  rw [(config_run _ _).2, (config_run _ _).2]

end Cyanide
