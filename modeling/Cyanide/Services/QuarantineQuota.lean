import Mathlib.Algebra.BigOperators.Group.Finset.Piecewise
import Mathlib.Algebra.Order.BigOperators.Group.Finset
import Mathlib.Data.Finset.Lattice.Fold
import Mathlib.Order.Lattice.Nat
import Cyanide.Services.Quarantine

/-!
# The quota of the quarantine

The size is added up before the file is opened, so saves that are under way are not counted.  `ahead` counts them: it
is the size that the directory comes to when every save under way that makes its file longer is done.  Only the
decision to store a file raises it, and as long as it is within the quota, so is the directory.
-/

namespace Cyanide

open PosixPath Transition

/-- The file is not as long yet as the save makes it. -/
def SaveTask.UnderWay (canOpen : Str → Bool) (task : SaveTask) : Prop :=
  match task.pc with
  | .opening => canOpen task.name = true
  | .writing written => written < task.content.length
  | _ => False

namespace SaveTask

instance (canOpen : Str → Bool) : DecidablePred (UnderWay canOpen)
  | ⟨_, _, .opening⟩ => inferInstanceAs (Decidable (_ = _))
  | ⟨_, _, .writing _⟩ => inferInstanceAs (Decidable (_ < _))
  | ⟨_, _, .created⟩ | ⟨_, _, .measuring _ _⟩ | ⟨_, _, .saved⟩ | ⟨_, _, .refused _⟩ | ⟨_, _, .failed⟩
  | ⟨_, _, .dropped⟩ => inferInstanceAs (Decidable False)

end SaveTask

namespace Quarantine

variable (s : Quarantine)

/-- The longest content that is under way to a file. -/
def need (name : Str) : ℕ :=
  (s.tasks.toFinset.filter fun task => task.UnderWay s.canOpen ∧ task.name = name).sup fun task => task.content.length

/-- How long a file becomes. -/
def due (name : Str) : ℕ := max (s.file name).length (s.need name)

def names : Finset Str := (s.files.keys ++ s.tasks.map (·.name)).toFinset

/-- The size of the directory when the saves under way are done. -/
def ahead : ℕ := ∑ name ∈ s.names, s.due name

/-- The directory is within the quota, and what was refused would not have fitted. -/
structure Within : Prop where
  size_le : s.size ≤ s.quota
  justified : ∀ task ∈ s.tasks, ∀ total, task.pc = .refused total → s.quota < total

/-- What is stored fits beside the saves under way, and what is refused would not fit in the place of the file of its
name. -/
def Roomy : QuarantineEvent → Prop
  | .run i => ∀ task ∈ s.tasks[i]?, ∀ measured ∈ task.pc.measured,
    if s.quota < measured + task.content.length then s.quota < s.sizeWith task.name task.content
    else (s.goto i task .opening).ahead ≤ s.quota
  | .capture _ _ _ _ => True
  | .write _ _ => True

instance : DecidablePred s.Roomy
  | .run _ => inferInstanceAs (Decidable (∀ _ ∈ _, ∀ _ ∈ _, ite _ _ _))
  | .capture _ _ _ _ => inferInstanceAs (Decidable True)
  | .write _ _ => inferInstanceAs (Decidable True)

variable {s}

/-! ### What is ahead -/

theorem need_le_iff {name : Str} {n : ℕ} :
    s.need name ≤ n ↔ ∀ task ∈ s.tasks, task.UnderWay s.canOpen → task.name = name → task.content.length ≤ n := by
  rw [need, Finset.sup_le_iff]
  constructor
  · intro h task hm hway hname
    exact h task (Finset.mem_filter.2 ⟨List.mem_toFinset.2 hm, hway, hname⟩)
  · intro h task hm
    obtain ⟨hm, hway, hname⟩ := Finset.mem_filter.1 hm
    exact h task (List.mem_toFinset.1 hm) hway hname

theorem le_need {task : SaveTask} (hm : task ∈ s.tasks) (hway : task.UnderWay s.canOpen) :
    task.content.length ≤ s.need task.name :=
  need_le_iff.1 le_rfl task hm hway rfl

theorem mem_names {name : Str} : name ∈ s.names ↔ name ∈ s.files.keys ∨ ∃ task ∈ s.tasks, task.name = name := by
  rw [names, List.mem_toFinset, List.mem_append, List.mem_map]

theorem due_eq_zero {name : Str} (h : name ∉ s.names) : s.due name = 0 := by
  rw [mem_names] at h
  push Not at h
  obtain ⟨hfile, htask⟩ := h
  have hlookup : s.files.lookup name = none := AList.lookup_eq_none.2 hfile
  have hneed : s.need name ≤ 0 := need_le_iff.2 fun task hm _ hname => absurd hname (htask task hm)
  have hlength : (s.file name).length = 0 := by
    rw [file, hlookup]
    rfl
  rw [due, hlength]
  omega

theorem ahead_eq_sum {names : Finset Str} (h : s.names ⊆ names) : s.ahead = ∑ name ∈ names, s.due name :=
  Finset.sum_subset h fun _ _ hname => due_eq_zero hname

theorem ahead_le_of_due_le {t : Quarantine} (h : ∀ name, t.due name ≤ s.due name) : t.ahead ≤ s.ahead := by
  have hs : s.names ⊆ s.names ∪ t.names := Finset.subset_union_left
  have ht : t.names ⊆ s.names ∪ t.names := Finset.subset_union_right
  rw [ahead_eq_sum hs, ahead_eq_sum ht]
  exact Finset.sum_le_sum fun name _ => h name

theorem size_le_ahead : s.size ≤ s.ahead := by
  rw [size_eq_sum fun name hm => mem_names.2 (.inl hm)]
  exact Finset.sum_le_sum fun name _ => le_max_left _ _

/-! ### The steps -/

/-- The need of a file does not grow when a task goes on that was under way already if it is now. -/
private theorem need_goto_le {i : ℕ} {task : SaveTask} {pc : SavePc} (hi : s.tasks[i]? = some task)
    (hway : ({ task with pc } : SaveTask).UnderWay s.canOpen → task.UnderWay s.canOpen) (name : Str) :
    (s.goto i task pc).need name ≤ s.need name := by
  refine need_le_iff.2 fun u hu huway hname => ?_
  rcases mem_tasks_goto hu with hmem | rfl
  · exact need_le_iff.1 le_rfl u hmem huway hname
  · exact need_le_iff.1 le_rfl task (List.mem_of_getElem? hi) (hway huway) hname

/-- Tasks that go on without touching a file. -/
private theorem ahead_goto_le {i : ℕ} {task : SaveTask} {pc : SavePc} (hi : s.tasks[i]? = some task)
    (hway : ({ task with pc } : SaveTask).UnderWay s.canOpen → task.UnderWay s.canOpen) :
    (s.goto i task pc).ahead ≤ s.ahead :=
  ahead_le_of_due_le fun name => max_le_max le_rfl (need_goto_le hi hway name)

/-- Tasks that go on and leave in their file no more than was there or is due. -/
private theorem ahead_setFile_le {i : ℕ} {task : SaveTask} {pc : SavePc} {f : SparseArray UInt8}
    (hi : s.tasks[i]? = some task)
    (hway : ({ task with pc } : SaveTask).UnderWay s.canOpen → task.UnderWay s.canOpen)
    (hf : f.length ≤ s.due task.name) : ((s.setFile task.name f).goto i task pc).ahead ≤ s.ahead := by
  refine ahead_le_of_due_le fun name => ?_
  have hneed : ((s.setFile task.name f).goto i task pc).need name ≤ s.need name := need_goto_le (s := s) hi hway name
  refine max_le ?_ (le_max_of_le_right hneed)
  rw [file_goto]
  by_cases hname : name = task.name
  · rw [hname, file_setFile]
    exact hf
  · rw [file_setFile_of_ne hname]
    exact le_max_left _ _

/-- What a thread writes. -/
private theorem length_pwrite_le {task : SaveTask} {written : ℕ} (hmem : task ∈ s.tasks)
    (hpc : task.pc = .writing written) {data : List UInt8} (hdata : data <+: task.content.drop written) :
    (pwrite (s.file task.name) written data).length ≤ s.due task.name := by
  rcases eq_or_ne data [] with rfl | hne
  · rw [pwrite_nil]
    exact le_max_left _ _
  · have hle := hdata.length_le
    have hpos := List.length_pos_iff.2 hne
    rw [List.length_drop] at hle
    have hway : task.UnderWay s.canOpen := by
      rw [SaveTask.UnderWay, hpc]
      show written < task.content.length
      omega
    rw [length_pwrite _ _ hne]
    refine max_le (le_max_left _ _) (le_max_of_le_right ?_)
    have hneed := le_need hmem hway
    omega

theorem ahead_writeTask_le {i : ℕ} {task : SaveTask} (hi : s.tasks[i]? = some task) (n : ℕ) :
    (s.writeTask i task n).ahead ≤ s.ahead := by
  have hmem := List.mem_of_getElem? hi
  unfold writeTask
  split
  · rename_i written hpc
    refine ahead_setFile_le hi (fun hway => ?_) (length_pwrite_le hmem hpc (List.take_prefix _ _))
    rw [SaveTask.UnderWay, hpc]
    exact lt_of_le_of_lt (Nat.le_add_right _ _) hway
  · exact le_rfl

/-- Every step of a task but the decision to store its file. -/
theorem ahead_runTask_le {i : ℕ} {task : SaveTask} (hi : s.tasks[i]? = some task)
    (hfull : ∀ measured ∈ task.pc.measured, s.quota < measured + task.content.length) :
    (s.runTask i task).ahead ≤ s.ahead := by
  have hstep := taskStep_runTask s i task
  generalize s.runTask i task = t at hstep ⊢
  cases hstep with
  | idle => exact le_rfl
  | measure names size => exact ahead_goto_le hi fun hway => hway.elim
  | refuse measured => exact ahead_goto_le hi fun hway => hway.elim
  | accept measured hpc hroom =>
    have hlt := hfull measured (SavePc.mem_measured.2 hpc)
    omega
  | fail => exact ahead_goto_le hi fun hway => hway.elim
  | openFile hpc hopen =>
    refine ahead_setFile_le hi (fun _ => ?_) (Nat.zero_le _)
    rw [SaveTask.UnderWay, hpc]
    exact hopen
  | close written hpc =>
    exact ahead_setFile_le hi (fun hway => hway.elim)
      (length_pwrite_le (List.mem_of_getElem? hi) hpc List.prefix_rfl)

/-- A new task is not under way. -/
private theorem ahead_capture_le (e : SaveTask) (h : ¬ e.UnderWay s.canOpen) :
    ({ s with tasks := s.tasks ++ [e] } : Quarantine).ahead ≤ s.ahead := by
  refine ahead_le_of_due_le fun name => max_le_max le_rfl (need_le_iff.2 fun task hm hway hname => ?_)
  rcases List.mem_append.1 hm with hm | hm
  · exact need_le_iff.1 le_rfl task hm hway hname
  · rw [List.mem_singleton.1 hm] at hway
    exact absurd hway h

private theorem quota_runTask (i : ℕ) (task : SaveTask) : (s.runTask i task).quota = s.quota := by
  rw [quota, (config_runTask s i task).1, quota]

private theorem quota_writeTask (i : ℕ) (task : SaveTask) (n : ℕ) : (s.writeTask i task n).quota = s.quota := by
  rw [quota, (config_writeTask s i task n).1, quota]

/-- A task that is refused after a step was refused before, or is so now for its sum. -/
private theorem refused_runTask {i total : ℕ} {task u : SaveTask} (hu : u ∈ (s.runTask i task).tasks)
    (hpc : u.pc = .refused total) : u ∈ s.tasks ∨ ∃ measured ∈ task.pc.measured,
      s.quota < measured + task.content.length ∧ total = s.sizeWith task.name task.content := by
  have hgoto : ∀ {t : Quarantine} {pc : SavePc}, t.tasks = s.tasks → pc ≠ .refused total →
      u ∈ (t.goto i task pc).tasks → u ∈ s.tasks := by
    intro t pc ht hne hm
    rw [← ht]
    rcases mem_tasks_goto hm with hm | rfl
    · exact hm
    · exact absurd hpc hne
  have hstep := taskStep_runTask s i task
  generalize s.runTask i task = t at hstep hu
  cases hstep with
  | idle => exact .inl hu
  | measure names size => exact .inl (hgoto rfl SavePc.noConfusion hu)
  | refuse measured hmeasured hfull =>
    rcases mem_tasks_goto hu with hm | rfl
    · exact .inl hm
    · injection hpc with htotal
      exact .inr ⟨measured, SavePc.mem_measured.2 hmeasured, hfull, htotal.symm⟩
  | accept => exact .inl (hgoto rfl SavePc.noConfusion hu)
  | fail => exact .inl (hgoto rfl SavePc.noConfusion hu)
  | openFile => exact .inl (hgoto rfl SavePc.noConfusion hu)
  | close written => exact .inl (hgoto rfl SavePc.noConfusion hu)

private theorem refused_writeTask {i n total : ℕ} {task u : SaveTask} (hu : u ∈ (s.writeTask i task n).tasks)
    (hpc : u.pc = .refused total) : u ∈ s.tasks := by
  unfold writeTask at hu
  split at hu
  · rcases mem_tasks_goto hu with hm | rfl
    · exact hm
    · exact SavePc.noConfusion hpc
  · exact hu

/-- What stays within the quota when all saves under way are done. -/
structure Booked (s : Quarantine) : Prop where
  ahead_le : s.ahead ≤ s.quota
  justified : ∀ task ∈ s.tasks, ∀ total, task.pc = .refused total → s.quota < total

theorem Booked.within (h : s.Booked) : s.Within := ⟨size_le_ahead.trans h.ahead_le, h.justified⟩

private theorem booked_capture (h : s.Booked) (task : SaveTask) (hway : ¬ task.UnderWay s.canOpen)
    (hpc : ∀ total, task.pc ≠ .refused total) : ({ s with tasks := s.tasks ++ [task] } : Quarantine).Booked := by
  refine ⟨(ahead_capture_le task hway).trans h.ahead_le, fun u hu total htotal => ?_⟩
  rcases List.mem_append.1 hu with hu | hu
  · exact h.justified u hu total htotal
  · rw [List.mem_singleton.1 hu] at htotal
    exact absurd htotal (hpc total)

private theorem booked_runTask (h : s.Booked) {i : ℕ} {task : SaveTask} (hi : s.tasks[i]? = some task)
    (hroomy : s.Roomy (.run i)) : (s.runTask i task).Booked := by
  have hdecide := hroomy task hi
  refine ⟨?_, fun u hu total htotal => ?_⟩
  · rw [quota_runTask]
    by_cases hfull : ∀ measured ∈ task.pc.measured, s.quota < measured + task.content.length
    · exact (ahead_runTask_le hi hfull).trans h.ahead_le
    · push Not at hfull
      obtain ⟨measured, hmeasured, hroom⟩ := hfull
      have hahead := hdecide measured hmeasured
      rw [if_neg (Nat.not_lt.2 hroom)] at hahead
      rw [runTask, SavePc.mem_measured.1 hmeasured]
      dsimp only
      rw [if_neg (Nat.not_lt.2 hroom)]
      exact hahead
  · rw [quota_runTask]
    rcases refused_runTask hu htotal with hm | ⟨measured, hmeasured, hfull, rfl⟩
    · exact h.justified u hm total htotal
    · have hjust := hdecide measured hmeasured
      rwa [if_pos hfull] at hjust

theorem booked_step (h : s.Booked) (e : QuarantineEvent) (hroomy : s.Roomy e) : (s.step e).Booked := by
  cases e with
  | capture protocol filename content sessionId =>
    cases protocol with
    | ssh => exact booked_capture h _ id fun _ => SavePc.noConfusion
    | telnet => exact booked_capture h _ id fun _ => SavePc.noConfusion
  | run i =>
    rw [step]
    split
    · rename_i task hi
      exact booked_runTask h hi hroomy
    · exact h
  | write i n =>
    rw [step]
    split
    · rename_i task hi
      refine ⟨?_, fun u hu total htotal => ?_⟩
      · rw [quota_writeTask]
        exact (ahead_writeTask_le hi n).trans h.ahead_le
      · rw [quota_writeTask]
        exact h.justified u (refused_writeTask hu htotal) total htotal
    · exact h

/-! ### The condition is exact -/

/-- A step of a thread for a save under way. -/
def OnDisk (s : Quarantine) : QuarantineEvent → Prop
  | .run i => ∃ task ∈ s.tasks[i]?, task.UnderWay s.canOpen
  | .write i _ => ∃ task ∈ s.tasks[i]?, task.UnderWay s.canOpen
  | .capture _ _ _ _ => False

/-- A save under way can be done at once. -/
private theorem exists_stored {i : ℕ} {task : SaveTask} (hi : s.tasks[i]? = some task)
    (hway : task.UnderWay s.canOpen) (hne : task.content ≠ []) :
    ∃ ds f, Meets step OnDisk s ds ∧ task.content.length ≤ f.length ∧ f.length ≤ s.due task.name ∧
      run step s ds = (s.setFile task.name f).goto i task .saved := by
  have hneed := le_need (List.mem_of_getElem? hi) hway
  cases hpc : task.pc with
  | opening =>
    have hopen : s.canOpen task.name = true := by
      rw [SaveTask.UnderWay, hpc] at hway
      exact hway
    have hfirst : s.step (.run i) = (s.setFile task.name (.ofList [])).goto i task (.writing 0) := by
      rw [step, hi]
      dsimp only
      rw [runTask, hpc]
      exact if_pos hopen
    have hi' : (s.step (.run i)).tasks[i]? = some { task with pc := .writing 0 } := by
      have hset : (s.setFile task.name (.ofList [])).tasks[i]? = some task := hi
      rw [hfirst, getElem?_tasks_goto hset, if_pos rfl]
    refine ⟨[.run i, .run i], pwrite (.ofList []) 0 task.content, ⟨⟨task, hi, hway⟩, ⟨_, hi', ?_⟩, trivial⟩, ?_, ?_, ?_⟩
    · exact List.length_pos_iff.2 hne
    · rw [length_pwrite _ _ hne]
      omega
    · rw [length_pwrite _ _ hne, SparseArray.length_ofList, List.length_nil]
      exact le_max_of_le_right (by omega)
    · rw [run_cons, run_cons, run_nil, step, hi']
      dsimp only [runTask]
      rw [hfirst, file_goto, file_setFile]
      simp [setFile, goto, AList.insert_insert, List.set_set]
  | writing written =>
    have hlt : written < task.content.length := by
      rw [SaveTask.UnderWay, hpc] at hway
      exact hway
    have hrest : task.content.drop written ≠ [] := by
      rw [Ne, List.drop_eq_nil_iff]
      omega
    have hlength : (pwrite (s.file task.name) written (task.content.drop written)).length =
        max (s.file task.name).length task.content.length := by
      rw [length_pwrite _ _ hrest, List.length_drop]
      omega
    refine ⟨[.run i], pwrite (s.file task.name) written (task.content.drop written), ⟨⟨task, hi, hway⟩, trivial⟩,
      ?_, ?_, ?_⟩
    · rw [hlength]
      exact le_max_right _ _
    · rw [hlength]
      exact max_le_max le_rfl hneed
    · rw [run_cons, run_nil, step, hi]
      dsimp only
      rw [runTask, hpc]
  | created | measuring | saved | refused | failed | dropped =>
    rw [SaveTask.UnderWay, hpc] at hway
    exact hway.elim

/-- A save that is done counts as much as while it was under way. -/
private theorem ahead_stored {i : ℕ} {task : SaveTask} {f : SparseArray UInt8} (hi : s.tasks[i]? = some task)
    (hlong : task.content.length ≤ f.length) (hcur : (s.file task.name).length ≤ f.length)
    (hdue : f.length ≤ s.due task.name) : ((s.setFile task.name f).goto i task .saved).ahead = s.ahead := by
  refine le_antisymm (ahead_setFile_le hi (fun hway => hway.elim) hdue) (ahead_le_of_due_le fun name => ?_)
  refine max_le ?_ (need_le_iff.2 fun u hu hway hname => ?_)
  · refine le_max_of_le_left ?_
    rw [file_goto]
    by_cases hname : name = task.name
    · rw [hname, file_setFile]
      exact hcur
    · rw [file_setFile_of_ne hname]
  · subst hname
    rcases mem_or_eq_of_mem_tasks hi .saved hu with rfl | hm
    · refine le_max_of_le_left ?_
      rw [file_goto, file_setFile]
      exact hlong
    · exact le_max_of_le_right (le_need hm hway)

private theorem size_lt_setFile {name : Str} {f : SparseArray UInt8} (h : (s.file name).length < f.length) :
    s.size < (s.setFile name f).size := by
  have hkeys : ∀ n ∈ s.files.keys, n ∈ insert name s.files.keys.toFinset := fun n hn =>
    Finset.mem_insert_of_mem (List.mem_toFinset.2 hn)
  have hkeys' : ∀ n ∈ (s.setFile name f).files.keys, n ∈ insert name s.files.keys.toFinset := by
    intro n hn
    rcases (AList.mem_insert _).1 hn with rfl | hn
    · exact Finset.mem_insert_self _ _
    · exact hkeys n hn
  rw [size_eq_sum hkeys, size_eq_sum hkeys']
  refine Finset.sum_lt_sum (fun n _ => ?_) ⟨name, Finset.mem_insert_self _ _, ?_⟩
  · by_cases hn : n = name
    · rw [hn, file_setFile]
      exact h.le
    · rw [file_setFile_of_ne hn]
  · rw [file_setFile]
    exact h

/-- The threads can bring the directory to the size that is ahead. -/
theorem exists_size_eq_ahead (s : Quarantine) : ∃ ds, Meets step OnDisk s ds ∧ (run step s ds).size = s.ahead := by
  -- by induction on what is missing: a save that makes its file longer brings the size nearer
  induction hn : s.ahead - s.size using Nat.strong_induction_on generalizing s with
  | _ n ih =>
    by_cases hall : ∀ name, s.need name ≤ (s.file name).length
    · refine ⟨[], trivial, ?_⟩
      rw [run_nil, size_eq_sum fun name hm => mem_names.2 (.inl hm)]
      exact Finset.sum_congr rfl fun name _ => (max_eq_left (hall name)).symm
    · push Not at hall
      obtain ⟨name, hlt⟩ := hall
      rw [← not_le, need_le_iff] at hlt
      push Not at hlt
      obtain ⟨task, hmem, hway, rfl, hlt⟩ := hlt
      obtain ⟨i, hi⟩ := List.mem_iff_getElem?.1 hmem
      have hne : task.content ≠ [] := List.length_pos_iff.1 (Nat.zero_lt_of_lt hlt)
      obtain ⟨ds, f, hds, hlong, hdue, hrun⟩ := exists_stored hi hway hne
      have hahead := ahead_stored hi hlong (hlt.le.trans hlong) hdue
      have hsize : s.size < ((s.setFile task.name f).goto i task .saved).size :=
        size_lt_setFile (hlt.trans_le hlong)
      have hle := size_le_ahead (s := (s.setFile task.name f).goto i task .saved)
      obtain ⟨ds', hds', hrun'⟩ := ih _ (by omega) ((s.setFile task.name f).goto i task .saved) rfl
      refine ⟨ds ++ ds', (meets_append s ds ds').2 ⟨hds, ?_⟩, ?_⟩
      · rw [hrun]
        exact hds'
      · rw [run_append, hrun, hrun', hahead]

private theorem roomy_of_onDisk {e : QuarantineEvent} (h : s.OnDisk e) : s.Roomy e := by
  cases e with
  | capture => trivial
  | write => trivial
  | run i =>
    intro task hi measured hmeasured
    obtain ⟨u, hu, hway⟩ := h
    obtain rfl : task = u := Option.some.inj (hi.symm.trans hu)
    rw [SaveTask.UnderWay, SavePc.mem_measured.1 hmeasured] at hway
    exact hway.elim

/-- The directory stays within the quota, however the saves under way go on, just when there is room for all of
them. -/
theorem booked_iff : s.Booked ↔ ∀ ds, Meets step OnDisk s ds → (run step s ds).Within := by
  constructor
  · intro h ds hds
    have hroomy := hds.mono fun _ _ => roomy_of_onDisk
    exact (invariant_of_steps (G := Roomy) (fun _ e hs he => booked_step hs e he) h hroomy).within
  · intro h
    obtain ⟨ds, hds, hsize⟩ := exists_size_eq_ahead s
    have hquota : (run step s ds).quota = s.quota := by rw [quota, (config_run s ds).1, quota]
    refine ⟨?_, (h [] trivial).justified⟩
    rw [← hsize, ← hquota]
    exact (h ds hds).size_le

private theorem roomy_of_booked_step {e : QuarantineEvent} (h : (s.step e).Booked) : s.Roomy e := by
  cases e with
  | capture => trivial
  | write => trivial
  | run i =>
    intro task hi measured hmeasured
    have hi' : s.tasks[i]? = some task := hi
    have hstep : s.step (.run i) = if s.quota < measured + task.content.length
        then s.goto i task (.refused (s.sizeWith task.name task.content)) else s.goto i task .opening := by
      rw [step, hi']
      dsimp only
      rw [runTask, SavePc.mem_measured.1 hmeasured]
    rw [hstep] at h
    split
    · rename_i hfull
      rw [if_pos hfull] at h
      refine h.justified { task with pc := _ } (List.mem_of_getElem? (i := i) ?_) _ rfl
      rw [getElem?_tasks_goto hi', if_pos rfl]
    · rename_i hroom
      rw [if_neg hroom] at h
      exact h.ahead_le

/-- With no save under way, what is stored adds at most its own length: one save at a time keeps the quota. -/
theorem ahead_opening_le {i : ℕ} {task : SaveTask} (h : ∀ u ∈ s.tasks, ¬ u.UnderWay s.canOpen) :
    (s.goto i task .opening).ahead ≤ s.size + task.content.length := by
  have hdue : ∀ name, (s.goto i task .opening).due name ≤
      (s.file name).length + if name = task.name then task.content.length else 0 := by
    intro name
    refine max_le (Nat.le_add_right _ _) (le_add_of_le_right (need_le_iff.2 fun u hu hway hname => ?_))
    rcases mem_tasks_goto hu with hm | rfl
    · exact absurd hway (h u hm)
    · rw [if_pos hname.symm]
  have hkeys : ∀ name ∈ s.files.keys, name ∈ (s.goto i task .opening).names := fun name hm => mem_names.2 (.inl hm)
  calc (s.goto i task .opening).ahead
      ≤ ∑ name ∈ (s.goto i task .opening).names,
          ((s.file name).length + if name = task.name then task.content.length else 0) :=
        Finset.sum_le_sum fun name _ => hdue name
    _ = s.size + ∑ name ∈ (s.goto i task .opening).names, if name = task.name then task.content.length else 0 := by
        rw [Finset.sum_add_distrib, size_eq_sum hkeys]
    _ ≤ s.size + task.content.length := by
        rw [Finset.sum_ite_eq']
        split <;> omega

end Quarantine

open Quarantine

theorem within_run_iff (maxMb : ℕ) (canOpen : Str → Bool) (files : Dict (SparseArray UInt8))
    (events : List QuarantineEvent) :
    (∀ es, es <+: events → ∀ ds, Meets step OnDisk (run step (start maxMb canOpen files) es) ds →
      (run step (start maxMb canOpen files) (es ++ ds)).Within) ↔
    (start maxMb canOpen files).size ≤ (start maxMb canOpen files).quota ∧
      Meets step Roomy (start maxMb canOpen files) events := by
  have hstart : (start maxMb canOpen files).Booked ↔
      (start maxMb canOpen files).size ≤ (start maxMb canOpen files).quota := by
    have hahead : (start maxMb canOpen files).ahead = (start maxMb canOpen files).size := by
      rw [size_eq_sum fun name hm => mem_names.2 (.inl hm)]
      refine Finset.sum_congr rfl fun name _ => max_eq_left ?_
      exact need_le_iff.2 fun task hm => absurd hm List.not_mem_nil
    constructor
    · intro h
      rw [← hahead]
      exact h.ahead_le
    · intro h
      refine ⟨?_, fun task hm => absurd hm List.not_mem_nil⟩
      rw [hahead]
      exact h
  rw [← hstart, ← forall_reached_iff (I := Booked) (G := Roomy) (J := fun _ => True) (fun _ _ _ => trivial)
    (fun s e _ hs => ⟨roomy_of_booked_step, booked_step hs e⟩) trivial]
  refine forall_congr' fun es => imp_congr_right fun _ => ?_
  rw [booked_iff]
  simp only [run_append]

/-- Two captures come when there is room for one byte.  Both are measured before a file is opened. -/
theorem not_within_twoCaptures :
    ¬ ∀ events : List QuarantineEvent, (run step (start 1 (fun _ => true)
      (AList.singleton "c_s".toList ⟨1048575, fun _ => 0, fun _ _ => rfl⟩)) events).Within := by
  intro h
  have hrun := (h [.capture .ssh "a".toList [1] "s".toList, .capture .ssh "b".toList [1] "s".toList, .run 0, .run 0,
    .run 0, .run 1, .run 1, .run 1, .run 0, .run 0, .run 1, .run 1]).size_le
  revert hrun
  decide +kernel

end Cyanide
