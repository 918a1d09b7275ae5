import Mathlib.Data.UInt
import Cyanide.Lib.SparseArray
import Cyanide.Lib.Tally
import Cyanide.Services.Connections
import Cyanide.Shell.Downloads

/-!
# The quarantine

`save_file` of `QuarantineService`, for any number of captures at the same time.  A task runs in the event loop until
it waits for a file operation.  `aiofiles` has these done by threads, so a file is opened and written at any time
between the steps of other tasks, also while one of them adds up the sizes.
-/

namespace Cyanide

open PosixPath Transition

/-- How far a call of `save_file` is. -/
inductive SavePc where
  | created
  /-- The files to add up yet, and the sum so far. -/
  | measuring (files : List Str) (size : ℕ)
  | opening
  | writing (written : ℕ)
  | saved
  /-- The quota was reached.  With the file stored, there would have been `total` bytes. -/
  | refused (total : ℕ)
  /-- The file could not be opened. -/
  | failed
  /-- The coroutine is never awaited. -/
  | dropped
  deriving DecidableEq

namespace SavePc

def isMeasuring : SavePc → Bool
  | measuring _ _ => true
  | _ => false

/-- The size of the directory, when all files are added up. -/
def measured : SavePc → Option ℕ
  | measuring [] size => some size
  | _ => none

theorem mem_measured {pc : SavePc} {size : ℕ} : size ∈ pc.measured ↔ pc = measuring [] size := by
  cases pc with
  | measuring names n =>
    cases names with
    | nil => simp [measured]
    | cons name names => simp [measured]
  | created | opening | writing | saved | refused | failed | dropped => simp [measured]

end SavePc

structure SaveTask where
  /-- `safe_name`. -/
  name : Str
  content : List UInt8
  pc : SavePc
  deriving DecidableEq

structure Quarantine where
  maxMb : ℕ
  /-- The names of files that the operating system opens for writing. -/
  canOpen : Str → Bool
  /-- The files of the directory. -/
  files : Dict (SparseArray UInt8)
  /-- The calls of `save_file`. -/
  tasks : List SaveTask

inductive QuarantineEvent where
  /-- A session hands over a sample. -/
  | capture (protocol : Protocol) (filename : Str) (content : List UInt8) (sessionId : Str)
  /-- A task, or the thread that works for it, takes its next step. -/
  | run (i : ℕ)
  /-- A thread writes at most `n` bytes. -/
  | write (i n : ℕ)

/-- Writing nothing does not make a file longer. -/
def pwrite (file : SparseArray UInt8) (offset : ℕ) (data : List UInt8) : SparseArray UInt8 :=
  if data = [] then file else file.write offset data

/-- `safe_name`.  A session id has no slash. -/
def safeName (filename sessionId : Str) : Str := pureName filename ++ '_' :: sessionId

namespace Quarantine

variable (s : Quarantine)

/-- The service when it starts, with what earlier runs left in the directory. -/
def start (maxMb : ℕ) (canOpen : Str → Bool) (files : Dict (SparseArray UInt8)) : Quarantine :=
  ⟨maxMb, canOpen, files, []⟩

def quota : ℕ := s.maxMb * 1024 * 1024

def file (name : Str) : SparseArray UInt8 := (s.files.lookup name).getD (.ofList [])

def size : ℕ := tally SparseArray.length s.files

/-- The size of the directory with a file stored. -/
def sizeWith (name : Str) (content : List UInt8) : ℕ :=
  tally SparseArray.length (s.files.insert name (.ofList content))

def goto (i : ℕ) (task : SaveTask) (pc : SavePc) : Quarantine := { s with tasks := s.tasks.set i { task with pc } }

def setFile (name : Str) (file : SparseArray UInt8) : Quarantine := { s with files := s.files.insert name file }

/-- `save_quarantine_file`, which makes a task of the call. -/
def saveQuarantineFile (filename : Str) (content : List UInt8) (sessionId : Str) : Quarantine :=
  { s with tasks := s.tasks ++ [⟨safeName filename sessionId, content, .created⟩] }

/-- The `quarantine_callback` of Telnet: the coroutine goes back to the command, which does nothing with it. -/
def telnetCallback (filename : Str) (content : List UInt8) (sessionId : Str) : Quarantine :=
  { s with tasks := s.tasks ++ [⟨safeName filename sessionId, content, .dropped⟩] }

def runTask (i : ℕ) (task : SaveTask) : Quarantine :=
  match task.pc with
  -- there is no `await` before the files are added up, so another task has to be ready with that
  | .created => if s.tasks.any (·.pc.isMeasuring) then s else s.goto i task (.measuring s.files.keys 0)
  | .measuring (name :: names) size => s.goto i task (.measuring names (size + (s.file name).length))
  | .measuring [] size =>
    if s.quota < size + task.content.length then s.goto i task (.refused (s.sizeWith task.name task.content))
    else s.goto i task .opening
  -- mode `wb`: what was there is gone
  | .opening =>
    if s.canOpen task.name then (s.setFile task.name (.ofList [])).goto i task (.writing 0) else s.goto i task .failed
  | .writing written =>
    (s.setFile task.name (pwrite (s.file task.name) written (task.content.drop written))).goto i task .saved
  | .saved | .refused _ | .failed | .dropped => s

def writeTask (i : ℕ) (task : SaveTask) (n : ℕ) : Quarantine :=
  match task.pc with
  | .writing written =>
    let data := (task.content.drop written).take n
    (s.setFile task.name (pwrite (s.file task.name) written data)).goto i task (.writing (written + data.length))
  | _ => s

def step : QuarantineEvent → Quarantine
  | .capture .ssh filename content sessionId => s.saveQuarantineFile filename content sessionId
  | .capture .telnet filename content sessionId => s.telnetCallback filename content sessionId
  | .run i =>
    match s.tasks[i]? with
    | some task => s.runTask i task
    | none => s
  | .write i n =>
    match s.tasks[i]? with
    | some task => s.writeTask i task n
    | none => s

variable {s}

@[simp] theorem file_goto (i : ℕ) (task : SaveTask) (pc : SavePc) : (s.goto i task pc).file = s.file := rfl

@[simp] theorem file_setFile (name : Str) (f : SparseArray UInt8) : (s.setFile name f).file name = f := by
  rw [file, setFile, AList.lookup_insert, Option.getD_some]

theorem file_setFile_of_ne {name name' : Str} (h : name' ≠ name) (f : SparseArray UInt8) :
    (s.setFile name f).file name' = s.file name' := by
  rw [file, setFile, AList.lookup_insert_ne h, file]

theorem getElem?_tasks_goto {i : ℕ} {task : SaveTask} (hi : s.tasks[i]? = some task) (pc : SavePc) (j : ℕ) :
    (s.goto i task pc).tasks[j]? = if i = j then some { task with pc } else s.tasks[j]? := by
  have hlt : i < s.tasks.length := (List.getElem?_eq_some_iff.1 hi).1
  rw [goto, List.getElem?_set, if_pos hlt]

/-- The task at `i` has a new counter, and the others are as they were. -/
theorem mem_tasks_goto {i : ℕ} {task u : SaveTask} {pc : SavePc} (h : u ∈ (s.goto i task pc).tasks) :
    u ∈ s.tasks ∨ u = { task with pc } :=
  List.mem_or_eq_of_mem_set h

theorem mem_tasks_goto_self {i : ℕ} {task : SaveTask} (hi : s.tasks[i]? = some task) (pc : SavePc) :
    { task with pc } ∈ (s.goto i task pc).tasks :=
  List.mem_set (List.getElem?_eq_some_iff.1 hi).1 _

/-- The other tasks stay. -/
theorem mem_or_eq_of_mem_tasks {i : ℕ} {task u : SaveTask} (hi : s.tasks[i]? = some task) (pc : SavePc)
    (hu : u ∈ s.tasks) : u = task ∨ u ∈ (s.goto i task pc).tasks := by
  obtain ⟨j, hj⟩ := List.mem_iff_getElem?.1 hu
  by_cases hij : i = j
  · subst hij
    exact .inl (Option.some.inj (hj.symm.trans hi))
  · refine .inr (List.mem_iff_getElem?.2 ⟨j, ?_⟩)
    rw [getElem?_tasks_goto hi, if_neg hij, hj]

/-! ### The steps of a task -/

/-- What `runTask` can do. -/
inductive TaskStep (s : Quarantine) (i : ℕ) (task : SaveTask) : Quarantine → Prop
  | idle : TaskStep s i task s
  | measure (names : List Str) (size : ℕ) (h : task.pc = .created ∨ ∃ names size, task.pc = .measuring names size) :
    TaskStep s i task (s.goto i task (.measuring names size))
  | refuse (measured : ℕ) (h : task.pc = .measuring [] measured) (hfull : s.quota < measured + task.content.length) :
    TaskStep s i task (s.goto i task (.refused (s.sizeWith task.name task.content)))
  | accept (measured : ℕ) (h : task.pc = .measuring [] measured) (hroom : measured + task.content.length ≤ s.quota) :
    TaskStep s i task (s.goto i task .opening)
  | fail (h : task.pc = .opening) (hopen : s.canOpen task.name = false) : TaskStep s i task (s.goto i task .failed)
  | openFile (h : task.pc = .opening) (hopen : s.canOpen task.name = true) :
    TaskStep s i task ((s.setFile task.name (.ofList [])).goto i task (.writing 0))
  | close (written : ℕ) (h : task.pc = .writing written) :
    TaskStep s i task
      ((s.setFile task.name (pwrite (s.file task.name) written (task.content.drop written))).goto i task .saved)

theorem taskStep_runTask (s : Quarantine) (i : ℕ) (task : SaveTask) : TaskStep s i task (s.runTask i task) := by
  unfold runTask
  cases hpc : task.pc with
  | created =>
    dsimp only
    split
    · exact .idle
    · exact .measure _ _ (.inl hpc)
  | measuring names size =>
    cases names with
    | cons name names => exact .measure _ _ (.inr ⟨_, _, hpc⟩)
    | nil =>
      dsimp only
      split
      · rename_i hfull
        exact .refuse size hpc hfull
      · rename_i hroom
        exact .accept size hpc (Nat.not_lt.1 hroom)
  | opening =>
    dsimp only
    split
    · rename_i hopen
      exact .openFile hpc hopen
    · rename_i hopen
      exact .fail hpc (Bool.not_eq_true _ ▸ hopen)
  | writing written => exact .close written hpc
  | saved | refused | failed | dropped => exact .idle

/-! ### The configuration stays -/

theorem config_runTask (s : Quarantine) (i : ℕ) (task : SaveTask) :
    (s.runTask i task).maxMb = s.maxMb ∧ (s.runTask i task).canOpen = s.canOpen := by
  have hstep := taskStep_runTask s i task
  generalize s.runTask i task = t at hstep ⊢
  cases hstep <;> exact ⟨rfl, rfl⟩

theorem config_writeTask (s : Quarantine) (i : ℕ) (task : SaveTask) (n : ℕ) :
    (s.writeTask i task n).maxMb = s.maxMb ∧ (s.writeTask i task n).canOpen = s.canOpen := by
  unfold writeTask
  split <;> exact ⟨rfl, rfl⟩

theorem config_step (s : Quarantine) (e : QuarantineEvent) :
    (s.step e).maxMb = s.maxMb ∧ (s.step e).canOpen = s.canOpen := by
  cases e with
  | capture protocol => cases protocol <;> exact ⟨rfl, rfl⟩
  | run i =>
    rw [step]
    split
    · exact config_runTask _ _ _
    · exact ⟨rfl, rfl⟩
  | write i n =>
    rw [step]
    split
    · exact config_writeTask _ _ _ _
    · exact ⟨rfl, rfl⟩

theorem config_run (s : Quarantine) (es : List QuarantineEvent) :
    (run step s es).maxMb = s.maxMb ∧ (run step s es).canOpen = s.canOpen := by
  induction es generalizing s with
  | nil => exact ⟨rfl, rfl⟩
  | cons e es ih => exact ⟨(ih (s.step e)).1.trans (config_step s e).1, (ih (s.step e)).2.trans (config_step s e).2⟩

/-! ### Sizes -/

theorem size_eq_sum {names : Finset Str} (h : ∀ name ∈ s.files.keys, name ∈ names) :
    s.size = ∑ name ∈ names, (s.file name).length := by
  rw [size, tally_eq_sum _ _ h]
  refine Finset.sum_congr rfl fun name _ => ?_
  rw [file]
  cases s.files.lookup name <;> rfl

end Quarantine

theorem length_pwrite (f : SparseArray UInt8) (offset : ℕ) {data : List UInt8} (h : data ≠ []) :
    (pwrite f offset data).length = max f.length (offset + data.length) := by
  rw [pwrite, if_neg h, SparseArray.write]

@[simp] theorem pwrite_nil (f : SparseArray UInt8) (offset : ℕ) : pwrite f offset [] = f := if_pos rfl

end Cyanide
