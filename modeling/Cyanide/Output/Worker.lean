import Mathlib.Algebra.Order.Ring.Unbundled.Rat
import Cyanide.Lib.Conduit
import Cyanide.Lib.Transition

/-!
# The output plugins

`OutputPlugin` with its queue, the thread of `_worker_loop`, any number of threads in `emit`, and `stop`.  The steps
are those at which the threads meet: a read or a write of `running`, a test of the queue, a `put` and a `get`, and the
call of `flush`.  The worker's clock is read where the source reads it and shows any time.
-/

namespace Cyanide

open Transition

/-- What the thread of `_worker_loop` does next. -/
inductive WorkerPc where
  /-- `self.running` in the condition of the loop. -/
  | testRunning
  /-- `self.queue.empty()` in the condition of the loop. -/
  | testEmpty
  | get
  /-- The size and the age of the batch. -/
  | testBatch
  /-- `not self.running` in the condition of the flush. -/
  | testStopping
  /-- `self.queue.empty()` in the condition of the flush. -/
  | testDrained
  | flush
  | ended
  deriving DecidableEq

structure OutputPlugin (α : Type) where
  batchSize : ℕ
  batchTimeout : ℚ
  maxsize : ℕ
  running : Bool
  /-- The calls of `emit` behind their test of `running`. -/
  emitting : List α
  events : Batcher α
  pc : WorkerPc
  lastFlush : ℚ
  now : ℚ

inductive PluginEvent (α : Type) where
  /-- `emit` tests `running`. -/
  | emit (event : α)
  /-- One of the calls behind that test runs `put_nowait`. -/
  | put (i : ℕ)
  | stop
  /-- The worker takes its next step; `time.time()` would give `now`. -/
  | work (now : ℚ)

namespace OutputPlugin

variable {α : Type} (s : OutputPlugin α)

/-- The plugin when `start` has started the thread, at the time `now`. -/
def start (batchSize : ℕ) (batchTimeout now : ℚ) : OutputPlugin α :=
  ⟨batchSize, batchTimeout, 10000, true, [], .empty, .testRunning, now, now⟩

def goto (pc : WorkerPc) : OutputPlugin α := { s with pc }

/-- `put_nowait`, with `queue.Full` swallowed. -/
def put (event : α) : OutputPlugin α :=
  if s.events.queue.length < s.maxsize then { s with events := s.events.accept event } else s

def work (now : ℚ) : OutputPlugin α :=
  match s.pc with
  | .testRunning => s.goto (if s.running then .get else .testEmpty)
  | .testEmpty => s.goto (if s.events.queue = [] then .ended else .get)
  | .get =>
    -- with an empty queue the timeout of `get` has run out
    if s.events.queue = [] then s.goto (if s.events.batch = [] then .testRunning else .testBatch)
    else { s with events := s.events.take, pc := .testBatch }
  | .testBatch =>
    { s with
      now
      pc := if s.batchSize ≤ s.events.batch.length ∨ s.batchTimeout ≤ now - s.lastFlush then .flush
        else .testStopping }
  | .testStopping => s.goto (if s.running then .testRunning else .testDrained)
  | .testDrained => s.goto (if s.events.queue = [] then .flush else .testRunning)
  | .flush => { s with events := s.events.flush, lastFlush := s.now, pc := .testRunning }
  | .ended => s

def step : PluginEvent α → OutputPlugin α
  | .emit event => if s.running then { s with emitting := s.emitting ++ [event] } else s
  | .put i =>
    match s.emitting[i]? with
    | some event => { s with emitting := s.emitting.eraseIdx i }.put event
    | none => s
  | .stop => { s with running := false }
  | .work now => s.work now

/-- Accepted events are passed to `flush` once, in order, in batches of at most `batch_size`, and all of them when the
worker has ended. -/
structure Flushed (s : OutputPlugin α) : Prop where
  inOrder : s.events.flushed.flatten <+: s.events.accepted
  small : ∀ batch ∈ s.events.flushed, batch.length ≤ s.batchSize
  all : s.pc = .ended → s.events.flushed.flatten = s.events.accepted

/-- The worker does not leave its loop with a batch that fills, nothing is accepted after it has left, and batches may
have an event. -/
def Calm (s : OutputPlugin α) : PluginEvent α → Prop
  | .work _ => (s.pc = .testEmpty → s.events.queue = [] → s.events.batch = []) ∧ (s.pc = .flush → 0 < s.batchSize)
  | .put i => s.pc = .ended → i < s.emitting.length → s.maxsize ≤ s.events.queue.length
  | .emit _ => True
  | .stop => True

/-- How full the batch is at each step of the worker. -/
def Fits (batchSize : ℕ) (batch : List α) : WorkerPc → Prop
  | .testRunning => batch.length < max 1 batchSize
  | .testEmpty => batch.length < max 1 batchSize
  | .get => batch.length < max 1 batchSize
  | .testBatch => batch ≠ [] ∧ batch.length ≤ max 1 batchSize
  | .testStopping => batch ≠ [] ∧ batch.length < batchSize
  | .testDrained => batch ≠ [] ∧ batch.length < batchSize
  | .flush => batch ≠ [] ∧ batch.length ≤ max 1 batchSize
  | .ended => True

def Filling (s : OutputPlugin α) : Prop := Fits s.batchSize s.events.batch s.pc

variable {s}

theorem filling_start (batchSize : ℕ) (batchTimeout now : ℚ) :
    (start batchSize batchTimeout now : OutputPlugin α).Filling := by
  show 0 < max 1 batchSize
  omega

private theorem filling_work (h : s.Filling) (now : ℚ) : (s.work now).Filling := by
  have hmax := le_max_right 1 s.batchSize
  unfold Filling at h
  unfold work
  cases hpc : s.pc with
  | testRunning =>
    rw [hpc] at h
    show Fits s.batchSize s.events.batch (if s.running then .get else .testEmpty)
    split <;> exact h
  | testEmpty =>
    rw [hpc] at h
    show Fits s.batchSize s.events.batch (if s.events.queue = [] then .ended else .get)
    split
    · trivial
    · exact h
  | get =>
    rw [hpc] at h
    dsimp only
    split
    · show Fits s.batchSize s.events.batch (if s.events.batch = [] then .testRunning else .testBatch)
      split
      · exact h
      · rename_i hbatch
        exact ⟨hbatch, Nat.le_of_lt h⟩
    · rename_i hqueue
      show s.events.batch ++ s.events.queue.take 1 ≠ [] ∧
        (s.events.batch ++ s.events.queue.take 1).length ≤ max 1 s.batchSize
      refine ⟨by simp [hqueue], ?_⟩
      have hlt : s.events.batch.length < max 1 s.batchSize := h
      rw [List.length_append, List.length_take]
      omega
  | testBatch =>
    rw [hpc] at h
    show Fits s.batchSize s.events.batch
      (if s.batchSize ≤ s.events.batch.length ∨ s.batchTimeout ≤ now - s.lastFlush then .flush else .testStopping)
    split
    · exact h
    · rename_i hsmall
      push Not at hsmall
      exact ⟨h.1, hsmall.1⟩
  | testStopping =>
    rw [hpc] at h
    show Fits s.batchSize s.events.batch (if s.running then .testRunning else .testDrained)
    split
    · exact Nat.lt_of_lt_of_le h.2 hmax
    · exact h
  | testDrained =>
    rw [hpc] at h
    show Fits s.batchSize s.events.batch (if s.events.queue = [] then .flush else .testRunning)
    split
    · exact ⟨h.1, Nat.le_trans (Nat.le_of_lt h.2) hmax⟩
    · exact Nat.lt_of_lt_of_le h.2 hmax
  | flush =>
    show 0 < max 1 s.batchSize
    omega
  | ended =>
    show Fits s.batchSize s.events.batch s.pc
    rw [hpc]
    trivial

/-- `put_nowait` leaves the worker and its batch alone. -/
private theorem put_same (s : OutputPlugin α) (event : α) :
    (s.put event).pc = s.pc ∧ (s.put event).events.batch = s.events.batch ∧ (s.put event).batchSize = s.batchSize ∧
      (s.put event).events.flushed = s.events.flushed := by
  unfold put
  split
  · exact ⟨rfl, rfl, rfl, rfl⟩
  · exact ⟨rfl, rfl, rfl, rfl⟩

private theorem filling_step (h : s.Filling) (e : PluginEvent α) : (s.step e).Filling := by
  cases e with
  | emit event =>
    rw [step]
    split <;> exact h
  | put i =>
    rw [step]
    split
    · rename_i event _
      obtain ⟨hpc, hbatch, hsize, -⟩ := put_same { s with emitting := s.emitting.eraseIdx i } event
      unfold Filling
      rw [hpc, hbatch, hsize]
      exact h
    · exact h
  | stop => exact h
  | work now => exact filling_work h now

/-! ### The condition -/

/-- The order is that of the batcher, so only the end and the sizes matter. -/
private theorem flushed_iff : s.Flushed ↔ (∀ batch ∈ s.events.flushed, batch.length ≤ s.batchSize) ∧
    (s.pc = .ended → s.events.batch = [] ∧ s.events.queue = []) := by
  constructor
  · intro h
    exact ⟨h.small, fun hpc => (Batcher.flatten_eq_accepted_iff _).1 (h.all hpc)⟩
  · rintro ⟨hsmall, hall⟩
    exact ⟨Batcher.flatten_prefix _, hsmall, fun hpc => (Batcher.flatten_eq_accepted_iff _).2 (hall hpc)⟩

private theorem flushed_put_iff (h : s.Flushed) (i : ℕ) : (s.step (.put i)).Flushed ↔ s.Calm (.put i) := by
  rw [flushed_iff] at h ⊢
  rw [step]
  split
  · rename_i event hi
    have hlt : i < s.emitting.length := (List.getElem?_eq_some_iff.1 hi).1
    obtain ⟨hpc, hbatch, hsize, hflushed⟩ := put_same { s with emitting := s.emitting.eraseIdx i } event
    rw [hpc, hbatch, hsize, hflushed]
    show _ ∧ (s.pc = .ended → s.events.batch = [] ∧ _) ↔ (s.pc = .ended → i < s.emitting.length → _)
    rw [and_iff_right h.1]
    refine imp_congr_right fun hended => ?_
    have hnil := h.2 hended
    rw [and_iff_right hnil.1, OutputPlugin.put]
    split
    · rename_i hroom
      refine iff_of_false ?_ fun hfull => ?_
      · simp
      · exact absurd (hfull hlt) (Nat.not_le.2 hroom)
    · rename_i hfull
      exact iff_of_true hnil.2 fun _ => Nat.not_lt.1 hfull
  · rename_i hi
    refine iff_of_true h fun _ hlt => ?_
    rw [List.getElem?_eq_none_iff] at hi
    omega

/-- A step that flushes nothing and does not end the worker. -/
private theorem flushed_of_same {t : OutputPlugin α} (h : s.Flushed) (hflushed : t.events.flushed = s.events.flushed)
    (hsize : t.batchSize = s.batchSize) (hpc : t.pc ≠ .ended) : t.Flushed := by
  rw [flushed_iff] at h ⊢
  rw [hflushed, hsize]
  exact ⟨h.1, fun hended => absurd hended hpc⟩

/-- Where the worker neither flushes nor may end. -/
private theorem flushed_work_quiet (h : s.Flushed) (now : ℚ) (hempty : s.pc ≠ .testEmpty) (hflush : s.pc ≠ .flush)
    (hended : s.pc ≠ .ended) : (s.work now).Flushed := by
  unfold work
  cases hpc : s.pc with
  | testRunning =>
    refine flushed_of_same h rfl rfl ?_
    show (if s.running then WorkerPc.get else .testEmpty) ≠ .ended
    split <;> decide
  | get =>
    dsimp only
    split
    · refine flushed_of_same h rfl rfl ?_
      show (if s.events.batch = [] then WorkerPc.testRunning else .testBatch) ≠ .ended
      split <;> decide
    · exact flushed_of_same h rfl rfl WorkerPc.noConfusion
  | testBatch =>
    refine flushed_of_same h rfl rfl ?_
    dsimp only
    split <;> decide
  | testStopping =>
    refine flushed_of_same h rfl rfl ?_
    show (if s.running then WorkerPc.testRunning else .testDrained) ≠ .ended
    split <;> decide
  | testDrained =>
    refine flushed_of_same h rfl rfl ?_
    show (if s.events.queue = [] then WorkerPc.flush else .testRunning) ≠ .ended
    split <;> decide
  | testEmpty => exact absurd hpc hempty
  | flush => exact absurd hpc hflush
  | ended => exact absurd hpc hended

private theorem flushed_testEmpty_iff (h : s.Flushed) (hpc : s.pc = .testEmpty) (now : ℚ) :
    (s.work now).Flushed ↔ s.Calm (.work now) := by
  have hcond : s.Calm (.work now) ↔ (s.events.queue = [] → s.events.batch = []) := by
    show (_ → _) ∧ (_ → _) ↔ _
    rw [hpc]
    simp
  rw [hcond, work, hpc]
  dsimp only
  by_cases hqueue : s.events.queue = []
  · rw [if_pos hqueue, flushed_iff]
    constructor
    · rintro ⟨-, hall⟩ -
      exact (hall rfl).1
    · intro hbatch
      exact ⟨h.small, fun _ => ⟨hbatch hqueue, hqueue⟩⟩
  · rw [if_neg hqueue]
    exact iff_of_true (flushed_of_same h rfl rfl WorkerPc.noConfusion) fun hq => absurd hq hqueue

private theorem flushed_flush_iff (hfill : s.Filling) (h : s.Flushed) (hpc : s.pc = .flush) (now : ℚ) :
    (s.work now).Flushed ↔ s.Calm (.work now) := by
  have hcond : s.Calm (.work now) ↔ 0 < s.batchSize := by
    show (_ → _) ∧ (_ → _) ↔ _
    rw [hpc]
    simp
  have hbatch : s.events.batch ≠ [] ∧ s.events.batch.length ≤ max 1 s.batchSize := by
    rw [Filling, hpc] at hfill
    exact hfill
  have hpos := List.length_pos_iff.2 hbatch.1
  rw [hcond, flushed_iff, work, hpc]
  constructor
  · rintro ⟨hsmall, -⟩
    have hle : s.events.batch.length ≤ s.batchSize := hsmall s.events.batch (by simp)
    omega
  · intro hsize
    refine ⟨fun batch hm => ?_, fun hended => WorkerPc.noConfusion hended⟩
    rcases List.mem_append.1 hm with hm | hm
    · exact h.small batch hm
    · rw [List.mem_singleton.1 hm]
      show s.events.batch.length ≤ s.batchSize
      omega

private theorem flushed_work_iff (hfill : s.Filling) (h : s.Flushed) (now : ℚ) :
    (s.work now).Flushed ↔ s.Calm (.work now) := by
  by_cases hempty : s.pc = .testEmpty
  · exact flushed_testEmpty_iff h hempty now
  by_cases hflush : s.pc = .flush
  · exact flushed_flush_iff hfill h hflush now
  have hcalm : s.Calm (.work now) := ⟨fun hpc => absurd hpc hempty, fun hpc => absurd hpc hflush⟩
  refine iff_of_true ?_ hcalm
  by_cases hended : s.pc = .ended
  · rw [work, hended]
    exact h
  · exact flushed_work_quiet h now hempty hflush hended

private theorem flushed_step_iff (hfill : s.Filling) (h : s.Flushed) (e : PluginEvent α) :
    (s.step e).Flushed ↔ s.Calm e := by
  cases e with
  | emit event =>
    refine iff_of_true ?_ trivial
    rw [step]
    split
    · exact ⟨h.inOrder, h.small, h.all⟩
    · exact h
  | put i => exact flushed_put_iff h i
  | stop => exact iff_of_true ⟨h.inOrder, h.small, h.all⟩ trivial
  | work now => exact flushed_work_iff hfill h now

theorem flushed_start (batchSize : ℕ) (batchTimeout now : ℚ) :
    (start batchSize batchTimeout now : OutputPlugin α).Flushed :=
  flushed_iff.2 ⟨fun _ hm => absurd hm (List.not_mem_nil), fun hended => WorkerPc.noConfusion hended⟩

end OutputPlugin

open OutputPlugin

theorem flushed_run_iff {α : Type} (batchSize : ℕ) (batchTimeout now : ℚ) (events : List (PluginEvent α)) :
    (∀ es, es <+: events → Flushed (run step (start batchSize batchTimeout now) es)) ↔
      Meets step Calm (start batchSize batchTimeout now) events := by
  refine (forall_reached_iff (I := Flushed) (G := Calm) (J := Filling) (fun _ e hs => filling_step hs e)
    (fun _ e hs h => flushed_step_iff hs h e) (filling_start batchSize batchTimeout now)).trans ?_
  exact and_iff_right (flushed_start batchSize batchTimeout now)

/-- `stop` comes when the worker has an event in its batch, has found that there is no reason to flush it, and tests
the condition of its loop next. -/
theorem not_flushed_partialBatch :
    ¬ ∀ events : List (PluginEvent ℕ), Flushed (run step (start 2 2 0) events) := by
  intro h
  have hrun := (h [.emit 7, .put 0, .work 0, .work 0, .work 0, .work 0, .stop, .work 0, .work 0]).all
  revert hrun
  decide +kernel

end Cyanide
