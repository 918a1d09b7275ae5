import Cyanide.Lib.Conduit
import Cyanide.Lib.Transition
import Cyanide.Vfs.Nodes

/-!
# The asynchronous logger

`AsyncLogger` with its worker task, any number of calls of `stop`, and the shutdown of the server, which calls `stop`
for each of its servers and once more at its end.  Each task goes from one `await` to the next.  `asyncio.wait_for`
awaits what it is given in the task of its caller, as from Python 3.12 on, so that it does not give up control when
there is nothing to wait for.
-/

namespace Cyanide

open PosixPath Transition

structure LogRecord where
  filepath : Str
  content : List UInt8
  mode : Str
  deriving DecidableEq

/-- Where the task `_worker` is. -/
inductive LoggerPc where
  /-- Not run yet. -/
  | created
  /-- In `wait_for(self.queue.get(), timeout=1.0)`. -/
  | getting
  /-- There, and the timeout has run out. -/
  | timedOut
  | writing
  | finished
  | cancelled
  deriving DecidableEq

/-- Where a call of `stop` is. -/
inductive StopPc where
  /-- In `queue.join()`, and whether nothing was unfinished meanwhile. -/
  | joining (joined : Bool)
  /-- In `await self._worker_task`, behind its `cancel`. -/
  | awaiting
  | returned
  /-- `CancelledError` came out of the `await`. -/
  | raised
  deriving DecidableEq

/-- Where `CyanideServer.stop` is. -/
inductive ShutdownPc where
  | serving
  /-- Between two calls of `async_logger.stop`; so many are left. -/
  | closing (left : ℕ)
  /-- In the call with the number `call`. -/
  | stopping (left call : ℕ)
  | aborted
  | completed
  deriving DecidableEq

structure AsyncLogger where
  stopEvent : Bool
  worker : LoggerPc
  /-- Whether `cancel` was called since the worker was run. -/
  cancelling : Bool
  /-- The queue, the record that is being written, and what was written. -/
  records : Batcher LogRecord
  stops : List StopPc
  /-- How many records were queued when `stop` was called first. -/
  due : ℕ
  shutdown : ShutdownPc

inductive LoggerEvent where
  | log (record : LogRecord)
  /-- The worker is run up to its next `await`. -/
  | work
  /-- The timeout of the worker's `wait_for` runs out. -/
  | timeout
  | stop
  /-- A call of `stop` is run again. -/
  | resume (i : ℕ)
  /-- The timeout of a call's `wait_for` runs out. -/
  | expire (i : ℕ)
  /-- `CyanideServer.stop` begins; so many of its servers are there. -/
  | shutdown (servers : ℕ)
  /-- `CyanideServer.stop` is run again. -/
  | proceed

namespace AsyncLogger

variable (s : AsyncLogger)

/-- The logger behind its `start`. -/
def start : AsyncLogger := ⟨false, .created, false, .empty, [], 0, .serving⟩

/-- `_unfinished_tasks` of the queue. -/
def unfinished : ℕ := s.records.queue.length + if s.worker = .writing then 1 else 0

/-- `task_done` wakes those that join when nothing is unfinished. -/
def taskDone : AsyncLogger :=
  if s.records.queue = [] then
    { s with stops := s.stops.map fun p => if p = .joining false then .joining true else p }
  else s

/-- From the condition of the loop to the next `await`, or to the end. -/
def loop : AsyncLogger :=
  if s.records.queue = [] then { s with worker := if s.stopEvent then .finished else .getting }
  else { s with records := s.records.take, worker := .writing }

def work : AsyncLogger :=
  match s.worker with
  | .created => if s.cancelling then { s with worker := .cancelled } else s.loop
  | .getting =>
    if s.cancelling then { s with worker := .cancelled }
    else if s.records.queue = [] then s
    else { s with records := s.records.take, worker := .writing }
  | .timedOut =>
    if s.cancelling then { s with worker := .cancelled }
    else if s.stopEvent then { s with worker := .finished }
    else s.loop
  | .writing =>
    if s.cancelling then { s with worker := .cancelled }.taskDone
    else { s with records := s.records.flush }.taskDone.loop
  | .finished => s
  | .cancelled => s

/-- A call of `stop` behind the `join`. -/
def afterJoin (i : ℕ) : AsyncLogger :=
  if s.worker = .finished ∨ s.worker = .cancelled then { s with stops := s.stops.set i .returned }
  else { s with cancelling := true, stops := s.stops.set i .awaiting }

def stop : AsyncLogger :=
  let called := { s with
    stopEvent := true
    due := if s.stopEvent then s.due else s.records.accepted.length
    stops := s.stops ++ [.joining (s.unfinished = 0)] }
  if s.unfinished = 0 then called.afterJoin s.stops.length else called

def resume (i : ℕ) : AsyncLogger :=
  match s.stops[i]? with
  | some (.joining true) => s.afterJoin i
  | some .awaiting =>
    match s.worker with
    | .finished => { s with stops := s.stops.set i .returned }
    | .cancelled => { s with stops := s.stops.set i .raised }
    | _ => s
  | _ => s

/-- `asyncio.TimeoutError` is passed over. -/
def expire (i : ℕ) : AsyncLogger :=
  match s.stops[i]? with
  | some (.joining _) => s.afterJoin i
  | _ => s

/-- `CyanideServer.stop` calls `stop` next, waits for it, or is over. -/
def proceed : AsyncLogger :=
  match s.shutdown with
  | .closing 0 => { s with shutdown := .completed }
  | .closing (left + 1) => { s.stop with shutdown := .stopping left s.stops.length }
  | .stopping left call =>
    match s.stops[call]? with
    | some .returned => { s with shutdown := .closing left }
    | some .raised => { s with shutdown := .aborted }
    | _ => s
  | _ => s

def step : LoggerEvent → AsyncLogger
  | .log record => { s with records := s.records.accept record }
  | .work => s.work
  | .timeout => if s.worker = .getting then { s with worker := .timedOut } else s
  | .stop => s.stop
  | .resume i => s.resume i
  | .expire i => s.expire i
  | .shutdown servers => if s.shutdown = .serving then { s with shutdown := .closing (servers + 1) } else s
  | .proceed => s.proceed

/-- The records that were queued for a file, and those that were written to it. -/
def queuedTo (filepath : Str) (records : List LogRecord) : List LogRecord :=
  records.filter (·.filepath = filepath)

/-- Every file has what was queued for it, once and in order; when the worker is done, all that was queued in front of
the first `stop`; each `stop` returns, with the worker finished; and the shutdown is not broken off. -/
structure Orderly (s : AsyncLogger) : Prop where
  inOrder : ∀ f, queuedTo f s.records.flushed.flatten <+: queuedTo f s.records.accepted
  written : s.worker = .finished ∨ s.worker = .cancelled →
    ∀ f, queuedTo f (s.records.accepted.take s.due) <+: queuedTo f s.records.flushed.flatten
  returned : .returned ∈ s.stops → s.worker = .finished
  normal : .raised ∉ s.stops
  shutdown : s.shutdown ≠ .aborted

/-- The backlog drains within the timeout: a join does not time out on a worker that is still there. -/
def Drains (s : AsyncLogger) : LoggerEvent → Prop
  | .expire _ => s.worker = .finished ∨ s.worker = .cancelled
  | _ => True

/-- Whether `CyanideServer.stop` calls `stop` next. -/
def stopsNext : Bool :=
  match s.shutdown with
  | .closing (_ + 1) => true
  | _ => false

/-- A call of `stop` finds the worker finished or with work to do. -/
def Busy (s : AsyncLogger) : Prop := s.worker = .finished ∨ s.unfinished ≠ 0

/-- No call of `stop` comes upon an idle worker, and the worker does not see its `get` time out between a `stop` and
what is queued. -/
def Calm (s : AsyncLogger) : LoggerEvent → Prop
  | .stop => s.Busy
  | .proceed => s.stopsNext = true → s.Busy
  | .work => s.worker = .timedOut → s.stopEvent = true → s.records.queue = []
  | _ => True

instance : Decidable s.Busy := inferInstanceAs (Decidable (_ ∨ _))

instance : DecidablePred s.Drains
  | .expire _ => inferInstanceAs (Decidable (_ ∨ _))
  | .log _ | .work | .timeout | .stop | .resume _ | .shutdown _ | .proceed => inferInstanceAs (Decidable True)

instance : DecidablePred s.Calm
  | .stop => inferInstanceAs (Decidable s.Busy)
  | .proceed => inferInstanceAs (Decidable (_ → _))
  | .work => inferInstanceAs (Decidable (_ → _ → _))
  | .log _ | .timeout | .resume _ | .expire _ | .shutdown _ => inferInstanceAs (Decidable True)

variable {s}

/-! ### The invariant -/

/-- What holds as long as the steps meet the condition: nobody cancels the worker, which leaves its loop when all that
was queued in front of the first `stop` is written. -/
structure Inv (s : AsyncLogger) : Prop where
  uncancelled : s.cancelling = false ∧ s.worker ≠ .cancelled
  calls : ∀ p ∈ s.stops, p ≠ .awaiting ∧ p ≠ .raised
  past : .joining true ∈ s.stops ∨ .returned ∈ s.stops → s.worker = .finished
  stopped : s.stops ≠ [] → s.stopEvent = true
  hand : s.worker ≠ .writing → s.records.batch = []
  due : s.stopEvent = true → s.due ≤ s.records.accepted.length
  finished : s.worker = .finished → s.stopEvent = true ∧ s.due ≤ s.records.flushed.flatten.length
  shutdown : s.shutdown ≠ .aborted

theorem inv_start : Inv start where
  uncancelled := ⟨rfl, by decide⟩
  calls := by simp [start]
  past := by simp [start]
  stopped h := absurd rfl h
  hand _ := rfl
  due h := Bool.noConfusion h
  finished h := LoggerPc.noConfusion h
  shutdown h := ShutdownPc.noConfusion h

theorem Inv.orderly (h : Inv s) : s.Orderly where
  inOrder f := s.records.flatten_prefix.filter _
  written hdone f := by
    have hle := (h.finished (hdone.resolve_right h.uncancelled.2)).2
    obtain ⟨rest, hrest⟩ := s.records.flatten_prefix
    rw [← hrest, List.take_append_of_le_length hle]
    exact (List.take_prefix _ _).filter _
  returned hr := h.past (.inr hr)
  normal hr := (h.calls _ hr).2 rfl
  shutdown := h.shutdown

/-- Nothing is in the hand of the worker and nothing in the queue: all is written. -/
private theorem due_le_of_empty (h : Inv s) (hstop : s.stopEvent = true) (hbatch : s.records.batch = [])
    (hqueue : s.records.queue = []) : s.due ≤ s.records.flushed.flatten.length := by
  rw [s.records.flatten_eq_accepted_iff.2 ⟨hbatch, hqueue⟩]
  exact h.due hstop

private theorem inv_log (h : Inv s) (record : LogRecord) : Inv { s with records := s.records.accept record } where
  uncancelled := h.uncancelled
  calls := h.calls
  past := h.past
  stopped := h.stopped
  hand := h.hand
  due hstop := by
    show s.due ≤ (s.records.accepted ++ [record]).length
    have hle := h.due hstop
    rw [List.length_append]
    omega
  finished := h.finished
  shutdown := h.shutdown

/-- The worker takes the next record. -/
private theorem inv_take (h : Inv s) (hrun : s.worker ≠ .finished) :
    Inv { s with records := s.records.take, worker := .writing } where
  uncancelled := ⟨h.uncancelled.1, LoggerPc.noConfusion⟩
  calls := h.calls
  past hp := absurd (h.past hp) hrun
  stopped := h.stopped
  hand hw := absurd rfl hw
  due := h.due
  finished hw := LoggerPc.noConfusion hw
  shutdown := h.shutdown

/-- The worker leaves its loop. -/
private theorem inv_finish (h : Inv s) (hstop : s.stopEvent = true) (hbatch : s.records.batch = [])
    (hqueue : s.records.queue = []) : Inv { s with worker := .finished } where
  uncancelled := ⟨h.uncancelled.1, LoggerPc.noConfusion⟩
  calls := h.calls
  past _ := rfl
  stopped := h.stopped
  hand _ := hbatch
  due := h.due
  finished _ := ⟨hstop, @due_le_of_empty s h hstop hbatch hqueue⟩
  shutdown := h.shutdown

/-- The worker goes on to wait. -/
private theorem inv_wait (h : Inv s) (hrun : s.worker ≠ .finished) (hbatch : s.records.batch = [])
    {pc : LoggerPc} (hpc : pc = .getting ∨ pc = .timedOut) : Inv { s with worker := pc } where
  uncancelled := ⟨h.uncancelled.1, by rcases hpc with rfl | rfl <;> exact LoggerPc.noConfusion⟩
  calls := h.calls
  past hp := absurd (h.past hp) hrun
  stopped := h.stopped
  hand _ := hbatch
  due := h.due
  finished hw := by rcases hpc with rfl | rfl <;> cases hw
  shutdown := h.shutdown

private theorem inv_loop (h : Inv s) (hrun : s.worker ≠ .finished) (hbatch : s.records.batch = []) : Inv s.loop := by
  unfold loop
  split
  · rename_i hqueue
    split
    · rename_i hstop
      exact inv_finish h hstop hbatch hqueue
    · exact inv_wait h hrun hbatch (.inl rfl)
  · exact inv_take h hrun

private theorem inv_flush (h : Inv s) (hwrite : s.worker = .writing) : Inv { s with records := s.records.flush } where
  uncancelled := h.uncancelled
  calls := h.calls
  past := h.past
  stopped := h.stopped
  hand _ := rfl
  due := h.due
  finished hw := by
    have hw' : s.worker = .finished := hw
    rw [hwrite] at hw'
    cases hw'
  shutdown := h.shutdown

/-- The last record is written: who joins is woken, and the worker leaves its loop in the same step. -/
private theorem inv_last (h : Inv s) (hstop : s.stopEvent = true) (hbatch : s.records.batch = [])
    (hqueue : s.records.queue = []) : Inv { s.taskDone with worker := .finished } := by
  have heq : s.taskDone =
      { s with stops := s.stops.map fun p => if p = .joining false then .joining true else p } := if_pos hqueue
  have hfinish := inv_finish h hstop hbatch hqueue
  rw [heq]
  refine ⟨hfinish.uncancelled, fun p hp => ?_, fun _ => rfl, fun _ => hstop, hfinish.hand, hfinish.due,
    hfinish.finished, hfinish.shutdown⟩
  obtain ⟨q, hq, rfl⟩ := List.mem_map.1 hp
  split
  · exact ⟨StopPc.noConfusion, StopPc.noConfusion⟩
  · exact h.calls q hq

private theorem inv_written (h : Inv s) (hwrite : s.worker = .writing) :
    Inv ({ s with records := s.records.flush } : AsyncLogger).taskDone.loop := by
  have hflush := inv_flush h hwrite
  have hrun : s.worker ≠ .finished := by
    rw [hwrite]
    exact LoggerPc.noConfusion
  generalize ht : ({ s with records := s.records.flush } : AsyncLogger) = t at hflush ⊢
  have hbatch : t.records.batch = [] := by rw [← ht]; rfl
  have hworker : t.worker ≠ .finished := by rw [← ht]; exact hrun
  by_cases hqueue : t.records.queue = []
  · cases hstop : t.stopEvent with
    | true =>
      have hloop : t.taskDone.loop = { t.taskDone with worker := .finished } := by
        simp [taskDone, loop, hqueue, hstop]
      rw [hloop]
      exact inv_last hflush hstop hbatch hqueue
    | false =>
      -- nobody joins
      have hnone : t.stops = [] := by
        by_contra hne
        rw [hflush.stopped hne] at hstop
        cases hstop
      have hsame : t.taskDone = t := by
        rw [taskDone, if_pos hqueue, hnone, List.map_nil, ← hnone]
      rw [hsame]
      exact inv_loop hflush hworker hbatch
  · have hsame : t.taskDone = t := if_neg hqueue
    rw [hsame]
    exact inv_loop hflush hworker hbatch

private theorem inv_work (h : Inv s) (hcalm : s.Calm .work) : Inv s.work := by
  have huncancelled := h.uncancelled.1
  unfold work
  cases hpc : s.worker with
  | created =>
    dsimp only
    rw [if_neg (by simp [huncancelled])]
    exact inv_loop h (by simp [hpc]) (h.hand (by simp [hpc]))
  | getting =>
    dsimp only
    rw [if_neg (by simp [huncancelled])]
    split
    · exact h
    · exact inv_take h (by simp [hpc])
  | timedOut =>
    have hbatch : s.records.batch = [] := h.hand (by simp [hpc])
    dsimp only
    rw [if_neg (by simp [huncancelled])]
    split
    · rename_i hstop
      exact inv_finish h hstop hbatch (hcalm hpc hstop)
    · exact inv_loop h (by simp [hpc]) hbatch
  | writing =>
    dsimp only
    rw [if_neg (by simp [huncancelled])]
    have hwritten := inv_written h hpc
    rw [hpc] at hwritten
    exact hwritten
  | finished => exact h
  | cancelled => exact absurd hpc h.uncancelled.2

/-- A call that finds the worker done returns. -/
private theorem inv_afterJoin (h : Inv s) (hdone : s.worker = .finished) (i : ℕ) : Inv (s.afterJoin i) := by
  have hcalls : ∀ p ∈ s.stops.set i .returned, p ≠ .awaiting ∧ p ≠ .raised := by
    intro p hp
    rcases List.mem_or_eq_of_mem_set hp with hp | rfl
    · exact h.calls p hp
    · exact ⟨StopPc.noConfusion, StopPc.noConfusion⟩
  unfold afterJoin
  rw [if_pos (.inl hdone)]
  exact ⟨h.uncancelled, hcalls, fun _ => hdone, fun _ => (h.finished hdone).1, h.hand, h.due, h.finished, h.shutdown⟩

private theorem inv_resume (h : Inv s) (i : ℕ) : Inv (s.resume i) := by
  unfold resume
  split
  · rename_i hi
    exact inv_afterJoin h (h.past (.inl (List.mem_of_getElem? hi))) i
  · rename_i hi
    exact absurd rfl (h.calls _ (List.mem_of_getElem? hi)).1
  · exact h

private theorem inv_expire (h : Inv s) (i : ℕ) (hdrains : s.Drains (.expire i)) : Inv (s.expire i) := by
  unfold expire
  split
  · exact inv_afterJoin h (hdrains.resolve_right h.uncancelled.2) i
  · exact h

private theorem inv_stop (h : Inv s) (hbusy : s.Busy) : Inv s.stop := by
  have hcalled : Inv { s with
      stopEvent := true
      due := if s.stopEvent then s.due else s.records.accepted.length
      stops := s.stops ++ [.joining (s.unfinished = 0)] } := by
    refine ⟨h.uncancelled, fun p hp => ?_, fun hp => ?_, fun _ => rfl, h.hand, fun _ => ?_, fun hw => ⟨rfl, ?_⟩,
      h.shutdown⟩
    · rcases List.mem_append.1 hp with hp | hp
      · exact h.calls p hp
      · rw [List.mem_singleton.1 hp]
        exact ⟨StopPc.noConfusion, StopPc.noConfusion⟩
    · simp only [List.mem_append, List.mem_singleton, StopPc.joining.injEq, reduceCtorEq, or_false] at hp
      rcases hp with (hp | hp) | hp
      · exact h.past (.inl hp)
      · exact hbusy.resolve_right fun hne => hne (by simpa using hp.symm)
      · exact h.past (.inr hp)
    · show (if s.stopEvent then s.due else s.records.accepted.length) ≤ s.records.accepted.length
      split
      · rename_i hstop
        exact h.due hstop
      · exact Nat.le_refl _
    · obtain ⟨hstop, hle⟩ := h.finished hw
      show (if s.stopEvent then s.due else s.records.accepted.length) ≤ s.records.flushed.flatten.length
      rw [if_pos hstop]
      exact hle
  unfold stop
  dsimp only
  split
  · rename_i hnone
    exact inv_afterJoin hcalled (hbusy.resolve_right fun hne => hne hnone) _
  · exact hcalled

/-- Where the shutdown is does not matter to the rest. -/
private theorem inv_shutdown (h : Inv s) {pc : ShutdownPc} (hpc : pc ≠ .aborted) : Inv { s with shutdown := pc } :=
  ⟨h.uncancelled, h.calls, h.past, h.stopped, h.hand, h.due, h.finished, hpc⟩

private theorem inv_proceed (h : Inv s) (hcalm : s.Calm .proceed) : Inv s.proceed := by
  unfold proceed
  split
  · exact inv_shutdown h ShutdownPc.noConfusion
  · rename_i left hleft
    have hbusy : s.Busy := hcalm (by rw [stopsNext, hleft])
    exact inv_shutdown (inv_stop h hbusy) ShutdownPc.noConfusion
  · split
    · exact inv_shutdown h ShutdownPc.noConfusion
    · rename_i hi
      exact absurd rfl (h.calls _ (List.mem_of_getElem? hi)).2
    · exact h
  · exact h

theorem Inv.step (h : Inv s) {e : LoggerEvent} (hdrains : s.Drains e) (hcalm : s.Calm e) : Inv (s.step e) := by
  cases e with
  | log record => exact inv_log h record
  | work => exact inv_work h hcalm
  | timeout =>
    rw [AsyncLogger.step]
    split
    · rename_i hpc
      exact inv_wait h (by simp [hpc]) (h.hand (by simp [hpc])) (.inr rfl)
    · exact h
  | stop => exact inv_stop h hcalm
  | resume i => exact inv_resume h i
  | expire i => exact inv_expire h i hdrains
  | shutdown servers =>
    rw [AsyncLogger.step]
    split
    · exact inv_shutdown h ShutdownPc.noConfusion
    · exact h
  | proceed => exact inv_proceed h hcalm

/-- A call of `stop` that finds the worker idle cancels it and raises. -/
theorem raised_of_idle (h : Inv s) (hidle : ¬ s.Busy) :
    .raised ∈ (run step s [.stop, .work, .resume s.stops.length]).stops := by
  obtain ⟨hrun, hnone⟩ : s.worker ≠ .finished ∧ s.unfinished = 0 := by
    rw [Busy, not_or, not_not] at hidle
    exact hidle
  have hwrite : s.worker ≠ .writing := by
    intro hw
    rw [unfinished, if_pos hw] at hnone
    omega
  obtain ⟨due, hstop⟩ : ∃ due, s.stop =
      { s with stopEvent := true, cancelling := true, due, stops := s.stops ++ [.awaiting] } := by
    refine ⟨if s.stopEvent then s.due else s.records.accepted.length, ?_⟩
    simp [stop, afterJoin, hnone, hrun, h.uncancelled.2]
  have hwork : s.stop.work = { s.stop with worker := .cancelled } := by
    rw [hstop]
    unfold work
    cases hpc : s.worker with
    | created => rfl
    | getting => rfl
    | timedOut => rfl
    | writing => exact absurd hpc hwrite
    | finished => exact absurd hpc hrun
    | cancelled => exact absurd hpc h.uncancelled.2
  show .raised ∈ (s.stop.work.resume s.stops.length).stops
  rw [hwork, hstop]
  simp [resume]

end AsyncLogger

open AsyncLogger

theorem orderly_run (events : List LoggerEvent) (hdrains : Meets step Drains start events)
    (hcalm : Meets step Calm start events) {es : List LoggerEvent} (hes : es <+: events) :
    Orderly (run step start es) := by
  have hguard : Meets step (fun s e => s.Drains e ∧ s.Calm e) start es :=
    (hdrains.initial hes).and (hcalm.initial hes)
  exact (invariant_of_steps (fun _ _ h hg => h.step hg.1 hg.2) inv_start hguard).orderly

/-- A record is logged, the server stops at once and writes it. -/
theorem orderly_run_backlog :
    Orderly (run step start [.log ⟨"a".toList, [1], "a".toList⟩, .shutdown 2, .proceed, .work, .work, .resume 0,
      .proceed, .proceed]) :=
  orderly_run _ (by decide +kernel) (by decide +kernel) (List.prefix_refl _)

/-- The server stops while nothing is to be logged. -/
theorem not_orderly_idle :
    ¬ ∀ events, Meets step Drains start events → Orderly (run step start events) := by
  intro h
  have hrun := h [.work, .shutdown 3, .proceed, .work, .resume 0, .proceed] (by decide +kernel)
  exact hrun.shutdown (by decide +kernel)

end Cyanide
