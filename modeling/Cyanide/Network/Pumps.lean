import Mathlib.Logic.Function.Basic
import Cyanide.Lib.Conduit
import Cyanide.Lib.Transition

/-!
# What the TCP proxy forwards

`TCPProxy.handle_client` behind the connection to the target: two tasks `forward` that read up to 4096 bytes, write
them and wait for the writer to drain, until the peer has closed its side or an exception ends them.  The handler waits
for the first task that ends, cancels both and closes both writers.  A direction is a conduit of bytes: what the proxy
wrote has passed, and what the peer sent and the task has not read waits.
-/

namespace Cyanide

open Transition

/-- The directions of `forward`. -/
inductive Direction where
  | clientToTarget
  | targetToClient
  deriving DecidableEq

/-- Where a task `forward` is. -/
inductive PumpPc where
  | reading
  | draining
  | ended
  deriving DecidableEq

structure Pump where
  bytes : Conduit UInt8
  /-- Whether the peer has closed its sending side. -/
  eof : Bool
  pc : PumpPc

inductive PumpEvent where
  /-- A peer sends bytes. -/
  | send (d : Direction) (data : List UInt8)
  /-- A peer closes its sending side. -/
  | close (d : Direction)
  /-- The task is run while it reads: `reader.read(4096)` has `n` bytes for it. -/
  | read (d : Direction) (n : ℕ)
  | drained (d : Direction)
  /-- Reading or draining raises an exception. -/
  | raised (d : Direction)
  /-- `handle_client` goes on behind `asyncio.wait`. -/
  | resume

namespace Pump

variable (p : Pump)

def start : Pump := ⟨.empty, false, .reading⟩

def send (data : List UInt8) : Pump := if p.eof then p else { p with bytes := p.bytes.push data }

/-- One turn of the loop up to `drain`.  With nothing to read, the end of the stream ends the loop. -/
def read (n : ℕ) : Pump :=
  if p.pc = .reading then
    if p.bytes.waiting = [] then { p with pc := if p.eof then .ended else .reading }
    else if 0 < n ∧ n ≤ 4096 then { p with bytes := p.bytes.pass n, pc := .draining }
    else p
  else p

def drained : Pump := if p.pc = .draining then { p with pc := .reading } else p

def finish : Pump := { p with pc := .ended }

end Pump

structure ProxyStreams where
  pump : Direction → Pump
  /-- Whether the handler has cancelled the tasks and closed the writers. -/
  closed : Bool

namespace ProxyStreams

variable (s : ProxyStreams)

def start : ProxyStreams := ⟨fun _ => .start, false⟩

def update (d : Direction) (f : Pump → Pump) : ProxyStreams :=
  { s with pump := Function.update s.pump d (f (s.pump d)) }

def step : PumpEvent → ProxyStreams
  | .send d data => s.update d fun p => p.send data
  | .close d => s.update d fun p => { p with eof := true }
  | .read d n => s.update d fun p => p.read n
  | .drained d => s.update d Pump.drained
  | .raised d => s.update d Pump.finish
  | .resume =>
    if (s.pump .clientToTarget).pc = .ended ∨ (s.pump .targetToClient).pc = .ended then
      ⟨fun d => (s.pump d).finish, true⟩
    else s

/-- What was written is the beginning of what was sent, and once the writers are closed it is all of it. -/
def Relayed (s : ProxyStreams) : Prop :=
  ∀ d, (s.pump d).bytes.passed <+: (s.pump d).bytes.sent ∧
    (s.closed = true → (s.pump d).bytes.passed = (s.pump d).bytes.sent)

/-- The writers are closed when nothing waits to be read, in neither direction, and nothing is sent afterwards. -/
def Calm (s : ProxyStreams) : PumpEvent → Prop
  | .send d data => s.closed = true → (s.pump d).eof = true ∨ data = []
  | .resume =>
    (s.pump .clientToTarget).pc = .ended ∨ (s.pump .targetToClient).pc = .ended →
      ∀ d, (s.pump d).bytes.waiting = []
  | .close _ => True
  | .read _ _ => True
  | .drained _ => True
  | .raised _ => True

variable {s} {d : Direction}

/-- The prefix law is that of the conduits, so only the close matters. -/
theorem relayed_iff_waiting : s.Relayed ↔ (s.closed = true → ∀ d, (s.pump d).bytes.waiting = []) := by
  constructor
  · intro h hc d
    exact (Conduit.passed_eq_sent_iff _).1 ((h d).2 hc)
  · intro h d
    exact ⟨Conduit.passed_prefix _, fun hc => (Conduit.passed_eq_sent_iff _).2 (h hc d)⟩

@[simp] theorem closed_update (s : ProxyStreams) (d : Direction) (f : Pump → Pump) :
    (s.update d f).closed = s.closed := rfl

@[simp] theorem pump_update (s : ProxyStreams) (d e : Direction) (f : Pump → Pump) :
    (s.update d f).pump e = if e = d then f (s.pump e) else s.pump e := by
  unfold update
  by_cases h : e = d
  · subst h
    simp
  · simp [h]

theorem waiting_read_of_nil {p : Pump} (h : p.bytes.waiting = []) (n : ℕ) : (p.read n).bytes = p.bytes := by
  unfold Pump.read
  rw [if_pos h]
  split <;> rfl

/-- A step that keeps the bytes of every direction and does not close keeps the law. -/
private theorem relayed_congr {t : ProxyStreams} (h : s.Relayed)
    (hb : ∀ d, (t.pump d).bytes.waiting = (s.pump d).bytes.waiting) (hc : t.closed = s.closed) : t.Relayed := by
  rw [relayed_iff_waiting] at h ⊢
  intro htc d
  rw [hb]
  exact h (hc ▸ htc) d

private theorem relayed_read (h : s.Relayed) (d : Direction) (n : ℕ) : (s.step (.read d n)).Relayed := by
  rw [relayed_iff_waiting] at h ⊢
  intro hc e
  have he := h hc e
  simp only [step, pump_update]
  split
  · rw [waiting_read_of_nil he]
    exact he
  · exact he

private theorem relayed_send_iff (h : s.Relayed) (d : Direction) (data : List UInt8) :
    (s.step (.send d data)).Relayed ↔ s.Calm (.send d data) := by
  rw [relayed_iff_waiting] at h ⊢
  show (s.closed = true → _) ↔ (s.closed = true → _)
  refine imp_congr_right fun hc => ?_
  simp only [step, pump_update]
  constructor
  · intro hall
    have hd := hall d
    rw [if_pos rfl, Pump.send] at hd
    split at hd
    · rename_i heof
      exact .inl heof
    · rw [Conduit.waiting_push, h hc d, List.nil_append] at hd
      exact .inr hd
  · intro hcalm e
    split
    · rename_i he
      subst he
      rw [Pump.send]
      split
      · exact h hc e
      · rename_i heof
        rw [Conduit.waiting_push, h hc e, hcalm.resolve_left heof]
        rfl
    · exact h hc e

private theorem relayed_resume_iff (h : s.Relayed) : (s.step .resume).Relayed ↔ s.Calm .resume := by
  rw [step]
  show _ ↔ (_ → _)
  split
  · rename_i hended
    rw [relayed_iff_waiting]
    exact ⟨fun hw _ => hw rfl, fun hw _ => hw hended⟩
  · rename_i hrunning
    exact ⟨fun _ hended => absurd hended hrunning, fun _ => h⟩

private theorem relayed_step_iff (h : s.Relayed) (e : PumpEvent) : (s.step e).Relayed ↔ s.Calm e := by
  cases e with
  | send d data => exact relayed_send_iff h d data
  | read d n => exact iff_of_true (relayed_read h d n) trivial
  | resume => exact relayed_resume_iff h
  | close d =>
    refine iff_of_true (relayed_congr h (fun e => ?_) rfl) trivial
    simp only [step, pump_update]
    split <;> rfl
  | drained d =>
    refine iff_of_true (relayed_congr h (fun e => ?_) rfl) trivial
    simp only [step, pump_update, Pump.drained]
    split
    · split <;> rfl
    · rfl
  | raised d =>
    refine iff_of_true (relayed_congr h (fun e => ?_) rfl) trivial
    simp only [step, pump_update]
    split <;> rfl

theorem relayed_start : start.Relayed := relayed_iff_waiting.2 fun h => Bool.noConfusion h

/-- A turn of a task that has not ended takes a byte of what waits. -/
private theorem turn (h : (s.pump d).pc ≠ .ended) (hw : (s.pump d).bytes.waiting ≠ []) :
    let t := ((s.step (.drained d)).step (.read d 1)).pump d
    t.pc = .draining ∧ t.bytes.waiting = (s.pump d).bytes.waiting.tail := by
  have hdrained : (s.pump d).drained.pc = .reading ∧ (s.pump d).drained.bytes = (s.pump d).bytes := by
    unfold Pump.drained
    split
    · exact ⟨rfl, rfl⟩
    · rename_i hd
      refine ⟨?_, rfl⟩
      cases hpc : (s.pump d).pc with
      | reading => rfl
      | draining => exact absurd hpc hd
      | ended => exact absurd hpc h
  simp only [step, pump_update, if_true]
  rw [Pump.read, if_pos hdrained.1, hdrained.2, if_neg hw, if_pos (by decide)]
  exact ⟨rfl, List.drop_one⟩

/-- As long as the task of a direction has not ended, it can write all that waits. -/
theorem exists_waiting_eq_nil (s : ProxyStreams) (d : Direction) (h : (s.pump d).pc ≠ .ended) :
    ∃ es : List PumpEvent, (∀ e ∈ es, e = .drained d ∨ e = .read d 1) ∧
      ((run step s es).pump d).bytes.waiting = [] := by
  induction hn : (s.pump d).bytes.waiting.length generalizing s with
  | zero => exact ⟨[], by simp, List.length_eq_zero_iff.1 hn⟩
  | succ n ih =>
    have hw : (s.pump d).bytes.waiting ≠ [] := fun h0 => by simp [h0] at hn
    obtain ⟨hpc, htail⟩ := turn h hw
    have hlen : (((s.step (.drained d)).step (.read d 1)).pump d).bytes.waiting.length = n := by
      rw [htail, List.length_tail, hn]
      rfl
    obtain ⟨es, hes, hnil⟩ := ih _ (by rw [hpc]; decide) hlen
    refine ⟨.drained d :: .read d 1 :: es, ?_, hnil⟩
    simpa using hes

end ProxyStreams

open ProxyStreams

end Cyanide
