import Mathlib.Logic.Function.Basic
import Cyanide.Lib.Conduit
import Cyanide.Lib.Transition

/-!
# What the SSH proxy forwards

`ProxyServerSession` and `ProxyClientChannel`, the two ends of the proxy.  Each buffers the chunks that it receives,
and a task `_send_loop` joins them and writes them to the channel of the other end, half a second after it has seen
them.  The end-of-file mark is passed on at once, and the loss of a connection cancels the task.  Writing to a channel
that is no longer open for sending raises.
-/

namespace Cyanide

open Transition

inductive ProxyEnd where
  /-- `ProxyServerSession`, which receives from the attacker. -/
  | server
  /-- `ProxyClientChannel`, which receives from the backend. -/
  | client
  deriving DecidableEq

/-- Where a task `_send_loop` is. -/
inductive SendPc where
  | notStarted
  /-- At the test of the buffer, or in `sleep(0.1)` behind it. -/
  | testing
  /-- In `sleep(0.5)`, with something in the buffer. -/
  | sleeping
  /-- Ended by an exception. -/
  | ended
  | cancelled
  deriving DecidableEq

/-- The channel that an end writes to. -/
inductive OutState where
  | absent
  | opened
  /-- The end-of-file mark was written. -/
  | eof
  | closed
  deriving DecidableEq

/-- Where `_connect_backend` is. -/
inductive ConnectPc where
  | connecting
  /-- There is a `backend_conn`. -/
  | connected
  /-- The channel to the backend is open; `create_session` has not returned. -/
  | opened
  /-- There is a `backend_channel`, and the task of the server session runs. -/
  | bridged
  | failed
  deriving DecidableEq

structure SendLoop (α : Type) where
  /-- The chunks received; those that wait are in `buffer`, unless a write of them raised. -/
  chunks : Conduit (List α)
  task : SendPc
  out : OutState
  /-- Whether no more data are received: after the end of file, or after the connection was lost. -/
  finished : Bool

structure SshBridge (α : Type) where
  loop : ProxyEnd → SendLoop α
  connect : ConnectPc
  /-- Whether the connection to the backend is lost or was closed. -/
  severed : Bool

inductive BridgeEvent (α : Type) where
  | dataReceived (e : ProxyEnd) (data : List α)
  | eofReceived (e : ProxyEnd)
  | connectionLost (e : ProxyEnd)
  /-- The task of an end is run up to its next `await`. -/
  | run (e : ProxyEnd)
  /-- The channel that an end writes to is closed by the other side or by the library. -/
  | outClosed (e : ProxyEnd)
  | connected
  /-- `connection_made` of the client channel. -/
  | opened
  /-- `create_session` returns. -/
  | bridged
  /-- There is no target, or an `await` of `_connect_backend` raises. -/
  | failed

namespace SendLoop

variable {α : Type} (l : SendLoop α)

def dataReceived (data : List α) : SendLoop α :=
  if l.finished then l else { l with chunks := l.chunks.push [data] }

/-- `eof_received`: the mark is passed on when there is a channel that takes it. -/
def eofReceived : SendLoop α :=
  if l.finished then l else { l with finished := true, out := if l.out = .opened then .eof else l.out }

def cancel : SendLoop α :=
  { l with
    finished := true
    task := if l.task = .testing ∨ l.task = .sleeping then .cancelled else l.task }

def close : SendLoop α := { l with out := if l.out = .absent then .absent else .closed }

def start : SendLoop α := { l with task := .testing }

/-- `_send_loop` from one `sleep` to the next. -/
def run : SendLoop α :=
  match l.task with
  | .testing => if l.chunks.waiting = [] then l else { l with task := .sleeping }
  | .sleeping =>
    if l.out = .opened then { l with chunks := l.chunks.flush, task := .testing } else { l with task := .ended }
  | .notStarted => l
  | .ended => l
  | .cancelled => l

/-- What was received and not written. -/
def left : List α := l.chunks.waiting.flatten

def received : List α := l.chunks.sent.flatten

def written : List α := l.chunks.passed.flatten

end SendLoop

namespace SshBridge

variable {α : Type} (s : SshBridge α)

/-- The proxy when the attacker's channel is open. -/
def start : SshBridge α where
  loop
    | .server => ⟨.empty, .notStarted, .absent, false⟩
    | .client => ⟨.empty, .notStarted, .opened, false⟩
  connect := .connecting
  severed := false

def update (e : ProxyEnd) (f : SendLoop α → SendLoop α) : SshBridge α :=
  { s with loop := Function.update s.loop e (f (s.loop e)) }

/-- `connection_lost` of the server session closes `backend_conn`, that of the client channel closes `peer_channel`. -/
def connectionLost : ProxyEnd → SshBridge α
  | .server =>
    let lost := (s.update .server SendLoop.cancel).update .client SendLoop.close
    if s.connect = .connecting then lost else { lost.update .server SendLoop.close with severed := true }
  | .client =>
    { ((s.update .client SendLoop.cancel).update .client SendLoop.close).update .server SendLoop.close with
      severed := true }

/-- Whether the callbacks of an end can be called: the client channel is made when its channel opens. -/
def Made (s : SshBridge α) (e : ProxyEnd) : Prop := e = .server ∨ (s.loop .client).task ≠ .notStarted

instance (e : ProxyEnd) : Decidable (s.Made e) := inferInstanceAs (Decidable (_ ∨ _))

def step : BridgeEvent α → SshBridge α
  | .dataReceived e data => if s.Made e then s.update e fun l => l.dataReceived data else s
  | .eofReceived e => if s.Made e then s.update e SendLoop.eofReceived else s
  | .connectionLost e => if s.Made e then s.connectionLost e else s
  | .run e => s.update e SendLoop.run
  | .outClosed e => s.update e SendLoop.close
  | .connected => if s.connect = .connecting then { s with connect := .connected } else s
  | .opened =>
    if s.connect = .connected ∧ s.severed = false then { s.update .client SendLoop.start with connect := .opened }
    else s
  | .bridged =>
    if s.connect = .opened ∧ s.severed = false then
      { s.update .server fun l => { l.start with out := .opened } with connect := .bridged }
    else s
  | .failed => if s.connect = .bridged then s else { s.update .client SendLoop.close with connect := .failed }

/-- No task will write what an end has in its buffer. -/
def Over (s : SshBridge α) (e : ProxyEnd) : Prop :=
  (s.loop e).task = .ended ∨ (s.loop e).task = .cancelled ∨
    (s.loop e).task = .notStarted ∧ (s.connect = .failed ∨ s.severed = true)

instance (e : ProxyEnd) : Decidable (s.Over e) := inferInstanceAs (Decidable (_ ∨ _ ∨ _ ∧ (_ ∨ _)))

/-- Everything received is written once and in order: in front of the end-of-file mark, and before there is no task to
write it. -/
def Forwarded (s : SshBridge α) : Prop :=
  ∀ e, (s.loop e).written <+: (s.loop e).received ∧
    ((s.loop e).out = .eof ∨ s.Over e → (s.loop e).written = (s.loop e).received)

/-- Data come while there is a task to write them; the buffer is empty when the end-of-file mark is passed on, when the
task is cancelled or can no longer be started, and when the channel is found closed. -/
def Calm (s : SshBridge α) : BridgeEvent α → Prop
  | .dataReceived e data => s.Made e → s.Over e → (s.loop e).finished = true ∨ data = []
  | .eofReceived e => s.Made e → (s.loop e).finished = false → (s.loop e).out = .opened → (s.loop e).left = []
  | .connectionLost .server => s.connect ≠ .connecting → (s.loop .server).left = []
  | .connectionLost .client =>
    s.Made .client → (s.loop .client).left = [] ∧
      ((s.loop .server).task = .notStarted → (s.loop .server).left = [])
  | .run e => (s.loop e).task = .sleeping → (s.loop e).out ≠ .opened → (s.loop e).left = []
  | .failed => s.connect ≠ .bridged → (s.loop .server).left = []
  | .outClosed _ => True
  | .connected => True
  | .opened => True
  | .bridged => True

/-- The end-of-file mark is the last thing that is received, a client channel that is not made has received nothing, and
the task of the server session is started last. -/
structure Fine (connect : ConnectPc) (e : ProxyEnd) (l : SendLoop α) : Prop where
  eof : l.out = .eof → l.finished = true
  unmade : e = .client → l.task = .notStarted → l.left = []
  unbridged : e = .server → connect ≠ .bridged → l.task = .notStarted

def WellFormed (s : SshBridge α) : Prop := ∀ e, Fine s.connect e (s.loop e)

variable {s}

@[simp] theorem loop_update (s : SshBridge α) (e d : ProxyEnd) (f : SendLoop α → SendLoop α) :
    (s.update e f).loop d = if d = e then f (s.loop d) else s.loop d := by
  unfold update
  by_cases h : d = e
  · subst h
    simp
  · simp [h]

@[simp] theorem connect_update (s : SshBridge α) (e : ProxyEnd) (f : SendLoop α → SendLoop α) :
    (s.update e f).connect = s.connect := rfl

@[simp] theorem severed_update (s : SshBridge α) (e : ProxyEnd) (f : SendLoop α → SendLoop α) :
    (s.update e f).severed = s.severed := rfl

/-- The order is that of the conduits, so only what is left matters. -/
theorem forwarded_iff : s.Forwarded ↔ ∀ e, (s.loop e).out = .eof ∨ s.Over e → (s.loop e).left = [] := by
  have hconserved : ∀ e, (s.loop e).received = (s.loop e).written ++ (s.loop e).left := by
    intro e
    rw [SendLoop.received, (s.loop e).chunks.conserved, List.flatten_append]
    rfl
  refine forall_congr' fun e => ?_
  rw [hconserved e]
  constructor
  · rintro ⟨-, hall⟩ hover
    exact List.self_eq_append_right.1 (hall hover)
  · intro hleft
    exact ⟨List.prefix_append _ _, fun hover => by rw [hleft hover, List.append_nil]⟩

/-! ### What every step keeps -/

section Keep

variable {l : SendLoop α} {c : ConnectPc} {e : ProxyEnd}

private theorem fine_dataReceived (h : Fine c e l) (hmade : e = .client → l.task ≠ .notStarted) (data : List α) :
    Fine c e (l.dataReceived data) := by
  unfold SendLoop.dataReceived
  split
  · exact h
  · exact ⟨h.eof, fun he ht => absurd ht (hmade he), h.unbridged⟩

private theorem fine_eofReceived (h : Fine c e l) : Fine c e l.eofReceived := by
  unfold SendLoop.eofReceived
  split
  · exact h
  · exact ⟨fun _ => rfl, h.unmade, h.unbridged⟩

private theorem fine_close (h : Fine c e l) : Fine c e l.close := by
  refine ⟨fun hout => ?_, h.unmade, h.unbridged⟩
  have hne : (if l.out = .absent then OutState.absent else .closed) ≠ .eof := by
    split <;> exact OutState.noConfusion
  exact absurd hout hne

private theorem fine_cancel (h : Fine c e l) : Fine c e l.cancel := by
  have hstart : l.cancel.task = .notStarted ↔ l.task = .notStarted := by
    unfold SendLoop.cancel
    cases l.task <;> simp
  exact ⟨fun _ => rfl, fun he ht => h.unmade he (hstart.1 ht), fun he hc => hstart.2 (h.unbridged he hc)⟩

private theorem fine_run (h : Fine c e l) : Fine c e l.run := by
  unfold SendLoop.run
  cases ht : l.task with
  | notStarted => exact h
  | ended => exact h
  | cancelled => exact h
  | testing =>
    have hrun : e = .server → c = .bridged := fun he => by_contra fun hc => by simp [h.unbridged he hc] at ht
    dsimp only
    split
    · exact h
    · exact ⟨h.eof, fun _ ht => SendPc.noConfusion ht, fun he hc => absurd (hrun he) hc⟩
  | sleeping =>
    have hrun : e = .server → c = .bridged := fun he => by_contra fun hc => by simp [h.unbridged he hc] at ht
    dsimp only
    split
    · exact ⟨h.eof, fun _ ht => SendPc.noConfusion ht, fun he hc => absurd (hrun he) hc⟩
    · exact ⟨h.eof, fun _ ht => SendPc.noConfusion ht, fun he hc => absurd (hrun he) hc⟩

end Keep

private theorem wellFormed_update (h : s.WellFormed) {e : ProxyEnd} {f : SendLoop α → SendLoop α}
    (hf : Fine s.connect e (f (s.loop e))) : (s.update e f).WellFormed := by
  intro d
  rw [loop_update, connect_update]
  split
  · rename_i hd
    subst hd
    exact hf
  · exact h d

private theorem wellFormed_connectionLost (h : s.WellFormed) (e : ProxyEnd) : (s.connectionLost e).WellFormed := by
  cases e with
  | server =>
    have hcancel := wellFormed_update h (fine_cancel (h .server))
    have hlost := wellFormed_update hcancel (fine_close (hcancel .client))
    unfold connectionLost
    dsimp only
    split
    · exact hlost
    · exact wellFormed_update hlost (fine_close (hlost .server))
  | client =>
    have hcancel := wellFormed_update h (fine_cancel (h .client))
    have hclose := wellFormed_update hcancel (fine_close (hcancel .client))
    exact wellFormed_update hclose (fine_close (hclose .server))

/-- `_connect_backend` goes on, short of the end. -/
private theorem wellFormed_connect (h : s.WellFormed) {c : ConnectPc} (hnot : s.connect ≠ .bridged) :
    ({ s with connect := c } : SshBridge α).WellFormed := fun e =>
  ⟨(h e).eof, (h e).unmade, fun he _ => (h e).unbridged he hnot⟩

theorem wellFormed_step (h : s.WellFormed) (e : BridgeEvent α) : (s.step e).WellFormed := by
  cases e with
  | dataReceived e data =>
    rw [step]
    split
    · rename_i hmade
      exact wellFormed_update h (fine_dataReceived (h e) (fun he => hmade.elim (by simp [he]) (by simp [he])) data)
    · exact h
  | eofReceived e =>
    rw [step]
    split
    · exact wellFormed_update h (fine_eofReceived (h e))
    · exact h
  | connectionLost e =>
    rw [step]
    split
    · exact wellFormed_connectionLost h e
    · exact h
  | run e => exact wellFormed_update h (fine_run (h e))
  | outClosed e => exact wellFormed_update h (fine_close (h e))
  | connected =>
    rw [step]
    split
    · rename_i hc
      exact wellFormed_connect h (by rw [hc]; exact ConnectPc.noConfusion)
    · exact h
  | opened =>
    rw [step]
    split
    · rename_i hc
      have hmade : (s.update .client SendLoop.start).WellFormed :=
        wellFormed_update h ⟨(h .client).eof, fun _ ht => SendPc.noConfusion ht, fun he => ProxyEnd.noConfusion he⟩
      exact wellFormed_connect hmade (by rw [connect_update, hc.1]; exact ConnectPc.noConfusion)
    · exact h
  | bridged =>
    rw [step]
    split
    · intro e
      cases e with
      | server =>
        simp only [loop_update, if_true]
        exact ⟨fun ho => OutState.noConfusion ho, fun he => ProxyEnd.noConfusion he, fun _ hc => absurd rfl hc⟩
      | client =>
        simp only [loop_update, reduceCtorEq, if_false]
        exact ⟨(h .client).eof, (h .client).unmade, fun he => ProxyEnd.noConfusion he⟩
    · exact h
  | failed =>
    rw [step]
    split
    · exact h
    · rename_i hc
      have hclose := wellFormed_update h (fine_close (h .client))
      exact wellFormed_connect hclose hc

theorem wellFormed_start : (start : SshBridge α).WellFormed := by
  intro e
  cases e with
  | server => exact ⟨fun ho => OutState.noConfusion ho, fun he => ProxyEnd.noConfusion he, fun _ _ => rfl⟩
  | client => exact ⟨fun ho => OutState.noConfusion ho, fun _ _ => rfl, fun he => ProxyEnd.noConfusion he⟩

/-! ### The condition -/

/-- What an end has in its buffer is due: the mark is written, or there is no task. -/
private def Due (connect : ConnectPc) (severed : Bool) (l : SendLoop α) : Prop :=
  l.out = .eof ∨ l.task = .ended ∨ l.task = .cancelled ∨
    l.task = .notStarted ∧ (connect = .failed ∨ severed = true)

private theorem forwarded_iff_due :
    s.Forwarded ↔ ∀ e, Due s.connect s.severed (s.loop e) → (s.loop e).left = [] := forwarded_iff

private theorem forwarded_update_iff (h : s.Forwarded) (e : ProxyEnd) (f : SendLoop α → SendLoop α) :
    (s.update e f).Forwarded ↔ (Due s.connect s.severed (f (s.loop e)) → (f (s.loop e)).left = []) := by
  rw [forwarded_iff_due] at h ⊢
  constructor
  · intro hall
    have he := hall e
    rw [loop_update, if_pos rfl] at he
    exact he
  · intro hf d
    rw [loop_update, connect_update, severed_update]
    split
    · rename_i hd
      subst hd
      exact hf
    · exact h d

/-- A loop that is due no sooner and has nothing more in its buffer. -/
private theorem forwarded_update (h : s.Forwarded) {e : ProxyEnd} {f : SendLoop α → SendLoop α}
    (hdue : Due s.connect s.severed (f (s.loop e)) → Due s.connect s.severed (s.loop e))
    (hleft : (s.loop e).left = [] → (f (s.loop e)).left = []) : (s.update e f).Forwarded :=
  (forwarded_update_iff h e f).2 fun hd => hleft (forwarded_iff_due.1 h e (hdue hd))

private theorem due_close {c : ConnectPc} {v : Bool} {l : SendLoop α} (h : Due c v l.close) : Due c v l := by
  have hne : (if l.out = .absent then OutState.absent else .closed) ≠ .eof := by
    split <;> exact OutState.noConfusion
  exact h.imp (fun hout => absurd hout hne) id

private theorem forwarded_close (h : s.Forwarded) (e : ProxyEnd) : (s.update e SendLoop.close).Forwarded :=
  forwarded_update h due_close id

private theorem left_dataReceived (l : SendLoop α) (data : List α) :
    (l.dataReceived data).left = if l.finished then l.left else l.left ++ data := by
  unfold SendLoop.dataReceived
  split
  · rfl
  · simp [SendLoop.left]

private theorem forwarded_dataReceived_iff (hw : s.WellFormed) (h : s.Forwarded) (e : ProxyEnd) (data : List α) :
    (s.step (.dataReceived e data)).Forwarded ↔ s.Calm (.dataReceived e data) := by
  rw [step]
  show _ ↔ (_ → _ → _)
  split
  swap
  · rename_i hmade
    exact iff_of_true h fun hm => absurd hm hmade
  rename_i hmade
  rw [forwarded_update_iff h, left_dataReceived, imp_iff_right hmade]
  have hdue : Due s.connect s.severed ((s.loop e).dataReceived data) ↔ Due s.connect s.severed (s.loop e) := by
    unfold SendLoop.dataReceived
    split <;> rfl
  rw [hdue]
  have hleft := forwarded_iff_due.1 h e
  cases hfin : (s.loop e).finished with
  | true =>
    simp only [if_true]
    exact iff_of_true hleft fun _ => .inl trivial
  | false =>
    simp only [Bool.false_eq_true, if_false, false_or]
    constructor
    · intro hall hover
      have hboth := hall (.inr hover)
      exact (List.append_eq_nil_iff.1 hboth).2
    · rintro hdata (hout | hover)
      · -- nothing comes behind the end of file
        have htrue := (hw e).eof hout
        rw [hfin] at htrue
        cases htrue
      · rw [hleft (.inr hover), hdata hover]
        rfl

private theorem forwarded_eofReceived_iff (h : s.Forwarded) (e : ProxyEnd) :
    (s.step (.eofReceived e)).Forwarded ↔ s.Calm (.eofReceived e) := by
  rw [step]
  show _ ↔ (_ → _ → _ → _)
  split
  swap
  · rename_i hmade
    exact iff_of_true h fun hm => absurd hm hmade
  rename_i hmade
  rw [forwarded_update_iff h, imp_iff_right hmade, SendLoop.eofReceived]
  have hleft := forwarded_iff_due.1 h e
  cases hfin : (s.loop e).finished with
  | true =>
    simp only [if_true]
    exact iff_of_true hleft fun hf => Bool.noConfusion hf
  | false =>
    simp only [Bool.false_eq_true, if_false]
    rw [imp_iff_right trivial]
    by_cases hout : (s.loop e).out = .opened
    · rw [imp_iff_right hout]
      exact ⟨fun hall => hall (.inl (if_pos hout)), fun hl _ => hl⟩
    · refine iff_of_true (fun hdue => hleft ?_) fun ho => absurd ho hout
      rw [if_neg hout] at hdue
      exact hdue

private theorem forwarded_run_iff (h : s.Forwarded) (e : ProxyEnd) : (s.step (.run e)).Forwarded ↔ s.Calm (.run e) := by
  rw [step, forwarded_update_iff h]
  show _ ↔ (_ → _ → _)
  have hleft := forwarded_iff_due.1 h e
  unfold SendLoop.run
  cases ht : (s.loop e).task with
  | notStarted => exact iff_of_true hleft fun hs => SendPc.noConfusion hs
  | ended => exact iff_of_true hleft fun hs => SendPc.noConfusion hs
  | cancelled => exact iff_of_true hleft fun hs => SendPc.noConfusion hs
  | testing =>
    refine iff_of_true ?_ fun hs => SendPc.noConfusion hs
    dsimp only
    split
    · exact hleft
    · intro hdue
      refine hleft (hdue.imp id ?_)
      simp
  | sleeping =>
    rw [imp_iff_right rfl]
    dsimp only
    split
    · rename_i hout
      exact iff_of_true (fun _ => rfl) fun hne => absurd hout hne
    · rename_i hout
      rw [imp_iff_right hout]
      exact imp_iff_right (.inr (.inl rfl))

/-- A task that is cancelled is over, and one that was never started cannot be started without a backend. -/
private theorem due_cancel (c : ConnectPc) (l : SendLoop α) : Due c true l.cancel.close := by
  refine .inr ?_
  unfold SendLoop.close SendLoop.cancel
  cases l.task <;> simp

private theorem due_close_severed {c : ConnectPc} {v : Bool} {l : SendLoop α} (h : Due c true l.close) :
    Due c v l ∨ l.task = .notStarted := by
  rcases h with hout | hended | hcancelled | ⟨hstart, -⟩
  · exact .inl (due_close (.inl hout))
  · exact .inl (.inr (.inl hended))
  · exact .inl (.inr (.inr (.inl hcancelled)))
  · exact .inr hstart

private theorem forwarded_lost_server_iff (hw : s.WellFormed) (h : s.Forwarded) :
    (s.step (.connectionLost .server)).Forwarded ↔ s.Calm (.connectionLost .server) := by
  have hmade : s.Made .server := .inl rfl
  rw [step, if_pos hmade, connectionLost]
  show _ ↔ (_ → _)
  dsimp only
  split
  · rename_i hc
    -- there is no task yet, and the backend is still to come
    refine iff_of_true (forwarded_close (forwarded_update h (fun hdue => ?_) id) .client) fun hne => absurd hc hne
    have hstart := (hw .server).unbridged rfl (by rw [hc]; exact ConnectPc.noConfusion)
    rw [SendLoop.cancel, hstart] at hdue
    simpa [Due, hstart] using hdue
  · rename_i hc
    rw [imp_iff_right hc, forwarded_iff_due]
    constructor
    · intro hall
      have hserver := hall .server
      simp only [loop_update, if_true, reduceCtorEq, if_false] at hserver
      exact hserver (due_cancel _ _)
    · intro hleft e
      cases e with
      | server =>
        simp only [loop_update, if_true, reduceCtorEq, if_false]
        exact fun _ => hleft
      | client =>
        simp only [loop_update, if_true, reduceCtorEq, if_false]
        intro hdue
        rcases due_close_severed hdue with hdue | hstart
        · exact forwarded_iff_due.1 h .client hdue
        · exact (hw .client).unmade rfl hstart

private theorem forwarded_lost_client_iff (h : s.Forwarded) :
    (s.step (.connectionLost .client)).Forwarded ↔ s.Calm (.connectionLost .client) := by
  rw [step]
  show _ ↔ (_ → _)
  split
  swap
  · rename_i hmade
    exact iff_of_true h fun hm => absurd hm hmade
  rename_i hmade
  rw [imp_iff_right hmade, connectionLost, forwarded_iff_due]
  constructor
  · intro hall
    have hclient := hall .client
    have hserver := hall .server
    simp only [loop_update, if_true, reduceCtorEq, if_false] at hclient hserver
    exact ⟨hclient (due_cancel _ _), fun hstart => hserver (.inr (.inr (.inr ⟨hstart, .inr rfl⟩)))⟩
  · rintro ⟨hclient, hserver⟩ e
    cases e with
    | client =>
      simp only [loop_update, if_true, reduceCtorEq, if_false]
      exact fun _ => hclient
    | server =>
      simp only [loop_update, if_true, reduceCtorEq, if_false]
      intro hdue
      rcases due_close_severed hdue with hdue | hstart
      · exact forwarded_iff_due.1 h .server hdue
      · exact hserver hstart

private theorem forwarded_failed_iff (hw : s.WellFormed) (h : s.Forwarded) :
    (s.step .failed).Forwarded ↔ s.Calm .failed := by
  rw [step]
  show _ ↔ (_ → _)
  split
  · rename_i hc
    exact iff_of_true h fun hne => absurd hc hne
  rename_i hc
  rw [imp_iff_right hc, forwarded_iff_due]
  constructor
  · intro hall
    have hserver := hall .server
    simp only [loop_update, reduceCtorEq, if_false] at hserver
    exact hserver (.inr (.inr (.inr ⟨(hw .server).unbridged rfl hc, .inl rfl⟩)))
  · intro hleft e
    cases e with
    | server =>
      simp only [loop_update, reduceCtorEq, if_false]
      exact fun _ => hleft
    | client =>
      simp only [loop_update, if_true]
      rintro (hout | hended | hcancelled | ⟨hstart, -⟩)
      · exact forwarded_iff_due.1 h .client (due_close (.inl hout))
      · exact forwarded_iff_due.1 h .client (.inr (.inl hended))
      · exact forwarded_iff_due.1 h .client (.inr (.inr (.inl hcancelled)))
      · exact (hw .client).unmade rfl hstart

/-- A stage of the connection other than its failure makes nothing due. -/
private theorem forwarded_connect (h : s.Forwarded) {c : ConnectPc} (hc : c ≠ .failed) :
    ({ s with connect := c } : SshBridge α).Forwarded := by
  rw [forwarded_iff_due] at h ⊢
  rintro e (hout | hended | hcancelled | ⟨hstart, hno⟩)
  · exact h e (.inl hout)
  · exact h e (.inr (.inl hended))
  · exact h e (.inr (.inr (.inl hcancelled)))
  · exact h e (.inr (.inr (.inr ⟨hstart, .inr (hno.resolve_left hc)⟩)))

private theorem forwarded_step_iff (hw : s.WellFormed) (h : s.Forwarded) (e : BridgeEvent α) :
    (s.step e).Forwarded ↔ s.Calm e := by
  cases e with
  | dataReceived e data => exact forwarded_dataReceived_iff hw h e data
  | eofReceived e => exact forwarded_eofReceived_iff h e
  | run e => exact forwarded_run_iff h e
  | failed => exact forwarded_failed_iff hw h
  | outClosed e => exact iff_of_true (forwarded_close h e) trivial
  | connectionLost e =>
    cases e with
    | server => exact forwarded_lost_server_iff hw h
    | client => exact forwarded_lost_client_iff h
  | connected =>
    refine iff_of_true ?_ trivial
    rw [step]
    split
    · exact forwarded_connect h ConnectPc.noConfusion
    · exact h
  | opened =>
    refine iff_of_true ?_ trivial
    rw [step]
    split
    · refine forwarded_connect (forwarded_update h (fun hdue => .inl ?_) id) ConnectPc.noConfusion
      simpa [Due, SendLoop.start] using hdue
    · exact h
  | bridged =>
    refine iff_of_true ?_ trivial
    rw [step]
    split
    · refine forwarded_connect (forwarded_update h (fun hdue => ?_) id) ConnectPc.noConfusion
      simp [Due, SendLoop.start] at hdue
    · exact h

theorem forwarded_start : (start : SshBridge α).Forwarded := by
  rw [forwarded_iff_due]
  intro e _
  cases e <;> rfl

end SshBridge

open SshBridge

theorem forwarded_run_iff_calm {α : Type} (events : List (BridgeEvent α)) :
    (∀ es, es <+: events → Forwarded (run step start es)) ↔ Meets step Calm start events := by
  refine (forall_reached_iff (I := Forwarded) (G := Calm) (J := WellFormed) (fun _ e hs => wellFormed_step hs e)
    (fun _ e hs h => forwarded_step_iff hs h e) wellFormed_start).trans ?_
  exact and_iff_right forwarded_start

/-- The attacker sends a command and disconnects within half a second. -/
theorem not_forwarded_disconnect :
    ¬ ∀ events : List (BridgeEvent Char), Forwarded (run step start events) := by
  intro h
  have hrun := (h [.connected, .opened, .bridged, .dataReceived .server "id".toList, .run .server,
    .connectionLost .server] .server).2
  revert hrun
  decide +kernel

end Cyanide
