import Mathlib.Data.List.Infix

/-!
# Conduits

What was put into a conduit has either passed, in the order in which it came, or waits.  A `Conduit` carries this law,
so that nothing can be lost or doubled inside it: what passed is the beginning of what was sent (`passed_prefix`), and
all of it when nothing waits (`passed_eq_sent_iff`).  A `Batcher` does the same for what is passed on in batches.
-/

structure Conduit (α : Type*) where
  sent : List α
  passed : List α
  waiting : List α
  conserved : sent = passed ++ waiting

namespace Conduit

variable {α : Type*} (c : Conduit α)

def empty : Conduit α := ⟨[], [], [], rfl⟩

/-- Put something in at the end. -/
def push (xs : List α) : Conduit α where
  sent := c.sent ++ xs
  passed := c.passed
  waiting := c.waiting ++ xs
  conserved := by rw [c.conserved, List.append_assoc]

/-- Let the first `n` of what waits pass. -/
def pass (n : ℕ) : Conduit α where
  sent := c.sent
  passed := c.passed ++ c.waiting.take n
  waiting := c.waiting.drop n
  conserved := by rw [List.append_assoc, List.take_append_drop, c.conserved]

/-- Let all that waits pass. -/
def flush : Conduit α where
  sent := c.sent
  passed := c.passed ++ c.waiting
  waiting := []
  conserved := by rw [List.append_nil, c.conserved]

@[simp] theorem waiting_push (xs : List α) : (c.push xs).waiting = c.waiting ++ xs := rfl

theorem passed_prefix : c.passed <+: c.sent := by
  rw [c.conserved]
  exact List.prefix_append c.passed c.waiting

theorem passed_eq_sent_iff : c.passed = c.sent ↔ c.waiting = [] := by
  rw [c.conserved]
  exact List.self_eq_append_right

end Conduit

/-- What was accepted was passed on in batches, is in the batch that fills, or waits in the queue. -/
structure Batcher (α : Type*) where
  accepted : List α
  flushed : List (List α)
  batch : List α
  queue : List α
  conserved : accepted = flushed.flatten ++ (batch ++ queue)

namespace Batcher

variable {α : Type*} (b : Batcher α)

def empty : Batcher α := ⟨[], [], [], [], rfl⟩

def accept (x : α) : Batcher α where
  accepted := b.accepted ++ [x]
  flushed := b.flushed
  batch := b.batch
  queue := b.queue ++ [x]
  conserved := by rw [b.conserved, List.append_assoc, List.append_assoc]

/-- The first of the queue goes into the batch. -/
def take : Batcher α where
  accepted := b.accepted
  flushed := b.flushed
  batch := b.batch ++ b.queue.take 1
  queue := b.queue.drop 1
  conserved := by rw [List.append_assoc, List.take_append_drop, b.conserved]

def flush : Batcher α where
  accepted := b.accepted
  flushed := b.flushed ++ [b.batch]
  batch := []
  queue := b.queue
  conserved := by
    rw [List.flatten_append, List.flatten_singleton, List.nil_append, List.append_assoc, b.conserved]

@[simp] theorem queue_accept (x : α) : (b.accept x).queue = b.queue ++ [x] := rfl

@[simp] theorem flushed_flush : b.flush.flushed = b.flushed ++ [b.batch] := rfl

/-- Each once and in order. -/
theorem flatten_prefix : b.flushed.flatten <+: b.accepted := by
  rw [b.conserved]
  exact List.prefix_append b.flushed.flatten _

theorem flatten_eq_accepted_iff : b.flushed.flatten = b.accepted ↔ b.batch = [] ∧ b.queue = [] := by
  rw [b.conserved, List.self_eq_append_right, List.append_eq_nil_iff]

end Batcher
