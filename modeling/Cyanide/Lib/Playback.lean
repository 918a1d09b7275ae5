import Mathlib.Data.List.Basic
import Mathlib.Data.List.Infix

/-!
# Playback

A recording is the pieces of a stream one after another, beside a list of labels with the lengths of the pieces.
`playback` cuts the stream again, as long as there is enough of it.  The pieces come back just when the lengths are the
right ones (`playback_eq_iff`); from a part of the recording the first pieces come back (`playback_prefix`).
-/

namespace Playback

variable {ι α : Type*}

/-- The labelled pieces, up to the first that is not there as a whole. -/
def playback : List (ι × ℕ) → List α → List (ι × List α)
  | [], _ => []
  | (i, n) :: marks, stream =>
    if n ≤ stream.length then (i, stream.take n) :: playback marks (stream.drop n) else []

/-- The marks that fit the pieces. -/
def marks (pieces : List (ι × List α)) : List (ι × ℕ) := pieces.map fun p => (p.1, p.2.length)

def stream (pieces : List (ι × List α)) : List α := pieces.flatMap Prod.snd

theorem playback_cons_append (i : ι) (piece : List α) (rest : List (ι × ℕ)) (s : List α) :
    playback ((i, piece.length) :: rest) (piece ++ s) = (i, piece) :: playback rest s := by
  rw [playback, if_pos (by simp), List.take_left, List.drop_left]

/-- The first marks and the first pieces of a recording, as many as there are of each. -/
theorem playback_prefix (pieces : List (ι × List α)) (k m : ℕ) :
    playback (marks (pieces.take k)) (stream (pieces.take m)) <+: pieces := by
  induction pieces generalizing k m with
  | nil => simp [marks, playback]
  | cons p pieces ih =>
    obtain ⟨i, piece⟩ := p
    cases k with
    | zero => exact List.nil_prefix
    | succ k =>
      cases m with
      | zero =>
        rw [List.take_zero, List.take_succ_cons]
        show playback ((i, piece.length) :: marks (pieces.take k)) [] <+: _
        cases piece with
        | nil =>
          have hrest := ih k 0
          exact List.cons_prefix_cons.2 ⟨rfl, hrest⟩
        | cons a piece => exact List.nil_prefix
      | succ m =>
        show playback ((i, piece.length) :: marks (pieces.take k)) (piece ++ stream (pieces.take m)) <+: _
        rw [playback_cons_append]
        exact List.cons_prefix_cons.2 ⟨rfl, ih k m⟩

/-- Whatever lengths are noted: the pieces come back just when each length is that of its piece. -/
theorem playback_eq_iff {β : Type*} (label : β → ι) (length : β → ℕ) (piece : β → List α) (l : List β) :
    playback (l.map fun x => (label x, length x)) (l.flatMap piece) = l.map (fun x => (label x, piece x)) ↔
      ∀ x ∈ l, length x = (piece x).length := by
  induction l with
  | nil => simp [playback]
  | cons x l ih =>
    rw [List.forall_mem_cons, List.map_cons, List.map_cons, List.flatMap_cons]
    constructor
    · intro h
      rw [playback] at h
      split at h
      · rename_i hle
        obtain ⟨hhead, htail⟩ := List.cons_eq_cons.1 h
        have hlen := congrArg List.length (Prod.ext_iff.1 hhead).2
        rw [List.length_take, Nat.min_eq_left hle] at hlen
        rw [hlen, List.drop_left] at htail
        exact ⟨hlen, ih.1 htail⟩
      · cases h
    · rintro ⟨hlen, hrest⟩
      rw [hlen, playback_cons_append, ih.2 hrest]

end Playback
