import Mathlib.Logic.Function.Iterate
import Cyanide.Lib.ShortReads
import Cyanide.Vfs.Scp

/-!
# The sink on a byte stream

`_process_sink_protocol` reads a header byte by byte, and the data of a file in whatever chunks the channel returns.
`SinkRun.next` is one round of the loop, and `processSink` makes rounds until the protocol has ended.
-/

namespace Cyanide

open PosixPath PyText Transition

namespace ScpHandler

variable (U : Unicode)

/-- `_read_header`: the line through the next newline, decoded and stripped, and nothing at the end of the input. -/
def readHeader (input : ShortReads UInt8) : Str × ShortReads UInt8 :=
  match input.readThrough 10 with
  | (none, input) => ([], input)
  | (some header, input) => (strip (decodeIgnore header), input)

/-- `_read_file_data`. -/
def readFileData (size : ℕ) (input : ShortReads UInt8) : List UInt8 × ShortReads UInt8 := input.readExactly 8192 size

/-- The header of a record, and behind that of a file the data and one more byte. -/
def readRecord (input : ShortReads UInt8) : ScpRecord × ShortReads UInt8 :=
  let (header, input) := readHeader input
  match copyHeader U header with
  | none => (⟨header, []⟩, input)
  | some (_, size, _) =>
    let (content, input) := readFileData size input
    (⟨header, content⟩, (input.read 1).2)

/-- What a round of the loop meets. -/
structure Round where
  sink : ScpSink
  honeypot : Honeypot
  record : ScpRecord

/-- A state of the loop, with what it has written and the rounds that it has made. -/
structure SinkRun where
  sink : ScpSink
  honeypot : Honeypot
  input : ShortReads UInt8
  replies : List ScpReply
  rounds : List Round

def SinkRun.start (username path : Str) (P : Honeypot) (input : ShortReads UInt8) : SinkRun :=
  ⟨startSink username path, P, input, [], []⟩

def SinkRun.next (R : SinkRun) : SinkRun :=
  if R.sink.exit.isSome then R
  else
    let (r, input) := readRecord U R.input
    let (replies, sink, honeypot) := sinkRecord U R.sink R.honeypot r
    ⟨sink, honeypot, input, R.replies ++ replies, R.rounds ++ [⟨R.sink, R.honeypot, r⟩]⟩

/-- `_process_sink_protocol`: every round but the last takes a byte of the input at least. -/
def processSink (username path : Str) (P : Honeypot) (input : ShortReads UInt8) : SinkRun :=
  (SinkRun.next U)^[input.rest.length + 1] (.start username path P input)

/-! ### The end of the loop -/

theorem length_readHeader_lt {input : ShortReads UInt8} (h : (readHeader input).1 ≠ []) :
    (readHeader input).2.rest.length < input.rest.length := by
  unfold readHeader at h ⊢
  cases hread : input.readThrough 10 with
  | mk line rest =>
    rw [hread] at h
    cases line with
    | none => exact absurd rfl h
    | some line =>
      have hlt : (input.readThrough 10).2.rest.length < input.rest.length :=
        ShortReads.length_readThrough_lt (by simp [hread])
      rw [hread] at hlt
      exact hlt

theorem length_readFileData_le (size : ℕ) (input : ShortReads UInt8) :
    (readFileData size input).2.rest.length ≤ input.rest.length := by
  rw [readFileData, (ShortReads.readExactly_eq (by decide) size input).2, List.length_drop]
  omega

@[simp] theorem readRecord_header (input : ShortReads UInt8) :
    (readRecord U input).1.header = (readHeader input).1 := by
  unfold readRecord
  dsimp only
  split <;> rfl

/-- A record with a header is taken off the input. -/
theorem length_readRecord_lt {input : ShortReads UInt8} (h : (readRecord U input).1.header ≠ []) :
    (readRecord U input).2.rest.length < input.rest.length := by
  rw [readRecord_header] at h
  have hlt := length_readHeader_lt h
  unfold readRecord
  dsimp only
  split
  · exact hlt
  · rename_i size _ _
    have hdata := length_readFileData_le size (readHeader input).2
    have hread := ShortReads.length_rest_read_le 1 (readFileData size (readHeader input).2).2
    exact lt_of_le_of_lt (hread.trans hdata) hlt

theorem sinkRecord_nil {s : ScpSink} {P : Honeypot} {r : ScpRecord} (hs : s.exit = none) (hr : r.header = []) :
    (sinkRecord U s P r).2.1.exit = some 0 := by
  simp [sinkRecord, hs, hr]

/-- A round ends the loop or takes a byte of the input. -/
theorem SinkRun.next_lt (R : SinkRun) :
    (R.next U).sink.exit.isSome ∨ (R.next U).input.rest.length < R.input.rest.length := by
  unfold SinkRun.next
  split_ifs with hexit
  · exact .inl hexit
  · have hnone : R.sink.exit = none := by simpa using hexit
    by_cases hheader : (readRecord U R.input).1.header = []
    · left
      simp [sinkRecord_nil U hnone hheader]
    · exact .inr (length_readRecord_lt U hheader)

theorem SinkRun.next_of_exit {R : SinkRun} (h : R.sink.exit.isSome) : R.next U = R := if_pos h

private theorem exit_iterate (n : ℕ) (R : SinkRun) :
    ((SinkRun.next U)^[n] R).sink.exit.isSome ∨ ((SinkRun.next U)^[n] R).input.rest.length + n ≤ R.input.rest.length := by
  induction n with
  | zero => exact .inr le_rfl
  | succ n ih =>
    rw [Function.iterate_succ_apply']
    rcases ih with hexit | hle
    · rw [SinkRun.next_of_exit U hexit]
      exact .inl hexit
    · rcases SinkRun.next_lt U ((SinkRun.next U)^[n] R) with hexit | hlt
      · exact .inl hexit
      · right
        omega

/-- The loop ends on every input. -/
theorem exit_processSink (username path : Str) (P : Honeypot) (input : ShortReads UInt8) :
    (processSink U username path P input).sink.exit.isSome := by
  rcases exit_iterate U (input.rest.length + 1) (.start username path P input) with h | h
  · exact h
  · exfalso
    simp only [SinkRun.start] at h
    omega

/-- Rounds after the end of the loop do nothing, so that any number of them that ends it gives the run. -/
theorem processSink_eq_iterate {username path : Str} {P : Honeypot} {input : ShortReads UInt8} {n : ℕ}
    (h : ((SinkRun.next U)^[n] (.start username path P input)).sink.exit.isSome) :
    processSink U username path P input = (SinkRun.next U)^[n] (.start username path P input) := by
  have hstay : ∀ (k : ℕ) {R : SinkRun}, R.sink.exit.isSome → (SinkRun.next U)^[k] R = R := fun k R hR =>
    Function.iterate_fixed (SinkRun.next_of_exit U hR) k
  have hend := exit_processSink U username path P input
  rw [processSink] at hend ⊢
  rcases le_total n (input.rest.length + 1) with hle | hle
  · obtain ⟨k, hk⟩ := Nat.exists_eq_add_of_le' hle
    rw [hk, Function.iterate_add_apply, hstay k h]
  · obtain ⟨k, rfl⟩ := Nat.exists_eq_add_of_le' hle
    rw [Function.iterate_add_apply _ k, hstay k hend]

end ScpHandler

end Cyanide
