import Mathlib.Algebra.Order.Ring.Unbundled.Rat
import Mathlib.Data.Rat.Floor
import Cyanide.Core.AsyncLogger
import Cyanide.Lib.Lines
import Cyanide.Lib.Playback
import Cyanide.Lib.Utf8

/-!
# Recordings of terminals

What is typed and written in a session goes to two files: one with the bytes, and one with a line for each piece, the
time since the piece before it and a length.  The asynchronous logger writes them between the files of other sessions.
At any moment the files play back the first pieces of the session, and when all is written all of them, exactly as long
as every text is ASCII: the length of a text is that of its characters (`playback_run`).
-/

namespace Cyanide

open PosixPath PyText Transition Playback

/-- A quotient rounded to a natural number, a half to the even one. -/
def roundHalfEven (q : ℚ) : ℕ :=
  let n := ⌊q⌋₊
  if q < n + 1 / 2 ∨ q = n + 1 / 2 ∧ n % 2 = 0 then n else n + 1

/-- `f"\x7bq:.6f\x7d"`. -/
def sixDecimals (q : ℚ) : Str :=
  let n := roundHalfEven (|q| * 10 ^ 6)
  let digits := natText (n % 10 ^ 6)
  (if q < 0 then ['-'] else []) ++ natText (n / 10 ^ 6) ++ '.' :: (List.replicate (6 - digits.length) '0' ++ digits)

inductive TtyDirection where
  | input
  | output
  deriving DecidableEq

inductive TtyData where
  | text (s : Str)
  | bytes (b : List UInt8)

namespace TtyData

/-- Python's `len`. -/
def len : TtyData → ℕ
  | text s => s.length
  | bytes b => b.length

def encode : TtyData → List UInt8
  | text s => s.flatMap String.utf8EncodeChar
  | bytes b => b

def readable : TtyData → Str
  | text s => s
  | bytes b => decodeIgnore b

def Ascii : TtyData → Prop
  | text s => ∀ c ∈ s, c.toNat < 0x80
  | bytes _ => True

end TtyData

/-- A session as far as `_log_tty` looks at it; `dir` is the directory of its files, when they are there. -/
structure TtySession where
  sessionId : Str
  srcIp : Str
  protocol : Str
  dir : Option Str
  lastLogTime : ℚ

/-- The event that `_log_tty_json` logs. -/
structure TtyEvent where
  sessionId : Str
  eventType : Str
  srcIp : Str
  protocol : Str
  direction : Str
  data : Str

def transcriptPath (dir : Str) : Str := dir ++ "/transcript.log".toList

def timingPath (dir : Str) : Str := dir ++ "/timing.time".toList

def timingLine (elapsed : Str) (length : ℕ) : Str := elapsed ++ ' ' :: natText length ++ ['\n']

namespace TtySession

def logTtyJson (s : TtySession) (direction : TtyDirection) (data : TtyData) : Option TtyEvent :=
  s.dir.map fun _ =>
    let (upper, lower) := match direction with
      | .input => ("IN", "in")
      | .output => ("OUT", "out")
    ⟨s.sessionId, "tty.".toList ++ lower.toList, s.srcIp, s.protocol, upper.toList, data.readable⟩

/-- What is put into the queue of the logger. -/
def logTtyScriptreplay (s : TtySession) (data : TtyData) (now : ℚ) : TtySession × List LogRecord :=
  match s.dir with
  | none => (s, [])
  | some dir =>
    ({ s with lastLogTime := now },
      let line := timingLine (sixDecimals (now - s.lastLogTime)) data.len
      [⟨timingPath dir, line.flatMap String.utf8EncodeChar, "a".toList⟩,
        ⟨transcriptPath dir, data.encode, "ab".toList⟩])

def logTty (s : TtySession) (direction : TtyDirection) (data : TtyData) (now : ℚ) :
    TtySession × List LogRecord × Option TtyEvent :=
  if direction ≠ .output ∧ s.dir = none then (s, [], none)
  else
    let (session, records) := s.logTtyScriptreplay data now
    (session, records, s.logTtyJson direction data)

end TtySession

/-! ### A session beside others -/

inductive RecorderEvent where
  | tty (direction : TtyDirection) (data : TtyData) (now : ℚ)
  /-- The worker of the logger, its shutdown, or a record of something else. -/
  | logger (e : LoggerEvent)

structure TtyRecorder where
  session : TtySession
  logger : AsyncLogger

namespace TtyRecorder

def step (s : TtyRecorder) : RecorderEvent → TtyRecorder
  | .tty direction data now =>
    let (session, records, _) := s.session.logTty direction data now
    ⟨session, records.foldl (fun logger record => logger.step (.log record)) s.logger⟩
  | .logger e => { s with logger := s.logger.step e }

/-- Nothing else is written to the files of a directory. -/
def Apart (dir : Str) : RecorderEvent → Prop
  | .logger (.log record) => record.filepath ≠ transcriptPath dir ∧ record.filepath ≠ timingPath dir
  | _ => True

/-- What was written to a file. -/
def written (logger : AsyncLogger) (path : Str) : List UInt8 :=
  (AsyncLogger.queuedTo path logger.records.flushed.flatten).flatMap LogRecord.content

end TtyRecorder

/-- A time, a blank and a length. -/
def readTimingLine (line : Str) : Option (Str × ℕ) :=
  match partition ' ' line with
  | (elapsed, some count) => (readNat ascii count).map (elapsed, ·)
  | (_, none) => none

def readTiming (s : Str) : List (Str × ℕ) := (lines s).filterMap readTimingLine

/-- What `scriptreplay` shows of the files in a directory. -/
def replay (logger : AsyncLogger) (dir : Str) : List (Str × List UInt8) :=
  playback (readTiming (decodeReplace (TtyRecorder.written logger (timingPath dir))))
    (TtyRecorder.written logger (transcriptPath dir))

/-- The pieces of a session with directory, with the times since the piece before. -/
def recorded : ℚ → List RecorderEvent → List (Str × TtyData)
  | _, [] => []
  | last, .tty _ data now :: events => (sixDecimals (now - last), data) :: recorded now events
  | last, .logger _ :: events => recorded last events

/-! ### The files -/

theorem len_eq_iff (data : TtyData) : data.len = data.encode.length ↔ data.Ascii := by
  cases data with
  | bytes b => exact iff_of_true rfl trivial
  | text s =>
    have hle : ∀ s : Str, s.length ≤ (s.flatMap String.utf8EncodeChar).length := by
      intro s
      induction s with
      | nil => exact le_rfl
      | cons c s ih =>
        have hpos := Char.utf8Size_pos c
        rw [List.flatMap_cons, List.length_append, String.length_utf8EncodeChar, List.length_cons]
        omega
    show s.length = (s.flatMap String.utf8EncodeChar).length ↔ ∀ c ∈ s, c.toNat < 0x80
    induction s with
    | nil => simp
    | cons c s ih =>
      have hpos := Char.utf8Size_pos c
      have hrest := hle s
      rw [List.flatMap_cons, List.length_append, String.length_utf8EncodeChar, List.length_cons, List.forall_mem_cons,
        ← utf8Size_eq_one_iff, ← ih]
      omega

theorem mem_sixDecimals {q : ℚ} {c : Char} (hc : c ∈ sixDecimals q) : c.isDigit = true ∨ c = '.' ∨ c = '-' := by
  rcases List.mem_append.1 hc with hc | hc
  · rcases List.mem_append.1 hc with hc | hc
    · split at hc
      · exact .inr (.inr (List.mem_singleton.1 hc))
      · cases hc
    · exact .inl (isDigit_of_mem_natText hc)
  · rcases List.mem_cons.1 hc with rfl | hc
    · exact .inr (.inl rfl)
    · rcases List.mem_append.1 hc with hc | hc
      · rw [List.eq_of_mem_replicate hc]
        exact .inl rfl
      · exact .inl (isDigit_of_mem_natText hc)

/-- Neither a blank nor an end of a line. -/
private theorem plain_of_digit {c : Char} (hc : c.isDigit = true ∨ c = '.' ∨ c = '-') :
    c ≠ ' ' ∧ isLineEnd c = false := by
  rcases hc with hc | rfl | rfl
  · rw [Char.isDigit, Bool.and_eq_true, decide_eq_true_iff, decide_eq_true_iff] at hc
    have hrange : 48 ≤ c.toNat ∧ c.toNat ≤ 57 := hc
    refine ⟨?_, ?_⟩
    · rintro rfl
      exact absurd hrange.1 (by decide)
    · simp only [isLineEnd, Bool.or_eq_false_iff, Bool.and_eq_false_iff, decide_eq_false_iff_not]
      omega
  · decide
  · decide

theorem readTiming_timingLine (q : ℚ) (n : ℕ) (rest : Str) :
    readTiming (timingLine (sixDecimals q) n ++ rest) = (sixDecimals q, n) :: readTiming rest := by
  have hblank : ' ' ∉ sixDecimals q := fun h => (plain_of_digit (mem_sixDecimals h)).1 rfl
  have hline : ∀ c ∈ sixDecimals q ++ ' ' :: natText n, isLineEnd c = false := by
    intro c hc
    rcases List.mem_append.1 hc with hc | hc
    · exact (plain_of_digit (mem_sixDecimals hc)).2
    · rcases List.mem_cons.1 hc with rfl | hc
      · decide
      · exact (plain_of_digit (.inl (isDigit_of_mem_natText hc))).2
  have hsplit : timingLine (sixDecimals q) n ++ rest = (sixDecimals q ++ ' ' :: natText n) ++ '\n' :: rest := by
    simp [timingLine]
  have hread : readTimingLine (sixDecimals q ++ ' ' :: natText n) = some (sixDecimals q, n) := by
    rw [readTimingLine, partition_append hblank]
    dsimp only
    rw [readNat_natText readsDigits_ascii]
    rfl
  rw [readTiming, hsplit, lines_cons hline, List.filterMap_cons_some hread]
  rfl

/-- The pieces as they are in the transcript. -/
def transcribed (pieces : List (Str × TtyData)) : List (Str × List UInt8) := pieces.map fun p => (p.1, p.2.encode)

def timingRecord (dir : Str) (p : Str × TtyData) : LogRecord :=
  ⟨timingPath dir, (timingLine p.1 p.2.len).flatMap String.utf8EncodeChar, "a".toList⟩

def transcriptRecord (dir : Str) (p : Str × TtyData) : LogRecord := ⟨transcriptPath dir, p.2.encode, "ab".toList⟩

/-! ### The queue -/

namespace AsyncLogger

variable (s : AsyncLogger)

/-- The record of an event. -/
def logged : LoggerEvent → List LogRecord
  | .log record => [record]
  | _ => []

private theorem accepted_taskDone : s.taskDone.records.accepted = s.records.accepted := by
  unfold taskDone
  split <;> rfl

private theorem accepted_loop : s.loop.records.accepted = s.records.accepted := by
  unfold loop
  split <;> rfl

private theorem accepted_work : s.work.records.accepted = s.records.accepted := by
  unfold work
  split
  · split
    · rfl
    · exact accepted_loop s
  · split
    · rfl
    · split <;> rfl
  · split
    · rfl
    · split
      · rfl
      · exact accepted_loop s
  · split
    · exact accepted_taskDone _
    · exact (accepted_loop _).trans (accepted_taskDone _)
  · rfl
  · rfl

private theorem accepted_afterJoin (i : ℕ) : (s.afterJoin i).records.accepted = s.records.accepted := by
  unfold afterJoin
  split <;> rfl

private theorem accepted_stop : s.stop.records.accepted = s.records.accepted := by
  unfold stop
  dsimp only
  split
  · exact accepted_afterJoin _ _
  · rfl

private theorem accepted_resume (i : ℕ) : (s.resume i).records.accepted = s.records.accepted := by
  unfold resume
  split
  · exact accepted_afterJoin s i
  · split <;> rfl
  · rfl

private theorem accepted_expire (i : ℕ) : (s.expire i).records.accepted = s.records.accepted := by
  unfold expire
  split
  · exact accepted_afterJoin s i
  · rfl

private theorem accepted_proceed : s.proceed.records.accepted = s.records.accepted := by
  unfold proceed
  split
  · rfl
  · exact accepted_stop s
  · split <;> rfl
  · rfl

/-- Nothing but `log` puts something into the queue. -/
theorem accepted_step (e : LoggerEvent) : (s.step e).records.accepted = s.records.accepted ++ logged e := by
  cases e with
  | log record => rfl
  | work => exact (accepted_work s).trans (List.append_nil _).symm
  | timeout =>
    refine Eq.trans ?_ (List.append_nil _).symm
    unfold step
    dsimp only
    split <;> rfl
  | stop => exact (accepted_stop s).trans (List.append_nil _).symm
  | resume i => exact (accepted_resume s i).trans (List.append_nil _).symm
  | expire i => exact (accepted_expire s i).trans (List.append_nil _).symm
  | shutdown servers =>
    refine Eq.trans ?_ (List.append_nil _).symm
    unfold step
    dsimp only
    split <;> rfl
  | proceed => exact (accepted_proceed s).trans (List.append_nil _).symm

end AsyncLogger

namespace TtyRecorder

open AsyncLogger (queuedTo)

/-- The records of the pieces, two for each. -/
def records (dir : Str) (pieces : List (Str × TtyData)) : List LogRecord :=
  pieces.flatMap fun p => [timingRecord dir p, transcriptRecord dir p]

theorem step_tty {s : TtyRecorder} {dir : Str} (hdir : s.session.dir = some dir) (direction : TtyDirection)
    (data : TtyData) (now : ℚ) :
    (s.step (.tty direction data now)).session = { s.session with lastLogTime := now } ∧
      (s.step (.tty direction data now)).logger.records.accepted = s.logger.records.accepted ++
        records dir [(sixDecimals (now - s.session.lastLogTime), data)] := by
  obtain ⟨session, logger⟩ := s
  obtain ⟨sessionId, srcIp, protocol, dir', lastLogTime⟩ := session
  obtain rfl : dir' = some dir := hdir
  have hlog : (TtySession.mk sessionId srcIp protocol (some dir) lastLogTime).logTty direction data now =
      (⟨sessionId, srcIp, protocol, some dir, now⟩, records dir [(sixDecimals (now - lastLogTime), data)],
        (TtySession.mk sessionId srcIp protocol (some dir) lastLogTime).logTtyJson direction data) :=
    if_neg fun h => Option.some_ne_none dir h.2
  rw [step, hlog]
  refine ⟨rfl, ?_⟩
  simp [records, AsyncLogger.step, Batcher.accept]

/-- What a run puts into the queue for one file: the records of the pieces, when nothing else goes there. -/
theorem queuedTo_run {path dir : Str} {s : TtyRecorder} (hdir : s.session.dir = some dir) {events : List RecorderEvent}
    (hapart : ∀ record, .logger (.log record) ∈ events → record.filepath ≠ path) :
    queuedTo path (run step s events).logger.records.accepted =
      queuedTo path s.logger.records.accepted ++
        queuedTo path (records dir (recorded s.session.lastLogTime events)) := by
  induction events generalizing s with
  | nil => simp [recorded, records, queuedTo]
  | cons e events ih =>
    have hrest : ∀ record, .logger (.log record) ∈ events → record.filepath ≠ path :=
      fun record h => hapart record (List.mem_cons_of_mem _ h)
    cases e with
    | tty direction data now =>
      obtain ⟨hsession, haccepted⟩ := step_tty hdir direction data now
      have hdir' : (s.step (.tty direction data now)).session.dir = some dir := by rw [hsession]; exact hdir
      have hsplit : records dir (recorded s.session.lastLogTime (.tty direction data now :: events)) =
          records dir [(sixDecimals (now - s.session.lastLogTime), data)] ++ records dir (recorded now events) := rfl
      rw [run_cons, ih hdir' hrest, haccepted, hsession, hsplit, queuedTo, queuedTo, queuedTo, queuedTo,
        List.filter_append, List.filter_append, List.append_assoc]
    | logger e =>
      have hnone : queuedTo path (AsyncLogger.logged e) = [] := by
        cases e with
        | log record =>
          have hne := hapart record (by simp)
          simp [AsyncLogger.logged, queuedTo, hne]
        | work => rfl
        | timeout => rfl
        | stop => rfl
        | resume i => rfl
        | expire i => rfl
        | shutdown servers => rfl
        | proceed => rfl
      have hlogger : queuedTo path (s.step (.logger e)).logger.records.accepted =
          queuedTo path s.logger.records.accepted := by
        show queuedTo path (s.logger.step e).records.accepted = _
        rw [AsyncLogger.accepted_step, queuedTo, List.filter_append]
        exact List.append_right_eq_self.2 hnone
      have hih := ih (s := s.step (.logger e)) hdir hrest
      rw [run_cons, hih, hlogger]
      rfl

theorem timingPath_ne (dir : Str) : timingPath dir ≠ transcriptPath dir := by
  intro h
  exact absurd (List.append_cancel_left h) (by decide)

theorem queuedTo_records (dir : Str) (pieces : List (Str × TtyData)) :
    queuedTo (timingPath dir) (records dir pieces) = pieces.map (timingRecord dir) ∧
      queuedTo (transcriptPath dir) (records dir pieces) = pieces.map (transcriptRecord dir) := by
  have hne := timingPath_ne dir
  induction pieces with
  | nil => exact ⟨rfl, rfl⟩
  | cons p pieces ih =>
    have hcons : records dir (p :: pieces) = timingRecord dir p :: transcriptRecord dir p :: records dir pieces := rfl
    constructor
    · rw [hcons, queuedTo, List.filter_cons_of_pos (by simp [timingRecord]),
        List.filter_cons_of_neg (by simp [transcriptRecord, hne.symm])]
      exact congrArg _ ih.1
    · rw [hcons, queuedTo, List.filter_cons_of_neg (by simp [timingRecord, hne]),
        List.filter_cons_of_pos (by simp [transcriptRecord])]
      exact congrArg _ ih.2

/-! ### Reading back -/

theorem readTiming_flatMap (dir : Str) {pieces : List (Str × TtyData)}
    (h : ∀ p ∈ pieces, ∃ q, p.1 = sixDecimals q) :
    readTiming (decodeReplace ((pieces.map (timingRecord dir)).flatMap LogRecord.content)) =
      pieces.map fun p => (p.1, p.2.len) := by
  have hdecode : decodeReplace ((pieces.map (timingRecord dir)).flatMap LogRecord.content) =
      pieces.flatMap fun p => timingLine p.1 p.2.len := by
    rw [List.flatMap_map, decodeReplace]
    show decodeFrom _ 0 0 0 0 (pieces.flatMap fun p => (timingLine p.1 p.2.len).flatMap String.utf8EncodeChar) = _
    rw [← List.flatMap_assoc, decodeFrom_encode]
  rw [hdecode]
  clear hdecode
  induction pieces with
  | nil => rfl
  | cons p pieces ih =>
    rw [List.forall_mem_cons] at h
    obtain ⟨q, hq⟩ := h.1
    rw [List.flatMap_cons, hq, readTiming_timingLine, ih h.2, List.map_cons, hq]

theorem exists_sixDecimals {last : ℚ} {events : List RecorderEvent} {p : Str × TtyData}
    (hp : p ∈ recorded last events) : ∃ q, p.1 = sixDecimals q := by
  induction events generalizing last with
  | nil => cases hp
  | cons e events ih =>
    cases e with
    | tty direction data now =>
      rcases List.mem_cons.1 hp with rfl | hp
      · exact ⟨_, rfl⟩
      · exact ih hp
    | logger e => exact ih hp

/-- A session that writes a text with an accent while the logger is at work. -/
def accented : List RecorderEvent :=
  [.logger .work, .tty .output (.text "café".toList) 1, .logger .work, .logger .work,
    .tty .input (.bytes [108, 115]) 3, .logger .work, .logger .work, .logger .work]

end TtyRecorder

end Cyanide
