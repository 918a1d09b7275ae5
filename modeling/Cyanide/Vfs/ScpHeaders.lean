import Cyanide.Lib.Utf8
import Cyanide.Vfs.ScpStream

/-!
# Headers that are read back

The lines that a client sends for a file, a directory, the end of a directory and the times, and what the sink reads
in them.
-/

namespace PyText

/-- A text without white space at its ends. -/
def Trimmed (s : List Char) : Prop := (∀ c ∈ s.head?, isSpace c = false) ∧ ∀ c ∈ s.getLast?, isSpace c = false

theorem trimmed_cons_append {c : Char} (a : List Char) {b : List Char} (hc : isSpace c = false) (hne : b ≠ [])
    (hb : ∀ d ∈ b.getLast?, isSpace d = false) : Trimmed (c :: a ++ b) := by
  refine ⟨by simpa using hc, fun d hd => hb d ?_⟩
  rwa [List.getLast?_append_of_ne_nil _ hne] at hd

theorem strip_line {s : List Char} (hne : s ≠ []) (h : Trimmed s) : strip (s ++ ['\n']) = s := by
  obtain ⟨c, cs, rfl⟩ := List.exists_cons_of_ne_nil hne
  have hhead : isSpace c = false := h.1 c rfl
  have hlast : isSpace ((c :: cs).getLast (by simp)) = false := h.2 _ (List.getLast?_eq_some_getLast (by simp))
  rw [strip, stripWhile, List.cons_append, List.dropWhile_cons_of_neg (by simp [hhead]), ← List.cons_append,
    List.rdropWhile_concat_pos _ _ _ (by decide)]
  exact List.rdropWhile_eq_self_iff.2 fun _ => by simp [hlast]

end PyText

namespace Cyanide

open PosixPath PyText

namespace ScpHandler

variable {U : Unicode}

/-! ### The lines -/

def fileHeader (mode size : ℕ) (name : Str) : Str := 'C' :: octalText mode ++ ' ' :: natText size ++ ' ' :: name

def directoryHeader (mode : ℕ) (name : Str) : Str := 'D' :: octalText mode ++ " 0 ".toList ++ name

def timesHeader (mtime atime : ℕ) : Str := 'T' :: natText mtime ++ " 0 ".toList ++ natText atime ++ " 0".toList

/-- A header with its newline, as it is sent. -/
def lineBytes (header : Str) : List UInt8 := (Content.text (header ++ ['\n'])).encode

/-- A name that can stand at the end of a header. -/
structure Sendable (name : Str) : Prop where
  ne_nil : name ≠ []
  newline : '\n' ∉ name
  trailing : ∀ c ∈ name.getLast?, isSpace c = false

/-- A line that stripping leaves as it is. -/
structure IsLine (header : Str) : Prop where
  ne_nil : header ≠ []
  newline : '\n' ∉ header
  trimmed : Trimmed header

/-- A letter that is no white space can be a name and a line. -/
theorem sendable_singleton {c : Char} (hc : isSpace c = false) : Sendable [c] where
  ne_nil := by simp
  newline h := by
    obtain rfl : '\n' = c := by simpa using h
    exact absurd hc (by decide)
  trailing := by simpa using hc

theorem isLine_singleton {c : Char} (hc : isSpace c = false) : IsLine [c] where
  ne_nil := by simp
  newline := (sendable_singleton hc).newline
  trimmed := ⟨by simpa using hc, by simpa using hc⟩

/-! ### Reading a line -/

/-- A header that is stripped comes back from its line. -/
theorem readHeader_line {header : Str} (h : IsLine header)
    {input : ShortReads UInt8} {rest : List UInt8} (hin : input.rest = lineBytes header ++ rest) :
    (readHeader input).1 = header ∧ (readHeader input).2.rest = rest := by
  have hline : lineBytes header = header.flatMap String.utf8EncodeChar ++ [10] := by
    simp only [lineBytes, Content.encode, List.flatMap_append]
    rfl
  rw [hline, List.append_assoc, List.singleton_append] at hin
  obtain ⟨hread, hrest⟩ := ShortReads.readThrough_append (newline_notMem_encode h.newline) hin
  rw [← hline] at hread
  unfold readHeader
  rw [← Prod.mk.eta (p := input.readThrough 10), hread]
  refine ⟨?_, hrest⟩
  show strip (decodeIgnore (lineBytes header)) = header
  rw [lineBytes, Content.encode, decodeIgnore, decodeFrom_encode, strip_line h.ne_nil h.trimmed]

theorem readHeader_nil {input : ShortReads UInt8} (hin : input.rest = []) :
    (readHeader input).1 = [] ∧ (readHeader input).2.rest = [] := by
  obtain ⟨hline, hrest⟩ := ShortReads.readThrough_nil hin
  unfold readHeader
  rw [← Prod.mk.eta (p := input.readThrough 10), hline]
  exact ⟨rfl, hrest⟩

/-! ### The groups of a header -/

private theorem takeWhile_digits (hU : ReadsDigits U) {size : Str} (hsize : ∀ c ∈ size, c.isDigit) (t : Str) :
    (size ++ ' ' :: t).takeWhile (fun d => (U.decimal d).isSome) = size ∧
      (size ++ ' ' :: t).dropWhile (fun d => (U.decimal d).isSome) = ' ' :: t := by
  have hall : ∀ c ∈ size, (U.decimal c).isSome := fun c hc => by rw [hU.digit c (hsize c hc)]; rfl
  rw [List.takeWhile_append_of_pos hall, List.dropWhile_append_of_pos hall]
  simp [hU.space]

/-- What a header with a mode of four digits, a size and a name is read as. -/
theorem parseHeader_eq (hU : ReadsDigits U) (letter : Char) {mode size name : Str} (hmode : mode.length = 4)
    (hmode' : ∀ c ∈ mode, c.isDigit) (hsize : size ≠ []) (hsize' : ∀ c ∈ size, c.isDigit) (hname : name ≠ [])
    (hname' : '\n' ∉ name) :
    parseHeader U letter (letter :: mode ++ ' ' :: size ++ ' ' :: name) = some (mode, size, name) := by
  have htake : (mode ++ ' ' :: (size ++ ' ' :: name)).take 4 = mode := by
    rw [← hmode, List.take_left]
  have hdrop : (mode ++ ' ' :: (size ++ ' ' :: name)).drop 4 = ' ' :: (size ++ ' ' :: name) := by
    rw [← hmode, List.drop_left]
  have hall : mode.all (fun d => (U.decimal d).isSome) = true := by
    rw [List.all_eq_true]
    intro c hc
    rw [hU.digit c (hmode' c hc)]
    rfl
  obtain ⟨hsizes, hrest⟩ := takeWhile_digits hU hsize' name
  have hnames : name.takeWhile (· ≠ '\n') = name := by
    rw [List.takeWhile_eq_self_iff]
    intro c hc
    simpa using fun heq : c = '\n' => hname' (heq ▸ hc)
  simp only [List.cons_append, List.append_assoc, parseHeader, htake, hdrop, hmode, hall, hrest, hsizes, hnames]
  simp [hsize, hname]

theorem length_octalText (mode : ℕ) : (octalText mode).length = 4 := by
  have hone : ∀ n, n < 8 → (natText n).length = 1 := by decide
  simp [octalText, hone, Nat.mod_lt]

theorem isDigit_of_mem_octalText {mode : ℕ} {c : Char} (hc : c ∈ octalText mode) : c.isDigit := by
  obtain ⟨i, -, hc⟩ := List.mem_flatMap.1 hc
  exact isDigit_of_mem_natText hc

theorem copyHeader_fileHeader (hU : ReadsDigits U) {name : Str} (hname : Sendable name) (mode size : ℕ) :
    copyHeader U (fileHeader mode size name) = some (octalText mode, size, name) := by
  rw [copyHeader, fileHeader, parseHeader_eq hU 'C' (length_octalText mode) (fun c => isDigit_of_mem_octalText)
    (natText_ne_nil size) (fun c => isDigit_of_mem_natText) hname.ne_nil hname.newline]
  simp [readNat_natText hU]

theorem dirHeader_directoryHeader (hU : ReadsDigits U) {name : Str} (hname : Sendable name) (mode : ℕ) :
    dirHeader U (directoryHeader mode name) = some (octalText mode, name) := by
  have hshape : directoryHeader mode name = 'D' :: octalText mode ++ ' ' :: ['0'] ++ ' ' :: name := by
    simp [directoryHeader]
  rw [dirHeader, hshape, parseHeader_eq hU 'D' (length_octalText mode) (fun c => isDigit_of_mem_octalText)
    (by simp) (by simp) hname.ne_nil hname.newline]
  rfl

/-! ### The records -/

theorem readRecord_nil {input : ShortReads UInt8} (hin : input.rest = []) :
    (readRecord U input).1 = ⟨[], []⟩ ∧ (readRecord U input).2.rest = [] := by
  obtain ⟨hread, hrest⟩ := readHeader_nil hin
  unfold readRecord
  dsimp only
  rw [hread]
  exact ⟨rfl, hrest⟩

/-- A line that is no file header is a record of its own. -/
theorem readRecord_line {header : Str} (h : IsLine header) (hcopy : copyHeader U header = none)
    {input : ShortReads UInt8} {rest : List UInt8} (hin : input.rest = lineBytes header ++ rest) :
    (readRecord U input).1 = ⟨header, []⟩ ∧ (readRecord U input).2.rest = rest := by
  obtain ⟨hread, hrest⟩ := readHeader_line h hin
  unfold readRecord
  dsimp only
  rw [hread, hcopy]
  exact ⟨rfl, hrest⟩

private theorem newline_notMem_natText (n : ℕ) : '\n' ∉ natText n := fun h =>
  absurd (isDigit_of_mem_natText h) (by decide)

private theorem newline_notMem_octalText (mode : ℕ) : '\n' ∉ octalText mode := fun h =>
  absurd (isDigit_of_mem_octalText h) (by decide)

theorem isLine_fileHeader {name : Str} (hname : Sendable name) (mode size : ℕ) :
    IsLine (fileHeader mode size name) where
  ne_nil := by simp [fileHeader]
  newline := by
    simp [fileHeader, newline_notMem_octalText, newline_notMem_natText, hname.newline]
  trimmed := by
    have hshape : fileHeader mode size name = 'C' :: (octalText mode ++ ' ' :: natText size ++ [' ']) ++ name := by
      simp [fileHeader]
    rw [hshape]
    exact trimmed_cons_append _ (by decide) hname.ne_nil hname.trailing

theorem isLine_directoryHeader {name : Str} (hname : Sendable name) (mode : ℕ) :
    IsLine (directoryHeader mode name) where
  ne_nil := by simp [directoryHeader]
  newline := by
    simp [directoryHeader, newline_notMem_octalText, hname.newline]
  trimmed := trimmed_cons_append (octalText mode ++ " 0 ".toList) (by decide) hname.ne_nil hname.trailing

theorem isLine_timesHeader (mtime atime : ℕ) : IsLine (timesHeader mtime atime) where
  ne_nil := by simp [timesHeader]
  newline := by
    simp [timesHeader, newline_notMem_natText]
  trimmed := trimmed_cons_append (natText mtime ++ " 0 ".toList ++ natText atime) (by decide) (by decide) fun d hd => by
    obtain rfl : '0' = d := by simpa using hd
    decide

/-- A file is read with all its data and the byte behind it, however the reads cut them. -/
theorem readRecord_file (hU : ReadsDigits U) {name : Str} (hname : Sendable name) (mode : ℕ) (content : List UInt8)
    {input : ShortReads UInt8} {rest : List UInt8}
    (hin : input.rest = lineBytes (fileHeader mode content.length name) ++ (content ++ 0 :: rest)) :
    (readRecord U input).1 = ⟨fileHeader mode content.length name, content⟩ ∧ (readRecord U input).2.rest = rest := by
  obtain ⟨hread, hrest⟩ := readHeader_line (isLine_fileHeader hname mode content.length) hin
  obtain ⟨hdata, hrest'⟩ := ShortReads.readExactly_eq (show 0 < 8192 by decide) content.length (readHeader input).2
  rw [hrest, List.take_left] at hdata
  rw [hrest, List.drop_left] at hrest'
  unfold readRecord
  dsimp only
  rw [hread, copyHeader_fileHeader hU hname]
  dsimp only [readFileData]
  rw [hdata]
  exact ⟨rfl, (ShortReads.read_one_cons hrest').2⟩

end ScpHandler

end Cyanide
