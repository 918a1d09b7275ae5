import Cyanide.Lib.Lines
import Cyanide.Shell.History
import Cyanide.Vfs.Layers

/-!
# `head` and `tail` on one file

Both commands slice the lines of the file, `tail` with `lines[-count:]`: a count of `0` is no count from the end, and
the whole file is printed. `splitsAndCounts_iff` says when the two outputs of a split make up the file.
-/

namespace Cyanide

open PosixPath PyText Traced Argparse

variable {W : World} {v : View} {M : Machine} {file : Str} {k : ℕ}

/-- The arguments `-n k file`. -/
def countArgs (k : ℕ) (file : Str) : List Str := ["-n".toList, natText k, file]

private theorem not_isSpace_of_isDigit {c : Char} (hc : c.isDigit = true) : isSpace c = false := by
  rw [Char.isDigit_iff_toNat] at hc
  change 48 ≤ c.toNat ∧ c.toNat ≤ 57 at hc
  simp [isSpace]
  omega

private theorem readInt_natText {U : Unicode} (hU : ReadsDigits U) (k : ℕ) : readInt U (natText k) = some (k : Int) := by
  have hdigits : ∀ c ∈ natText k, c.isDigit := fun c hc => isDigit_of_mem_natText hc
  have hstrip : strip (natText k) = natText k :=
    strip_eq_self (fun c hc => not_isSpace_of_isDigit (hdigits c (List.mem_of_mem_head? hc)))
      fun c hc => not_isSpace_of_isDigit (hdigits c (List.mem_of_mem_getLast? hc))
  rw [readInt, hstrip]
  split
  · rename_i cs heq
    exact absurd (hdigits '-' (by simp [heq])) (by decide)
  · rename_i cs heq
    exact absurd (hdigits '+' (by simp [heq])) (by decide)
  · rw [readNat_natText hU]
    rfl

/-- The word `file` is no option and no `--` to the parser of `head` and `tail`. -/
def IsOperand (file : Str) : Prop := file ≠ ['-', '-'] ∧ linesParser.parseOptional file = none

theorem isOperand_of_head? (h : file.head? ≠ some '-') : IsOperand file := by
  refine ⟨?_, if_pos h⟩
  rintro rfl
  exact h rfl

theorem parse_countArgs (hU : ReadsDigits W.unicode) (hfile : IsOperand file) (k : ℕ) :
    parseKnownArgs linesParser (readInt W.unicode) (countArgs k file) =
      some ⟨[("files".toList, .texts [file]), ("lines".toList, .int k)], []⟩ := by
  have hnum : IsOperand (natText k) := isOperand_of_head? fun h =>
    absurd (isDigit_of_mem_natText (List.mem_of_mem_head? h)) (by decide)
  have hclassify : linesParser.classify (countArgs k file) =
      [⟨"-n".toList, .opt [⟨some ⟨["-n".toList, "--lines".toList], "lines".toList, .int⟩, "-n".toList, none⟩]⟩,
        ⟨natText k, .arg⟩, ⟨file, .arg⟩] := by
    have hopt : linesParser.parseOptional "-n".toList =
        some [⟨some ⟨["-n".toList, "--lines".toList], "lines".toList, .int⟩, "-n".toList, none⟩] := rfl
    rw [countArgs, Parser.classify, if_neg (by decide), hopt, Parser.classify, if_neg hnum.1, hnum.2,
      Parser.classify, if_neg hfile.1, hfile.2, Parser.classify]
  rw [parseKnownArgs, hclassify]
  simp [parseLoop, Tagged.isOpt, linesParser, countArgs, consumeOptional, State.consumePositionals, Tagged.isArg,
    storeValue, readInt_natText hU, State.extra, State.assign, finish, matchPartial, counts, Nargs.count,
    Tagged.isDashes, positionalValue]

/-- The text of a file, as `get_content_str` gives it. -/
def textAt (M : Machine) (path : Str) : Str :=
  match (M.fs.getContent path).1 with
  | .text s => s
  | .bytes b => decodeReplace b

private theorem intercalate_nil_left (lines : List Str) : List.intercalate [] lines = lines.flatten := by
  induction lines with
  | nil => rfl
  | cons l lines ih =>
    cases lines with
    | nil => simp [List.intercalate]
    | cons l' lines =>
      rw [List.intercalate_cons_cons, ih]
      simp

private theorem joinTexts_text (lines : List Str) (M : Machine) :
    Leaf.joinTexts [] (lines.map .text) M = ⟨.ok lines.flatten, M, []⟩ := by
  rw [Leaf.joinTexts_map_text, intercalate_nil_left]

private theorem getContentStr_eq (M : Machine) (path : Str) :
    Leaf.getContentStr path M = ⟨.ok (textAt M path), { M with fs := (M.fs.getContent path).2 }, []⟩ := by
  unfold Leaf.getContentStr textAt
  show (match (M.fs.getContent path).1 with
    | .text s => (pure s : Leaf Str)
    | .bytes b => pure (decodeReplace b)) { M with fs := (M.fs.getContent path).2 } = _
  cases (M.fs.getContent path).1 <;> rfl

/-- `head` and `tail` on a file: the lines that are kept, put together, and the file is read. -/
theorem linesCommand_countArgs (hU : ReadsDigits W.unicode) (hfile : IsOperand file)
    (hdir : M.fs.isDir (resolvePath v.cwd file) = false) (hf : M.fs.isFile (resolvePath v.cwd file) = true)
    {name : String} {keep : Int → List Content → List Content} (kept : List Str → List Str)
    (hkeep : ∀ lines : List Str, keep k (lines.map .text) = (kept lines).map .text) (input : Content) :
    linesCommand W v name keep (countArgs k file) input M =
      ⟨.ok (.ok (kept (linesKeepEnds (textAt M (resolvePath v.cwd file)))).flatten),
        { M with fs := (M.fs.getContent (resolvePath v.cwd file)).2 }, []⟩ := by
  have hparse : parseArgs W v linesParser name (countArgs k file) M =
      (pure ⟨[("files".toList, .texts [file]), ("lines".toList, .int k)], []⟩ : Leaf Parsed) M := by
    unfold parseArgs
    rw [parse_countArgs hU hfile]
  unfold linesCommand
  rw [bind_congr_left hparse]
  show (if M.fs.isDir (resolvePath v.cwd file) = true then _ else _ : Leaf Output) M = _
  rw [hdir, if_neg Bool.false_ne_true]
  show (if M.fs.isFile (resolvePath v.cwd file) = true then (Leaf.getContentStr (resolvePath v.cwd file) >>=
    fun content => Leaf.joinTexts [] (keep k (Content.text content).linesKeepEnds) >>=
      fun out => pure (Output.ok out)) else _ : Leaf Output) M = _
  rw [hf, if_pos rfl]
  have hjoin : ∀ (text : Str) (M : Machine), (Leaf.joinTexts [] (keep k (Content.text text).linesKeepEnds) >>=
      fun out => pure (Output.ok out) : Leaf Output) M =
        ⟨.ok (.ok (kept (linesKeepEnds text)).flatten), M, []⟩ := by
    intro text M
    rw [Content.linesKeepEnds, hkeep, bind_ok (congrArg Outcome.result (joinTexts_text _ M)), joinTexts_text]
    rfl
  rw [bind_ok (congrArg Outcome.result (getContentStr_eq M _)), getContentStr_eq, hjoin]
  rfl

/-! ### Splitting a file -/

/-- Where the slice of `tail -n k` begins in a list of `n` lines: at the front for `-0`. -/
def tailStart (n k : ℕ) : ℕ := if k = 0 then 0 else n - k

section

variable (hU : ReadsDigits W.unicode) (hfile : IsOperand file)
  (hdir : M.fs.isDir (resolvePath v.cwd file) = false) (hf : M.fs.isFile (resolvePath v.cwd file) = true)

include hU hfile hdir hf

theorem headCommand_countArgs (k : ℕ) (input : Content) :
    headCommand W v (countArgs k file) input M =
      ⟨.ok (.ok ((linesKeepEnds (textAt M (resolvePath v.cwd file))).take k).flatten),
        { M with fs := (M.fs.getContent (resolvePath v.cwd file)).2 }, []⟩ := by
  refine linesCommand_countArgs hU hfile hdir hf (·.take k) (fun lines => ?_) input
  have hindex : sliceIndex (lines.map Content.text).length (k : Int) = k := by
    rw [sliceIndex, if_neg (by omega), Int.toNat_natCast]
  rw [hindex, List.map_take]

theorem tailCommand_countArgs (k : ℕ) (input : Content) :
    tailCommand W v (countArgs k file) input M =
      ⟨.ok (.ok ((linesKeepEnds (textAt M (resolvePath v.cwd file))).drop
          (tailStart (linesKeepEnds (textAt M (resolvePath v.cwd file))).length k)).flatten),
        { M with fs := (M.fs.getContent (resolvePath v.cwd file)).2 }, []⟩ := by
  refine linesCommand_countArgs hU hfile hdir hf (fun lines => lines.drop (tailStart lines.length k))
    (fun lines => ?_) input
  have hindex : sliceIndex (lines.map Content.text).length (-(k : Int)) = tailStart lines.length k := by
    rw [sliceIndex, tailStart, List.length_map]
    split_ifs <;> omega
  rw [hindex, List.map_drop]

end

/-- `head -n k` and then `tail -n (n - k)` print the text of a file of `n` lines, and each of the two prints
`min k n` lines when it is given `k`. -/
def SplitsAndCounts (W : World) (v : View) (M : Machine) (file : Str) (k : ℕ) : Prop :=
  let text := textAt M (resolvePath v.cwd file)
  let n := (linesKeepEnds text).length
  let head := headCommand W v (countArgs k file) (.text []) M
  (k ≤ n → ∃ a b, head.result = .ok (.ok a) ∧
    (tailCommand W v (countArgs (n - k) file) (.text []) head.state).result = .ok (.ok b) ∧ a ++ b = text) ∧
  (∃ a, head.result = .ok (.ok a) ∧ (linesKeepEnds a).length = min k n) ∧
  ∃ b, (tailCommand W v (countArgs k file) (.text []) M).result = .ok (.ok b) ∧ (linesKeepEnds b).length = min k n

/-- Reading a file changes neither its kind nor its text. -/
private theorem read_eq (M : Machine) (path : Str) :
    let M' : Machine := { M with fs := (M.fs.getContent path).2 }
    M'.fs.isDir path = M.fs.isDir path ∧ M'.fs.isFile path = M.fs.isFile path ∧ textAt M' path = textAt M path := by
  dsimp only
  rcases M.fs.getContent_snd path ∅ with h | ⟨op, h⟩
  · rw [h]
    exact ⟨rfl, rfl, rfl⟩
  · rw [h]
    refine ⟨rfl, rfl, ?_⟩
    unfold textAt
    rw [FakeFilesystem.content_eq, FakeFilesystem.content_eq]
    rfl

private theorem output_ok_inj {a b : Str} : (Except.ok (Output.ok a) : Except Exn Output) = .ok (.ok b) ↔ a = b := by
  simp [Output.ok]

/-- The two counts are off by none just when `0` is asked of no line: neither of `tail` directly, nor as the rest that
`head -n n` leaves. -/
theorem splitsAndCounts_iff (hU : ReadsDigits W.unicode) (hfile : IsOperand file)
    (hdir : M.fs.isDir (resolvePath v.cwd file) = false) (hf : M.fs.isFile (resolvePath v.cwd file) = true) (k : ℕ) :
    SplitsAndCounts W v M file k ↔
      textAt M (resolvePath v.cwd file) = [] ∨
        (k ≠ 0 ∧ k ≠ (linesKeepEnds (textAt M (resolvePath v.cwd file))).length) := by
  obtain ⟨hdir', hf', htext'⟩ := read_eq M (resolvePath v.cwd file)
  unfold SplitsAndCounts
  dsimp only
  rw [headCommand_countArgs hU hfile hdir hf, tailCommand_countArgs hU hfile hdir hf,
    tailCommand_countArgs hU hfile (hdir'.trans hdir) (hf'.trans hf), htext']
  generalize textAt M (resolvePath v.cwd file) = text
  simp only [output_ok_inj, exists_and_left, exists_eq_left']
  have hflat := flatten_linesKeepEnds text
  have hnil := linesKeepEnds_eq_nil_iff (s := text)
  rw [linesKeepEnds_take, linesKeepEnds_drop, List.length_take, List.length_drop]
  generalize linesKeepEnds text = lines at hflat hnil ⊢
  have hsplit : k ≠ lines.length → k ≤ lines.length →
      (lines.take k).flatten ++ (lines.drop (tailStart lines.length (lines.length - k))).flatten = text := by
    intro hne hle
    have hstart : tailStart lines.length (lines.length - k) = k := by
      rw [tailStart, if_neg (by omega)]
      omega
    rw [hstart, ← List.flatten_append, List.take_append_drop, hflat]
  constructor
  · rintro ⟨hlaw, -, hcount⟩
    by_contra hcon
    push Not at hcon
    obtain ⟨hne, hk⟩ := hcon
    have hpos : 0 < lines.length := List.length_pos_iff.2 fun h => hne (hnil.1 h)
    by_cases h0 : k = 0
    · rw [h0, tailStart, if_pos rfl] at hcount
      omega
    · -- everything is printed twice
      have hall := hlaw (hk h0).le
      rw [hk h0, Nat.sub_self, tailStart, if_pos rfl, List.take_length, List.drop_zero, hflat] at hall
      exact hne (List.self_eq_append_left.1 hall.symm)
  · rintro (htext | ⟨h0, hne⟩)
    · rw [hnil.2 htext, htext]
      simp
    · refine ⟨hsplit hne, rfl, ?_⟩
      rw [tailStart, if_neg h0]
      omega

/-- One line in `/f`. -/
def oneLine : Machine :=
  ⟨(plainFs.mkfile "/f".toList (.text "a\n".toList)).2, [], ∅, [], [], 0⟩

private def rootView : View := (plainShell "root".toList).view

theorem splitsAndCounts_oneLine : SplitsAndCounts plainWorld rootView oneLine "/f".toList 3 :=
  (splitsAndCounts_iff readsDigits_ascii (isOperand_of_head? (by decide)) (by decide +kernel) (by decide +kernel) 3).2
    (.inr ⟨by decide, by decide +kernel⟩)

/-- `head -n 1` and `tail -n 0` on a file of one line print the line twice, and `tail -n 0` prints one line, not none. -/
theorem not_splitsAndCounts_oneLine :
    ¬SplitsAndCounts plainWorld rootView oneLine "/f".toList 1 ∧
      ¬SplitsAndCounts plainWorld rootView oneLine "/f".toList 0 := by
  have hhead : (headCommand plainWorld rootView (countArgs 1 "/f".toList) (.text []) oneLine).result =
      .ok (.ok "a\n".toList) := by decide +kernel
  have htail : (tailCommand plainWorld rootView (countArgs 0 "/f".toList) (.text [])
      (headCommand plainWorld rootView (countArgs 1 "/f".toList) (.text []) oneLine).state).result =
        .ok (.ok "a\n".toList) := by decide +kernel
  have htail' : (tailCommand plainWorld rootView (countArgs 0 "/f".toList) (.text []) oneLine).result =
      .ok (.ok "a\n".toList) := by decide +kernel
  refine ⟨fun ⟨hlaw, _⟩ => ?_, fun ⟨_, _, b, hb, hcount⟩ => ?_⟩
  · obtain ⟨a, b, ha, hb, hab⟩ := hlaw (by decide +kernel)
    rw [hhead, output_ok_inj] at ha
    rw [show textAt oneLine (resolvePath rootView.cwd "/f".toList) = "a\n".toList from by decide +kernel] at hab hb
    rw [show (linesKeepEnds "a\n".toList).length - 1 = 0 from by decide, htail, output_ok_inj] at hb
    rw [← ha, ← hb] at hab
    exact absurd hab (by decide)
  · rw [htail', output_ok_inj] at hb
    rw [← hb] at hcount
    exact absurd hcount (by decide +kernel)

end Cyanide
