import Cyanide.Lib.Lines
import Cyanide.Shell.OutputSize
import Cyanide.Vfs.SameFiles

/-!
# Editors

The editors, `crontab -e` and `visudo` split a file into lines, take lines from the client through their callbacks until
one of their words saves or quits, and join the lines again, each with a newline.  `Editing.At` says what an editor that
waits for a line has captured: it starts with the lines of the file (`at_start`), an entered line is added
(`at_execute`), a word that saves writes them (`at_saves`), and one that quits leaves the filesystem alone
(`fs_of_quits`).
-/

namespace Cyanide

open PosixPath PyText Traced FakeFilesystem

/-! ### The editors -/

/-- A command that edits a file, with its name or its arguments. -/
inductive Editing where
  | editor (name : Str) (args : List Str)
  | crontab (args : List Str)
  | visudo

namespace Editing

def start : Editing → Shell Result
  | editor name args => Output.toResult <$> editorCommand name args
  | crontab args => crontabCommand args
  | visudo => Output.toResult <$> visudoCommand

def callback : Editing → Callback
  | editor name _ => .editorInput name
  | crontab _ => .crontabInput
  | visudo => .visudoInput

/-- The name under which the lines are kept. -/
def linesName : Editing → Str
  | editor name _ => name
  | crontab _ => crontabName
  | visudo => visudoName

/-- The file that the command opens. -/
def file (e : ShellEmulator) : Editing → Str
  | editor _ args => resolvePath e.cwd (args.headD [])
  | crontab _ => cronFile e.username
  | visudo => sudoersFile

/-- The file that the callback writes. -/
def targetFile (e : ShellEmulator) : Editing → Str
  | editor name _ => (e.targetFile.lookup name).getD []
  | crontab _ => cronFile e.username
  | visudo => sudoersFile

/-- The command opens an editor. -/
def Opens (e : ShellEmulator) : Editing → Prop
  | editor _ args => args ≠ [] ∧ e.fs.isDir (resolvePath e.cwd (args.headD [])) = false
  | crontab args => args.contains "-l".toList = false ∧ args.contains "-r".toList = false ∧
    args.contains "-e".toList = true
  | visudo => e.username = root

/-- A line that saves what is captured. -/
def saves (line : Str) : Editing → Bool
  | editor .. => writesFile line
  | crontab _ => strip line = "DONE".toList
  | visudo => strip line = "DONE".toList

/-- A line that saves and lets the client go on. -/
def stays (line : Str) : Editing → Bool
  | editor .. => strip line = ":w".toList
  | crontab _ => false
  | visudo => false

/-- A line that quits. -/
def quits (line : Str) : Editing → Bool
  | editor .. => [":q!".toList, "q!".toList, "^C".toList, ":q".toList].contains (strip line)
  | crontab _ => strip line = "CANCEL".toList
  | visudo => strip line = "CANCEL".toList

/-- A line that is entered: none of the words. -/
def Enters (line : Str) (S : Editing) : Prop := '\n' ∉ line ∧ S.saves line = false ∧ S.quits line = false

instance (line : Str) (S : Editing) : Decidable (S.Enters line) := inferInstanceAs (Decidable (_ ∧ _ ∧ _))

/-- The lines that are entered, without those that save. -/
def entered (inputs : List Str) (S : Editing) : List Str := inputs.filter (!S.stays ·)

/-- What the editor makes of a content. -/
def reads (content : Content) : Editing → Content
  | visudo => .text (ignoring content)
  | editor .. => content
  | crontab _ => content

/-- The lines that the editor starts from. -/
def existing (content : Content) (S : Editing) : List Content := existingLines (S.reads content)

/-- The filesystem in which the file is read. -/
def prepared (e : ShellEmulator) : Editing → FakeFilesystem
  | crontab _ => if e.fs.pathExists cronDir then e.fs else e.fs.mkdirP cronDir root
  | editor .. => e.fs
  | visudo => e.fs

/-- Saving a text. -/
def write (s : FakeFilesystem) (target content owner : Str) : Editing → FakeFilesystem
  | editor .. =>
    ((if dirname target ≠ [] then s.mkdirP (dirname target) root else s).mkfile target (.text content) owner).2
  | crontab _ => (s.mkfile target (.text content) owner).2
  | visudo => (s.mkfile target (.text content) root).2

/-- The shell after the command and the lines that the client sends to it. -/
def session (W : World) (depth : ℕ) (c : Ctx) (e : ShellEmulator) (S : Editing) (lines : List Str) : ShellEmulator :=
  lines.foldl (fun e line => (execute W (depth + 1) c line e).state) (S.start e).state

end Editing

/-! ### Captured lines -/

theorem capturedText_map_text (ls : List Str) (M : Machine) :
    capturedText (ls.map .text) M = ⟨.ok (ls.flatMap (· ++ ['\n'])), M, []⟩ := by
  unfold capturedText
  by_cases hnil : ls = []
  · subst hnil
    rfl
  · rw [if_neg (by simpa using hnil), bind_of_eq (Leaf.joinTexts_map_text _ _ _), intercalate_newline hnil]
    rfl

theorem capturedText_of_bytes {captured : List Content} (h : ∃ l ∈ captured, l.isBytes = true) (M : Machine) :
    ∃ x, capturedText captured M = ⟨.error x, M, []⟩ := by
  obtain ⟨l, hl, hbytes⟩ := h
  obtain ⟨item, hitem⟩ : ∃ item, captured.findIdx? Content.isBytes = some item := by
    rw [← Option.isSome_iff_exists, List.findIdx?_isSome, List.any_eq_true]
    exact ⟨l, hl, hbytes⟩
  have hjoin : Leaf.joinTexts ['\n'] captured M = ⟨.error (.joinBytes item), M, []⟩ := by
    unfold Leaf.joinTexts
    rw [hitem]
    rfl
  refine ⟨.joinBytes item, ?_⟩
  unfold capturedText
  rw [if_neg (List.ne_nil_of_mem hl), bind_error (by rw [hjoin]), hjoin]

/-- What is captured is text, or cannot be joined. -/
theorem texts_or_bytes (captured : List Content) :
    (∃ ls : List Str, captured = ls.map .text) ∨ ∃ l ∈ captured, l.isBytes = true := by
  induction captured with
  | nil => exact .inl ⟨[], rfl⟩
  | cons l captured ih =>
    cases l with
    | bytes b => exact .inr ⟨.bytes b, by simp, rfl⟩
    | text s =>
      rcases ih with ⟨ls, rfl⟩ | ⟨l, hl, hbytes⟩
      · exact .inl ⟨s :: ls, rfl⟩
      · exact .inr ⟨l, by simp [hl], hbytes⟩

theorem onFs_eq {α : Type} (op : FakeFilesystem → α × FakeFilesystem) (M : Machine) :
    Leaf.onFs op M = ⟨.ok (op M.fs).1, { M with fs := (op M.fs).2 }, []⟩ := rfl

theorem onMachine_onFs {α : Type} (op : FakeFilesystem → α × FakeFilesystem) (u : ShellEmulator) :
    onMachine (Leaf.onFs op) u = ⟨.ok (op u.fs).1, u.setMachine { u.machine with fs := (op u.fs).2 }, []⟩ := rfl

theorem onMachine_map_text {α : Type} (w : Str → Leaf α) (ls : List Str) (u : ShellEmulator) :
    onMachine (capturedText (ls.map .text) >>= w) u = onMachine (w (ls.flatMap (· ++ ['\n']))) u := by
  unfold onMachine embed
  rw [bind_of_eq (capturedText_map_text ls u.machine)]

theorem onMachine_of_bytes {α : Type} (w : Str → Leaf α) {captured : List Content}
    (h : ∃ l ∈ captured, l.isBytes = true) (u : ShellEmulator) :
    ∃ x, onMachine (capturedText captured >>= w) u = ⟨.error x, u, []⟩ := by
  obtain ⟨x, hx⟩ := capturedText_of_bytes h u.machine
  refine ⟨x, ?_⟩
  unfold onMachine embed
  rw [bind_error (by rw [hx]), hx]
  rfl

theorem onMachine_existingContent (path : Str) (u : ShellEmulator) :
    ∃ s, onMachine (existingContent path) u =
      ⟨.ok (u.fs.getContent path).1, u.setMachine { u.machine with fs := s }, []⟩ ∧ SameFiles u.fs s := by
  have hread : existingContent path u.machine =
      (if u.fs.pathExists path then Leaf.getContent path else return .text [] : Leaf Content) u.machine := rfl
  unfold onMachine embed
  rw [hread]
  cases hx : u.fs.pathExists path with
  | false =>
    rw [content_of_not_exists hx]
    exact ⟨u.fs, rfl, SameFiles.refl _⟩
  | true => exact ⟨_, rfl, ((SameFiles.refl u.fs).getContent path).2⟩

/-! ### Sessions -/

namespace Editing

variable {e : ShellEmulator} {s : FakeFilesystem} {target : Str} {captured : List Content}

/-- The editor waits for a line, with these lines captured for the file. -/
structure At (s : FakeFilesystem) (target : Str) (captured : List Content) (e : ShellEmulator) (S : Editing) :
    Prop where
  callback : e.pendingInputCallback = some S.callback
  captured : (e.captureLines.lookup S.linesName).getD [] = captured
  target : S.targetFile e = target
  fs : e.fs = s

theorem getD_lookup_insert {α : Type} (d : Dict (List α)) (name : Str) (l : List α) :
    ((d.insert name l).lookup name).getD [] = l := by
  rw [AList.lookup_insert]
  rfl

theorem at_editorCommand {name arg : Str} {args : List Str} (hdir : e.fs.isDir (resolvePath e.cwd arg) = false) :
    ∃ s, SameFiles e.fs s ∧ (editor name (arg :: args)).At s (resolvePath e.cwd arg)
      (existingLines (e.fs.getContent (resolvePath e.cwd arg)).1) (editorCommand name (arg :: args) e).state := by
  obtain ⟨s, hread, hsame⟩ := onMachine_existingContent (resolvePath e.cwd arg)
    { e with targetFile := e.targetFile.insert name (resolvePath e.cwd arg) }
  refine ⟨s, hsame, ?_⟩
  unfold editorCommand
  dsimp only
  rw [get_bind, modify_bind, hdir, if_neg Bool.false_ne_true, bind_of_eq hread]
  constructor
  · rfl
  · exact getD_lookup_insert _ _ _
  · exact getD_lookup_insert _ _ _
  · rfl

theorem at_crontabEdit (path : Str) (args : List Str) :
    ∃ s, SameFiles e.fs s ∧ (crontab args).At s (cronFile e.username) (existingLines (e.fs.getContent path).1)
      (crontabEdit path e).state := by
  obtain ⟨s, hread, hsame⟩ := onMachine_existingContent path
    { e with
      pendingInputCallback := some .crontabInput
      pendingInputPrompt := some "(crontab) type DONE on a new line to save, CANCEL to abort > ".toList }
  refine ⟨s, hsame, ?_⟩
  unfold crontabEdit ask
  rw [modify_bind, bind_of_eq hread]
  constructor
  · rfl
  · exact getD_lookup_insert _ _ _
  · rfl
  · rfl

theorem at_visudoCommand (hroot : e.username = root) :
    ∃ s, SameFiles e.fs s ∧ visudo.At s sudoersFile
      (existingLines (.text (ignoring (e.fs.getContent sudoersFile).1))) (visudoCommand e).state := by
  obtain ⟨s, hread, hsame⟩ := onMachine_existingContent sudoersFile
    { e with
      pendingInputCallback := some .visudoInput
      pendingInputPrompt := some "(visudo) type DONE on a new line to save, CANCEL to abort > ".toList }
  refine ⟨s, hsame, ?_⟩
  unfold visudoCommand ask
  rw [get_bind, if_neg (not_not.2 hroot), modify_bind, bind_of_eq hread]
  constructor
  · rfl
  · exact getD_lookup_insert _ _ _
  · rfl
  · rfl

/-- The command opens the editor on the file, as it is once the directory of the crontabs is there. -/
theorem at_start {S : Editing} (h : S.Opens e) :
    ∃ s, SameFiles (S.prepared e) s ∧
      S.At s (S.file e) (S.existing ((S.prepared e).getContent (S.file e)).1) (S.start e).state := by
  cases S with
  | editor name args =>
    obtain ⟨hne, hdir⟩ := h
    cases args with
    | nil => exact absurd rfl hne
    | cons arg args =>
      rw [start, state_map]
      exact at_editorCommand hdir
  | visudo =>
    rw [start, state_map]
    exact at_visudoCommand h
  | crontab args =>
    obtain ⟨hlist, hremove, hedit⟩ := h
    have haction : ∀ u : ShellEmulator, (crontabAction args u).state = (crontabEdit (cronFile u.username) u).state := by
      intro u
      unfold crontabAction
      rw [get_bind]
      dsimp only
      rw [hlist, hremove, hedit, if_neg Bool.false_ne_true, if_neg Bool.false_ne_true, if_pos rfl]
      exact state_map Output.toResult (crontabEdit (cronFile u.username)) u
    rw [start]
    unfold crontabCommand prepared
    rw [get_bind]
    cases hx : e.fs.pathExists cronDir with
    | true =>
      rw [if_pos rfl, if_pos rfl, haction]
      exact at_crontabEdit (cronFile e.username) args
    | false =>
      rw [if_neg Bool.false_ne_true, if_neg Bool.false_ne_true]
      have hmkdir : onMachine (Leaf.mkdirP cronDir root) e =
          ⟨.ok (), e.setMachine { e.machine with fs := e.fs.mkdirP cronDir root }, []⟩ := by
        rw [Leaf.mkdirP, onMachine_onFs]
      rw [bind_of_eq hmkdir, haction]
      generalize e.fs.mkdirP cronDir root = s'
      exact at_crontabEdit (e := e.setMachine { e.machine with fs := s' }) (cronFile e.username) args

/-! ### Lines -/

def input (line : Str) : Editing → Shell Output
  | editor name _ => editorInput name line
  | crontab _ => crontabInput line
  | visudo => visudoInput line

theorem state_execute {W : World} {S : Editing} (h : S.At s target captured e) (depth : ℕ) (c : Ctx) (line : Str) :
    (execute W (depth + 1) c line e).state = (S.input line e.cleared).state := by
  rw [execute_pending h.callback]
  cases S with
  | editor name args => exact state_map Output.toResult (editorInput name line) e.cleared
  | crontab args => exact state_map Output.toResult (crontabInput line) e.cleared
  | visudo => exact state_map Output.toResult (visudoInput line) e.cleared

theorem input_of_enters {S : Editing} {line : Str} (h : S.Enters line) :
    ∃ prompt, S.input line = captureLine S.linesName line S.callback prompt := by
  obtain ⟨-, hsaves, hquits⟩ := h
  cases S with
  | editor name args =>
    refine ⟨editorPrompt, ?_⟩
    show editorInput name line = _
    unfold editorInput
    dsimp only
    rw [show [":wq".toList, "wq".toList, "^X".toList, ":w".toList].contains (strip line) = false from hsaves,
      show [":q!".toList, "q!".toList, "^C".toList, ":q".toList].contains (strip line) = false from hquits,
      if_neg Bool.false_ne_true, if_neg Bool.false_ne_true]
    rfl
  | crontab args =>
    refine ⟨"> ", ?_⟩
    show crontabInput line = _
    unfold crontabInput
    rw [if_neg (of_decide_eq_false hquits), if_neg (of_decide_eq_false hsaves)]
    rfl
  | visudo =>
    refine ⟨"> ", ?_⟩
    show visudoInput line = _
    unfold visudoInput
    rw [if_neg (of_decide_eq_false hquits), if_neg (of_decide_eq_false hsaves)]
    rfl

/-- A line that is entered is captured. -/
theorem at_execute {W : World} {S : Editing} (h : S.At s target captured e) (depth : ℕ) (c : Ctx) {line : Str}
    (hline : S.Enters line) :
    S.At s target (captured ++ [Content.text line]) (execute W (depth + 1) c line e).state := by
  obtain ⟨prompt, hprompt⟩ := input_of_enters hline
  have hself : line.rdropWhile (· = '\n') = line := by
    rw [List.rdropWhile_eq_self_iff]
    intro hne hlast
    exact hline.1 (of_decide_eq_true hlast ▸ List.getLast_mem hne)
  have hcaptured : ((e.captureLines.lookup S.linesName).getD [] ++ [.text (line.rdropWhile (· = '\n'))] :
      List Content) = captured ++ [Content.text line] := by rw [h.captured, hself]
  rw [state_execute h, hprompt]
  constructor
  · rfl
  · rw [← hcaptured]
    exact getD_lookup_insert _ _ _
  · rw [← h.target]
    cases S <;> rfl
  · exact h.fs

/-- The lines of the client are captured one after the other. -/
theorem at_session {W : World} {S : Editing} (h : S.At s target captured e) (depth : ℕ) (c : Ctx) {lines : List Str}
    (hlines : ∀ l ∈ lines, S.Enters l) :
    S.At s target (captured ++ lines.map .text)
      (lines.foldl (fun e line => (execute W (depth + 1) c line e).state) e) := by
  induction lines generalizing e captured with
  | nil =>
    rw [List.map_nil, List.append_nil]
    exact h
  | cons line lines ih =>
    rw [List.forall_mem_cons] at hlines
    have hline : S.At s target (captured ++ [Content.text line]) (execute W (depth + 1) c line e).state :=
      at_execute h depth c hlines.1
    rw [List.map_cons, List.append_cons]
    exact ih hline hlines.2

/-- A word that quits changes no file. -/
theorem fs_of_quits {W : World} {S : Editing} (h : S.At s target captured e) (depth : ℕ) (c : Ctx) {word : Str}
    (hword : S.quits word = true) : (execute W (depth + 1) c word e).state.fs = s := by
  rw [state_execute h, ← h.fs]
  cases S with
  | editor name args =>
    have hsaves : writesFile word = false := by
      have hmem := List.contains_iff_mem.1 hword
      unfold writesFile
      simp only [List.mem_cons, List.not_mem_nil, or_false] at hmem
      rcases hmem with hmem | hmem | hmem | hmem <;> rw [hmem] <;> decide
    show (editorInput name word e.cleared).state.fs = _
    unfold editorInput
    dsimp only
    rw [show [":wq".toList, "wq".toList, "^X".toList, ":w".toList].contains (strip word) = false from hsaves,
      show [":q!".toList, "q!".toList, "^C".toList, ":q".toList].contains (strip word) = true from hword,
      if_neg Bool.false_ne_true, if_pos rfl]
    rfl
  | crontab args =>
    show (crontabInput word e.cleared).state.fs = _
    unfold crontabInput
    rw [if_pos (of_decide_eq_true hword)]
    rfl
  | visudo =>
    show (visudoInput word e.cleared).state.fs = _
    unfold visudoInput
    rw [if_pos (of_decide_eq_true hword)]
    rfl

/-- What is captured is written, if it is text. -/
theorem bind_captured {β : Type} {w : Str → Leaf Unit} {ls : List Str} {u : ShellEmulator} {M : Machine}
    (hw : w (ls.flatMap (· ++ ['\n'])) u.machine = ⟨.ok (), M, []⟩) (f : Unit → Shell β) :
    (onMachine (capturedText (ls.map .text) >>= w) >>= f) u = f () (u.setMachine M) := by
  refine bind_of_eq ?_ f
  rw [onMachine_map_text]
  unfold onMachine embed
  rw [hw]

theorem fs_mkfile (path : Str) (content : Content) (owner : Str) (M : Machine) :
    ∃ M', (do let _ ← Leaf.mkfile path content owner; return () : Leaf Unit) M = ⟨.ok (), M', []⟩ ∧
      M'.fs = (M.fs.mkfile path content owner).2 :=
  ⟨_, bind_of_eq (onFs_eq _ M) _, rfl⟩

/-- What an editor writes, with the directory in front. -/
theorem fs_mkdirP_mkfile (target : Str) (content : Content) (owner : Str) (M : Machine) :
    ∃ M', (do
      if dirname target ≠ [] then Leaf.mkdirP (dirname target) root
      let _ ← Leaf.mkfile target content owner : Leaf Unit) M = ⟨.ok (), M', []⟩ ∧
      M'.fs = ((if dirname target ≠ [] then M.fs.mkdirP (dirname target) root else M.fs).mkfile target content
        owner).2 := by
  by_cases hdir : dirname target ≠ []
  · rw [if_pos hdir]
    simp only [if_pos hdir]
    obtain ⟨M', hM, hfs⟩ := fs_mkfile target content owner { M with fs := M.fs.mkdirP (dirname target) root }
    exact ⟨M', (bind_of_eq (onFs_eq _ M) _).trans hM, hfs⟩
  · rw [if_neg hdir]
    simp only [if_neg hdir]
    exact fs_mkfile target content owner M

theorem fs_mkfile_logEvent (path : Str) (content : Content) (owner : Str) (v : View) (eventType : Str)
    (data : List (Str × Str)) (M : Machine) :
    ∃ M', (do let _ ← Leaf.mkfile path content owner; Leaf.logEvent v eventType data : Leaf Unit) M =
        ⟨.ok (), M', []⟩ ∧
      M'.fs = (M.fs.mkfile path content owner).2 := by
  have hwrite : (do let _ ← Leaf.mkfile path content owner; Leaf.logEvent v eventType data : Leaf Unit) M =
      Leaf.logEvent v eventType data { M with fs := (M.fs.mkfile path content owner).2 } := bind_of_eq (onFs_eq _ M) _
  rw [hwrite]
  generalize (M.fs.mkfile path content owner).2 = s'
  unfold Leaf.logEvent
  split
  · exact ⟨_, rfl, rfl⟩
  · exact ⟨_, rfl, rfl⟩

theorem At.capturedLines_cleared {S : Editing} (h : S.At s target captured e) :
    capturedLines S.linesName e.cleared = ⟨.ok captured, e.cleared, []⟩ := by
  rw [← h.captured]
  rfl

/-- A word that saves makes a text of what is captured, writes it and replies. -/
theorem input_of_saves {S : Editing} {word : Str} (hword : S.saves word = true)
    (hlines : capturedLines S.linesName e = ⟨.ok captured, e, []⟩) :
    ∃ (w : Str → Leaf Unit) (f : Unit → Shell Output),
      S.input word e = (onMachine (capturedText captured >>= w) >>= f) e ∧
      (∀ t, ∃ M, w t e.machine = ⟨.ok (), M, []⟩ ∧ M.fs = S.write e.fs (S.targetFile e) t e.username) ∧
      ∀ u, (f () u).state.fs = u.fs ∧ (S.stays word = true →
        (f () u).state.pendingInputCallback = some S.callback ∧ (f () u).state.captureLines = u.captureLines ∧
          S.targetFile (f () u).state = S.targetFile u) := by
  cases S with
  | editor name args =>
    refine ⟨_, ?replyEditor, ?inputEditor, fun t =>
      fs_mkdirP_mkfile ((e.targetFile.lookup name).getD []) (.text t) e.username e.machine, ?specEditor⟩
    case inputEditor =>
      show editorInput name word e = _
      unfold editorInput
      dsimp only
      rw [show [":wq".toList, "wq".toList, "^X".toList, ":w".toList].contains (strip word) = true from hword,
        if_pos rfl, get_bind, bind_of_eq (show capturedLines name e = _ from hlines)]
    case specEditor =>
      intro u
      split
      next => exact ⟨rfl, fun _ => ⟨rfl, rfl, rfl⟩⟩
      next hstay => exact ⟨rfl, fun hstays => absurd (of_decide_eq_true hstays) hstay⟩
  | crontab args =>
    have hdone := of_decide_eq_true hword
    refine ⟨_, ?replyCrontab, ?inputCrontab, fun t => fs_mkfile (cronFile e.username) (.text t) e.username e.machine,
      ?specCrontab⟩
    case inputCrontab =>
      show crontabInput word e = _
      unfold crontabInput
      rw [if_neg (not_cancel_of_done hdone), if_pos hdone, get_bind,
        bind_of_eq (show capturedLines crontabName e = _ from hlines)]
    case specCrontab => exact fun u => ⟨rfl, fun hstays => by cases hstays⟩
  | visudo =>
    have hdone := of_decide_eq_true hword
    refine ⟨_, ?replyVisudo, ?inputVisudo, fun t => fs_mkfile_logEvent sudoersFile (.text t) root e.view
      "sudoers_modified".toList [("content".toList, t)] e.machine, ?specVisudo⟩
    case inputVisudo =>
      show visudoInput word e = _
      unfold visudoInput
      rw [if_neg (not_cancel_of_done hdone), if_pos hdone, get_bind,
        bind_of_eq (show capturedLines visudoName e = _ from hlines)]
    case specVisudo => exact fun u => ⟨rfl, fun hstays => by cases hstays⟩

/-- A word that saves writes what is captured, and the editor waits for more if it stays. -/
theorem at_saves {W : World} {S : Editing} {ls : List Str} (h : S.At s target (ls.map .text) e) (depth : ℕ) (c : Ctx)
    {word : Str} (hword : S.saves word = true) :
    ∃ owner, let s' := S.write s target (ls.flatMap (· ++ ['\n'])) owner
      (execute W (depth + 1) c word e).state.fs = s' ∧
        (S.stays word = true → S.At s' target (ls.map .text) (execute W (depth + 1) c word e).state) := by
  obtain ⟨w, f, hinput, hw, hf⟩ := input_of_saves hword h.capturedLines_cleared
  obtain ⟨M, hM, hfs⟩ := hw (ls.flatMap (· ++ ['\n']))
  have hstate : S.input word e.cleared = f () (e.cleared.setMachine M) := hinput.trans (bind_captured hM f)
  obtain ⟨hkeeps, hstays⟩ := hf (e.cleared.setMachine M)
  have hwritten : (f () (e.cleared.setMachine M)).state.fs =
      S.write s target (ls.flatMap (· ++ ['\n'])) e.username := by
    rw [hkeeps, ← h.fs, ← h.target]
    exact hfs
  refine ⟨e.username, ?_⟩
  rw [state_execute h, hstate]
  refine ⟨hwritten, fun hstay => ?_⟩
  obtain ⟨hcallback, hcaptured, htarget⟩ := hstays hstay
  have hcleared : S.targetFile (e.cleared.setMachine M) = S.targetFile e := by cases S <;> rfl
  exact ⟨hcallback, hcaptured ▸ h.captured, (htarget.trans hcleared).trans h.target, hwritten⟩

/-- Bytes cannot be joined, and nothing is written. -/
theorem fs_of_saves_bytes {W : World} {S : Editing} (h : S.At s target captured e)
    (hbytes : ∃ l ∈ captured, l.isBytes = true) (depth : ℕ) (c : Ctx) {word : Str} (hword : S.saves word = true) :
    (execute W (depth + 1) c word e).state.fs = s := by
  obtain ⟨w, f, hinput, -, -⟩ := input_of_saves hword h.capturedLines_cleared
  obtain ⟨x, hx⟩ := onMachine_of_bytes w hbytes e.cleared
  rw [state_execute h, hinput, bind_error (by rw [hx]), hx, ← h.fs]
  rfl

end Editing

end Cyanide
