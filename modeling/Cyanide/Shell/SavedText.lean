import Cyanide.Lib.Utf8
import Cyanide.Shell.Editing

/-!
# Saved texts

What an editor saves is compared with what it has opened.  `keepsText_iff` says when a file that is saved is the old one
with the entered lines behind it, and when quitting leaves all files as they were: the content is text whose lines all
end with a newline and in no other way, its directory is there or is made, and `crontab` makes no directory of a file.
-/

namespace Cyanide

open PosixPath PyText Traced FakeFilesystem

namespace Editing

variable {e : ShellEmulator} {s : FakeFilesystem} {target : Str}

/-- Saving keeps the old text and adds the lines, also those behind a line that has saved before, and quitting without
saving keeps all files. -/
structure KeepsText (W : World) (depth : ℕ) (c : Ctx) (e : ShellEmulator) (S : Editing) : Prop where
  saved : ∀ inputs word, (∀ l ∈ inputs, S.Enters l ∨ S.stays l = true) → S.saves word = true →
    (S.session W depth c e (inputs ++ [word])).fs.bytesAt (S.file e) =
      e.fs.bytesAt (S.file e) ++ (Content.text ((S.entered inputs).flatMap (· ++ ['\n']))).encode
  quit : ∀ lines word, (∀ l ∈ lines, S.Enters l) → S.quits word = true →
    ∀ path, (S.session W depth c e (lines ++ [word])).fs.bytesAt path = e.fs.bytesAt path

/-- The content is text whose lines end with newlines and in no other way; `visudo` reads bytes as well, if they are
UTF-8. -/
def ReadsText (content : Content) : Editing → Prop
  | visudo => Terminated (ignoring content) ∧ (Content.text (ignoring content)).encode = content.encode
  | editor .. => content.isBytes = false ∧ Terminated content.chars ∨ content.encode = []
  | crontab _ => content.isBytes = false ∧ Terminated content.chars ∨ content.encode = []

/-- The directory of the file is there, or the command makes it. -/
def HasDirectory (e : ShellEmulator) (S : Editing) : Prop :=
  e.fs.HasParent (resolve (S.file e)) ∨
    match S with
    | editor .. => dirname (S.file e) ≠ [] ∧ e.fs.MakesParent (dirname (S.file e)) (resolve (S.file e))
    | crontab _ => e.fs.pathExists cronDir = false ∧ e.fs.MakesParent cronDir (resolve (S.file e))
    | visudo => False

/-- No file with a content is in the place of a directory that `crontab` makes. -/
def SparesFiles (e : ShellEmulator) : Editing → Prop
  | crontab _ => e.fs.pathExists cronDir = true ∨
    ∀ path, resolve path ∈ walkFrom ['/'] (mkdirParts cronDir) → e.fs.isFile path = true → e.fs.bytesAt path = []
  | editor .. => True
  | visudo => True

/-! ### What is written -/

/-- Saving finds the directory of the file. -/
def Writes (s : FakeFilesystem) (target : Str) : Editing → Prop
  | editor .. => s.HasParent (resolve target) ∨
    (dirname target ≠ [] ∧ s.MakesParent (dirname target) (resolve target))
  | crontab _ => s.HasParent (resolve target)
  | visudo => s.HasParent (resolve target)

theorem bytesAt_write {S : Editing} (h : S.Writes s target) (content owner : Str) :
    (S.write s target content owner).bytesAt target = (Content.text content).encode := by
  have hfile : ∀ (s : FakeFilesystem) (owner : Str), s.HasParent (resolve target) →
      (s.mkfile target (.text content) owner).2.bytesAt target = (Content.text content).encode := by
    intro s owner hparent
    rw [bytesAt, content_mkfile, if_pos hparent]
  cases S with
  | editor name args =>
    refine hfile _ owner ?_
    by_cases hdir : dirname target ≠ []
    · rw [if_pos hdir, hasParent_mkdirP]
      exact h.imp_right And.right
    · rw [if_neg hdir]
      exact h.resolve_right fun hmakes => hdir hmakes.1
  | crontab args => exact hfile s owner h
  | visudo => exact hfile s root h

/-- What can be written once can be written again. -/
theorem writes_write {S : Editing} (h : S.Writes s target) (content owner : Str) :
    S.Writes (S.write s target content owner) target := by
  cases S with
  | editor name args =>
    refine .inl (hasParent_mkfile ?_ _ _)
    by_cases hdir : dirname target ≠ []
    · rw [if_pos hdir, hasParent_mkdirP]
      exact h.imp_right And.right
    · rw [if_neg hdir]
      exact h.resolve_right fun hmakes => hdir hmakes.1
  | crontab args => exact hasParent_mkfile h _ _
  | visudo => exact hasParent_mkfile h _ _

/-- Nothing is written otherwise. -/
theorem length_bytesAt_write {S : Editing} (h : ¬S.Writes s target) (content owner : Str) :
    ((S.write s target content owner).bytesAt target).length ≤ (s.bytesAt target).length := by
  have hfile : ∀ (s : FakeFilesystem) (owner : Str), ¬s.HasParent (resolve target) →
      (s.mkfile target (.text content) owner).2.bytesAt target = s.bytesAt target := by
    intro s owner hparent
    rw [bytesAt, content_mkfile, if_neg hparent]
    rfl
  cases S with
  | editor name args =>
    obtain ⟨hparent, hmakes⟩ := not_or.1 h
    by_cases hdir : dirname target ≠ []
    · have hno : ¬(s.mkdirP (dirname target) root).HasParent (resolve target) := by
        rw [hasParent_mkdirP, not_or]
        exact ⟨hparent, fun hm => hmakes ⟨hdir, hm⟩⟩
      rw [write, if_pos hdir, hfile _ owner hno, bytesAt, content_mkdirP]
      split
      · exact Nat.zero_le _
      · exact le_rfl
    · rw [write, if_neg hdir, hfile _ owner hparent]
  | crontab args => exact (congrArg List.length (hfile s owner h)).le
  | visudo => exact (congrArg List.length (hfile s root h)).le

theorem writes_iff {S : Editing} (h : SameFiles (S.prepared e) s) : S.Writes s (S.file e) ↔ S.HasDirectory e := by
  cases S with
  | editor name args => exact or_congr (h.hasParent _) (and_congr_right fun _ => h.makesParent _ _)
  | visudo => exact (h.hasParent _).trans (or_false _).symm.to_iff
  | crontab args =>
    refine (h.hasParent _).trans ?_
    unfold prepared HasDirectory
    cases hx : e.fs.pathExists cronDir with
    | true => simp
    | false =>
      rw [if_neg Bool.false_ne_true, hasParent_mkdirP]
      simp

/-! ### What is read -/

theorem existingLines_text (t : Str) : existingLines (.text t) = (lines t).map .text := by
  unfold existingLines
  cases t with
  | nil => rfl
  | cons c t => exact if_neg (Nat.succ_ne_zero _)

theorem existingLines_bytes {b : List UInt8} (h : b ≠ []) : ∃ l ∈ existingLines (.bytes b), l.isBytes = true := by
  have hne : byteLines b ≠ [] := by
    intro hnil
    have hkeep : byteLinesKeepEnds b = [] := List.map_eq_nil_iff.1 hnil
    have hflatten : (byteLinesKeepEnds b).flatten = b := flatten_linesFrom _ _ _ [] b
    rw [hkeep] at hflatten
    exact h hflatten.symm
  obtain ⟨l, ls, hls⟩ := List.exists_cons_of_ne_nil hne
  refine ⟨.bytes l, ?_, rfl⟩
  have hlen : (Content.bytes b).len ≠ 0 := fun hlen => h (List.length_eq_zero_iff.1 hlen)
  rw [existingLines, if_neg hlen, Content.lines, hls]
  exact List.mem_cons_self

theorem map_text_injective {ls ls' : List Str} (h : ls.map Content.text = ls'.map .text) : ls = ls' :=
  List.map_injective_iff.2 (fun _ _ heq => Content.text.inj heq) h

theorem not_map_text {captured : List Content} (h : ∃ l ∈ captured, l.isBytes = true) (ls : List Str) :
    captured ≠ ls.map .text := by
  rintro rfl
  obtain ⟨l, hl, hbytes⟩ := h
  obtain ⟨t, -, rfl⟩ := List.mem_map.1 hl
  cases hbytes

/-- The lines of a text make up the same bytes just when it is terminated. -/
theorem encode_lines_iff (t : Str) :
    (Content.text ((lines t).flatMap (· ++ ['\n']))).encode = (Content.text t).encode ↔ Terminated t := by
  rw [← flatMap_lines_iff]
  exact ⟨Content.encode_text_inj, fun h => by rw [h]⟩

private theorem readsText_plain_iff (content : Content) :
    (content.isBytes = false ∧ Terminated content.chars ∨ content.encode = []) ↔
      ∃ ls : List Str, existingLines content = ls.map .text ∧
        (Content.text (ls.flatMap (· ++ ['\n']))).encode = content.encode := by
  cases content with
  | text t =>
    constructor
    · intro h
      refine ⟨lines t, existingLines_text t, (encode_lines_iff t).2 ?_⟩
      rcases h with ⟨-, ht⟩ | hnil
      · exact ht
      · obtain rfl : t = [] := Content.encode_text_inj hnil
        decide
    · rintro ⟨ls, hls, hencode⟩
      obtain rfl := map_text_injective ((existingLines_text t).symm.trans hls)
      exact .inl ⟨rfl, (encode_lines_iff t).1 hencode⟩
  | bytes b =>
    constructor
    · rintro (⟨hbytes, -⟩ | rfl)
      · cases hbytes
      · exact ⟨[], rfl, rfl⟩
    · rintro ⟨ls, hls, -⟩
      by_contra hno
      exact not_map_text (existingLines_bytes fun hnil => hno (.inr hnil)) ls hls

/-- What the editor starts from makes up the content again. -/
theorem readsText_iff (S : Editing) (content : Content) :
    S.ReadsText content ↔ ∃ ls : List Str, S.existing content = ls.map .text ∧
      (Content.text (ls.flatMap (· ++ ['\n']))).encode = content.encode := by
  cases S with
  | editor name args => exact readsText_plain_iff content
  | crontab args => exact readsText_plain_iff content
  | visudo =>
    have hexisting : visudo.existing content = (lines (ignoring content)).map .text := existingLines_text _
    rw [hexisting]
    constructor
    · rintro ⟨hterminated, hencode⟩
      exact ⟨_, rfl, ((encode_lines_iff _).2 hterminated).trans hencode⟩
    · rintro ⟨ls, hls, hencode⟩
      obtain rfl := map_text_injective hls
      have hignoring : ignoring content = (lines (ignoring content)).flatMap (· ++ ['\n']) := by
        cases content with
        | text t => exact (Content.encode_text_inj hencode).symm
        | bytes b =>
          -- the lines are decoded from their own bytes
          have hb : decodeIgnore ((Content.text ((lines (decodeIgnore b)).flatMap (· ++ ['\n']))).encode) =
              (lines (decodeIgnore b)).flatMap (· ++ ['\n']) := decodeFrom_encode [] _
          exact (congrArg decodeIgnore hencode).symm.trans hb
      refine ⟨(flatMap_lines_iff _).1 hignoring.symm, ?_⟩
      exact (congrArg (fun t => (Content.text t).encode) hignoring).trans hencode

theorem readsText_of_empty (S : Editing) {content : Content} (h : content.encode = []) : S.ReadsText content := by
  cases S with
  | editor name args => exact .inr h
  | crontab args => exact .inr h
  | visudo =>
    cases content with
    | text t =>
      obtain rfl : t = [] := Content.encode_text_inj h
      exact ⟨by decide, rfl⟩
    | bytes b =>
      obtain rfl : b = [] := h
      exact ⟨by decide, rfl⟩

/-! ### The file before it is read -/

theorem content_prepared (S : Editing) (path : Str) :
    ((S.prepared e).getContent path).1 = (e.fs.getContent path).1 ∨ ((S.prepared e).getContent path).1 = .text [] := by
  cases S with
  | editor name args => exact .inl rfl
  | visudo => exact .inl rfl
  | crontab args =>
    unfold prepared
    cases e.fs.pathExists cronDir with
    | true => exact .inl rfl
    | false =>
      rw [if_neg Bool.false_ne_true, content_mkdirP]
      split
      · exact .inr rfl
      · exact .inl rfl

/-- `crontab` keeps all contents just when it makes no directory of a file that has one. -/
theorem sparesFiles_iff (S : Editing) :
    S.SparesFiles e ↔ ∀ path, (S.prepared e).bytesAt path = e.fs.bytesAt path := by
  cases S with
  | editor name args => exact iff_of_true trivial fun _ => rfl
  | visudo => exact iff_of_true trivial fun _ => rfl
  | crontab args =>
    unfold SparesFiles prepared
    cases hx : e.fs.pathExists cronDir with
    | true => exact iff_of_true (.inl rfl) fun _ => rfl
    | false =>
      rw [if_neg Bool.false_ne_true]
      constructor
      · intro h path
        have hspares := h.resolve_left Bool.false_ne_true path
        unfold bytesAt at hspares ⊢
        rw [content_mkdirP]
        split
        next hmade =>
          obtain ⟨hwalk, hmissing | hfile⟩ := hmade
          · rw [content_of_not_exists hmissing]
          · exact (hspares hwalk hfile).symm
        · rfl
      · intro h
        refine .inr fun path hwalk hfile => ?_
        rw [← h path, bytesAt, content_mkdirP, if_pos ⟨hwalk, .inr hfile⟩]
        rfl

theorem readsText_prepared {S : Editing} (h : S.SparesFiles e) (path : Str) :
    S.ReadsText ((S.prepared e).getContent path).1 ↔ S.ReadsText (e.fs.getContent path).1 := by
  rcases S.content_prepared (e := e) path with heq | hnil
  · rw [heq]
  · have hempty : (e.fs.getContent path).1.encode = [] := by
      have hsame := (sparesFiles_iff S).1 h path
      rw [bytesAt, hnil] at hsame
      exact hsame.symm
    exact iff_of_true (S.readsText_of_empty (by rw [hnil]; rfl)) (S.readsText_of_empty hempty)

/-! ### Whole sessions -/

theorem session_concat (W : World) (depth : ℕ) (c : Ctx) (e : ShellEmulator) (S : Editing) (lines : List Str)
    (word : Str) :
    S.session W depth c e (lines ++ [word]) = (execute W (depth + 1) c word (S.session W depth c e lines)).state := by
  rw [session, List.foldl_append]
  rfl

theorem exists_saves (S : Editing) : ∃ word, S.saves word = true := by
  cases S with
  | editor name args => exact ⟨":wq".toList, rfl⟩
  | crontab args => exact ⟨"DONE".toList, rfl⟩
  | visudo => exact ⟨"DONE".toList, rfl⟩

theorem exists_quits (S : Editing) : ∃ word, S.quits word = true := by
  cases S with
  | editor name args => exact ⟨":q".toList, rfl⟩
  | crontab args => exact ⟨"CANCEL".toList, rfl⟩
  | visudo => exact ⟨"CANCEL".toList, rfl⟩

theorem enters_x (S : Editing) : S.Enters ['x'] := by
  cases S with
  | editor name args => exact ⟨by decide, rfl, rfl⟩
  | crontab args => exact ⟨by decide, rfl, rfl⟩
  | visudo => exact ⟨by decide, rfl, rfl⟩

theorem encode_text_append (s t : Str) :
    (Content.text (s ++ t)).encode = (Content.text s).encode ++ (Content.text t).encode := List.flatMap_append

variable {S : Editing}

theorem saves_of_stays {word : Str} (h : S.stays word = true) : S.saves word = true := by
  cases S with
  | editor name args =>
    show writesFile word = true
    unfold writesFile
    rw [of_decide_eq_true h]
    decide
  | crontab args => cases h
  | visudo => cases h

/-- Lines are captured also when the client has saved in between. -/
theorem at_session_saves {W : World} {ls : List Str} (h : S.At s target (ls.map .text) e) (depth : ℕ) (c : Ctx)
    {inputs : List Str} (hinputs : ∀ l ∈ inputs, S.Enters l ∨ S.stays l = true) :
    ∃ s', S.At s' target ((ls ++ S.entered inputs).map .text)
        (inputs.foldl (fun e line => (execute W (depth + 1) c line e).state) e) ∧
      (S.Writes s target → S.Writes s' target) := by
  induction inputs generalizing e s ls with
  | nil =>
    refine ⟨s, ?_, id⟩
    rw [show S.entered [] = [] from rfl, List.append_nil]
    exact h
  | cons line inputs ih =>
    rw [List.forall_mem_cons] at hinputs
    rcases hinputs.1 with hline | hline
    · have hstays : S.stays line = false :=
        Bool.eq_false_iff.2 fun hstays => ne_true_of_eq_false hline.2.1 (saves_of_stays hstays)
      have hnext : S.At s target ((ls ++ [line]).map .text) (execute W (depth + 1) c line e).state := by
        rw [List.map_append]
        exact at_execute h depth c hline
      have hentered : S.entered (line :: inputs) = line :: S.entered inputs := by simp [entered, hstays]
      rw [hentered, List.append_cons]
      exact ih hnext hinputs.2
    · obtain ⟨owner, -, hnext⟩ := at_saves (W := W) h depth c (saves_of_stays hline)
      have hentered : S.entered (line :: inputs) = S.entered inputs := by simp [entered, hline]
      obtain ⟨s', hat, hwrites⟩ := ih (hnext hline) hinputs.2
      rw [hentered]
      exact ⟨s', hat, fun hw => hwrites (writes_write hw _ _)⟩

/-- The bytes of the file after a session that saves. -/
theorem bytesAt_saved (W : World) (depth : ℕ) (c : Ctx) (h : S.Opens e) {ls inputs : List Str} {word : Str}
    (hls : S.existing ((S.prepared e).getContent (S.file e)).1 = ls.map .text) (hdir : S.HasDirectory e)
    (hinputs : ∀ l ∈ inputs, S.Enters l ∨ S.stays l = true) (hword : S.saves word = true) :
    (S.session W depth c e (inputs ++ [word])).fs.bytesAt (S.file e) =
      (Content.text ((ls ++ S.entered inputs).flatMap (· ++ ['\n']))).encode := by
  obtain ⟨s, hsame, hstart⟩ := at_start h
  rw [hls] at hstart
  obtain ⟨s', hat, hwrites⟩ := at_session_saves (W := W) hstart depth c hinputs
  obtain ⟨owner, hfs, -⟩ := at_saves (W := W) hat depth c hword
  rw [session_concat]
  exact (congrArg (·.bytesAt (S.file e)) hfs).trans (bytesAt_write (hwrites ((writes_iff hsame).2 hdir)) _ _)

/-- Nothing is added to the file when its content cannot be joined or its directory is not there. -/
theorem length_bytesAt_saved (W : World) (depth : ℕ) (c : Ctx) (h : S.Opens e) {lines : List Str} {word : Str}
    (hno : (∃ l ∈ S.existing ((S.prepared e).getContent (S.file e)).1, l.isBytes = true) ∨ ¬S.HasDirectory e)
    (hlines : ∀ l ∈ lines, S.Enters l) (hword : S.saves word = true) :
    ((S.session W depth c e (lines ++ [word])).fs.bytesAt (S.file e)).length ≤
      ((S.prepared e).bytesAt (S.file e)).length := by
  obtain ⟨s, hsame, hstart⟩ := at_start h
  have hbytes : s.bytesAt (S.file e) = (S.prepared e).bytesAt (S.file e) :=
    congrArg Content.encode (hsame.getContent (S.file e)).1
  have hat := at_session (W := W) hstart depth c hlines
  rw [session_concat, ← hbytes]
  rcases texts_or_bytes (S.existing ((S.prepared e).getContent (S.file e)).1 ++ lines.map .text) with ⟨ls, hls⟩ | hmore
  · rw [hls] at hat
    have hdir : ¬S.HasDirectory e := by
      refine hno.resolve_left ?_
      rintro ⟨l, hl, hb⟩
      exact not_map_text ⟨l, List.mem_append_left _ hl, hb⟩ ls hls
    obtain ⟨owner, hfs, -⟩ := at_saves (W := W) hat depth c hword
    have hlength := length_bytesAt_write (fun hw => hdir ((writes_iff hsame).1 hw)) (ls.flatMap (· ++ ['\n'])) owner
    rw [← hfs] at hlength
    exact hlength
  · exact (congrArg (fun s : FakeFilesystem => (s.bytesAt (S.file e)).length)
      (fs_of_saves_bytes hat hmore depth c hword)).le

theorem bytesAt_quit (W : World) (depth : ℕ) (c : Ctx) (h : S.Opens e) {lines : List Str} {word : Str}
    (hlines : ∀ l ∈ lines, S.Enters l) (hword : S.quits word = true) (path : Str) :
    (S.session W depth c e (lines ++ [word])).fs.bytesAt path = (S.prepared e).bytesAt path := by
  obtain ⟨s, hsame, hstart⟩ := at_start h
  have hat := at_session (W := W) hstart depth c hlines
  have hfs := fs_of_quits (W := W) hat depth c hword
  rw [session_concat]
  exact (congrArg (·.bytesAt path) hfs).trans (congrArg Content.encode (hsame.getContent path).1)

/-- A session of an editor keeps what was there, adds what is entered, and changes nothing when it quits, exactly when
the directory of the file can be had, the content is text whose lines end with newlines only, and `crontab` has no
file in its way. -/
theorem keepsText_iff (W : World) (depth : ℕ) (c : Ctx) (h : S.Opens e) :
    S.KeepsText W depth c e ↔
      S.HasDirectory e ∧ S.ReadsText (e.fs.getContent (S.file e)).1 ∧ S.SparesFiles e := by
  constructor
  · rintro ⟨hsaved, hquit⟩
    have hspares : S.SparesFiles e := by
      obtain ⟨word, hword⟩ := S.exists_quits
      refine (sparesFiles_iff S).2 fun path => ?_
      exact (bytesAt_quit W depth c h (by simp) hword path).symm.trans (hquit [] word (by simp) hword path)
    have hfile : (S.prepared e).bytesAt (S.file e) = e.fs.bytesAt (S.file e) := (sparesFiles_iff S).1 hspares _
    -- one line is entered and saved
    obtain ⟨word, hword⟩ := S.exists_saves
    have hlines : ∀ l ∈ [['x']], S.Enters l := by simpa using S.enters_x
    have hinputs : ∀ l ∈ [['x']], S.Enters l ∨ S.stays l = true := fun l hl => .inl (hlines l hl)
    have hentered : S.entered [['x']] = [['x']] := by cases S <;> rfl
    have hadded := hsaved [['x']] word hinputs hword
    rw [hentered] at hadded
    have hpos : 0 < (Content.text ([['x']].flatMap (· ++ ['\n']))).encode.length := by decide
    have hgrows : ¬((S.session W depth c e ([['x']] ++ [word])).fs.bytesAt (S.file e)).length ≤
        ((S.prepared e).bytesAt (S.file e)).length := by
      rw [hadded, hfile, List.length_append]
      omega
    have hdir : S.HasDirectory e := by
      by_contra hno
      exact hgrows (length_bytesAt_saved W depth c h (.inr hno) hlines hword)
    refine ⟨hdir, (readsText_prepared hspares _).1 ((S.readsText_iff _).2 ?_), hspares⟩
    rcases texts_or_bytes (S.existing ((S.prepared e).getContent (S.file e)).1) with ⟨ls, hls⟩ | hno
    · have hnew := bytesAt_saved W depth c h hls hdir hinputs hword
      rw [hadded, hentered, List.flatMap_append, encode_text_append, List.append_cancel_right_eq] at hnew
      exact ⟨ls, hls, hnew.symm.trans hfile.symm⟩
    · exact absurd (length_bytesAt_saved W depth c h (.inl hno) hlines hword) hgrows
  · rintro ⟨hdir, hreads, hspares⟩
    have hfile := (sparesFiles_iff S).1 hspares
    refine ⟨fun inputs word hinputs hword => ?_, fun lines word hlines hword path => ?_⟩
    · obtain ⟨ls, hls, hencode⟩ := (S.readsText_iff _).1 ((readsText_prepared hspares (S.file e)).2 hreads)
      rw [bytesAt_saved W depth c h hls hdir hinputs hword, List.flatMap_append, encode_text_append, hencode]
      exact congrArg (· ++ _) (hfile (S.file e))
    · exact (bytesAt_quit W depth c h hlines hword path).trans (hfile path)

/-- A shell with a file of the given text. -/
def notesShell (text : Str) : ShellEmulator :=
  (plainShell root).setMachine
    { (plainShell root).machine with fs := (plainFs.mkfile "/root/notes".toList (.text text) root).2 }

theorem keepsText_iff_notes :
    (editor "vi".toList ["/root/notes".toList]).KeepsText plainWorld 0 ⟨false, false, false⟩
      (notesShell "a\n".toList) :=
  (keepsText_iff (S := editor "vi".toList ["/root/notes".toList]) (e := notesShell "a\n".toList) plainWorld 0
    ⟨false, false, false⟩ ⟨by decide, by decide +kernel⟩).2
    ⟨.inl (by decide +kernel), .inl ⟨by decide +kernel, by decide +kernel⟩, trivial⟩

/-- A form feed becomes a newline. -/
theorem not_keepsText_formFeed :
    ¬(editor "vi".toList ["/root/notes".toList]).KeepsText plainWorld 0 ⟨false, false, false⟩
      (notesShell "a\x0cb\n".toList) := by
  intro h
  have hsaved := h.saved [] ":wq".toList (by simp) (by decide)
  have hne : ((editor "vi".toList ["/root/notes".toList]).session plainWorld 0 ⟨false, false, false⟩
      (notesShell "a\x0cb\n".toList) [":wq".toList]).fs.bytesAt "/root/notes".toList ≠
      (notesShell "a\x0cb\n".toList).fs.bytesAt "/root/notes".toList := by decide +kernel
  exact hne (hsaved.trans (List.append_nil _))

end Editing

end Cyanide
