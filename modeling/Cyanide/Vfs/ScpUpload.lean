import Cyanide.Vfs.Copy
import Cyanide.Vfs.ScpHeaders

/-!
# Uploads of whole trees

A client sends a tree of files and directories as records, one item after the other and a directory with its items in
between.  `sink_upload` says that the sink makes that tree out of them in an empty directory, and that its base and its
stack follow the nesting.
-/

namespace Cyanide

open PosixPath PyText Transition

/-- Files and directories in the order in which they are sent, each with the rest behind it, with the modes and with
the times if they are sent. -/
inductive Forest where
  | nil
  | file (name : Name) (mode : ℕ) (times : Option (ℕ × ℕ)) (content : List UInt8) (rest : Forest)
  | dir (name : Name) (mode : ℕ) (times : Option (ℕ × ℕ)) (items rest : Forest)

namespace Forest

open ScpHandler

def names : Forest → List Name
  | nil => []
  | file name _ _ _ rest => name :: rest.names
  | dir name _ _ _ rest => name :: rest.names

/-- The names in every directory are different, and can be sent. -/
def Valid : Forest → Prop
  | nil => True
  | file name _ _ _ rest => Sendable name.1 ∧ name ∉ rest.names ∧ rest.Valid
  | dir name _ _ items rest => Sendable name.1 ∧ name ∉ rest.names ∧ items.Valid ∧ rest.Valid

/-- What is at a path. -/
def find : Forest → Name → List Name → Option Entry
  | nil, _, _ => none
  | file name _ _ content rest, n, r =>
    if n = name then (if r = [] then some (.file (.bytes content)) else none) else rest.find n r
  | dir name _ _ items rest, n, r =>
    if n = name then
      match r with
      | [] => some .dir
      | m :: r => items.find m r
    else rest.find n r

/-- The directory with the items of the forest. -/
def tree (f : Forest) : PathTree Name Entry
  | [] => some .dir
  | n :: r => f.find n r

/-! ### The records -/

def timesBytes : Option (ℕ × ℕ) → List UInt8
  | none => []
  | some (mtime, atime) => lineBytes (timesHeader mtime atime)

/-- What a client sends. -/
def bytes : Forest → List UInt8
  | nil => []
  | file name mode times content rest =>
    timesBytes times ++ lineBytes (fileHeader mode content.length name.1) ++ content ++ 0 :: rest.bytes
  | dir name mode times items rest =>
    timesBytes times ++ lineBytes (directoryHeader mode name.1) ++ items.bytes ++ lineBytes ['E'] ++ rest.bytes

/-- A record with the base and the stack that the sink has for it. -/
abbrev Visit := ScpRecord × Str × List Str

def timesVisits (base : Str) (stack : List Str) : Option (ℕ × ℕ) → List Visit
  | none => []
  | some (mtime, atime) => [(⟨timesHeader mtime atime, []⟩, base, stack)]

/-- Every record once, with the directory that it is in as the base and the ones above it on the stack. -/
def visits : Forest → (base : Str) → (stack : List Str) → List Visit
  | nil, _, _ => []
  | file name mode times content rest, base, stack =>
    timesVisits base stack times ++ (⟨fileHeader mode content.length name.1, content⟩, base, stack) ::
      rest.visits base stack
  | dir name mode times items rest, base, stack =>
    timesVisits base stack times ++ (⟨directoryHeader mode name.1, []⟩, base, stack) ::
      (items.visits (join base name.1) (base :: stack) ++
        (⟨['E'], []⟩, join base name.1, base :: stack) :: rest.visits base stack)

/-- The samples for the quarantine, the last file first. -/
def samples : Forest → List (Str × List UInt8)
  | nil => []
  | file name _ _ content rest => rest.samples ++ [(name.1, content)]
  | dir _ _ _ items rest => rest.samples ++ items.samples

theorem find_of_notMem {f : Forest} {n : Name} (hn : n ∉ f.names) (r : List Name) : f.find n r = none := by
  induction f with
  | nil => rfl
  | file name mode times content rest ih =>
    simp only [names, List.mem_cons, not_or] at hn
    rw [find, if_neg hn.1, ih hn.2]
  | dir name mode times items rest _ ih =>
    simp only [names, List.mem_cons, not_or] at hn
    unfold find
    rw [if_neg hn.1, ih hn.2]

end Forest

namespace FakeFilesystem

variable {s : FakeFilesystem}

/-! ### The writes of a sink, in any filesystem -/

theorem tree_mkfile {p : List Name} {n : Name} (hpar : s.tree p = some .dir) (content : Content)
    (owner group perm : Str) (x : List Name) :
    (s.mkfile (str (p ++ [n])) content owner group perm).2.tree x =
      if x = p ++ [n] then some (.file content) else s.tree x := by
  have hl := layer_mkfile (s := s) (str (p ++ [n])) content owner group perm (str x)
  simp only [resolve_str, hasParent_str (n := n) hpar, and_true, str_inj] at hl
  split_ifs with hx
  · rw [if_pos hx] at hl
    exact entry_of_overlay_file (by simp [hx]) (by rw [resolve_str, hl]) rfl rfl
  · rw [if_neg hx] at hl
    exact entry_of_layer (profile_mkfile ..) (by rw [resolve_str, hl])

/-- `mkdir_p` makes the directory, and no others but those above it. -/
theorem tree_mkdirP {p : List Name} {n : Name} (hpar : s.tree p = some .dir) (hno : s.tree (p ++ [n]) = none)
    (owner group perm : Str) :
    (s.mkdirP (str (p ++ [n])) owner group perm).tree (p ++ [n]) = some .dir ∧
      (s.mkdirP (str (p ++ [n])) owner group perm).tree p = some .dir ∧
      ∀ x, x ≠ p ++ [n] → (s.mkdirP (str (p ++ [n])) owner group perm).tree x = s.tree x ∨
        x <+: p ∧ (s.mkdirP (str (p ++ [n])) owner group perm).tree x = some .dir := by
  have hcases : ∀ x, (x ≠ [] ∧ x <+: p ++ [n] ∧ (s.pathExists (str x) = false ∨ s.isFile (str x) = true) ∧
      (s.mkdirP (str (p ++ [n])) owner group perm).tree x = some .dir) ∨
      (¬(x ≠ [] ∧ x <+: p ++ [n] ∧ (s.pathExists (str x) = false ∨ s.isFile (str x) = true)) ∧
        (s.mkdirP (str (p ++ [n])) owner group perm).tree x = s.tree x) := by
    intro x
    have hl := layer_mkdirP (s := s) (str (p ++ [n])) owner group perm (resolve_str x)
    have hmem : str x ∈ walkFrom ['/'] (mkdirParts (str (p ++ [n]))) ↔ x ≠ [] ∧ x <+: p ++ [n] := by
      rw [mkdirParts_of_str (resolve_str _), show ['/'] = str [] from rfl, mem_walkFrom_names]
      simp only [List.nil_append, str_inj]
      constructor
      · rintro ⟨d, hd, hpre, rfl⟩
        exact ⟨hd, hpre⟩
      · rintro ⟨hd, hpre⟩
        exact ⟨x, hd, hpre, rfl⟩
    split_ifs at hl with hx
    · obtain ⟨hne, hle⟩ := hmem.1 hx.1
      exact .inl ⟨hne, hle, hx.2, entry_of_overlay_dir (by rw [resolve_str, hl]) rfl⟩
    · exact .inr ⟨fun h => hx ⟨hmem.2 ⟨h.1, h.2.1⟩, h.2.2⟩,
        entry_of_layer (profile_mkdirP ..) (by rw [resolve_str, hl])⟩
  refine ⟨?_, ?_, fun x hx => ?_⟩
  · rcases hcases (p ++ [n]) with h | ⟨h, -⟩
    · exact h.2.2.2
    · exact absurd ⟨by simp, List.prefix_rfl, .inl (entry_eq_none.1 hno)⟩ h
  · rcases hcases p with h | ⟨-, h⟩
    · exact h.2.2.2
    · exact h.trans hpar
  · rcases hcases x with ⟨-, hle, -, h⟩ | ⟨-, h⟩
    · rcases List.prefix_concat_iff.1 hle with heq | hle
      · exact absurd heq hx
      · exact .inr ⟨hle, h⟩
    · exact .inl h

theorem layer_mkdirP_of_ne_str (p : List Name) (owner group perm : Str) {q : Str} (hq : ∀ x, q ≠ str x) :
    (s.mkdirP (str p) owner group perm).layer q = s.layer q := by
  rw [mkdirP_eq, mkdirParts_of_str (resolve_str p)]
  refine layer_foldl_mkdirStep_of_notMem _ _ _ _ _ fun h => ?_
  obtain ⟨d, -, -, heq⟩ := (mem_walkFrom_names (p := [])).1 h
  exact hq _ heq

end FakeFilesystem

/-! ### The filesystem behind an upload -/

/-- The filesystem `s'` is `s` with the items of a forest put into the directory `p`; directories above it may have been
made. -/
structure Adds (s s' : FakeFilesystem) (p : List Name) (f : Forest) : Prop where
  dir : s'.tree p = some .dir
  inside : ∀ n r, s'.tree (p ++ n :: r) = if n ∈ f.names then f.find n r else s.tree (p ++ n :: r)
  outside : ∀ x, ¬p <+: x → s'.tree x = s.tree x ∨ x <+: p ∧ s'.tree x = some .dir
  other : ∀ q, (∀ x, q ≠ str x) → s'.layer q = s.layer q

variable {s s' s'' : FakeFilesystem} {p : List Name}

theorem Adds.nil (hdir : s.tree p = some .dir) : Adds s s p .nil where
  dir := hdir
  inside n r := by simp [Forest.names]
  outside _ _ := .inl rfl
  other _ _ := rfl

/-- The filesystem `s'` is `s` with the item `name`, of the shape `t`, put into the directory `p`. -/
structure AddsItem (s s' : FakeFilesystem) (p : List Name) (name : Name) (t : List Name → Option Entry) : Prop where
  inside : ∀ r, s'.tree (p ++ name :: r) = t r
  outside : ∀ x, ¬p ++ [name] <+: x → s'.tree x = s.tree x ∨ x <+: p ∧ s'.tree x = some .dir
  other : ∀ q, (∀ x, q ≠ str x) → s'.layer q = s.layer q

private theorem not_prefix_cons {name n : Name} (hne : n ≠ name) (r : List Name) : ¬p ++ [name] <+: p ++ n :: r := by
  rw [List.prefix_append_right_inj, List.singleton_prefix_cons_iff]
  exact Ne.symm hne

private theorem not_prefix_self (name : Name) : ¬p ++ [name] <+: p := fun h =>
  absurd h.length_le (by simp)

theorem AddsItem.dir {name : Name} {t : List Name → Option Entry} (h : AddsItem s s' p name t)
    (hdir : s.tree p = some .dir) : s'.tree p = some .dir := by
  rcases h.outside p (not_prefix_self name) with heq | heq
  · exact heq.trans hdir
  · exact heq.2

/-- The other items stay. -/
theorem AddsItem.tree_of_ne {name n : Name} {t : List Name → Option Entry} (h : AddsItem s s' p name t) (hne : n ≠ name)
    (r : List Name) : s'.tree (p ++ n :: r) = s.tree (p ++ n :: r) := by
  rcases h.outside (p ++ n :: r) (not_prefix_cons hne r) with heq | ⟨hle, -⟩
  · exact heq
  · exact absurd hle.length_le (by simp)

/-- An item, and then the rest of the forest. -/
theorem AddsItem.cons {name : Name} {t : List Name → Option Entry} {f rest : Forest} (h : AddsItem s s' p name t)
    (hrest : Adds s' s'' p rest) (hname : name ∉ rest.names) (hnames : f.names = name :: rest.names)
    (hfind : ∀ n r, f.find n r = if n = name then t r else rest.find n r) : Adds s s'' p f where
  dir := hrest.dir
  inside n r := by
    rw [hrest.inside, hnames, hfind]
    by_cases hn : n = name
    · subst hn
      simp [hname, h.inside]
    · simp [hn, h.tree_of_ne hn]
  outside x hx := by
    have hx' : ¬p ++ [name] <+: x := fun hle => hx ((List.prefix_append p [name]).trans hle)
    rcases hrest.outside x hx with heq | hmade
    · rcases h.outside x hx' with heq' | hmade
      · exact .inl (heq.trans heq')
      · exact .inr ⟨hmade.1, heq.trans hmade.2⟩
    · exact .inr hmade
  other q hq := (hrest.other q hq).trans (h.other q hq)

/-- A file. -/
theorem addsItem_mkfile {name : Name} (hdir : s.tree p = some .dir) (hfree : ∀ r, s.tree (p ++ name :: r) = none)
    (content : Content) (owner group perm : Str) :
    AddsItem s (s.mkfile (str (p ++ [name])) content owner group perm).2 p name
      (fun r => if r = [] then some (.file content) else none) where
  inside r := by
    rw [FakeFilesystem.tree_mkfile hdir, hfree]
    simp
  outside x hx := by
    have hne : x ≠ p ++ [name] := by
      rintro rfl
      exact hx List.prefix_rfl
    left
    rw [FakeFilesystem.tree_mkfile hdir, if_neg hne]
  other q hq := by
    refine (FakeFilesystem.layer_mkfile ..).trans (if_neg fun h => hq (p ++ [name]) ?_)
    rw [h.1, resolve_str]

/-- A directory with its items. -/
theorem addsItem_mkdirP {name : Name} {items : Forest} (hdir : s.tree p = some .dir)
    (hfree : ∀ r, s.tree (p ++ name :: r) = none) {owner group perm : Str}
    (h : Adds (s.mkdirP (str (p ++ [name])) owner group perm) s' (p ++ [name]) items) :
    AddsItem s s' p name items.tree := by
  obtain ⟨hself, -, hothers⟩ := FakeFilesystem.tree_mkdirP hdir (hfree []) owner group perm
  refine ⟨fun r => ?_, fun x hx => ?_, fun q hq => ?_⟩
  · cases r with
    | nil => exact h.dir
    | cons n r =>
      have hnew : (s.mkdirP (str (p ++ [name])) owner group perm).tree (p ++ name :: n :: r) = none := by
        rcases hothers (p ++ name :: n :: r) (by simp) with heq | ⟨hle, -⟩
        · exact heq.trans (hfree _)
        · exact absurd hle.length_le (by simp)
      have hinside := h.inside n r
      rw [List.append_assoc, List.singleton_append, hnew] at hinside
      rw [hinside, Forest.tree]
      split_ifs with hn
      · rfl
      · exact (Forest.find_of_notMem hn r).symm
  · rcases h.outside x hx with heq | ⟨hle, hmade⟩
    · rcases hothers x (fun heq => hx (heq ▸ List.prefix_rfl)) with heq' | ⟨hle, hmade⟩
      · exact .inl (heq.trans heq')
      · exact .inr ⟨hle, heq.trans hmade⟩
    · rcases List.prefix_concat_iff.1 hle with heq | hle
      · exact absurd (heq ▸ List.prefix_rfl) hx
      · exact .inr ⟨hle, hmade⟩
  · exact (h.other q hq).trans (FakeFilesystem.layer_mkdirP_of_ne_str _ owner group perm hq)

/-! ### The run -/

namespace ScpHandler

variable {U : Unicode}

/-- The records that were read, with the base and the stack at which they were. -/
def SinkRun.visits (R : SinkRun) : List Forest.Visit :=
  R.rounds.map fun r => (r.record, r.sink.currentBase, r.sink.dirStack)

/-- What a round does with the record that it reads. -/
theorem SinkRun.next_eq {R : SinkRun} (hexit : R.sink.exit = none) {r : ScpRecord} {rest : List UInt8}
    (hread : (readRecord U R.input).1 = r ∧ (readRecord U R.input).2.rest = rest) :
    (R.next U).sink = (sinkRecord U R.sink R.honeypot r).2.1 ∧
      (R.next U).honeypot = (sinkRecord U R.sink R.honeypot r).2.2 ∧ (R.next U).input.rest = rest ∧
      (R.next U).visits = R.visits ++ [(r, R.sink.currentBase, R.sink.dirStack)] := by
  obtain ⟨rfl, rfl⟩ := hread
  have hnext : R.next U = ⟨(sinkRecord U R.sink R.honeypot (readRecord U R.input).1).2.1,
      (sinkRecord U R.sink R.honeypot (readRecord U R.input).1).2.2, (readRecord U R.input).2,
      R.replies ++ (sinkRecord U R.sink R.honeypot (readRecord U R.input).1).1,
      R.rounds ++ [⟨R.sink, R.honeypot, (readRecord U R.input).1⟩]⟩ := by
    rw [SinkRun.next, if_neg (by simp [hexit])]
  rw [hnext]
  exact ⟨rfl, rfl, rfl, by simp [SinkRun.visits]⟩

/-- The loop comes from one state to the other. -/
def Reaches (U : Unicode) (R R' : SinkRun) : Prop := ∃ n, (SinkRun.next U)^[n] R = R'

theorem Reaches.refl (R : SinkRun) : Reaches U R R := ⟨0, rfl⟩

theorem Reaches.next (R : SinkRun) : Reaches U R (R.next U) := ⟨1, rfl⟩

theorem Reaches.trans {R R' R'' : SinkRun} (h : Reaches U R R') (h' : Reaches U R' R'') : Reaches U R R'' := by
  obtain ⟨m, rfl⟩ := h
  obtain ⟨n, rfl⟩ := h'
  exact ⟨n + m, Function.iterate_add_apply _ n m R⟩

/-- The loop has read the records `visits`, has come back to the same base and stack, and leaves `rest`. -/
structure Receives (U : Unicode) (R R' : SinkRun) (visits : List Forest.Visit) (rest : List UInt8)
    (samples : List (Str × List UInt8)) : Prop where
  reaches : Reaches U R R'
  sink : R'.sink = R.sink
  rest : R'.input.rest = rest
  visits : R'.visits = R.visits ++ visits
  quarantine : R'.honeypot.quarantine = samples ++ R.honeypot.quarantine

theorem Receives.refl {R : SinkRun} : Receives U R R [] R.input.rest [] :=
  ⟨.refl R, rfl, rfl, by simp, rfl⟩

theorem Receives.trans {R R' R'' : SinkRun} {visits visits' : List Forest.Visit} {rest rest' : List UInt8}
    {samples samples' : List (Str × List UInt8)} (h : Receives U R R' visits rest samples)
    (h' : Receives U R' R'' visits' rest' samples') :
    Receives U R R'' (visits ++ visits') rest' (samples' ++ samples) where
  reaches := h.reaches.trans h'.reaches
  sink := h'.sink.trans h.sink
  rest := h'.rest
  visits := by rw [h'.visits, h.visits, List.append_assoc]
  quarantine := by rw [h'.quarantine, h.quarantine, List.append_assoc]

section Records

variable {R : SinkRun} {username : Str} {p : List Name} {stack : List Str} {rest : List UInt8}

theorem receives_times (hexit : R.sink.exit = none) (times : Option (ℕ × ℕ))
    (hin : R.input.rest = Forest.timesBytes times ++ rest) :
    ∃ R', Receives U R R' (Forest.timesVisits R.sink.currentBase R.sink.dirStack times) rest [] ∧
      R'.honeypot = R.honeypot := by
  cases times with
  | none =>
    obtain rfl : R.input.rest = rest := hin
    exact ⟨R, .refl, rfl⟩
  | some t =>
    have hcopy : copyHeader U (timesHeader t.1 t.2) = none := by
      rw [copyHeader, parseHeader_head U (by simp [timesHeader])]
      rfl
    obtain ⟨hsink, hhoneypot, hrest, hvisits⟩ :=
      SinkRun.next_eq hexit (readRecord_line (isLine_timesHeader t.1 t.2) hcopy hin)
    have hrecord : sinkRecord U R.sink R.honeypot ⟨timesHeader t.1 t.2, []⟩ = ([.ack], R.sink, R.honeypot) := by
      rw [sinkRecord, if_neg (by simp [hexit])]
      rfl
    rw [hrecord] at hsink hhoneypot
    exact ⟨R.next U, ⟨.next R, hsink, hrest, hvisits, by rw [hhoneypot]; rfl⟩, hhoneypot⟩

theorem receives_file (hU : ReadsDigits U) {name : Name} (hname : Sendable name.1) (mode : ℕ) (content : List UInt8)
    (hsink : R.sink = ⟨username, str p, stack, none⟩) (hdir : R.honeypot.fs.tree p = some .dir)
    (hin : R.input.rest = lineBytes (fileHeader mode content.length name.1) ++ (content ++ 0 :: rest)) :
    Receives U R (R.next U) [(⟨fileHeader mode content.length name.1, content⟩, str p, stack)] rest
        [(name.1, content)] ∧
      (R.next U).honeypot.fs =
        (R.honeypot.fs.mkfile (str (p ++ [name])) (.bytes content) username username).2 := by
  obtain ⟨hsink', hhoneypot, hrest, hvisits⟩ :=
    SinkRun.next_eq (by rw [hsink]) (readRecord_file hU hname mode content hin)
  have htarget : targetPath R.honeypot.fs (str p) name.1 = str (p ++ [name]) := by
    rw [targetPath, if_pos (FakeFilesystem.entry_eq_dir.1 hdir), join_str]
  have hcopy := copyHeader_fileHeader hU hname mode content.length
  have hrecord : sinkRecord U R.sink R.honeypot ⟨fileHeader mode content.length name.1, content⟩ =
      ([.ack, .ack], R.sink,
        ⟨(R.honeypot.fs.mkfile (str (p ++ [name])) (.bytes content) username username).2,
          (name.1, content) :: R.honeypot.quarantine⟩) := by
    have hhead : (fileHeader mode content.length name.1).head? = some 'C' := rfl
    simp [sinkRecord, hsink, hhead, handleCopyCommand, hcopy, htarget]
  rw [hrecord] at hsink' hhoneypot
  rw [hsink] at hvisits
  exact ⟨⟨.next R, hsink', hrest, hvisits, by rw [hhoneypot]; rfl⟩, by rw [hhoneypot]⟩

theorem receives_directory (hU : ReadsDigits U) {name : Name} (hname : Sendable name.1) (mode : ℕ)
    (hsink : R.sink = ⟨username, str p, stack, none⟩)
    (hin : R.input.rest = lineBytes (directoryHeader mode name.1) ++ rest) :
    (R.next U).sink = ⟨username, str (p ++ [name]), str p :: stack, none⟩ ∧
      (R.next U).honeypot = { R.honeypot with fs := R.honeypot.fs.mkdirP (str (p ++ [name])) } ∧
      (R.next U).input.rest = rest ∧
      (R.next U).visits = R.visits ++ [(⟨directoryHeader mode name.1, []⟩, str p, stack)] := by
  have hcopy : copyHeader U (directoryHeader mode name.1) = none := by
    rw [copyHeader, parseHeader_head U (by simp [directoryHeader])]
    rfl
  have hdir := dirHeader_directoryHeader hU hname mode
  obtain ⟨hsink', hhoneypot, hrest, hvisits⟩ :=
    SinkRun.next_eq (by rw [hsink]) (readRecord_line (isLine_directoryHeader hname mode) hcopy hin)
  have hhead : (directoryHeader mode name.1).head? = some 'D' := rfl
  have hrecord : sinkRecord U R.sink R.honeypot ⟨directoryHeader mode name.1, []⟩ =
      ([.ack], ⟨username, str (p ++ [name]), str p :: stack, none⟩,
        { R.honeypot with fs := R.honeypot.fs.mkdirP (str (p ++ [name])) }) := by
    simp [sinkRecord, hsink, hhead, handleDirCommand, hdir]
  rw [hrecord] at hsink' hhoneypot
  rw [hsink] at hvisits
  exact ⟨hsink', hhoneypot, hrest, hvisits⟩

theorem receives_end {base base' : Str} (hstack : stack ≠ [])
    (hsink : R.sink = ⟨username, base, base' :: stack, none⟩) (hin : R.input.rest = lineBytes ['E'] ++ rest) :
    (R.next U).sink = ⟨username, base', stack, none⟩ ∧ (R.next U).honeypot = R.honeypot ∧
      (R.next U).input.rest = rest ∧ (R.next U).visits = R.visits ++ [(⟨['E'], []⟩, base, base' :: stack)] := by
  have hsend : IsLine ['E'] := isLine_singleton (by decide)
  have hcopy : copyHeader U ['E'] = none := by
    rw [copyHeader, parseHeader_head U (by decide)]
    rfl
  obtain ⟨hsink', hhoneypot, hrest, hvisits⟩ := SinkRun.next_eq (by rw [hsink]) (readRecord_line hsend hcopy hin)
  have hrecord : sinkRecord U R.sink R.honeypot ⟨['E'], []⟩ =
      ([.ack], ⟨username, base', stack, none⟩, R.honeypot) := by
    simp [sinkRecord, hsink, handleEndDir, hstack]
  rw [hrecord] at hsink' hhoneypot
  rw [hsink] at hvisits
  exact ⟨hsink', hhoneypot, hrest, hvisits⟩

end Records

/-- The sink receives a forest: it reads the records of it, has the base and the stack again that it had in front of
them, and has added the items to the directory. -/
theorem receives_forest (hU : ReadsDigits U) (f : Forest) (hf : f.Valid) {R : SinkRun} {username : Str} {p : List Name}
    {stack : List Str} {rest : List UInt8} (hstack : stack ≠ []) (hsink : R.sink = ⟨username, str p, stack, none⟩)
    (hin : R.input.rest = f.bytes ++ rest) (hdir : R.honeypot.fs.tree p = some .dir)
    (hfree : ∀ n ∈ f.names, ∀ r, R.honeypot.fs.tree (p ++ n :: r) = none) :
    ∃ R', Receives U R R' (f.visits (str p) stack) rest f.samples ∧ Adds R.honeypot.fs R'.honeypot.fs p f := by
  induction f generalizing R p stack rest with
  | nil =>
    obtain rfl : R.input.rest = rest := hin
    exact ⟨R, .refl, .nil hdir⟩
  | file name mode times content next ih =>
    obtain ⟨hname, hnotMem, hnext⟩ := hf
    simp only [Forest.bytes, List.append_assoc, List.cons_append] at hin
    obtain ⟨R₁, h₁, hP₁⟩ := receives_times (U := U) (by rw [hsink]) times hin
    rw [hsink] at h₁
    rw [← hP₁] at hdir hfree ⊢
    obtain ⟨h₂, hP₂⟩ := receives_file hU hname mode content (h₁.sink.trans hsink) hdir h₁.rest
    have hitem := addsItem_mkfile hdir (hfree name (by simp [Forest.names])) (.bytes content) username username
      "-rw-r--r--".toList
    rw [← hP₂] at hitem
    obtain ⟨R₃, h₃, hadds⟩ := ih hnext hstack (h₂.sink.trans (h₁.sink.trans hsink)) h₂.rest (hitem.dir hdir)
      fun n hn r => by
        have hne : n ≠ name := fun heq => hnotMem (heq ▸ hn)
        rw [hitem.tree_of_ne hne, hfree n (by simp [Forest.names, hn])]
    refine ⟨R₃, ?_, hitem.cons hadds hnotMem rfl fun n r => rfl⟩
    simpa [Forest.visits, Forest.samples] using (h₁.trans h₂).trans h₃
  | dir name mode times items next ihItems ih =>
    obtain ⟨hname, hnotMem, hitems, hnext⟩ := hf
    simp only [Forest.bytes, List.append_assoc] at hin
    obtain ⟨R₁, h₁, hP₁⟩ := receives_times (U := U) (by rw [hsink]) times hin
    rw [hsink] at h₁
    rw [← hP₁] at hdir hfree ⊢
    have hnew := hfree name (by simp [Forest.names])
    -- down into the directory, through its items, and up again
    obtain ⟨hsink₂, hP₂, hrest₂, hvisits₂⟩ := receives_directory hU hname mode (h₁.sink.trans hsink) h₁.rest
    have hfs₂ : (R₁.next U).honeypot.fs = R₁.honeypot.fs.mkdirP (str (p ++ [name])) := by rw [hP₂]
    obtain ⟨hself, -, hothers⟩ := FakeFilesystem.tree_mkdirP hdir (hnew []) root root "drwxr-xr-x".toList
    obtain ⟨R₃, h₃, hadds₃⟩ := ihItems hitems (List.cons_ne_nil (str p) stack) hsink₂ hrest₂
      (by rw [hfs₂]; exact hself)
      fun n hn r => by
        rw [hfs₂, List.append_assoc, List.singleton_append]
        rcases hothers (p ++ name :: n :: r) (by simp) with heq | ⟨hle, -⟩
        · exact heq.trans (hnew _)
        · exact absurd hle.length_le (by simp)
    obtain ⟨hsink₄, hP₄, hrest₄, hvisits₄⟩ := receives_end (U := U) hstack (h₃.sink.trans hsink₂) h₃.rest
    rw [hfs₂, ← hP₄] at hadds₃
    have hitem := addsItem_mkdirP hdir hnew hadds₃
    have h₄ : Receives U R₁ (R₃.next U) ((⟨directoryHeader mode name.1, []⟩, str p, stack) ::
        (items.visits (join (str p) name.1) (str p :: stack) ++
          [(⟨['E'], []⟩, join (str p) name.1, str p :: stack)])) (next.bytes ++ rest) items.samples := by
      refine ⟨(Reaches.next R₁).trans (h₃.reaches.trans (.next R₃)), ?_, hrest₄, ?_, ?_⟩
      · rw [hsink₄, h₁.sink, hsink]
      · rw [hvisits₄, h₃.visits, hvisits₂, join_str]
        simp
      · rw [hP₄, h₃.quarantine, hP₂]
    obtain ⟨R₅, h₅, hadds⟩ := ih hnext hstack hsink₄ hrest₄ (hitem.dir hdir) fun n hn r => by
      have hne : n ≠ name := fun heq => hnotMem (heq ▸ hn)
      rw [hitem.tree_of_ne hne, hfree n (by simp [Forest.names, hn])]
    refine ⟨R₅, ?_, hitem.cons hadds hnotMem rfl fun n r => ?_⟩
    · simpa [Forest.visits, Forest.samples] using (h₁.trans h₄).trans h₅
    · cases r <;> rfl

/-- A sink that is started in a directory with nothing below it makes exactly the tree of the records that it is sent,
however the reads cut the stream, ends with status 0, and reads every record once, with its base at the directory of
the record and the directories above it on the stack.  What is elsewhere stays, but for directories above that may have
been made. -/
theorem sink_upload (hU : ReadsDigits U) (f : Forest) (hf : f.Valid) (username : Str) (p : List Name) (P : Honeypot)
    (cuts : ℕ → ℕ) (hdir : P.fs.isDir (str p) = true)
    (hempty : ∀ r, r ≠ [] → P.fs.pathExists (str (p ++ r)) = false) :
    let R := processSink U username (str p) P ⟨f.bytes, cuts⟩
    R.sink = ⟨username, str p, [str p], some 0⟩ ∧ R.input.rest = [] ∧
      (∀ r, R.honeypot.fs.tree (p ++ r) = f.tree r) ∧
      R.visits = f.visits (str p) [str p] ++ [(⟨[], []⟩, str p, [str p])] ∧
      R.honeypot.quarantine = f.samples ++ P.quarantine ∧
      (∀ x, ¬p <+: x → R.honeypot.fs.tree x = P.fs.tree x ∨ x <+: p ∧ R.honeypot.fs.tree x = some .dir) ∧
      ∀ q, (∀ x, q ≠ str x) → R.honeypot.fs.layer q = P.fs.layer q := by
  have hroot : P.fs.tree p = some .dir := FakeFilesystem.entry_eq_dir.2 hdir
  have hfree : ∀ n ∈ f.names, ∀ r, P.fs.tree (p ++ n :: r) = none := fun n _ r =>
    FakeFilesystem.entry_eq_none.2 (hempty (n :: r) (by simp))
  obtain ⟨R, h, hadds⟩ := receives_forest hU f hf (R := .start username (str p) P ⟨f.bytes, cuts⟩)
    (List.cons_ne_nil (str p) []) rfl (List.append_nil _).symm hroot hfree
  -- one more round finds the end of the input
  obtain ⟨hsink, hhoneypot, hrest, hvisits⟩ := SinkRun.next_eq (U := U) (by rw [h.sink]; rfl) (readRecord_nil h.rest)
  have hrecord : sinkRecord U R.sink R.honeypot ⟨[], []⟩ =
      ([], ⟨username, str p, [str p], some 0⟩, R.honeypot) := by
    rw [h.sink]
    rfl
  rw [hrecord] at hsink hhoneypot
  have hrun : processSink U username (str p) P ⟨f.bytes, cuts⟩ = R.next U := by
    obtain ⟨n, hn⟩ := h.reaches.trans (.next R)
    rw [← hn]
    exact processSink_eq_iterate U (by rw [hn, hsink]; rfl)
  rw [hrun]
  refine ⟨hsink, hrest, fun r => ?_, ?_, ?_, ?_, ?_⟩
  · rw [hhoneypot]
    cases r with
    | nil =>
      rw [List.append_nil]
      exact hadds.dir
    | cons n r =>
      rw [hadds.inside, Forest.tree]
      split_ifs with hn
      · rfl
      · rw [Forest.find_of_notMem hn]
        exact FakeFilesystem.entry_eq_none.2 (hempty (n :: r) (by simp))
  · rw [hvisits, h.visits, h.sink]
    rfl
  · rw [hhoneypot]
    exact h.quarantine
  · rw [hhoneypot]
    exact hadds.outside
  · rw [hhoneypot]
    exact hadds.other

/-- A directory `d` with a file `x` in it, sent into an empty filesystem. -/
theorem sink_upload_nested :
    (processSink ascii root (str []) ⟨bare, []⟩ ⟨(Forest.dir ⟨['d'], by decide⟩ 0o755 none
      (.file ⟨['x'], by decide⟩ 0o644 (some (1, 2)) [7, 10] .nil) .nil).bytes, fun _ => 1⟩).sink.exit = some 0 := by
  have hempty : ∀ r : List Name, r ≠ [] → bare.pathExists (str ([] ++ r)) = false := by
    intro r hr
    simp [FakeFilesystem.pathExists_eq, bare_layer, Layer.present, hr]
  have hvalid : (Forest.dir ⟨['d'], by decide⟩ 0o755 none
      (.file ⟨['x'], by decide⟩ 0o644 (some (1, 2)) [7, 10] .nil) .nil).Valid :=
    ⟨sendable_singleton (by decide), by simp [Forest.names],
      ⟨sendable_singleton (by decide), by simp [Forest.names], trivial⟩, trivial⟩
  have h := sink_upload readsDigits_ascii _ hvalid root [] ⟨bare, []⟩ (fun _ => 1) (by decide) hempty
  exact congrArg ScpSink.exit h.1

end ScpHandler

end Cyanide
