import Cyanide.Lib.PyText
import Cyanide.Vfs.Nodes

/-!
# The lines of a shell session

`SSHSession._process_input` appends each chunk to the buffer of the session and takes lines from it: up to the first
newline if there is one in the buffer, else up to the first carriage return.  `typedCommands` are the commands of a
stream when every one of these characters ends a line.  The session executes them in whatever chunks the stream comes
just when no line with a newline hides a carriage return between two commands, and when nothing is left to execute
where the session stops to read (`chunkIndependent_iff`).
-/

namespace Cyanide

open PosixPath PyText

structure InputState where
  buf : Str
  /-- The commands that were executed, as in `self.commands`. -/
  commands : List Str

namespace InputState

/-- The line that the loop takes next, and the rest of the buffer. -/
def nextLine (buf : Str) : Option (Str × Str) :=
  match partition '\n' buf with
  | (line, some rest) => some (line, rest)
  | (_, none) =>
    match partition '\r' buf with
    | (line, some rest) => some (line, rest)
    | (_, none) => none

/-- The commands that `_handle_system_commands` takes. -/
def isExit (cmd : Str) : Bool := cmd = "exit".toList || cmd = "logout".toList

theorem nextLine_cases (buf : Str) :
    ('\n' ∉ buf ∧ '\r' ∉ buf ∧ nextLine buf = none) ∨
      ∃ line rest, nextLine buf = some (line, rest) ∧ (buf = line ++ '\n' :: rest ∧ '\n' ∉ line ∨
        buf = line ++ '\r' :: rest ∧ '\r' ∉ line ∧ '\n' ∉ buf) := by
  unfold nextLine
  rcases partition_cases '\n' buf with ⟨hn, heq⟩ | ⟨line, rest, hbuf, hline, heq⟩
  · rw [heq]
    rcases partition_cases '\r' buf with ⟨hr, heq'⟩ | ⟨line, rest, hbuf, hline, heq'⟩
    · rw [heq']
      exact .inl ⟨hn, hr, rfl⟩
    · rw [heq']
      exact .inr ⟨line, rest, rfl, .inr ⟨hbuf, hline, hn⟩⟩
  · rw [heq]
    exact .inr ⟨line, rest, rfl, .inl ⟨hbuf, hline⟩⟩

theorem length_lt_of_nextLine {buf line rest : Str} (h : nextLine buf = some (line, rest)) :
    rest.length < buf.length := by
  rcases nextLine_cases buf with ⟨-, -, hnone⟩ | ⟨l, r, hsome, hbuf⟩
  · rw [hnone] at h
    cases h
  · obtain ⟨rfl, rfl⟩ := Prod.mk.inj (Option.some.inj (hsome.symm.trans h))
    rcases hbuf with ⟨rfl, -⟩ | ⟨rfl, -, -⟩ <;> simp <;> omega

section Loop

variable (raises : List Str → Str → Bool)

/-- The loop of `_process_input`, where `raises` tells of a command, behind those that were executed, whether its
execution ends with an exception. -/
def loop (s : InputState) : InputState :=
  match _h : nextLine s.buf with
  | none => s
  | some (line, rest) =>
    if strip line = [] then loop ⟨rest, s.commands⟩
    else if isExit (strip line) then ⟨rest, s.commands⟩
    else if raises s.commands (strip line) then ⟨rest, s.commands ++ [strip line]⟩
    else loop ⟨rest, s.commands ++ [strip line]⟩
termination_by s.buf.length
decreasing_by all_goals exact length_lt_of_nextLine _h

def processInput (s : InputState) (data : Str) : InputState := loop raises { s with buf := s.buf ++ data }

/-- A session whose input comes in these chunks. -/
def processAll (s : InputState) (chunks : List Str) : InputState := chunks.foldl (processInput raises) s

end Loop

end InputState

/-- The lines of a stream in which each carriage return and each newline ends a line, from the characters of the
current one. -/
def typedLines : Str → Str → List Str
  | _, [] => []
  | line, c :: cs => if c = '\n' ∨ c = '\r' then line :: typedLines [] cs else typedLines (line ++ [c]) cs

def typedCommands (s : Str) : List Str := ((typedLines [] s).map strip).filter (· ≠ [])

/-- Two commands with a carriage return between them, in front of one newline. -/
def Mixed (s : Str) : Prop :=
  ∃ u a b v, s = u ++ a ++ '\r' :: b ++ '\n' :: v ∧ '\n' ∉ a ∧ '\n' ∉ b ∧ strip a ≠ [] ∧ strip b ≠ []

/-- Nothing is to be executed behind a command that ends the session, nor behind one that raises. -/
def StopsLast (raises : List Str → Str → Bool) : List Str → List Str → Prop
  | _, [] => True
  | before, cmd :: cmds =>
    if InputState.isExit cmd then ∀ d ∈ cmds, InputState.isExit d = true
    else (raises before cmd = true → ∀ d ∈ cmds, InputState.isExit d = true) ∧ StopsLast raises (before ++ [cmd]) cmds

/-! ### The stream -/

section Stream

/-- The command of a line, if it is not blank. -/
private def commandIn (line : Str) : List Str := [strip line].filter (· ≠ [])

private theorem commandIn_eq (line : Str) : commandIn line = if strip line = [] then [] else [strip line] := by
  unfold commandIn
  by_cases h : strip line = [] <;> simp [h]

private theorem typedLines_append {line : Str} (hn : '\n' ∉ line) (hr : '\r' ∉ line) {t : Char}
    (ht : t = '\n' ∨ t = '\r') (acc rest : Str) :
    typedLines acc (line ++ t :: rest) = (acc ++ line) :: typedLines [] rest := by
  induction line generalizing acc with
  | nil => rw [List.nil_append, typedLines, if_pos ht, List.append_nil]
  | cons c line ih =>
    obtain ⟨hcn, hn⟩ := not_or.1 (fun h => hn (List.mem_cons.2 h))
    obtain ⟨hcr, hr⟩ := not_or.1 (fun h => hr (List.mem_cons.2 h))
    have hc : ¬ (c = '\n' ∨ c = '\r') := not_or.2 ⟨Ne.symm hcn, Ne.symm hcr⟩
    rw [List.cons_append, typedLines, if_neg hc, ih hn hr, List.append_assoc]
    rfl

private theorem typedLines_eq_nil {line : Str} (hn : '\n' ∉ line) (hr : '\r' ∉ line) (acc : Str) :
    typedLines acc line = [] := by
  induction line generalizing acc with
  | nil => rfl
  | cons c line ih =>
    obtain ⟨hcn, hn⟩ := not_or.1 (fun h => hn (List.mem_cons.2 h))
    obtain ⟨hcr, hr⟩ := not_or.1 (fun h => hr (List.mem_cons.2 h))
    rw [typedLines, if_neg (not_or.2 ⟨Ne.symm hcn, Ne.symm hcr⟩)]
    exact ih hn hr _

private theorem typedCommands_append {line : Str} (hn : '\n' ∉ line) (hr : '\r' ∉ line) {t : Char}
    (ht : t = '\n' ∨ t = '\r') (rest : Str) :
    typedCommands (line ++ t :: rest) = commandIn line ++ typedCommands rest := by
  rw [typedCommands, typedLines_append hn hr ht, List.nil_append, List.map_cons, ← List.singleton_append,
    List.filter_append]
  rfl

private theorem typedCommands_eq_nil {line : Str} (hn : '\n' ∉ line) (hr : '\r' ∉ line) : typedCommands line = [] := by
  rw [typedCommands, typedLines_eq_nil hn hr]
  rfl

/-- No command has a carriage return in it. -/
private theorem notMem_of_typedCommands {s : Str} {cmd : Str} (h : cmd ∈ typedCommands s) : '\r' ∉ cmd := by
  have hline : ∀ s acc : Str, '\r' ∉ acc → ∀ line ∈ typedLines acc s, '\r' ∉ line := by
    intro s
    induction s with
    | nil => exact fun _ _ line hm => absurd hm List.not_mem_nil
    | cons c s ih =>
      intro acc hacc line hm
      rw [typedLines] at hm
      split at hm
      · rcases List.mem_cons.1 hm with rfl | hm
        · exact hacc
        · exact ih [] List.not_mem_nil line hm
      · rename_i hc
        refine ih _ (fun hr => ?_) line hm
        rcases List.mem_append.1 hr with hr | hr
        · exact hacc hr
        · exact hc (.inr (List.mem_singleton.1 hr).symm)
  obtain ⟨line, hm, rfl⟩ := List.mem_map.1 (List.mem_filter.1 h).1
  exact fun hr => hline s [] List.not_mem_nil line hm (mem_of_mem_strip hr)

/-- Two commands in a line, with a carriage return between them. -/
private def Multiple (line : Str) : Prop := ∃ a b, line = a ++ '\r' :: b ∧ strip a ≠ [] ∧ strip b ≠ []

/-- A line with no more than one command gives its stripped text, however it is cut at its carriage returns. -/
private theorem typedCommands_line {line : Str} (hn : '\n' ∉ line) (hone : ¬ Multiple line) (rest : Str) :
    typedCommands (line ++ '\n' :: rest) = commandIn line ++ typedCommands rest := by
  induction hlen : line.length using Nat.strong_induction_on generalizing line with
  | _ n ih =>
    rcases partition_cases '\r' line with ⟨hr, -⟩ | ⟨a, b, rfl, ha, -⟩
    · exact typedCommands_append hn hr (.inl rfl) rest
    have hna : '\n' ∉ a := fun h => hn (by simp [h])
    have hnb : '\n' ∉ b := fun h => hn (by simp [h])
    have honeb : ¬ Multiple b := by
      rintro ⟨p, q, rfl, hp, hq⟩
      refine hone ⟨a ++ '\r' :: p, q, by simp, fun h => hp ?_, hq⟩
      rw [strip_eq_nil_iff] at h ⊢
      exact fun c hc => h c (by simp [hc])
    have hb := ih b.length (by rw [← hlen]; simp; omega) hnb honeb rfl
    have hcut : typedCommands (a ++ '\r' :: b ++ '\n' :: rest) =
        commandIn a ++ (commandIn b ++ typedCommands rest) := by
      rw [List.append_assoc, List.cons_append, typedCommands_append hna ha (.inr rfl), hb]
    rw [hcut, ← List.append_assoc]
    congr 1
    have hcr : isSpace '\r' = true := by decide
    by_cases hblank : strip a = []
    · -- what is in front of the carriage return is stripped away
      have hall : ∀ c ∈ a ++ ['\r'], isSpace c = true := by
        intro c hc
        rcases List.mem_append.1 hc with hc | hc
        · exact strip_eq_nil_iff.1 hblank c hc
        · rw [List.mem_singleton.1 hc]
          exact hcr
      have hstrip : strip (a ++ '\r' :: b) = strip b := by
        rw [List.append_cons, strip_append_left hall]
      simp only [commandIn, hstrip, hblank]
      simp
    · have hblankb : strip b = [] := by_contra fun hne => hone ⟨a, b, rfl, hblank, hne⟩
      have hall : ∀ c ∈ '\r' :: b, isSpace c = true := by
        intro c hc
        rcases List.mem_cons.1 hc with rfl | hc
        · exact hcr
        · exact strip_eq_nil_iff.1 hblankb c hc
      simp only [commandIn, strip_append_right hall, hblankb]
      simp

private theorem mixed_append {s : Str} (h : Mixed s) (l : Str) : Mixed (l ++ s) := by
  obtain ⟨u, a, b, v, rfl, hrest⟩ := h
  exact ⟨l ++ u, a, b, v, by simp, hrest⟩

/-- The first newline of a stream ends a line with two commands, or there are such lines behind it. -/
private theorem mixed_line_iff {line : Str} (hn : '\n' ∉ line) (rest : Str) :
    Mixed (line ++ '\n' :: rest) ↔ Multiple line ∨ Mixed rest := by
  constructor
  · rintro ⟨u, a, b, v, heq, ha, hb, hsa, hsb⟩
    have hfirst := congrArg (partition '\n') heq
    rw [partition_append hn] at hfirst
    rcases partition_cases '\n' u with ⟨hu, -⟩ | ⟨p, q, rfl, hp, -⟩
    · have hfree : '\n' ∉ u ++ a ++ '\r' :: b := by simp [hu, ha, hb]
      rw [partition_append hfree] at hfirst
      refine .inl ⟨u ++ a, b, congrArg Prod.fst hfirst, fun h => hsa ?_, hsb⟩
      rw [strip_eq_nil_iff] at h ⊢
      exact fun c hc => h c (by simp [hc])
    · rw [List.append_assoc, List.append_assoc, List.append_assoc, List.cons_append, partition_append hp] at hfirst
      refine .inr ⟨q, a, b, v, ?_, ha, hb, hsa, hsb⟩
      have hrest := Option.some.inj (congrArg Prod.snd hfirst)
      rw [hrest]
      simp
  · rintro (⟨a, b, rfl, hsa, hsb⟩ | h)
    · exact ⟨[], a, b, rest, by simp, fun h => hn (by simp [h]), fun h => hn (by simp [h]), hsa, hsb⟩
    · rw [List.append_cons]
      exact mixed_append h _

private theorem not_mixed_of_no_newline {s : Str} (hn : '\n' ∉ s) : ¬ Mixed s := by
  rintro ⟨u, a, b, v, rfl, -⟩
  exact hn (by simp)

end Stream

/-! ### The loop -/

namespace InputState

variable {raises : List Str → Str → Bool}

/-- The commands that are executed: the others end the session. -/
def executed (cmds : List Str) : List Str := cmds.filter fun cmd => !isExit cmd

private theorem executed_append (as bs : List Str) : executed (as ++ bs) = executed as ++ executed bs :=
  List.filter_append ..

private theorem executed_eq_nil_iff {cmds : List Str} : executed cmds = [] ↔ ∀ d ∈ cmds, isExit d = true := by
  simp [executed, List.filter_eq_nil_iff]

private theorem stopsLast_of_exits {before cmds : List Str} (h : ∀ d ∈ cmds, isExit d = true) :
    StopsLast raises before cmds := by
  cases cmds with
  | nil => trivial
  | cons cmd cmds =>
    rw [StopsLast, if_pos (h cmd List.mem_cons_self)]
    exact fun d hd => h d (List.mem_cons_of_mem _ hd)

private theorem loop_of_none {s : InputState} (h : nextLine s.buf = none) : loop raises s = s := by
  rw [loop]
  split
  · rfl
  · rename_i hsome
    rw [h] at hsome
    cases hsome

theorem loop_of_some {s : InputState} {line rest : Str} (h : nextLine s.buf = some (line, rest)) :
    loop raises s =
      if strip line = [] then loop raises ⟨rest, s.commands⟩
      else if isExit (strip line) then ⟨rest, s.commands⟩
      else if raises s.commands (strip line) then ⟨rest, s.commands ++ [strip line]⟩
      else loop raises ⟨rest, s.commands ++ [strip line]⟩ := by
  rw [loop]
  split
  · rename_i hnone
    rw [h] at hnone
    cases hnone
  · rename_i hsome
    obtain ⟨rfl, rfl⟩ := Prod.mk.inj (Option.some.inj (h.symm.trans hsome))
    rfl

theorem loop_nil (cmds : List Str) : loop raises ⟨[], cmds⟩ = ⟨[], cmds⟩ := loop_of_none rfl

/-- A line at the end of the buffer: nothing is left, whatever stops the loop. -/
private theorem loop_line {buf line : Str} (h : nextLine buf = some (line, [])) (cmds : List Str) :
    loop raises ⟨buf, cmds⟩ = ⟨[], cmds ++ executed (commandIn line)⟩ := by
  rw [loop_of_some (s := ⟨buf, cmds⟩) h, commandIn_eq]
  by_cases hblank : strip line = []
  · simp [hblank, loop_nil, executed]
  · by_cases hexit : isExit (strip line)
    · simp [hblank, hexit, executed]
    · simp [hblank, hexit, loop_nil, executed]

/-- Commands are only added. -/
private theorem prefix_loop (s : InputState) : s.commands <+: (loop raises s).commands := by
  induction hlen : s.buf.length using Nat.strong_induction_on generalizing s with
  | _ n ih =>
    rcases nextLine_cases s.buf with ⟨-, -, hnone⟩ | ⟨line, rest, hsome, -⟩
    · rw [loop_of_none hnone]
    · have hlt := length_lt_of_nextLine hsome
      rw [hlen] at hlt
      rw [loop_of_some hsome]
      split
      · exact ih rest.length hlt ⟨rest, s.commands⟩ rfl
      split
      · exact List.prefix_refl _
      split
      · exact List.prefix_append _ _
      · exact (List.prefix_append _ _).trans (ih rest.length hlt ⟨rest, s.commands ++ [strip line]⟩ rfl)

private theorem prefix_processAll (s : InputState) (chunks : List Str) :
    s.commands <+: (processAll raises s chunks).commands := by
  induction chunks generalizing s with
  | nil => exact List.prefix_refl _
  | cons data chunks ih =>
    have hloop : s.commands <+: (processInput raises s data).commands :=
      prefix_loop { s with buf := s.buf ++ data }
    exact hloop.trans (ih _)

/-! ### Chunks of one character -/

/-- One character at a time, the commands are those that were typed. -/
private theorem processAll_characters (s : Str) {line : Str} (hn : '\n' ∉ line) (hr : '\r' ∉ line) (cmds : List Str) :
    (processAll raises ⟨line, cmds⟩ (s.map fun c => [c])).commands =
      cmds ++ executed (((typedLines line s).map strip).filter (· ≠ [])) := by
  induction s generalizing line cmds with
  | nil => simp [processAll, typedLines, executed]
  | cons c s ih =>
    rw [List.map_cons]
    show (processAll raises (loop raises ⟨line ++ [c], cmds⟩) _).commands = _
    rw [typedLines]
    by_cases hc : c = '\n' ∨ c = '\r'
    · have hnext : nextLine (line ++ [c]) = some (line, []) := by
        unfold nextLine
        rcases hc with rfl | rfl
        · rw [partition_append hn]
        · rcases partition_cases '\n' (line ++ ['\r']) with ⟨-, heq⟩ | ⟨a, b, heq, -⟩
          · rw [heq, partition_append hr]
          · have hmem : '\n' ∈ line ++ ['\r'] := by simp [heq]
            simp [hn] at hmem
      rw [if_pos hc, loop_line hnext, ih List.not_mem_nil List.not_mem_nil, List.map_cons, ← List.singleton_append,
        List.filter_append, executed_append, List.append_assoc]
      rfl
    · obtain ⟨hcn, hcr⟩ := not_or.1 hc
      have hn' : '\n' ∉ line ++ [c] := by simp [hn, Ne.symm hcn]
      have hr' : '\r' ∉ line ++ [c] := by simp [hr, Ne.symm hcr]
      have hnone : nextLine (line ++ [c]) = none := by
        rcases nextLine_cases (line ++ [c]) with ⟨-, -, hnone⟩ | ⟨a, b, -, ⟨heq, -⟩ | ⟨heq, -⟩⟩
        · exact hnone
        · exact absurd (by rw [heq]; simp) hn'
        · exact absurd (by rw [heq]; simp) hr'
      rw [if_neg hc, loop_of_none (s := ⟨line ++ [c], cmds⟩) hnone]
      exact ih hn' hr' cmds

/-! ### Any chunks -/

/-- The loop takes the next command of a stream that is not mixed. -/
private theorem typedCommands_next {buf line rest : Str} (h : nextLine buf = some (line, rest)) {later : Str}
    (hmixed : ¬ Mixed (buf ++ later)) :
    typedCommands (buf ++ later) = commandIn line ++ typedCommands (rest ++ later) ∧ ¬ Mixed (rest ++ later) := by
  rcases nextLine_cases buf with ⟨-, -, hnone⟩ | ⟨l, r, hsome, hbuf⟩
  · rw [hnone] at h
    cases h
  obtain ⟨rfl, rfl⟩ := Prod.mk.inj (Option.some.inj (hsome.symm.trans h))
  rcases hbuf with ⟨rfl, hn⟩ | ⟨rfl, hr, hn⟩
  · rw [List.append_assoc, List.cons_append] at hmixed ⊢
    rw [mixed_line_iff hn, not_or] at hmixed
    exact ⟨typedCommands_line hn hmixed.1 _, hmixed.2⟩
  · have hline : '\n' ∉ l := fun hm => hn (by simp [hm])
    rw [List.append_assoc, List.cons_append] at hmixed ⊢
    refine ⟨typedCommands_append hline hr (.inr rfl) _, fun hm => hmixed ?_⟩
    rw [List.append_cons]
    exact mixed_append hm _

/-- What holds between two chunks, with the stream `later` still to come: the commands that are due are those that were
executed and those that the buffer and the rest of the stream have, and a session that stopped to read has none. -/
private structure Ready (raises : List Str → Str → Bool) (due : List Str) (s : InputState) (later : Str) : Prop where
  unmixed : ¬ Mixed (s.buf ++ later)
  stops : StopsLast raises s.commands (typedCommands (s.buf ++ later))
  commands : s.commands ++ executed (typedCommands (s.buf ++ later)) = due

private theorem ready_loop {due : List Str} {s : InputState} {later : Str} (h : Ready raises due s later) :
    Ready raises due (loop raises s) later ∧ (nextLine (loop raises s).buf = none ∨
      ∀ d ∈ typedCommands ((loop raises s).buf ++ later), isExit d = true) := by
  induction hlen : s.buf.length using Nat.strong_induction_on generalizing s with
  | _ n ih =>
    rcases nextLine_cases s.buf with ⟨-, -, hnone⟩ | ⟨line, rest, hsome, -⟩
    · rw [loop_of_none hnone]
      exact ⟨h, .inl hnone⟩
    have hlt := length_lt_of_nextLine hsome
    rw [hlen] at hlt
    obtain ⟨htyped, hmixed⟩ := typedCommands_next hsome h.unmixed
    have hstops := h.stops
    have hcommands := h.commands
    rw [htyped, commandIn_eq] at hstops hcommands
    rw [loop_of_some hsome]
    by_cases hblank : strip line = []
    · rw [if_pos hblank] at hstops hcommands ⊢
      exact @ih rest.length hlt ⟨rest, s.commands⟩ ⟨hmixed, hstops, hcommands⟩ rfl
    rw [if_neg hblank] at hstops hcommands ⊢
    rw [List.singleton_append, StopsLast] at hstops
    rw [executed_append, ← List.append_assoc] at hcommands
    by_cases hexit : isExit (strip line) = true
    · rw [if_pos hexit] at hstops ⊢
      refine ⟨⟨hmixed, stopsLast_of_exits hstops, ?_⟩, .inr hstops⟩
      simpa [executed, hexit] using hcommands
    rw [if_neg hexit] at hstops ⊢
    have hdue : (s.commands ++ [strip line]) ++ executed (typedCommands (rest ++ later)) = due := by
      simpa [executed, hexit] using hcommands
    split
    · rename_i hraises
      exact ⟨⟨hmixed, hstops.2, hdue⟩, .inr (hstops.1 hraises)⟩
    · exact @ih rest.length hlt ⟨rest, s.commands ++ [strip line]⟩ ⟨hmixed, hstops.2, hdue⟩ rfl

private theorem ready_processAll {due : List Str} (chunks : List Str) {s : InputState}
    (h : Ready raises due s chunks.flatten)
    (hread : nextLine s.buf = none ∨ ∀ d ∈ typedCommands (s.buf ++ chunks.flatten), isExit d = true) :
    (processAll raises s chunks).commands = due := by
  induction chunks generalizing s with
  | nil =>
    have hnone : executed (typedCommands (s.buf ++ [])) = [] := by
      rcases hread with hnone | hexits
      · rcases nextLine_cases s.buf with ⟨hn, hr, -⟩ | ⟨line, rest, hsome, -⟩
        · rw [List.append_nil, typedCommands_eq_nil hn hr]
          rfl
        · rw [hsome] at hnone
          cases hnone
      · exact executed_eq_nil_iff.2 hexits
    have hcommands := h.commands
    rw [List.flatten_nil, hnone, List.append_nil] at hcommands
    exact hcommands
  | cons data chunks ih =>
    have hready : Ready raises due { s with buf := s.buf ++ data } chunks.flatten := by
      have heq : s.buf ++ (data :: chunks).flatten = (s.buf ++ data) ++ chunks.flatten := by simp
      refine ⟨?_, ?_, ?_⟩
      · have hmixed := h.unmixed
        rw [heq] at hmixed
        exact hmixed
      · have hstops := h.stops
        rw [heq] at hstops
        exact hstops
      · have hcommands := h.commands
        rw [heq] at hcommands
        exact hcommands
    obtain ⟨hloop, hstop⟩ := ready_loop hready
    exact ih hloop hstop

/-! ### The condition is needed -/

/-- Every way to cut the stream executes the commands that were typed. -/
private def Steady (raises : List Str → Str → Bool) (cmds : List Str) (s : Str) : Prop :=
  ∀ chunks : List Str, chunks.flatten = s →
    (processAll raises ⟨[], cmds⟩ chunks).commands = cmds ++ executed (typedCommands s)

private theorem carriageReturn_mem_strip {a b : Str} (ha : strip a ≠ []) (hb : strip b ≠ []) :
    '\r' ∈ strip (a ++ '\r' :: b) := by
  obtain ⟨l, r, hs, hl, hr⟩ := exists_strip_eq (a ++ '\r' :: b)
  rw [List.append_assoc] at hs
  rcases List.append_eq_append_iff.1 hs with ⟨c, rfl, -⟩ | ⟨c, rfl, htail⟩
  · exact (ha (strip_eq_nil_iff.2 fun d hd => hl d (by simp [hd]))).elim
  rcases List.append_eq_append_iff.1 htail with ⟨d, -, htext⟩ | ⟨d, hmiddle, htext⟩
  · exact (hb (strip_eq_nil_iff.2 fun e he => hr e (by simp [htext, he]))).elim
  · cases d with
    | nil =>
      rw [List.nil_append] at htext
      exact (hb (strip_eq_nil_iff.2 fun e he => hr e (by simp [← htext, he]))).elim
    | cons e d =>
      obtain ⟨rfl, -⟩ := List.cons.inj htext
      rw [hmiddle]
      simp

private theorem not_isExit_of_mem {cmd : Str} (h : '\r' ∈ cmd) : isExit cmd = false := by
  by_contra hexit
  rw [Bool.not_eq_false, isExit, Bool.or_eq_true, decide_eq_true_eq, decide_eq_true_eq] at hexit
  rcases hexit with rfl | rfl
  · exact absurd h (by decide)
  · exact absurd h (by decide)

/-- The terminator of the next line, and the line in a chunk of its own. -/
private theorem nextLine_alone {s line rest : Str} (h : nextLine s = some (line, rest)) :
    ∃ t, s = line ++ t :: rest ∧ nextLine (line ++ [t]) = some (line, []) := by
  rcases nextLine_cases s with ⟨-, -, hnone⟩ | ⟨l, r, hsome, hbuf⟩
  · rw [hnone] at h
    cases h
  obtain ⟨rfl, rfl⟩ := Prod.mk.inj (Option.some.inj (hsome.symm.trans h))
  rcases hbuf with ⟨rfl, hn⟩ | ⟨rfl, hr, hn⟩
  · refine ⟨'\n', rfl, ?_⟩
    rw [nextLine, partition_append hn]
  · refine ⟨'\r', rfl, ?_⟩
    have hn' : '\n' ∉ l ++ ['\r'] := fun hm => hn (by
      rw [List.append_cons]
      exact List.mem_append_left r hm)
    rcases partition_cases '\n' (l ++ ['\r']) with ⟨-, heq⟩ | ⟨a, b, heq, -⟩
    · rw [nextLine, heq, partition_append hr]
    · exact absurd (by rw [heq]; simp) hn'

/-- With two commands in a line, the session that gets the line at once executes a command that nobody typed. -/
private theorem not_multiple_of_steady {s line rest : Str} {cmds : List Str} (h : Steady raises cmds s)
    (hsome : nextLine s = some (line, rest)) : ¬ Multiple line := by
  rintro ⟨a, b, rfl, ha, hb⟩
  obtain ⟨t, hs, halone⟩ := nextLine_alone hsome
  have hcr := carriageReturn_mem_strip ha hb
  have hcommand : executed (commandIn (a ++ '\r' :: b)) = [strip (a ++ '\r' :: b)] := by
    rw [commandIn_eq, if_neg (List.ne_nil_of_mem hcr)]
    simp [executed, not_isExit_of_mem hcr]
  have hcut := h [a ++ '\r' :: b ++ [t], rest] (by rw [hs]; simp)
  have hfirst : processInput raises ⟨[], cmds⟩ (a ++ '\r' :: b ++ [t]) =
      ⟨[], cmds ++ [strip (a ++ '\r' :: b)]⟩ := by
    rw [← hcommand]
    exact loop_line halone cmds
  have hprefix := @prefix_processAll raises ⟨[], cmds ++ [strip (a ++ '\r' :: b)]⟩ [rest]
  rw [← hfirst] at hprefix
  have hall : (processInput raises ⟨[], cmds⟩ (a ++ '\r' :: b ++ [t])).commands <+:
      cmds ++ executed (typedCommands s) := by
    rw [← hcut]
    exact hprefix
  rw [hfirst] at hall
  have hmem : strip (a ++ '\r' :: b) ∈ executed (typedCommands s) :=
    ((List.prefix_append_right_inj cmds).1 hall).subset (List.mem_singleton_self _)
  exact notMem_of_typedCommands (List.mem_filter.1 hmem).1 hcr

private theorem conditions_of_steady {s : Str} {cmds : List Str} (h : Steady raises cmds s) :
    ¬ Mixed s ∧ StopsLast raises cmds (typedCommands s) := by
  induction hlen : s.length using Nat.strong_induction_on generalizing s cmds with
  | _ n ih =>
    rcases nextLine_cases s with ⟨hn, hr, -⟩ | ⟨line, rest, hsome, hbuf⟩
    · rw [typedCommands_eq_nil hn hr]
      exact ⟨not_mixed_of_no_newline hn, trivial⟩
    have hone := not_multiple_of_steady h hsome
    obtain ⟨t, hs, halone⟩ := nextLine_alone hsome
    have htyped : typedCommands s = commandIn line ++ typedCommands rest := by
      rcases hbuf with ⟨rfl, hn⟩ | ⟨rfl, hr, hn⟩
      · exact typedCommands_line hn hone rest
      · exact typedCommands_append (fun hm => hn (by simp [hm])) hr (.inr rfl) rest
    -- the session goes on with the rest as it would begin with it
    have hrest : Steady raises (cmds ++ executed (commandIn line)) rest := by
      intro chunks hchunks
      have hcut := h ((line ++ [t]) :: chunks) (by rw [hs, List.flatten_cons, hchunks]; simp)
      rw [htyped, executed_append, ← List.append_assoc] at hcut
      have hfirst : processInput raises ⟨[], cmds⟩ (line ++ [t]) = ⟨[], cmds ++ executed (commandIn line)⟩ :=
        loop_line halone cmds
      rw [processAll, List.foldl_cons, hfirst] at hcut
      exact hcut
    obtain ⟨hmixed, hstops⟩ := ih rest.length (by rw [← hlen, hs]; simp; omega) hrest rfl
    have honly := h [s] (by simp)
    have hwhole : processAll raises ⟨[], cmds⟩ [s] = loop raises ⟨s, cmds⟩ := rfl
    rw [hwhole, loop_of_some (s := ⟨s, cmds⟩) hsome, htyped, executed_append] at honly
    rw [htyped, commandIn_eq]
    rw [commandIn_eq] at hstops honly
    refine ⟨?_, ?_⟩
    · rcases hbuf with ⟨rfl, hn⟩ | ⟨rfl, -, hn⟩
      · rw [mixed_line_iff hn]
        exact not_or.2 ⟨hone, hmixed⟩
      · exact not_mixed_of_no_newline hn
    by_cases hblank : strip line = []
    · rw [if_pos hblank] at hstops ⊢
      simpa [executed] using hstops
    rw [if_neg hblank] at hstops honly ⊢
    rw [if_neg hblank] at honly
    rw [List.singleton_append, StopsLast]
    by_cases hexit : isExit (strip line) = true
    · rw [if_pos hexit]
      rw [if_pos hexit] at honly
      rw [← executed_eq_nil_iff]
      simpa [executed, hexit] using honly
    · rw [if_neg hexit]
      rw [if_neg hexit] at honly
      have hexecuted : executed [strip line] = [strip line] := by simp [executed, hexit]
      rw [hexecuted] at hstops honly
      refine ⟨fun hraises => ?_, hstops⟩
      rw [if_pos hraises] at honly
      rw [← executed_eq_nil_iff]
      simpa using honly

end InputState

open InputState

theorem chunkIndependent_iff (raises : List Str → Str → Bool) (s : Str) :
    (∀ cs cs' : List Str, cs.flatten = s → cs'.flatten = s →
        (processAll raises ⟨[], []⟩ cs).commands = (processAll raises ⟨[], []⟩ cs').commands) ↔
      ¬ Mixed s ∧ StopsLast raises [] (typedCommands s) := by
  have hcharacters : (processAll raises ⟨[], []⟩ (s.map fun c => [c])).commands = executed (typedCommands s) := by
    rw [processAll_characters s List.not_mem_nil List.not_mem_nil, List.nil_append]
    rfl
  have hflatten : (s.map fun c => [c]).flatten = s := by simp [← List.flatMap_def]
  constructor
  · intro h
    refine conditions_of_steady fun chunks hchunks => ?_
    rw [h chunks _ hchunks hflatten, hcharacters]
    rfl
  · rintro ⟨hmixed, hstops⟩ cs cs' hcs hcs'
    have hdue : ∀ chunks : List Str, chunks.flatten = s →
        (processAll raises ⟨[], []⟩ chunks).commands = executed (typedCommands s) := by
      rintro chunks rfl
      exact ready_processAll chunks ⟨hmixed, hstops, rfl⟩ (.inl rfl)
    rw [hdue cs hcs, hdue cs' hcs']

/-- The chunks make no difference to the stream in one piece. -/
theorem processAll_eq_iff (raises : List Str → Str → Bool) (s : Str) :
    (∀ cs : List Str, cs.flatten = s →
        (processAll raises ⟨[], []⟩ cs).commands = (processAll raises ⟨[], []⟩ [s]).commands) ↔
      ¬ Mixed s ∧ StopsLast raises [] (typedCommands s) := by
  constructor
  · intro h
    have hcharacters : (processAll raises ⟨[], []⟩ (s.map fun c => [c])).commands = executed (typedCommands s) := by
      rw [processAll_characters s List.not_mem_nil List.not_mem_nil, List.nil_append]
      rfl
    refine conditions_of_steady fun chunks hchunks => ?_
    rw [h chunks hchunks, ← h (s.map fun c => [c]) (by simp [← List.flatMap_def]), hcharacters]
    rfl
  · rintro ⟨hmixed, hstops⟩ cs hcs
    have hone : (processAll raises ⟨[], []⟩ [s]).commands = executed (typedCommands s) :=
      ready_processAll [s] ⟨by simpa using hmixed, by simpa using hstops, by simp⟩ (.inl rfl)
    subst hcs
    rw [hone]
    exact ready_processAll cs ⟨hmixed, hstops, rfl⟩ (.inl rfl)

/-- Two commands, the first one ended by a carriage return and the second one by a newline, at once and one by one. -/
theorem not_chunkIndependent_mixed :
    ¬ ∀ s : Str, ∀ cs cs' : List Str, cs.flatten = s → cs'.flatten = s →
      (processAll (fun _ _ => false) ⟨[], []⟩ cs).commands = (processAll (fun _ _ => false) ⟨[], []⟩ cs').commands := by
  intro h
  have hcut := h "id\rls\n".toList ["id\rls\n".toList] ["id\r".toList, "ls\n".toList] (by decide) (by decide)
  revert hcut
  decide +kernel

end Cyanide
