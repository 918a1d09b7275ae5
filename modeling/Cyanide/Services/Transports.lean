import Cyanide.Services.Telnet

/-!
# Commands over Telnet and SSH

Both front ends take the lines of what a client types, in loops of their own.  A stream that ends with a newline gives
the same commands over Telnet and over SSH if SSH reads it in one piece (`commands_shellLoop`); so in whatever chunks SSH
reads it the commands are the same exactly when the chunks make no difference there (`commands_iff`).
-/

namespace Cyanide

open PosixPath PyText Smtp

namespace TelnetEffect

/-- The commands that are given to the shell. -/
def commands (effects : List TelnetEffect) : List Str :=
  effects.filterMap fun
    | .command _ cmd => some cmd
    | _ => none

@[simp] theorem commands_append (a b : List TelnetEffect) : commands (a ++ b) = commands a ++ commands b :=
  List.filterMap_append

end TelnetEffect

namespace TelnetServer

open TelnetEffect

variable {σ : Type} (S : TelnetServer σ)

/-- The shell behind some commands. -/
def behind (shell : σ) (cmds : List Str) : σ :=
  cmds.foldl (fun shell cmd => match S.execute shell cmd with
    | .done shell' _ _ _ => shell'
    | _ => shell) shell

/-- A command, behind others, is not executed to its end. -/
def raises (username : Str) (before : List Str) (cmd : Str) : Bool :=
  match S.execute (S.behind (S.shell username) before) cmd with
  | .done .. => false
  | _ => true

end TelnetServer

/-! ### Lines -/

theorem encodeText_append (a b : Str) : encodeText (a ++ b) = encodeText a ++ encodeText b := List.flatMap_append

theorem decodeStrict_encodeText (s : Str) : decodeStrict (encodeText s) = some s := by
  have hdecode : decodeIgnore (encodeText s) = s := decodeFrom_encode [] s
  rw [decodeStrict, hdecode]
  exact if_pos rfl

/-- The lines of a text with newlines are those of its bytes. -/
theorem linesOf_encodeText {line : Str} (hline : '\n' ∉ line) (rest : Str) :
    linesOf (encodeText (line ++ '\n' :: rest)) = encodeText (line ++ ['\n']) :: linesOf (encodeText rest) := by
  have hbytes : ∀ b ∈ encodeText line, decide (b = 10) = false := by
    intro b hb
    refine decide_eq_false fun h => ?_
    exact newline_notMem_encode hline (h ▸ hb)
  have hsplit : encodeText (line ++ '\n' :: rest) = encodeText line ++ 10 :: encodeText rest := encodeText_append line _
  have hend : encodeText (line ++ ['\n']) = encodeText line ++ [10] := encodeText_append line _
  rw [hsplit, hend, linesOf, linesFrom_append hbytes, List.nil_append]
  exact linesFrom_end rfl (fun h => absurd h.1 (by decide)) _

/-! ### The two loops -/

namespace TelnetServer

open TelnetEffect InputState

variable {σ : Type} {S : TelnetServer σ} {ending : ClientEnd} {username : Str}

theorem readUntil_encodeText {line : Str} (hshort : isTooLong (encodeText (line ++ ['\n'])) = false) (rest : List Line) :
    readUntil ending (encodeText (line ++ ['\n']) :: rest) = .line (encodeText (line ++ ['\n'])) := by
  have hlast : (encodeText (line ++ ['\n'])).getLast? = some 10 := by
    have hend : encodeText (line ++ ['\n']) = encodeText line ++ [10] := encodeText_append line _
    rw [hend, List.getLast?_concat]
  rw [readUntil, hshort, if_neg Bool.false_ne_true, if_pos hlast]

theorem strip_newline (line : Str) : strip (line ++ ['\n']) = strip line := by
  refine strip_append_right (fun c hc => ?_) line
  rw [List.mem_singleton.1 hc]
  rfl

theorem behind_concat {shell shell' : σ} {before : List Str} {cmd stdout stderr : Str} {rc : Int}
    (hexec : S.execute (S.behind shell before) cmd = .done shell' stdout stderr rc) :
    S.behind shell (before ++ [cmd]) = shell' := by
  rw [behind, List.foldl_append, List.foldl_cons, List.foldl_nil]
  show (match S.execute (S.behind shell before) cmd with
    | .done shell' _ _ _ => shell'
    | _ => S.behind shell before) = shell'
  rw [hexec]

theorem commands_answer (cmd stdout stderr : Str) (shell : σ) (rc : Int) :
    commands (S.answer username cmd shell stdout stderr rc) = [] := by
  unfold answer
  rw [commands_append]
  split
  · rfl
  · rfl

/-- Lines with a newline each: the loop gives the shell the commands that the loop over the buffer executes. -/
theorem commands_shellLoop {ls : List Str} (hls : ∀ line ∈ ls, '\n' ∉ line)
    (hshort : ∀ line ∈ ls, isTooLong (encodeText (line ++ ['\n'])) = false) (before : List Str) (prompt : Str)
    (counts : ShellCounts) :
    before ++ commands (S.shellLoop username ending (S.behind (S.shell username) before) prompt counts
      (linesOf (encodeText (ls.flatMap (· ++ ['\n']))))).1 =
    (loop (S.raises username) ⟨ls.flatMap (· ++ ['\n']), before⟩).commands := by
  induction ls generalizing before prompt counts with
  | nil =>
    have hnone : commands (S.shellLoop username ending (S.behind (S.shell username) before) prompt counts []).1 = [] := by
      cases ending <;> rfl
    rw [List.flatMap_nil, loop_nil]
    exact (congrArg _ hnone).trans (List.append_nil before)
  | cons line ls ih =>
    rw [List.forall_mem_cons] at hls hshort
    have hcons : (line :: ls).flatMap (· ++ ['\n']) = line ++ '\n' :: ls.flatMap (· ++ ['\n']) := by simp
    have hnext : nextLine (line ++ '\n' :: ls.flatMap (· ++ ['\n'])) = some (line, ls.flatMap (· ++ ['\n'])) := by
      rw [nextLine, partition_append hls.1]
    rw [hcons, linesOf_encodeText hls.1, loop_of_some hnext, shellLoop, readUntil_encodeText hshort.1]
    dsimp only
    rw [decodeStrict_encodeText]
    dsimp only
    rw [strip_newline]
    -- both loops look at the stripped line in the same order: blank, the end of the session, a command
    by_cases hblank : strip line = []
    · rw [if_pos hblank, if_pos hblank, ← ih hls.2 hshort.2]
      rw [commands_append]
      rfl
    · rw [if_neg hblank, if_neg hblank]
      by_cases hexit : isExit (strip line) = true
      · rw [if_pos hexit, if_pos hexit]
        exact List.append_nil before
      · rw [if_neg hexit, if_neg hexit]
        cases hexec : S.execute (S.behind (S.shell username) before) (strip line) with
        | done shell' stdout stderr rc =>
          have hraises : S.raises username before (strip line) = false := by rw [raises, hexec]
          have hlater := ih hls.2 hshort.2 (before ++ [strip line])
          rw [behind_concat hexec] at hlater
          dsimp only
          rw [hraises, if_neg Bool.false_ne_true, commands_append, commands_append, commands_append, commands_answer,
            List.append_nil]
          show before ++ ([strip line] ++ TelnetEffect.commands _) = _
          rw [← List.append_assoc]
          exact hlater _ _
        | timeout =>
          have hraises : S.raises username before (strip line) = true := by rw [raises, hexec]
          rw [hraises, if_pos rfl]
          rfl
        | error =>
          have hraises : S.raises username before (strip line) = true := by rw [raises, hexec]
          rw [hraises, if_pos rfl]
          rfl

/-- A text that ends with a newline, as its lines. -/
theorem exists_lines {s : Str} (hs : s = [] ∨ s.getLast? = some '\n') :
    ∃ ls : List Str, (∀ line ∈ ls, '\n' ∉ line) ∧ s = ls.flatMap (· ++ ['\n']) := by
  rcases hs with rfl | hs
  · exact ⟨[], by simp, rfl⟩
  · obtain ⟨t, rfl⟩ := List.getLast?_eq_some_iff.1 hs
    refine ⟨t.splitOn '\n', fun line hline => (Exposition.mem_splitOn hline).2, ?_⟩
    rw [← intercalate_newline (List.splitOn_ne_nil '\n' t), List.intercalate_splitOn]

theorem mem_linesOf {ls : List Str} (hls : ∀ line ∈ ls, '\n' ∉ line) :
    linesOf (encodeText (ls.flatMap (· ++ ['\n']))) = ls.map fun line => encodeText (line ++ ['\n']) := by
  induction ls with
  | nil => rfl
  | cons line ls ih =>
    rw [List.forall_mem_cons] at hls
    have hcons : (line :: ls).flatMap (· ++ ['\n']) = line ++ '\n' :: ls.flatMap (· ++ ['\n']) := by simp
    rw [hcons, linesOf_encodeText hls.1, ih hls.2, List.map_cons]

/-- A stream that ends with a newline, and no line of it is too long: the commands over Telnet are those over SSH, in
whatever chunks SSH reads it, just when no line hides a carriage return between two commands and nothing is left to
execute where the session stops to read. -/
theorem commands_iff {s : Str} (hs : s = [] ∨ s.getLast? = some '\n')
    (hshort : ∀ line ∈ linesOf (encodeText s), isTooLong line = false) (S : TelnetServer σ) (username : Str)
    (ending : ClientEnd) :
    (∀ cs : List Str, cs.flatten = s → (processAll (S.raises username) ⟨[], []⟩ cs).commands =
        commands (S.runShell username ending (linesOf (encodeText s))).1) ↔
      ¬ Mixed s ∧ StopsLast (S.raises username) [] (typedCommands s) := by
  have hone : commands (S.runShell username ending (linesOf (encodeText s))).1 =
      (processAll (S.raises username) ⟨[], []⟩ [s]).commands := by
    obtain ⟨ls, hls, rfl⟩ := exists_lines hs
    have hshort' : ∀ line ∈ ls, isTooLong (encodeText (line ++ ['\n'])) = false := by
      intro line hline
      refine hshort _ ?_
      rw [mem_linesOf hls]
      exact List.mem_map_of_mem hline
    exact commands_shellLoop (S := S) hls hshort' [] _ _
  rw [hone]
  exact processAll_eq_iff (S.raises username) s

/-- Two commands and a blank line, in three chunks. -/
theorem commands_iff_ls :
    (processAll (quietServer.raises "root".toList) ⟨[], []⟩ ["l".toList, "s\n\nid".toList, "\n".toList]).commands =
      commands (quietServer.runShell "root".toList .gone (linesOf (encodeText "ls\n\nid\n".toList))).1 := by
  have hmixed : ¬ Mixed "ls\n\nid\n".toList := by
    rintro ⟨u, a, b, v, h, -⟩
    have hmem : '\r' ∈ "ls\n\nid\n".toList := by
      rw [h]
      simp
    exact absurd hmem (by decide)
  have htyped : typedCommands "ls\n\nid\n".toList = ["ls".toList, "id".toList] := by decide
  have hstops : StopsLast (quietServer.raises "root".toList) [] (typedCommands "ls\n\nid\n".toList) := by
    rw [htyped, StopsLast, if_neg (by decide), StopsLast, if_neg (by decide)]
    exact ⟨fun hraises => absurd hraises Bool.false_ne_true, fun hraises => absurd hraises Bool.false_ne_true, trivial⟩
  exact (commands_iff (.inr (by decide)) (by decide) quietServer "root".toList .gone).2 ⟨hmixed, hstops⟩
    ["l".toList, "s\n\nid".toList, "\n".toList] (by decide)

end TelnetServer

end Cyanide
