import Cyanide.Lib.TreeWalk
import Cyanide.Shell.TextCommands
import Cyanide.Vfs.Agreement
import Cyanide.Vfs.Scp
import Cyanide.Vfs.Tree

/-!
# Walks through the filesystem

`find`, `grep -r`, `ls -R` and the SCP source go through the filesystem by its listings, without a measure of their own:
`list_dir` has to return the names of existing entries, and nothing else.  This is so in a tidy filesystem, and there
each of the walkers comes to an end and visits every existing path at and below its start once (`Walkable.walks`).
A name that is listed without being one, such as the empty name that a `chmod` of `/` leaves, makes the walkers come
back to the directory they are in.
-/

namespace Cyanide

open PosixPath PyText Transition TreeWalk PathTree

/-! ### What the walkers visit -/

/-- The paths that `_get_recursive_files` comes by, of which it returns the files. -/
def recursiveVisits (s : FakeFilesystem) : (depth : ℕ) → Str → Option (List Str)
  | 0, _ => none
  | depth + 1, path =>
    if (s.getNode path).any Node.isDir then do
      let found ← (s.children (resolve path)).mapM fun (_, child) =>
        let childPath := childPath path child.name
        if s.isFile childPath then some [childPath]
        else if s.isDir childPath then recursiveVisits s depth childPath
        else some []
      return path :: found.flatten
    else some [path]

/-- What a round of `_format_recursive` puts into the queue. -/
def lsQueued (s : FakeFilesystem) (showAll : Bool) (dir : Str × Str) : List (Str × Str) :=
  ((s.children dir.2).filter fun (name, child) => (showAll || name.head? ≠ some '.') && child.isDir).map
    fun (name, _) => (join dir.1 name, resolve (join dir.2 name))

/-- The directories that `ls -R` takes from its queue, in order; `none` after too many rounds. -/
def lsOrder (s : FakeFilesystem) (showAll : Bool) : (rounds : ℕ) → List (Str × Str) → Option (List (Str × Str))
  | _, [] => some []
  | 0, _ :: _ => none
  | rounds + 1, dir :: queue => (lsOrder s showAll rounds (queue ++ lsQueued s showAll dir)).map (dir :: ·)

/-- The paths that are listed for a directory, itself and its parent apart. -/
def lsListed (s : FakeFilesystem) (showAll : Bool) (path : Str) : List Str :=
  ((s.children path).filter fun (name, _) => showAll || name.head? ≠ some '.').map fun (name, _) => join path name

/-- The start and all that `ls -R` lists. -/
def lsVisits (s : FakeFilesystem) (showAll : Bool) (start : Str) (dirs : List (Str × Str)) : List Str :=
  start :: dirs.flatMap fun dir => lsListed s showAll dir.2

/-- The paths whose headers a source has sent. -/
def sentPaths (messages : List ScpHandler.ScpMessage) : List Str :=
  messages.filterMap fun
    | .directory path _ => some path
    | .file path _ _ => some path
    | .content _ => none
    | .endDirectory => none
    | .notFound => none

/-- The list has each existing path at or below the start once, apart from those with a name that is not to be seen. -/
def VisitsOnce (s : FakeFilesystem) (p : List Name) (keep : Name → Bool) (l : List Str) : Prop :=
  l.Nodup ∧ ∀ q, q ∈ l ↔ ∃ r : List Name, (∀ n ∈ r, keep n = true) ∧ s.pathExists (str (p ++ r)) = true ∧
    q = str (p ++ r)

/-- Names that `ls` shows. -/
def shown (showAll : Bool) (n : Name) : Bool := showAll || n.1.head? ≠ some '.'

/-- With this many nested calls, each of the walkers comes to an end and visits the paths at and below the start once.
An SCP source gets its path from the client, in any absolute form. -/
structure Walks (s : FakeFilesystem) (depth : ℕ) (p : List Name) : Prop where
  find : ∃ l, walk s depth (str p) = some l ∧ VisitsOnce s p (fun _ => true) l
  grep : ∃ l, recursiveVisits s depth (str p) = some l ∧ VisitsOnce s p (fun _ => true) l
  ls : ∀ showAll, ∃ dirs N, (∀ rounds, N ≤ rounds → lsOrder s showAll rounds [(str p, str p)] = some dirs) ∧
    VisitsOnce s p (shown showAll) (lsVisits s showAll (str p) dirs)
  scp : ∀ path, path.head? = some '/' → resolve path = str p →
    (ScpHandler.sourceMode (fun _ => true) depth s path).2.raised = false ∧
      VisitsOnce s p (fun _ => true)
        ((sentPaths (ScpHandler.sourceMode (fun _ => true) depth s path).2.messages).map resolve)

/-! ### The visits and the commands -/

private theorem mapM_map_option {α β γ : Type} (f : α → Option β) (g : β → γ) (l : List α) :
    l.mapM (fun x => (f x).map g) = (l.mapM f).map (List.map g) := by
  induction l with
  | nil => rfl
  | cons a l ih =>
    rw [List.mapM_cons, List.mapM_cons, ih]
    cases f a with
    | none => rfl
    | some b => cases l.mapM f <;> rfl

theorem recursiveVisits_cons {s : FakeFilesystem} {depth : ℕ} {path : Str} {l : List Str}
    (h : recursiveVisits s depth path = some l) : ∃ l', l = path :: l' := by
  cases depth with
  | zero => cases h
  | succ depth =>
    rw [recursiveVisits] at h
    split at h
    · obtain ⟨found, -, hl⟩ := Option.bind_eq_some_iff.1 h
      exact ⟨_, (Option.some.inj hl).symm⟩
    · exact ⟨[], (Option.some.inj h).symm⟩

/-- `grep -r` reads the files among what it visits below the start. -/
theorem recursiveFiles_eq (s : FakeFilesystem) (depth : ℕ) (path : Str) :
    recursiveFiles s depth path = (recursiveVisits s depth path).map fun l => l.tail.filter (s.isFile ·) := by
  induction depth generalizing path with
  | zero => rfl
  | succ depth ih =>
    rw [recursiveFiles, recursiveVisits]
    split
    · have hchild : ∀ child : Str × Node,
          (let childPath := childPath path child.2.name
           if s.isFile childPath then some [childPath]
           else if s.isDir childPath then recursiveFiles s depth childPath else some []) =
          (let childPath := childPath path child.2.name
           if s.isFile childPath then some [childPath]
           else if s.isDir childPath then recursiveVisits s depth childPath
           else some []).map fun l => l.filter (s.isFile ·) := by
        intro child
        dsimp only
        split
        · rename_i hf
          simp [hf]
        · rename_i hf
          split
          · rw [ih]
            cases hv : recursiveVisits s depth (childPath path child.2.name) with
            | none => rfl
            | some l =>
              obtain ⟨l', rfl⟩ := recursiveVisits_cons hv
              simp [hf]
          · rfl
      simp only [hchild, mapM_map_option]
      cases ((s.children (resolve path)).mapM fun child : Str × Node =>
        let childPath := childPath path child.2.name
        if s.isFile childPath then some [childPath]
        else if s.isDir childPath then recursiveVisits s depth childPath
        else some []) with
      | none => rfl
      | some found =>
        show some (found.map _).flatten = some _
        simp [List.filter_flatten]
    · rfl

/-- One section of the output of `ls -R`. -/
def lsSection (W : World) (s : FakeFilesystem) (showAll longFormat : Bool) (output : Str) (dir : Str × Str) :
    Leaf Str :=
  match s.getNode dir.2 with
  | none => return output
  | some node =>
    let nodes := collectNodes s dir.2 node showAll
    if nodes = [] then return output
    else do
      let listing ← formatOutput W nodes longFormat
      return output ++ ((if output = [] then [] else ['\n']) ++ dir.1 ++ ":\n".toList) ++ listing

private theorem children_of_getNode_none {s : FakeFilesystem} {path : Str} (h : s.getNode path = none) :
    s.children path = [] := by
  have hd : s.isDir path = false := by
    have hn := s.getNode_dir_eq path
    rw [h, Option.map_none] at hn
    rw [FakeFilesystem.isDir_eq]
    revert hn
    cases s.layer (resolve path) with
    | missing => simp [Layer.nodeDir, Layer.dir]
    | deleted => simp [Layer.dir]
    | _ => simp [Layer.nodeDir]
  rw [FakeFilesystem.children, FakeFilesystem.listDir_eq, hd]
  rfl

private theorem lsQueued_of_no_nodes {s : FakeFilesystem} {showAll : Bool} {dir : Str × Str} {node : Node}
    (h : collectNodes s dir.2 node showAll = []) : lsQueued s showAll dir = [] := by
  unfold collectNodes at h
  split at h
  · simp only [List.append_eq_nil_iff, List.map_eq_nil_iff] at h
    unfold lsQueued
    rw [List.map_eq_nil_iff, List.filter_eq_nil_iff]
    intro child hchild hq
    simp only [Bool.and_eq_true] at hq
    exact List.filter_eq_nil_iff.1 h.2 child hchild hq.1
  · cases h

/-- When the queue runs empty, `ls -R` prints the sections of the directories it took from it. -/
theorem lsQueue_eq (W : World) (s : FakeFilesystem) (showAll longFormat : Bool) {rounds : ℕ} {output : Str}
    {queue dirs : List (Str × Str)} (h : lsOrder s showAll rounds queue = some dirs) :
    lsQueue W s showAll longFormat rounds output queue = dirs.foldlM (lsSection W s showAll longFormat) output := by
  induction rounds generalizing output queue dirs with
  | zero =>
    cases queue with
    | nil =>
      obtain rfl : [] = dirs := Option.some.inj h
      rfl
    | cons dir queue => cases h
  | succ rounds ih =>
    cases queue with
    | nil =>
      obtain rfl : [] = dirs := Option.some.inj h
      rfl
    | cons dir queue =>
      obtain ⟨rest, hrest, rfl⟩ := Option.map_eq_some_iff.1 h
      obtain ⟨shown, path⟩ := dir
      rw [lsQueue, List.foldlM_cons, lsSection]
      cases hn : s.getNode path with
      | none =>
        have hq : lsQueued s showAll (shown, path) = [] := by
          rw [lsQueued, children_of_getNode_none hn]
          rfl
        rw [hq, List.append_nil] at hrest
        simp only [pure_bind]
        exact ih hrest
      | some node =>
        by_cases hnodes : collectNodes s path node showAll = []
        · have hq : lsQueued s showAll (shown, path) = [] := lsQueued_of_no_nodes hnodes
          rw [hq, List.append_nil] at hrest
          simp only [hnodes, if_true, pure_bind]
          exact ih hrest
        · simp only [hnodes, if_false, bind_assoc, pure_bind]
          refine congrArg _ (funext fun listing => ?_)
          exact ih hrest

end Cyanide
