import Cyanide.Lib.Transition
import Cyanide.Vfs.Layers

/-!
# Runs of filesystem operations

`Op` lists the operations that write at one path, and `Call` adds `copy` and `move`, which are runs of such
operations: `Call.ops` are the operations that a call makes, in order, each in the filesystem that the previous one
left (`apply_eq_run`).  An invariant therefore needs one step lemma for each `Op`, and a condition on the steps of a
run is asked of the operations inside a `copy` or a `move` too.
-/

namespace Cyanide

open PosixPath Transition

inductive Op where
  | getContent (path : Str) (args : Dict Str)
  | mkfile (path : Str) (content : Content) (owner group perm : Str)
  | mkdirP (path owner group perm : Str)
  | chmod (path perm : Str)
  | chown (path : Str) (owner group : Option Str)
  | remove (path : Str)
  /-- The clock goes on. -/
  | tick (now : Nat)

namespace Op

def apply (s : FakeFilesystem) : Op → FakeFilesystem
  | getContent path args => (s.getContent path args).2
  | mkfile path content owner group perm => (s.mkfile path content owner group perm).2
  | mkdirP path owner group perm => s.mkdirP path owner group perm
  | chmod path perm => (s.chmod path perm).2
  | chown path owner group => (s.chown path owner group).2
  | remove path => (s.remove path).2
  | tick now => { s with now := now }

end Op

/-! ### The operations inside `copy` and `move` -/

namespace FakeFilesystem

/-- The operations of `copyItems`, when `ops` are those of `call`. -/
def copyItemsOps (call : FakeFilesystem → Str → Str → Except RecursionError Bool × FakeFilesystem)
    (ops : FakeFilesystem → Str → Str → List Op) (src dst : Str) : FakeFilesystem → List Str → List Op
  | _, [] => []
  | s, item :: items =>
    ops s (join src item) (join dst item) ++
      match call s (join src item) (join dst item) with
      | (.ok _, s') => copyItemsOps call ops src dst s' items
      | (.error _, _) => []

/-- The read and the write of a file that is copied. -/
def copyFileOps (s : FakeFilesystem) (src dst : Str) : List Op :=
  [.getContent src ∅, .mkfile dst (s.getContent src).1 root root "-rw-r--r--".toList]

/-- The directory made for a copy when there is none. -/
def copyDirOps (s : FakeFilesystem) (dst : Str) : List Op :=
  if s.pathExists dst then [] else [.mkdirP dst root root "drwxr-xr-x".toList]

def copyRecursiveOps : (depth : Nat) → FakeFilesystem → Str → Str → List Op
  | 0, _, _, _ => []
  | depth + 1, s, src, dst =>
    if s.isDir src then
      let s' := if s.pathExists dst then s else s.mkdirP dst
      s.copyDirOps dst ++
        copyItemsOps (copyRecursive depth) (copyRecursiveOps depth) src dst s' (s'.listDir src)
    else s.copyFileOps src dst

def copyOps (depth : Nat) (s : FakeFilesystem) (src dst : Str) (recursive : Bool) : List Op :=
  let src := resolve src
  let dst := resolve dst
  if s.pathExists src = false then []
  else
    let dst := s.copyTarget src dst
    if s.isDir src then
      if recursive = false then []
      else if s.pathExists dst && s.isFile dst then []
      else
        let s' := if s.pathExists dst then s else s.mkdirP dst
        s.copyDirOps dst ++
          copyItemsOps (copyRecursive depth) (copyRecursiveOps depth) src dst s' (s'.listDir src)
    else s.copyFileOps src dst

def moveOps (depth : Nat) (s : FakeFilesystem) (src dst : Str) : List Op :=
  let src := resolve src
  let dst := resolve dst
  if s.pathExists src = false then []
  else s.copyOps depth src dst true ++ if (copy depth s src dst true).1 = .ok true then [.remove src] else []

end FakeFilesystem

/-- A call of one of the methods that change the filesystem. -/
inductive Call where
  | op (o : Op)
  | copy (depth : Nat) (src dst : Str) (recursive : Bool)
  | move (depth : Nat) (src dst : Str)

namespace Call

def apply (s : FakeFilesystem) : Call → FakeFilesystem
  | .op o => o.apply s
  | copy depth src dst recursive => (s.copy depth src dst recursive).2
  | move depth src dst => (s.move depth src dst).2

/-- The operations that a call makes. -/
def ops (s : FakeFilesystem) : Call → List Op
  | .op o => [o]
  | copy depth src dst recursive => s.copyOps depth src dst recursive
  | move depth src dst => s.moveOps depth src dst

end Call

namespace FakeFilesystem

theorem copyDirOps_run (s : FakeFilesystem) (dst : Str) :
    run Op.apply s (s.copyDirOps dst) = if s.pathExists dst then s else s.mkdirP dst := by
  unfold copyDirOps
  split <;> rfl

private theorem copyItemsOps_run
    {call : FakeFilesystem → Str → Str → Except RecursionError Bool × FakeFilesystem}
    {ops : FakeFilesystem → Str → Str → List Op} (h : ∀ s src dst, (call s src dst).2 = run Op.apply s (ops s src dst))
    (src dst : Str) (s : FakeFilesystem) (items : List Str) :
    (copyItems call src dst s items).2 = run Op.apply s (copyItemsOps call ops src dst s items) := by
  induction items generalizing s with
  | nil => rfl
  | cons item items ih =>
    rw [copyItems, copyItemsOps, run_append, ← h]
    cases hc : call s (join src item) (join dst item) with
    | mk r s' =>
      cases r with
      | ok b => exact ih s'
      | error e => rfl

/-- A recursive copy leaves what its operations leave. -/
theorem copyRecursive_eq_run (depth : Nat) (s : FakeFilesystem) (src dst : Str) :
    (copyRecursive depth s src dst).2 = run Op.apply s (copyRecursiveOps depth s src dst) := by
  induction depth generalizing s src dst with
  | zero => rfl
  | succ depth ih =>
    rw [copyRecursive, copyRecursiveOps]
    split
    · dsimp only
      rw [copyItemsOps_run ih, run_append, copyDirOps_run]
    · rfl

theorem copy_eq_run (depth : Nat) (s : FakeFilesystem) (src dst : Str) (recursive : Bool) :
    (copy depth s src dst recursive).2 = run Op.apply s (s.copyOps depth src dst recursive) := by
  unfold copy copyOps
  dsimp only
  by_cases hx : s.pathExists (resolve src) = false
  · simp [hx]
  rw [if_neg hx, if_neg hx]
  by_cases hd : s.isDir (resolve src)
  · simp only [hd, if_true]
    by_cases hr : recursive = false
    · simp [hr]
    rw [if_neg hr, if_neg hr]
    generalize s.copyTarget (resolve src) (resolve dst) = dst'
    by_cases hf : (s.pathExists dst' && s.isFile dst') = true
    · simp [hf]
    rw [if_neg hf, if_neg hf]
    rw [copyItemsOps_run (copyRecursive_eq_run depth), run_append, copyDirOps_run]
  · simp only [hd, Bool.false_eq_true, if_false]
    rfl

theorem move_eq_run (depth : Nat) (s : FakeFilesystem) (src dst : Str) :
    (move depth s src dst).2 = run Op.apply s (s.moveOps depth src dst) := by
  unfold move moveOps
  dsimp only
  by_cases hx : s.pathExists (resolve src) = false
  · simp [hx]
  rw [if_neg hx, if_neg hx, run_append, ← copy_eq_run]
  cases copy depth s (resolve src) (resolve dst) true with
  | mk r s' =>
    cases r with
    | ok b => cases b <;> simp [Op.apply]
    | error e => simp

end FakeFilesystem

namespace Op

/-- The operations that `copy` makes. -/
def IsWrite : Op → Prop
  | getContent .. | mkfile .. | mkdirP .. => True
  | _ => False

end Op

namespace FakeFilesystem

section

variable {p : Op → Prop} (hread : ∀ path, p (.getContent path ∅))
  (hfile : ∀ path content, p (.mkfile path content root root "-rw-r--r--".toList))
  (hdir : ∀ path, p (.mkdirP path root root "drwxr-xr-x".toList))

include hdir in
private theorem forall_copyDirOps {s : FakeFilesystem} {dst : Str} {o : Op} (h : o ∈ s.copyDirOps dst) : p o := by
  unfold copyDirOps at h
  split at h
  · cases h
  · rw [List.mem_singleton.1 h]
    exact hdir dst

include hread hfile in
private theorem forall_copyFileOps {s : FakeFilesystem} {src dst : Str} {o : Op} (h : o ∈ s.copyFileOps src dst) :
    p o := by
  simp only [copyFileOps, List.mem_cons, List.not_mem_nil, or_false] at h
  rcases h with rfl | rfl
  · exact hread src
  · exact hfile dst _

private theorem forall_copyItemsOps
    {call : FakeFilesystem → Str → Str → Except RecursionError Bool × FakeFilesystem}
    {ops : FakeFilesystem → Str → Str → List Op} (h : ∀ s src dst, ∀ o ∈ ops s src dst, p o)
    {src dst : Str} {s : FakeFilesystem} {items : List Str} {o : Op}
    (ho : o ∈ copyItemsOps call ops src dst s items) : p o := by
  induction items generalizing s with
  | nil => cases ho
  | cons item items ih =>
    rw [copyItemsOps, List.mem_append] at ho
    rcases ho with ho | ho
    · exact h _ _ _ o ho
    · split at ho
      · exact ih ho
      · cases ho

include hread hfile hdir

private theorem forall_copyRecursiveOps (depth : Nat) (s : FakeFilesystem) (src dst : Str) :
    ∀ o ∈ copyRecursiveOps depth s src dst, p o := by
  induction depth generalizing s src dst with
  | zero =>
    intro o ho
    cases ho
  | succ depth ih =>
    intro o ho
    rw [copyRecursiveOps] at ho
    split at ho
    · rcases List.mem_append.1 ho with ho | ho
      · exact forall_copyDirOps hdir ho
      · exact forall_copyItemsOps ih ho
    · exact forall_copyFileOps hread hfile ho

/-- A copy reads, writes files and makes directories, with the permission strings that these have by default. -/
theorem forall_copyOps {depth : Nat} {s : FakeFilesystem} {src dst : Str} {recursive : Bool} {o : Op}
    (ho : o ∈ s.copyOps depth src dst recursive) : p o := by
  unfold copyOps at ho
  dsimp only at ho
  split at ho
  · cases ho
  split at ho
  · split at ho
    · cases ho
    split at ho
    · cases ho
    rcases List.mem_append.1 ho with ho | ho
    · exact forall_copyDirOps hdir ho
    · exact forall_copyItemsOps (forall_copyRecursiveOps hread hfile hdir depth) ho
  · exact forall_copyFileOps hread hfile ho

end

/-- What `mkfile` and `mkdir_p` preserve, `copy` preserves. -/
theorem invariant_of_copy {I : FakeFilesystem → Prop} (hstep : ∀ s o, I s → Op.IsWrite o → I (o.apply s))
    {s : FakeFilesystem} (hI : I s) (depth : Nat) (src dst : Str) (recursive : Bool) :
    I (copy depth s src dst recursive).2 := by
  rw [copy_eq_run]
  refine invariant_of_steps hstep hI (meets_of_forall fun _ _ ho => ?_)
  exact forall_copyOps (fun _ => trivial) (fun _ _ => trivial) (fun _ => trivial) ho

end FakeFilesystem

namespace Call

/-- A call leaves what the run of its operations leaves. -/
theorem apply_eq_run (s : FakeFilesystem) (c : Call) : c.apply s = run Op.apply s (c.ops s) := by
  cases c with
  | op o => rfl
  | copy depth src dst recursive => exact s.copy_eq_run depth src dst recursive
  | move depth src dst => exact s.move_eq_run depth src dst

end Call

/-- Every operation of every call of a run meets `G` in the filesystem it is made in. -/
def StepsMeet (G : FakeFilesystem → Op → Prop) (s : FakeFilesystem) (calls : List Call) : Prop :=
  Meets Call.apply (fun s c => Meets Op.apply G s (c.ops s)) s calls

/-- The invariant rule for runs of calls: one step lemma for the operations. -/
theorem invariant_of_ops {I : FakeFilesystem → Prop} {G : FakeFilesystem → Op → Prop}
    (hstep : ∀ s op, I s → G s op → I (op.apply s)) {s : FakeFilesystem} {calls : List Call} (hI : I s)
    (hG : StepsMeet G s calls) : I (run Call.apply s calls) :=
  invariant_of_calls Call.apply_eq_run hstep hI hG

/-- The filesystem of an empty profile. -/
def bare : FakeFilesystem where
  profile := { backend := none, dynamicFiles := ∅, honeytokens := [], render := id, providers := fun _ => none }
  users := []
  memoryOverlay := ∅
  deletedPaths := ∅
  processes := []
  fileOps := []
  now := 0

theorem bare_layer (q : Str) : bare.layer q = .missing := by
  rw [FakeFilesystem.layer_eq_missing]
  simp [bare, FakeFilesystem.backendExists]

/-- A filesystem that calls reach from one without deleted paths, whatever its profile and overlay. -/
def Reachable (s : FakeFilesystem) : Prop :=
  ∃ (s₀ : FakeFilesystem) (calls : List Call), s₀.deletedPaths = ∅ ∧ run Call.apply s₀ calls = s

theorem Reachable.induction {I : FakeFilesystem → Prop} (hstart : ∀ s, s.deletedPaths = ∅ → I s)
    (hstep : ∀ s op, I s → I (Op.apply s op)) {s : FakeFilesystem} (h : Reachable s) : I s := by
  obtain ⟨s₀, calls, h₀, rfl⟩ := h
  refine invariant_of_ops (G := fun _ _ => True) (fun s op hI _ => hstep s op hI) (hstart s₀ h₀) ?_
  exact meets_of_forall fun s c _ => meets_of_forall fun _ _ _ => trivial

end Cyanide
