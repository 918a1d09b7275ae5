import Mathlib.Logic.Function.Basic
import Cyanide.Shell.FileCommands
import Cyanide.Vfs.Scp

/-!
# Requests on one filesystem

The sessions of a client share one filesystem: shells, SFTP sessions and SCP sinks, each with a number.  A `Request` is
what one of them does without giving way to the others: a redirection of the shell, `touch` or `mkdir` of one argument,
a call of a method of the filesystem by any other command, an SFTP request, or an SCP record.  What a request does to
the filesystem is a run of operations (`fs_apply`), so that an invariant of the filesystem needs one lemma for each `Op`
whatever the order in which the sessions take turns.
-/

namespace Cyanide

open PosixPath PyText Transition

structure Site where
  honeypot : Honeypot
  sftp : ℕ → CyanideSFTPHandler
  scp : ℕ → ScpSink

namespace Site

variable (σ : Site)

def fs : FakeFilesystem := σ.honeypot.fs

def setFs (fs : FakeFilesystem) : Site := { σ with honeypot := { σ.honeypot with fs } }

end Site

inductive Request where
  | call (c : Call)
  | redirect (cwd username target : Str) (append : Bool) (stdout : Content)
  | touch (cwd username arg : Str)
  | mkdir (cwd username arg : Str) (parents : Bool)
  | sftp (session : ℕ) (r : SftpRequest)
  | scpStart (session : ℕ) (username path : Str)
  | scp (session : ℕ) (r : ScpRecord)

/-! ### Requests of the shell -/

/-- `existing + stdout`, where there is such a sum. -/
def Content.append : Content → Content → Option Content
  | .text a, .text b => some (.text (a ++ b))
  | .bytes a, .bytes b => some (.bytes (a ++ b))
  | .text _, .bytes _ => none
  | .bytes _, .text _ => none

namespace FakeFilesystem

variable (s : FakeFilesystem)

/-- What a redirection stores, for the resolved target; nothing when `+` raises. -/
def redirectContent (target : Str) (append : Bool) (stdout : Content) : Option Content :=
  if append then (if s.pathExists target then (s.getContent target).1 else .text []).append stdout else some stdout

/-- The end of a round of `_execute_pipeline`, with `_write_file`. -/
def redirect (cwd username target : Str) (append : Bool) (stdout : Content) : FakeFilesystem :=
  let path := resolvePath cwd target
  let s' := if append && s.pathExists path then (s.getContent path).2 else s
  match s.redirectContent path append stdout with
  | none => s'
  | some content => (s'.mkfile path content username username).2

def redirectOps (cwd username target : Str) (append : Bool) (stdout : Content) : List Op :=
  let path := resolvePath cwd target
  (if append && s.pathExists path then [.getContent path ∅] else []) ++
    match s.redirectContent path append stdout with
    | none => []
    | some content => [.mkfile path content username username "-rw-r--r--".toList]

/-- One argument of `touch`. -/
def touch (cwd username arg : Str) : FakeFilesystem :=
  if arg.head? = some '-' then s else (s.mkfile (resolvePath cwd arg) (.text []) username).2

def touchOps (cwd username arg : Str) : List Op :=
  if arg.head? = some '-' then []
  else [.mkfile (resolvePath cwd arg) (.text []) username root "-rw-r--r--".toList]

/-- The checks of `mkdir` for one argument. -/
def mkdirAllowed (cwd arg : Str) (parents : Bool) : Bool :=
  let path := resolvePath cwd arg
  !s.pathExists path && (parents || (s.pathExists (purePosixParent path) && s.isDir (purePosixParent path)))

/-- One argument of `mkdir`. -/
def mkdir (cwd username arg : Str) (parents : Bool) : FakeFilesystem :=
  if s.mkdirAllowed cwd arg parents then s.mkdirP (resolvePath cwd arg) username else s

def mkdirOps (cwd username arg : Str) (parents : Bool) : List Op :=
  if s.mkdirAllowed cwd arg parents then [.mkdirP (resolvePath cwd arg) username root "drwxr-xr-x".toList] else []

variable {s}

theorem redirect_eq_run (cwd username target : Str) (append : Bool) (stdout : Content) :
    s.redirect cwd username target append stdout = run Op.apply s (s.redirectOps cwd username target append stdout) := by
  unfold redirect redirectOps
  dsimp only
  cases hread : (append && s.pathExists (resolvePath cwd target)) <;>
    cases s.redirectContent (resolvePath cwd target) append stdout <;> rfl

theorem touch_eq_run (cwd username arg : Str) :
    s.touch cwd username arg = run Op.apply s (touchOps cwd username arg) := by
  unfold touch touchOps
  split <;> rfl

theorem mkdir_eq_run (cwd username arg : Str) (parents : Bool) :
    s.mkdir cwd username arg parents = run Op.apply s (s.mkdirOps cwd username arg parents) := by
  unfold mkdir mkdirOps
  split <;> rfl

end FakeFilesystem

/-- The command `touch` touches its arguments one after the other, up to the first failure. -/
theorem touchLoop_fs (v : View) (args : List Str) (M : Machine) : ∃ as, as <+: args ∧
    (touchLoop v args M).state.fs = as.foldl (fun s arg => s.touch v.cwd v.username arg) M.fs := by
  induction args generalizing M with
  | nil => exact ⟨[], List.nil_prefix, rfl⟩
  | cons arg args ih =>
    by_cases hdash : arg.head? = some '-'
    · obtain ⟨as, has, h⟩ := ih M
      refine ⟨arg :: as, List.cons_prefix_cons.2 ⟨rfl, has⟩, ?_⟩
      rw [touchLoop, if_pos hdash, h, List.foldl_cons, FakeFilesystem.touch, if_pos hdash]
    · cases hfile : (M.fs.mkfile (resolvePath v.cwd arg) (.text []) v.username).1 with
      | none =>
        refine ⟨[arg], by simp, ?_⟩
        simp only [touchLoop, if_neg hdash, FakeFilesystem.touch, List.foldl_cons, List.foldl_nil]
        simp only [Leaf.mkfile, Leaf.onFs, Traced.get, Traced.modify, bind, Traced.bind, pure, Traced.pure, hfile]
        rfl
      | some node =>
        obtain ⟨as, has, h⟩ := ih { M with fs := (M.fs.mkfile (resolvePath v.cwd arg) (.text []) v.username).2 }
        refine ⟨arg :: as, List.cons_prefix_cons.2 ⟨rfl, has⟩, ?_⟩
        rw [List.foldl_cons, FakeFilesystem.touch, if_neg hdash, ← h]
        simp only [touchLoop, if_neg hdash]
        simp only [Leaf.mkfile, Leaf.onFs, Traced.get, Traced.modify, bind, Traced.bind, pure, Traced.pure, hfile]
        rfl

/-! ### Requests -/

namespace Request

variable (U : Unicode) (σ : Site)

def apply (σ : Site) : Request → Site
  | call c => σ.setFs (c.apply σ.fs)
  | redirect cwd username target append stdout => σ.setFs (σ.fs.redirect cwd username target append stdout)
  | touch cwd username arg => σ.setFs (σ.fs.touch cwd username arg)
  | mkdir cwd username arg parents => σ.setFs (σ.fs.mkdir cwd username arg parents)
  | sftp session r =>
    let (_, h, P) := (σ.sftp session).serve σ.honeypot r
    { σ with honeypot := P, sftp := Function.update σ.sftp session h }
  | scpStart session username path =>
    { σ with scp := Function.update σ.scp session (ScpHandler.startSink username path) }
  | scp session r =>
    let (_, t, P) := ScpHandler.sinkRecord U (σ.scp session) σ.honeypot r
    { σ with honeypot := P, scp := Function.update σ.scp session t }

/-- The operations that a request makes. -/
def ops : Request → List Op
  | call c => c.ops σ.fs
  | redirect cwd username target append stdout => σ.fs.redirectOps cwd username target append stdout
  | touch cwd username arg => FakeFilesystem.touchOps cwd username arg
  | mkdir cwd username arg parents => σ.fs.mkdirOps cwd username arg parents
  | sftp session r => (σ.sftp session).ops σ.honeypot r
  | scpStart .. => []
  | scp session r => ScpHandler.sinkOps U (σ.scp session) σ.honeypot r

/-- A request leaves the filesystem that its operations leave. -/
theorem fs_apply (r : Request) : (r.apply U σ).fs = run Op.apply σ.fs (r.ops U σ) := by
  cases r with
  | call c => exact c.apply_eq_run σ.fs
  | redirect cwd username target append stdout => exact FakeFilesystem.redirect_eq_run cwd username target append stdout
  | touch cwd username arg => exact FakeFilesystem.touch_eq_run cwd username arg
  | mkdir cwd username arg parents => exact FakeFilesystem.mkdir_eq_run cwd username arg parents
  | sftp session r => exact (σ.sftp session).serve_eq_run σ.honeypot r
  | scpStart session username path => rfl
  | scp session r => exact ScpHandler.sinkRecord_eq_run U (σ.scp session) σ.honeypot r

end Request

/-- Sessions that have done nothing on the filesystem of an empty profile. -/
def bareSite : Site where
  honeypot := ⟨bare, []⟩
  sftp := fun _ => ⟨{}, ∅, 0⟩
  scp := fun _ => ScpHandler.startSink root ['.']

/-- Every operation of every request of a run meets `G` in the filesystem it is made in. -/
def OpsMeet (U : Unicode) (G : FakeFilesystem → Op → Prop) (σ : Site) (rs : List Request) : Prop :=
  Meets (fun σ r => Request.apply U σ r) (fun σ r => Meets Op.apply G σ.fs (r.ops U σ)) σ rs

end Cyanide
