import Cyanide.Lib.Transition
import Cyanide.Services.Canonical
import Cyanide.Shell.History

/-!
# The current directory

`cd` resolves its argument against the current directory, but takes `HOME` as the client has exported it, and its error
messages name an argument that is not there when the target was `HOME`.  `meets_correct_iff` says for which sequences of
`cd` and `export` every `cd` works: whenever `cd` is called without an argument, `HOME` is the canonical path of a
directory.  The current directory is then canonical throughout (`isCanonical_cwd`).
-/

namespace Cyanide

open PosixPath Traced Transition

/-- A call of `cd` or of `export`. -/
inductive DirectoryCall where
  | cd (args : List Str)
  | export_ (args : List Str)

namespace DirectoryCall

def execute : DirectoryCall → Shell Output
  | cd args => cdCommand args
  | export_ args => exportCommand args

/-- The shell after a call, also after one that raises. -/
def after (e : ShellEmulator) (call : DirectoryCall) : ShellEmulator := (call.execute e).state

end DirectoryCall

namespace ShellEmulator

variable (e : ShellEmulator)

/-- Where `cd` goes without an argument. -/
def home : Str := (e.env.lookup "HOME".toList).getD ['/']

/-- `cd` returns; it goes to the canonical path of a directory, or it stays where it is and says why. -/
def CdCorrect (args : List Str) : Prop :=
  ∃ o, (cdCommand args e).result = .ok o ∧
    ((∃ path, (cdCommand args e).state = { e with cwd := path } ∧ IsCanonical path ∧ e.fs.isDir path = true ∧ o.rc = 0) ∨
      ((cdCommand args e).state = e ∧ o.rc ≠ 0 ∧ o.stderr ≠ []))

/-- `HOME` is the canonical path of a directory, if it is asked for. -/
def HomeFor (args : List Str) : Prop := args = [] → IsCanonical e.home ∧ e.fs.isDir e.home = true

instance (args : List Str) : Decidable (e.HomeFor args) := inferInstanceAs (Decidable (_ → _))

end ShellEmulator

namespace DirectoryCall

/-- What `cd` should do; `export` may do anything. -/
def Correct (e : ShellEmulator) : DirectoryCall → Prop
  | cd args => e.CdCorrect args
  | export_ _ => True

def HasHome (e : ShellEmulator) : DirectoryCall → Prop
  | cd args => e.HomeFor args
  | export_ _ => True

instance (e : ShellEmulator) : (call : DirectoryCall) → Decidable (call.HasHome e)
  | cd args => inferInstanceAs (Decidable (e.HomeFor args))
  | export_ _ => inferInstanceAs (Decidable True)

end DirectoryCall

section

variable {e : ShellEmulator}

/-! ### One call -/

theorem cdCommand_dir (args : List Str) {target : Str}
    (htarget : target = match args with
      | [] => e.home
      | arg :: _ => resolvePath e.cwd arg) (hdir : e.fs.isDir target = true) :
    (cdCommand args e).result = .ok (.ok []) ∧ (cdCommand args e).state = { e with cwd := target } := by
  subst htarget
  cases args with
  | nil =>
    unfold cdCommand
    rw [get_bind]
    simp only [ShellEmulator.home] at hdir
    dsimp only
    rw [if_pos hdir]
    exact ⟨rfl, rfl⟩
  | cons arg args =>
    unfold cdCommand
    rw [get_bind]
    dsimp only at hdir ⊢
    rw [if_pos hdir]
    exact ⟨rfl, rfl⟩

/-- Without an argument there is none that the message could name. -/
theorem cdCommand_nil_not_dir (hdir : e.fs.isDir e.home = false) : (cdCommand [] e).result = .error .listIndex := by
  unfold cdCommand
  rw [get_bind]
  simp only [ShellEmulator.home] at hdir
  dsimp only
  rw [hdir]
  rfl

theorem cdCommand_cons_not_dir {arg : Str} (args : List Str) (hdir : e.fs.isDir (resolvePath e.cwd arg) = false) :
    ∃ message, message ≠ [] ∧ (cdCommand (arg :: args) e).result = .ok (.fail message 1) ∧
      (cdCommand (arg :: args) e).state = e := by
  unfold cdCommand
  rw [get_bind]
  dsimp only
  rw [hdir, if_neg Bool.false_ne_true]
  split
  · exact ⟨_, by simp, rfl, rfl⟩
  · exact ⟨_, by simp, rfl, rfl⟩

/-- An argument is resolved, so that only `HOME` can go wrong. -/
theorem cdCorrect_iff (h : e.cwd.head? = some '/') (args : List Str) : e.CdCorrect args ↔ e.HomeFor args := by
  cases args with
  | nil =>
    constructor
    · rintro ⟨o, ho, hend⟩ -
      cases hdir : e.fs.isDir e.home with
      | false =>
        rw [cdCommand_nil_not_dir hdir] at ho
        cases ho
      | true =>
        obtain ⟨hresult, hstate⟩ := cdCommand_dir [] rfl hdir
        rw [hresult] at ho
        obtain rfl := Except.ok.inj ho
        rcases hend with ⟨path, hpath, hcanonical, -, -⟩ | ⟨-, hrc, -⟩
        · -- the path that `cd` goes to is `HOME`
          have hhome : e.home = path := by
            rw [hstate] at hpath
            exact congrArg (fun e : ShellEmulator => e.cwd) hpath
          exact ⟨hhome ▸ hcanonical, rfl⟩
        · exact absurd rfl hrc
    · intro hhome
      obtain ⟨hcanonical, hdir⟩ := hhome rfl
      obtain ⟨hresult, hstate⟩ := cdCommand_dir [] rfl hdir
      exact ⟨_, hresult, .inl ⟨_, hstate, hcanonical, hdir, rfl⟩⟩
  | cons arg args =>
    refine iff_of_true ?_ fun hnil => by cases hnil
    cases hdir : e.fs.isDir (resolvePath e.cwd arg) with
    | false =>
      obtain ⟨message, hne, hresult, hstate⟩ := cdCommand_cons_not_dir args hdir
      exact ⟨_, hresult, .inr ⟨hstate, Int.one_ne_zero, hne⟩⟩
    | true =>
      obtain ⟨hresult, hstate⟩ := cdCommand_dir (arg :: args) rfl hdir
      exact ⟨_, hresult, .inl ⟨_, hstate, isCanonical_resolvePath h arg, hdir, rfl⟩⟩

theorem cwd_export (args : List Str) : (DirectoryCall.after e (.export_ args)).cwd = e.cwd := rfl

theorem correct_iff (h : e.cwd.head? = some '/') (call : DirectoryCall) : call.Correct e ↔ call.HasHome e := by
  cases call with
  | cd args => exact cdCorrect_iff h args
  | export_ args => exact Iff.rfl

/-- A correct call leaves the current directory or makes it canonical. -/
theorem cwd_after {call : DirectoryCall} (h : call.Correct e) :
    (call.after e).cwd = e.cwd ∨ IsCanonical (call.after e).cwd := by
  cases call with
  | cd args =>
    obtain ⟨o, -, ⟨path, hstate, hcanonical, -, -⟩ | ⟨hstate, -, -⟩⟩ := h
    · exact .inr (by rw [DirectoryCall.after, DirectoryCall.execute, hstate]; exact hcanonical)
    · exact .inl (by rw [DirectoryCall.after, DirectoryCall.execute, hstate])
  | export_ args => exact .inl (cwd_export args)

/-! ### Runs -/

/-- A new shell starts in an absolute directory. -/
theorem head?_cwd_initShell (fs : FakeFilesystem) (username : Str) (quarantineCallback : Bool) :
    (initShell fs username quarantineCallback).cwd.head? = some '/' := by
  unfold initShell
  dsimp only
  split_ifs <;> rfl

/-- In a shell with an absolute directory every `cd` of a sequence of calls is correct exactly when `HOME` is the
canonical path of a directory whenever `cd` has no argument. -/
theorem meets_correct_iff (h : e.cwd.head? = some '/') (calls : List DirectoryCall) :
    Meets DirectoryCall.after (fun e call => call.Correct e) e calls ↔
      Meets DirectoryCall.after (fun e call => call.HasHome e) e calls := by
  induction calls generalizing e with
  | nil => exact Iff.rfl
  | cons call calls ih =>
    rw [meets_cons, meets_cons, correct_iff h]
    refine and_congr_right fun hcall => ih ?_
    rcases cwd_after ((correct_iff h call).2 hcall) with hcwd | hcwd
    · rw [hcwd]
      exact h
    · exact hcwd.1

/-- The current directory stays canonical. -/
theorem isCanonical_cwd (h : IsCanonical e.cwd) {calls : List DirectoryCall}
    (hcalls : Meets DirectoryCall.after (fun e call => call.HasHome e) e calls) :
    IsCanonical (run DirectoryCall.after e calls).cwd := by
  refine invariant_of_steps (I := fun e : ShellEmulator => IsCanonical e.cwd) (fun e call hcwd hcall => ?_) h hcalls
  rcases cwd_after ((correct_iff hcwd.1 call).2 hcall) with heq | hnew
  · rw [heq]
    exact hcwd
  · exact hnew

end

/-- To a directory, home, and to a directory that is not there. -/
theorem meets_correct_iff_bob :
    Meets DirectoryCall.after (fun e call => call.Correct e) (plainShell "bob".toList)
      [.cd ["/".toList], .cd [], .export_ ["HOME=/".toList], .cd [], .cd ["nowhere".toList]] :=
  (meets_correct_iff (head?_cwd_initShell plainFs "bob".toList false) _).2 (by decide +kernel)

/-- `HOME` is no directory, and `cd` raises. -/
theorem not_correct_nowhere :
    ¬Meets DirectoryCall.after (fun e call => call.Correct e) (plainShell "bob".toList)
      [.export_ ["HOME=/nowhere".toList], .cd []] := by
  rintro ⟨-, ⟨o, ho, -⟩, -⟩
  have hdir : (DirectoryCall.after (plainShell "bob".toList) (.export_ ["HOME=/nowhere".toList])).fs.isDir
      (DirectoryCall.after (plainShell "bob".toList) (.export_ ["HOME=/nowhere".toList])).home = false := by
    decide +kernel
  rw [cdCommand_nil_not_dir hdir] at ho
  cases ho

end Cyanide
