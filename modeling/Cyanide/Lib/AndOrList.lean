import Mathlib.Data.List.Nodup

/-!
# And-or lists

The left-associative evaluation of a list of commands joined by `&&`, `||` and sequencing.  Each command comes with
the connective in front of it; the status of the list so far decides whether it runs, and a command that is passed
over leaves the status as it is.  Commands run in a state monad, so that what a command returns may depend on
everything that ran before it.  A runner that keeps a log of its commands (`Logs`) shows which of them ran:
`mem_log_eval` bounds the log of an evaluation from both sides.
-/

namespace AndOrList

variable {α ι σ ρ : Type}

/-- How a command is joined to the list before it. -/
inductive Connective where
  | and
  | or
  | seq
  deriving DecidableEq

/-- Whether the command after the connective runs, at the status of the list so far. -/
def Connective.allows : Connective → Int → Bool
  | .and, status => status = 0
  | .or, status => status ≠ 0
  | .seq, _ => true

/-- The evaluation from a status; `code` is the status that a command's result reports. -/
def eval (run : α → StateM σ ρ) (code : ρ → Int) : Int → List (Connective × α) → StateM σ Int
  | status, [] => pure status
  | status, (c, a) :: rest =>
    if c.allows status then do eval run code (code (← run a)) rest else eval run code status rest

section Eval

variable (run : α → StateM σ ρ) (code : ρ → Int) {status : Int} {c : Connective} {a : α}
  {rest : List (Connective × α)} (s : σ)

@[simp] theorem eval_nil : eval run code status [] s = (status, s) := rfl

theorem eval_of_allows (h : c.allows status = true) :
    eval run code status ((c, a) :: rest) s = eval run code (code (run a s).1) rest (run a s).2 := by
  rw [eval, if_pos h]
  rfl

theorem eval_of_not_allows (h : c.allows status = false) :
    eval run code status ((c, a) :: rest) s = eval run code status rest s := by
  simp [eval, h]

end Eval

/-! ### Logs -/

/-- The runner puts the label of each command it runs in front of the log. -/
def Logs (label : α → ι) (run : α → StateM (List ι × σ) ρ) : Prop :=
  ∀ a st, (run a st).2.1 = label a :: st.1

/-- `run` for labelled commands, with a log of the labels, the last one first. -/
def logged (run : α → StateM σ ρ) (a : ι × α) : StateM (List ι × σ) ρ := fun st =>
  ((run a.2 st.2).1, a.1 :: st.1, (run a.2 st.2).2)

@[simp] theorem logged_apply (run : α → StateM σ ρ) (a : ι × α) (st : List ι × σ) :
    logged run a st = ((run a.2 st.2).1, a.1 :: st.1, (run a.2 st.2).2) := rfl

variable {label : α → ι} {run : α → StateM (List ι × σ) ρ} {code : ρ → Int}

/-- What was in the log before an evaluation stays there. -/
theorem log_subset_eval (hrun : Logs label run) (items : List (Connective × α)) (status : Int) (st : List ι × σ) :
    st.1 ⊆ (eval run code status items st).2.1 := by
  induction items generalizing status st with
  | nil => simp
  | cons item rest ih =>
    obtain ⟨c, a⟩ := item
    cases h : c.allows status with
    | true =>
      rw [eval_of_allows run code st h]
      have hlog := ih (code (run a st).1) (run a st).2
      rw [hrun] at hlog
      exact List.Subset.trans (List.subset_cons_self _ _) hlog
    | false =>
      rw [eval_of_not_allows run code st h]
      exact ih status st

/-- An evaluation adds only labels of its commands to the log. -/
theorem log_eval_subset (hrun : Logs label run) (items : List (Connective × α)) (status : Int) (st : List ι × σ) :
    (eval run code status items st).2.1 ⊆ items.map (label ·.2) ++ st.1 := by
  induction items generalizing status st with
  | nil => simp
  | cons item rest ih =>
    obtain ⟨c, a⟩ := item
    cases h : c.allows status with
    | true =>
      rw [eval_of_allows run code st h]
      have hlog := ih (code (run a st).1) (run a st).2
      rw [hrun] at hlog
      intro i hi
      have := hlog hi
      simp only [List.mem_append, List.mem_cons, List.map_cons] at this ⊢
      tauto
    | false =>
      rw [eval_of_not_allows run code st h]
      exact List.Subset.trans (ih status st) (by simp)

/-- A command that its connective allows is in the log at the end. -/
theorem label_mem_log_eval (hrun : Logs label run) {c : Connective} {a : α} {rest : List (Connective × α)}
    {status : Int} (h : c.allows status = true) (st : List ι × σ) :
    label a ∈ (eval run code status ((c, a) :: rest) st).2.1 := by
  rw [eval_of_allows run code st h]
  refine log_subset_eval hrun rest _ _ ?_
  rw [hrun]
  exact List.mem_cons_self

end AndOrList
