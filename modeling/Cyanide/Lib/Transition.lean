import Mathlib.Data.List.Infix

/-!
# Runs of a transition function

A system given by a total step function `step : σ → α → σ`.  `run` takes the steps of a list one after the other,
`Meets G` says that a guard holds of each of them in the state it is taken from, and `invariant_of_steps` is the
invariant rule: what every guarded step preserves holds at the end of every guarded run.  A call that is itself a
short run of smaller steps is handled by `invariant_of_calls`: the guard is asked of the smaller steps.  `simulation`
compares the runs of two systems step by step, with what they answer.
-/

namespace Transition

variable {σ α β : Type*} {step : σ → α → σ} {G H : σ → α → Prop} {I : σ → Prop}

def run (step : σ → α → σ) (s : σ) (as : List α) : σ := as.foldl step s

/-- Every step of the list meets the guard in the state in which it is taken. -/
def Meets (step : σ → α → σ) (G : σ → α → Prop) : σ → List α → Prop
  | _, [] => True
  | s, a :: as => G s a ∧ Meets step G (step s a) as

instance Meets.decidable [∀ s a, Decidable (G s a)] : (s : σ) → (as : List α) → Decidable (Meets step G s as)
  | _, [] => inferInstanceAs (Decidable True)
  | s, a :: as =>
    have := Meets.decidable (step s a) as
    inferInstanceAs (Decidable (G s a ∧ Meets step G (step s a) as))

@[simp] theorem run_nil (s : σ) : run step s [] = s := rfl

@[simp] theorem run_cons (s : σ) (a : α) (as : List α) : run step s (a :: as) = run step (step s a) as := rfl

@[simp] theorem run_append (s : σ) (as bs : List α) : run step s (as ++ bs) = run step (run step s as) bs :=
  List.foldl_append

@[simp] theorem meets_nil (s : σ) : Meets step G s [] := trivial

@[simp] theorem meets_cons (s : σ) (a : α) (as : List α) :
    Meets step G s (a :: as) ↔ G s a ∧ Meets step G (step s a) as := Iff.rfl

@[simp] theorem meets_append (s : σ) (as bs : List α) :
    Meets step G s (as ++ bs) ↔ Meets step G s as ∧ Meets step G (run step s as) bs := by
  induction as generalizing s with
  | nil => simp
  | cons a as ih => simp [ih, and_assoc]

theorem Meets.initial {s : σ} {as bs : List α} (h : Meets step G s bs) (hp : as <+: bs) : Meets step G s as := by
  obtain ⟨cs, rfl⟩ := hp
  exact ((meets_append s as cs).1 h).1

/-- The guard is asked of each step, in the state that the steps in front of it reach. -/
theorem meets_iff {s : σ} {as : List α} :
    Meets step G s as ↔ ∀ bs a, bs ++ [a] <+: as → G (run step s bs) a := by
  constructor
  · intro h bs a hp
    exact ((meets_append s bs [a]).1 (h.initial hp)).2.1
  · intro h
    induction as generalizing s with
    | nil => trivial
    | cons a as ih =>
      refine ⟨h [] a (by simp), ih fun bs b hp => ?_⟩
      exact h (a :: bs) b (List.cons_prefix_cons.2 ⟨rfl, hp⟩)

theorem Meets.mono {s : σ} {as : List α} (h : Meets step G s as) (hGH : ∀ s a, G s a → H s a) :
    Meets step H s as := by
  induction as generalizing s with
  | nil => trivial
  | cons a as ih => exact ⟨hGH s a h.1, ih h.2⟩

theorem Meets.and {s : σ} {as : List α} (hG : Meets step G s as) (hH : Meets step H s as) :
    Meets step (fun s a => G s a ∧ H s a) s as := by
  induction as generalizing s with
  | nil => trivial
  | cons a as ih => exact ⟨⟨hG.1, hH.1⟩, ih hG.2 hH.2⟩

theorem meets_of_forall {s : σ} {as : List α} (h : ∀ s, ∀ a ∈ as, G s a) : Meets step G s as := by
  induction as generalizing s with
  | nil => trivial
  | cons a as ih => exact ⟨h s a (by simp), ih fun s b hb => h s b (by simp [hb])⟩

/-- The invariant rule. -/
theorem invariant_of_steps (hstep : ∀ s a, I s → G s a → I (step s a)) {s : σ} {as : List α} (hI : I s)
    (hG : Meets step G s as) : I (run step s as) := by
  induction as generalizing s with
  | nil => exact hI
  | cons a as ih => exact ih (hstep s a hI hG.1) hG.2

/-- When the guard is exactly what a step needs to preserve `I`, all states of a run have `I` just when the first one
has and all steps meet the guard. -/
theorem forall_reached_iff {J : σ → Prop} (hJ : ∀ s a, J s → J (step s a))
    (hstep : ∀ s a, J s → I s → (I (step s a) ↔ G s a)) {s : σ} {as : List α} (hs : J s) :
    (∀ bs, bs <+: as → I (run step s bs)) ↔ I s ∧ Meets step G s as := by
  induction as generalizing s with
  | nil => simp
  | cons a as ih =>
    constructor
    · intro h
      have hI : I s := h [] (List.nil_prefix)
      have hI' : I (step s a) := h [a] (by simp)
      have hrest := (ih (hJ s a hs)).1 fun bs hbs => h (a :: bs) (List.cons_prefix_cons.2 ⟨rfl, hbs⟩)
      exact ⟨hI, (hstep s a hs hI).1 hI', hrest.2⟩
    · rintro ⟨hI, hG, hrest⟩ bs hbs
      cases bs with
      | nil => exact hI
      | cons b bs =>
        obtain ⟨rfl, hbs'⟩ := List.cons_prefix_cons.1 hbs
        exact (ih (hJ s b hs)).2 ⟨(hstep s b hs hI).2 hG, hrest⟩ bs hbs'

/-- The invariant rule when a call `b` in the state `s` takes the steps `trace s b`. -/
theorem invariant_of_calls {call : σ → β → σ} {trace : σ → β → List α}
    (htrace : ∀ s b, call s b = run step s (trace s b)) (hstep : ∀ s a, I s → G s a → I (step s a))
    {s : σ} {bs : List β} (hI : I s) (hG : Meets call (fun s b => Meets step G s (trace s b)) s bs) :
    I (run call s bs) :=
  invariant_of_steps
    (fun s b hI hb => by
      rw [htrace]
      exact invariant_of_steps hstep hI hb)
    hI hG

/-! ### Replies -/

section Simulation

variable {τ γ ρ : Type*} {step' : τ → γ → τ} {R : σ → τ → Prop} {M : α → γ → Prop} {K : τ → γ → Prop}
  {reply : σ → α → ρ} {reply' : τ → γ → ρ}

/-- What the steps of a run answer. -/
def replies (step : σ → α → σ) (reply : σ → α → ρ) : σ → List α → List ρ
  | _, [] => []
  | s, a :: as => reply s a :: replies step reply (step s a) as

@[simp] theorem replies_nil (s : σ) : replies step reply s [] = [] := rfl

@[simp] theorem replies_cons (s : σ) (a : α) (as : List α) :
    replies step reply s (a :: as) = reply s a :: replies step reply (step s a) as := rfl

theorem map_replies {π : Type*} (f : ρ → π) (s : σ) (as : List α) :
    (replies step reply s as).map f = replies step (fun s a => f (reply s a)) s as := by
  induction as generalizing s with
  | nil => rfl
  | cons a as ih => rw [replies_cons, replies_cons, List.map_cons, ih]

/-- The simulation rule: steps that mean the same answer alike and lead from related states to related states, so do
runs of such steps.  The guard is asked of the second run alone. -/
theorem simulation (hstep : ∀ s t a c, R s t → M a c → K t c → reply s a = reply' t c ∧ R (step s a) (step' t c))
    {s : σ} {t : τ} {as : List α} {cs : List γ} (hR : R s t) (hM : List.Forall₂ M as cs) (hK : Meets step' K t cs) :
    replies step reply s as = replies step' reply' t cs ∧ R (run step s as) (run step' t cs) := by
  induction hM generalizing s t with
  | nil => exact ⟨rfl, hR⟩
  | cons ha _ ih =>
    obtain ⟨hreply, hR'⟩ := hstep _ _ _ _ hR ha hK.1
    obtain ⟨hreplies, hrun⟩ := ih hR' hK.2
    exact ⟨by rw [replies_cons, replies_cons, hreply, hreplies], hrun⟩

/-- A guard with a bound, when some bound fits each step and every larger one fits too: one bound fits a whole run. -/
theorem exists_bound {G : Nat → σ → α → Prop} (hmono : ∀ {m n s a}, m ≤ n → G m s a → G n s a) (hI : ∀ s a, I s →
    H s a → I (step s a)) (hbound : ∀ s a, I s → H s a → ∃ n, G n s a) {s : σ} {as : List α} (hs : I s)
    (h : Meets step H s as) : ∃ n, Meets step (G n) s as := by
  induction as generalizing s with
  | nil => exact ⟨0, trivial⟩
  | cons a as ih =>
    obtain ⟨m, hm⟩ := hbound s a hs h.1
    obtain ⟨n, hn⟩ := ih (hI s a hs h.1) h.2
    exact ⟨max m n, hmono (Nat.le_max_left m n) hm, hn.mono fun _ _ => hmono (Nat.le_max_right m n)⟩

end Simulation

end Transition
