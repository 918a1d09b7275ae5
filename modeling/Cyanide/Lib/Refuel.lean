import Cyanide.Lib.Traced

/-!
# Another computation that does the same

`AgreeAt C g m m' s` says that if the steps of `m` from `s` satisfy `C`, then `m'` ends as `m` does, in the same state,
after the same steps but for what `g` forgets of them.  It is what more fuel does to an interpreter that has not run
out of it.  `Agree C g m m'` says so for all states; there is one rule for each way to build a computation.
-/

namespace Traced

variable {ε σ τ ω α β : Type} {C : τ → Prop} {g : τ → ω} {m m' : Traced ε σ τ α} {f f' : α → Traced ε σ τ β} {s : σ}

def AgreeAt (C : τ → Prop) (g : τ → ω) (m m' : Traced ε σ τ α) (s : σ) : Prop :=
  (∀ t ∈ (m s).steps, C t) →
    (m' s).result = (m s).result ∧ (m' s).state = (m s).state ∧ (m' s).steps.map g = (m s).steps.map g

/-- The same from every state. -/
def Agree (C : τ → Prop) (g : τ → ω) (m m' : Traced ε σ τ α) : Prop := ∀ s, AgreeAt C g m m' s

theorem Agree.refl (m : Traced ε σ τ α) : Agree C g m m := fun _ _ => ⟨rfl, rfl, rfl⟩

theorem AgreeAt.bind (hm : AgreeAt C g m m' s) (hf : ∀ a, AgreeAt C g (f a) (f' a) (m s).state) :
    AgreeAt C g (m >>= f) (m' >>= f') s := by
  intro hC
  cases hres : (m s).result with
  | ok a =>
    rw [bind_ok hres] at hC ⊢
    obtain ⟨hres', hstate, hsteps⟩ := hm fun t ht => hC t (List.mem_append_left _ ht)
    obtain ⟨hresult, hend, htail⟩ := hf a fun t ht => hC t (List.mem_append_right _ ht)
    rw [bind_ok (hres'.trans hres), hstate]
    refine ⟨hresult, hend, ?_⟩
    dsimp only
    rw [List.map_append, List.map_append, hsteps, htail]
  | error x =>
    rw [bind_error hres] at hC ⊢
    obtain ⟨hres', hstate, hsteps⟩ := hm hC
    rw [bind_error (hres'.trans hres)]
    exact ⟨rfl, hstate, hsteps⟩

theorem Agree.bind (hm : Agree C g m m') (hf : ∀ a, Agree C g (f a) (f' a)) : Agree C g (m >>= f) (m' >>= f') :=
  fun s => (hm s).bind fun a => hf a _

theorem Agree.map {h : α → β} (hm : Agree C g m m') : Agree C g (h <$> m) (h <$> m') := by
  rw [map_eq_pure_bind, map_eq_pure_bind]
  exact hm.bind fun _ => Agree.refl _

/-- A step is taken on both sides, with nothing but what is forgotten being different. -/
theorem Agree.step_bind {t t' : τ} {f f' : Unit → Traced ε σ τ β} (hg : g t' = g t)
    (h : C t → Agree C g (f ()) (f' ())) : Agree C g (Traced.step t >>= f) (Traced.step t' >>= f') := by
  intro s hC
  have ht : C t := hC t List.mem_cons_self
  obtain ⟨hresult, hend, htail⟩ := h ht s fun u hu => hC u (List.mem_cons_of_mem _ hu)
  refine ⟨hresult, hend, ?_⟩
  rw [steps_step_bind, steps_step_bind, List.map_cons, List.map_cons, hg, htail]

theorem Agree.ite {c : Prop} [Decidable c] {n n' : Traced ε σ τ α} (hm : Agree C g m m') (hn : Agree C g n n') :
    Agree C g (if c then m else n) (if c then m' else n') := by
  split
  · exact hm
  · exact hn

theorem Agree.zoom {ρ : Type} {view : σ → ρ} {put : ρ → σ → σ} {m m' : Traced ε ρ τ α} (h : Agree C g m m') :
    Agree C g (zoom view put m) (Traced.zoom view put m') := by
  intro s hC
  obtain ⟨hresult, hend, hsteps⟩ := h (view s) hC
  refine ⟨hresult, ?_, hsteps⟩
  show put _ s = put _ s
  rw [hend]

theorem Agree.tryCatch {handler : ε → Traced ε σ τ α} (hm : Agree C g m m') :
    Agree C g (tryCatch m handler) (Traced.tryCatch m' handler) := by
  intro s hC
  unfold Traced.tryCatch at hC ⊢
  cases hres : (m s).result with
  | ok a =>
    simp only [hres] at hC ⊢
    obtain ⟨hres', hstate, hsteps⟩ := hm s hC
    simp only [hres'.trans hres]
    exact ⟨trivial, hstate, hsteps⟩
  | error x =>
    simp only [hres] at hC ⊢
    obtain ⟨hres', hstate, hsteps⟩ := hm s fun t ht => hC t (List.mem_append_left _ ht)
    simp only [hres'.trans hres, hstate]
    refine ⟨trivial, trivial, ?_⟩
    rw [List.map_append, List.map_append, hsteps]

theorem Agree.foldlM {γ : Type} {step step' : β → γ → Traced ε σ τ β} (l : List γ)
    (h : ∀ b c, Agree C g (step b c) (step' b c)) (b : β) : Agree C g (l.foldlM step b) (l.foldlM step' b) := by
  induction l generalizing b with
  | nil => exact Agree.refl _
  | cons c l ih =>
    rw [List.foldlM_cons, List.foldlM_cons]
    exact (h b c).bind ih

end Traced
