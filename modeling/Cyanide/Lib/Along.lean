import Cyanide.Lib.Traced

/-!
# Relations along a computation

`AlongAt C R m s` says that if all steps of `m` from `s` satisfy `C`, then `R` relates `s`, these steps and the state in
which `m` ends.  For relations that can be pieced together (`Composable`) there is one rule for each way to build a
computation.  `Quiet Q` is for computations that take no steps.
-/

/-- From one state to another with steps in between: nothing happens, and one thing after the other. -/
structure Composable {σ τ : Type} (R : σ → List τ → σ → Prop) : Prop where
  refl : ∀ s, R s [] s
  trans : ∀ {s t u l l'}, R s l t → R t l' u → R s (l ++ l') u

namespace Traced

variable {ε σ τ α β : Type}

def AlongAt (C : τ → Prop) (R : σ → List τ → σ → Prop) (m : Traced ε σ τ α) (s : σ) : Prop :=
  (∀ t ∈ (m s).steps, C t) → R s (m s).steps (m s).state

/-- The same from every state. -/
def Along (C : τ → Prop) (R : σ → List τ → σ → Prop) (m : Traced ε σ τ α) : Prop := ∀ s, AlongAt C R m s

section Along

variable {C : τ → Prop} {R S : σ → List τ → σ → Prop} {m : Traced ε σ τ α} {f : α → Traced ε σ τ β} {s : σ}

theorem AlongAt.mono (h : AlongAt C R m s) (hR : ∀ l t, R s l t → S s l t) : AlongAt C S m s := fun hC => hR _ _ (h hC)

theorem Along.mono (h : Along C R m) (hR : ∀ s l t, R s l t → S s l t) : Along C S m := fun s => (h s).mono (hR s)

theorem Along.pure (hR : Composable R) {a : α} : Along C R (pure a : Traced ε σ τ α) := fun s _ => hR.refl s

theorem Along.throw (hR : Composable R) {x : ε} : Along C R (throw x : Traced ε σ τ α) := fun s _ => hR.refl s

theorem Along.get (hR : Composable R) : Along C R (get : Traced ε σ τ σ) := fun s _ => hR.refl s

theorem AlongAt.modify {g : σ → σ} (h : R s [] (g s)) : AlongAt C R (modify g : Traced ε σ τ Unit) s := fun _ => h

theorem Along.modify {g : σ → σ} (h : ∀ s, R s [] (g s)) : Along C R (modify g : Traced ε σ τ Unit) := fun s _ => h s

theorem Along.step {t : τ} (h : ∀ s, C t → R s [t] s) : Along C R (step t : Traced ε σ τ Unit) :=
  fun s hC => h s (hC t (List.mem_singleton.2 rfl))

theorem Along.embed {ρ : Type} {view : σ → ρ} {put : ρ → σ → σ} {m : Traced ε ρ Empty α}
    (h : ∀ s r, R s [] (put r s)) : Along C R (embed view put m) := fun s _ => h s _

/-- A part of the state, with a relation of its own. -/
theorem AlongAt.zoom {ρ : Type} {view : σ → ρ} {put : ρ → σ → σ} {m : Traced ε ρ τ α} {S : ρ → List τ → ρ → Prop}
    (h : AlongAt C S m (view s)) (hR : ∀ l r, S (view s) l r → R s l (put r s)) : AlongAt C R (zoom view put m) s :=
  fun hC => hR _ _ (h hC)

/-- One computation after the other, each with a relation of its own. -/
theorem AlongAt.seq {R₁ R₂ : σ → List τ → σ → Prop} (hm : AlongAt C R₁ m s)
    (hf : ∀ a, (m s).result = .ok a → AlongAt C R₂ (f a) (m s).state)
    (hend : ∀ x, (m s).result = .error x → R₁ s (m s).steps (m s).state → R s (m s).steps (m s).state)
    (hseq : ∀ l t l' u, R₁ s l t → R₂ t l' u → R s (l ++ l') u) : AlongAt C R (m >>= f) s := by
  intro hC
  cases hres : (m s).result with
  | ok a =>
    rw [bind_ok hres] at hC ⊢
    exact hseq _ _ _ _ (hm fun t ht => hC t (List.mem_append_left _ ht))
      (hf a hres fun t ht => hC t (List.mem_append_right _ ht))
  | error x =>
    rw [bind_error hres] at hC ⊢
    exact hend x hres (hm hC)

theorem AlongAt.bind (hR : Composable R) (hm : AlongAt C R m s)
    (hf : ∀ a, (m s).result = .ok a → AlongAt C R (f a) (m s).state) : AlongAt C R (m >>= f) s :=
  AlongAt.seq hm hf (fun _ _ h => h) fun _ _ _ _ => hR.trans

theorem Along.bind (hR : Composable R) (hm : Along C R m) (hf : ∀ a, Along C R (f a)) : Along C R (m >>= f) :=
  fun s => AlongAt.bind hR (hm s) fun a _ => hf a _

theorem AlongAt.map {g : α → β} (h : AlongAt C R m s) : AlongAt C R (g <$> m) s := by
  unfold AlongAt
  rw [steps_map, state_map]
  exact h

theorem Along.map {g : α → β} (h : Along C R m) : Along C R (g <$> m) := fun s => (h s).map

/-- The continuation gets the state. -/
theorem AlongAt.get_bind {f : σ → Traced ε σ τ β} (h : AlongAt C R (f s) s) : AlongAt C R (Traced.get >>= f) s := h

theorem Along.get_bind {f : σ → Traced ε σ τ β} (h : ∀ s, AlongAt C R (f s) s) : Along C R (Traced.get >>= f) :=
  fun s => AlongAt.get_bind (h s)

/-- A change that takes no step, and what follows it. -/
theorem AlongAt.modify_bind {g : σ → σ} {f : Unit → Traced ε σ τ β} (h : AlongAt C S (f ()) (g s))
    (hR : ∀ l t, S (g s) l t → R s l t) : AlongAt C R (Traced.modify g >>= f) s := fun hC => hR _ _ (h hC)

/-- A step, and what follows it. -/
theorem AlongAt.step_bind {t : τ} {f : Unit → Traced ε σ τ β} (h : C t → AlongAt C S (f ()) s)
    (hR : ∀ l u, C t → S s l u → R s (t :: l) u) : AlongAt C R (Traced.step t >>= f) s := by
  intro hC
  have ht : C t := hC t List.mem_cons_self
  exact hR _ _ ht (h ht fun u hu => hC u (List.mem_cons_of_mem _ hu))

theorem Along.ite {c : Prop} [Decidable c] {m' : Traced ε σ τ α} (hm : c → Along C R m) (hm' : ¬c → Along C R m') :
    Along C R (if c then m else m') := by
  by_cases hc : c
  · rw [if_pos hc]
    exact hm hc
  · rw [if_neg hc]
    exact hm' hc

theorem AlongAt.tryCatch (hR : Composable R) {handler : ε → Traced ε σ τ α} (hm : AlongAt C R m s)
    (hh : ∀ x, Along C R (handler x)) : AlongAt C R (tryCatch m handler) s := by
  intro hC
  unfold Traced.tryCatch at hC ⊢
  cases hres : (m s).result with
  | ok a =>
    simp only [hres] at hC ⊢
    exact hm hC
  | error x =>
    simp only [hres] at hC ⊢
    exact hR.trans (hm fun t ht => hC t (List.mem_append_left _ ht))
      (hh x _ fun t ht => hC t (List.mem_append_right _ ht))

theorem Along.tryCatch (hR : Composable R) {handler : ε → Traced ε σ τ α} (hm : Along C R m)
    (hh : ∀ x, Along C R (handler x)) : Along C R (Traced.tryCatch m handler) := fun s => (hm s).tryCatch hR hh

theorem Along.foldlM (hR : Composable R) {γ : Type} {step : β → γ → Traced ε σ τ β} (l : List γ)
    (h : ∀ b c, Along C R (step b c)) (b : β) : Along C R (l.foldlM step b) := by
  induction l generalizing b with
  | nil => exact Along.pure hR
  | cons c l ih =>
    rw [List.foldlM_cons]
    exact Along.bind hR (h b c) ih

end Along

/-! ### Computations without steps -/

/-- No step is taken, and `Q` relates the states. -/
def Quiet (Q : σ → σ → Prop) (s : σ) (l : List τ) (s' : σ) : Prop := l = [] ∧ Q s s'

theorem composable_quiet {Q : σ → σ → Prop} (hrefl : ∀ s, Q s s) (htrans : ∀ {s t u}, Q s t → Q t u → Q s u) :
    Composable (Quiet Q : σ → List τ → σ → Prop) where
  refl s := ⟨rfl, hrefl s⟩
  trans h h' := ⟨by rw [h.1, h'.1]; rfl, htrans h.2 h'.2⟩

theorem AlongAt.of_quiet {C : τ → Prop} {R : σ → List τ → σ → Prop} {Q : σ → σ → Prop} {m : Traced ε σ τ α} {s : σ}
    (h : AlongAt (fun _ => True) (Quiet Q) m s) (hR : ∀ t, Q s t → R s [] t) : AlongAt C R m s := by
  obtain ⟨hsteps, hQ⟩ := h fun _ _ => trivial
  intro _
  rw [hsteps]
  exact hR _ hQ

end Traced
