import Cyanide.Lib.Traced

/-!
# Two computations side by side

`SimAt C R Q m m' s s'` says that when the steps of `m` from `s` satisfy `C`, then `m` from `s` and `m'` from `s'` end
alike: with results that are related by `Q`, or with the same exception, and in states that are related by `R`.
`Sim C R Q m m'` says so for all related states.  There is one rule for each way to build a computation.
-/

namespace Traced

/-- Two ends of computations: related results, or the same exception. -/
def Alike {ε α α' : Type} (Q : α → α' → Prop) : Except ε α → Except ε α' → Prop
  | .ok a, .ok a' => Q a a'
  | .error x, .error x' => x = x'
  | _, _ => False

theorem alike_eq_iff {ε α : Type} {r r' : Except ε α} : Alike Eq r r' ↔ r = r' := by
  cases r with
  | ok a => cases r' <;> simp [Alike]
  | error x => cases r' <;> simp [Alike]

section Sim

variable {ε σ σ' τ τ' α α' β β' : Type} {C C' : τ → Prop} {R : σ → σ' → Prop} {P : α → α' → Prop} {Q : β → β' → Prop}
  {m : Traced ε σ τ α} {m' : Traced ε σ' τ' α'} {f : α → Traced ε σ τ β} {f' : α' → Traced ε σ' τ' β'} {s : σ} {s' : σ'}

/-- From these states the computations end alike, if the steps of the first satisfy `C`. -/
def SimAt (C : τ → Prop) (R : σ → σ' → Prop) (P : α → α' → Prop) (m : Traced ε σ τ α) (m' : Traced ε σ' τ' α')
    (s : σ) (s' : σ') : Prop :=
  (∀ t ∈ (m s).steps, C t) → Alike P (m s).result (m' s').result ∧ R (m s).state (m' s').state

/-- The same from all related states. -/
def Sim (C : τ → Prop) (R : σ → σ' → Prop) (P : α → α' → Prop) (m : Traced ε σ τ α) (m' : Traced ε σ' τ' α') : Prop :=
  ∀ s s', R s s' → SimAt C R P m m' s s'

/-! ### Rules at two states -/

theorem SimAt.pure {a : α} {a' : α'} (hR : R s s') (h : P a a') :
    SimAt C R P (pure a : Traced ε σ τ α) (pure a' : Traced ε σ' τ' α') s s' := fun _ => ⟨h, hR⟩

theorem SimAt.bind (hm : SimAt C R P m m' s s')
    (hf : ∀ a a' t t', P a a' → R t t' → SimAt C R Q (f a) (f' a') t t') :
    SimAt C R Q (m >>= f) (m' >>= f') s s' := by
  intro hC
  cases hres : (m s).result with
  | ok a =>
    rw [bind_ok hres] at hC ⊢
    obtain ⟨halike, hR⟩ := hm fun t ht => hC t (List.mem_append_left _ ht)
    rw [hres] at halike
    cases hres' : (m' s').result with
    | ok a' =>
      rw [hres'] at halike
      rw [bind_ok hres']
      exact hf a a' _ _ halike hR fun t ht => hC t (List.mem_append_right _ ht)
    | error x' =>
      rw [hres'] at halike
      exact absurd halike id
  | error x =>
    rw [bind_error hres] at hC ⊢
    obtain ⟨halike, hR⟩ := hm hC
    rw [hres] at halike
    cases hres' : (m' s').result with
    | ok a' =>
      rw [hres'] at halike
      exact absurd halike id
    | error x' =>
      rw [hres'] at halike
      rw [bind_error hres']
      exact ⟨halike, hR⟩

/-- The continuations get the two states. -/
theorem SimAt.get_bind {f : σ → Traced ε σ τ β} {f' : σ' → Traced ε σ' τ' β'} (h : SimAt C R Q (f s) (f' s') s s') :
    SimAt C R Q (Traced.get >>= f) (Traced.get >>= f') s s' := h

theorem SimAt.modify_bind {g : σ → σ} {g' : σ' → σ'} {f : Unit → Traced ε σ τ β} {f' : Unit → Traced ε σ' τ' β'}
    (h : SimAt C R Q (f ()) (f' ()) (g s) (g' s')) :
    SimAt C R Q (Traced.modify g >>= f) (Traced.modify g' >>= f') s s' := h

/-- The step of the first computation may be used: it satisfies `C`. -/
theorem SimAt.step_bind {t : τ} {t' : τ'} {f : Unit → Traced ε σ τ β} {f' : Unit → Traced ε σ' τ' β'}
    (h : C t → SimAt C R Q (f ()) (f' ()) s s') :
    SimAt C R Q (Traced.step t >>= f) (Traced.step t' >>= f') s s' := by
  intro hC
  have hsteps : ((Traced.step t >>= f) s).steps = t :: (f () s).steps := steps_step_bind t f s
  rw [hsteps] at hC
  exact h (hC t List.mem_cons_self) fun u hu => hC u (List.mem_cons_of_mem _ hu)

theorem SimAt.map {g : α → β} {g' : α' → β'} (h : SimAt C R (fun a a' => Q (g a) (g' a')) m m' s s') :
    SimAt C R Q (g <$> m) (g' <$> m') s s' := by
  rw [map_eq_pure_bind, map_eq_pure_bind]
  exact h.bind fun a a' t t' ha hR => SimAt.pure hR ha

/-- Both return the same, to which the same function is applied. -/
theorem SimAt.map_eq {m' : Traced ε σ' τ' α} {g : α → β} (h : SimAt C R Eq m m' s s') :
    SimAt C R Eq (g <$> m) (g <$> m') s s' := by
  rw [map_eq_pure_bind, map_eq_pure_bind]
  exact h.bind fun a a' t t' ha ht => SimAt.pure ht (congrArg g ha)

/-- Parts of the states are run. -/
theorem SimAt.zoom {ρ ρ' : Type} {S : ρ → ρ' → Prop} {view : σ → ρ} {view' : σ' → ρ'} {put : ρ → σ → σ}
    {put' : ρ' → σ' → σ'} {m : Traced ε ρ τ α} {m' : Traced ε ρ' τ' α'} (h : SimAt C S P m m' (view s) (view' s'))
    (hput : ∀ r r', S r r' → R (put r s) (put' r' s')) :
    SimAt C R P (Traced.zoom view put m) (Traced.zoom view' put' m') s s' := by
  intro hC
  obtain ⟨halike, hS⟩ := h hC
  exact ⟨halike, hput _ _ hS⟩

/-- Parts of the states are changed and no step is taken. -/
theorem SimAt.embed {ρ ρ' : Type} {S : ρ → ρ' → Prop} {view : σ → ρ} {view' : σ' → ρ'} {put : ρ → σ → σ}
    {put' : ρ' → σ' → σ'} {m : Traced ε ρ Empty α} {m' : Traced ε ρ' Empty α'}
    (h : SimAt (fun _ => True) S P m m' (view s) (view' s')) (hput : ∀ r r', S r r' → R (put r s) (put' r' s')) :
    SimAt C R P (embed view put m : Traced ε σ τ α) (embed view' put' m' : Traced ε σ' τ' α') s s' := by
  intro _
  obtain ⟨halike, hS⟩ := h fun _ _ => trivial
  exact ⟨halike, hput _ _ hS⟩

theorem SimAt.mono (h : SimAt C R P m m' s s') (hC : ∀ t, C' t → C t) : SimAt C' R P m m' s s' :=
  fun hsteps => h fun t ht => hC t (hsteps t ht)

/-! ### Rules for all related states -/

namespace Sim

theorem pure {a : α} {a' : α'} (h : P a a') : Sim C R P (pure a : Traced ε σ τ α) (pure a' : Traced ε σ' τ' α') :=
  fun _ _ hR => SimAt.pure hR h

theorem throw {x : ε} : Sim C R P (throw x : Traced ε σ τ α) (Traced.throw x : Traced ε σ' τ' α') :=
  fun _ _ hR _ => ⟨rfl, hR⟩

theorem modify {g : σ → σ} {g' : σ' → σ'} (h : ∀ s s', R s s' → R (g s) (g' s')) :
    Sim C R Eq (modify g : Traced ε σ τ Unit) (Traced.modify g' : Traced ε σ' τ' Unit) :=
  fun s s' hR _ => ⟨rfl, h s s' hR⟩

theorem bind (hm : Sim C R P m m') (hf : ∀ a a', P a a' → Sim C R Q (f a) (f' a')) :
    Sim C R Q (m >>= f) (m' >>= f') :=
  fun s s' hR => (hm s s' hR).bind fun a a' t t' ha ht => hf a a' ha t t' ht

/-- Both return the same. -/
theorem bind_eq {m' : Traced ε σ' τ' α} {f' : α → Traced ε σ' τ' β'} (hm : Sim C R Eq m m')
    (hf : ∀ a, Sim C R Q (f a) (f' a)) : Sim C R Q (m >>= f) (m' >>= f') := by
  refine hm.bind fun a a' ha => ?_
  subst ha
  exact hf a

theorem get_bind {f : σ → Traced ε σ τ β} {f' : σ' → Traced ε σ' τ' β'}
    (h : ∀ s s', R s s' → SimAt C R Q (f s) (f' s') s s') : Sim C R Q (Traced.get >>= f) (Traced.get >>= f') :=
  fun s s' hR => (h s s' hR).get_bind

theorem map {g : α → β} {g' : α' → β'} (h : Sim C R (fun a a' => Q (g a) (g' a')) m m') :
    Sim C R Q (g <$> m) (g' <$> m') := fun s s' hR => (h s s' hR).map

theorem map_eq {m' : Traced ε σ' τ' α} {g : α → β} (h : Sim C R Eq m m') : Sim C R Eq (g <$> m) (g <$> m') :=
  fun s s' hR => (h s s' hR).map_eq

theorem ite {c : Prop} [Decidable c] {n : Traced ε σ τ α} {n' : Traced ε σ' τ' α'} (hm : c → Sim C R P m m')
    (hn : ¬c → Sim C R P n n') : Sim C R P (if c then m else n) (if c then m' else n') := by
  by_cases hc : c
  · rw [if_pos hc, if_pos hc]
    exact hm hc
  · rw [if_neg hc, if_neg hc]
    exact hn hc

theorem tryCatch {m' : Traced ε σ' τ' α'} {handler : ε → Traced ε σ τ α} {handler' : ε → Traced ε σ' τ' α'}
    (hm : Sim C R P m m') (hh : ∀ x, Sim C R P (handler x) (handler' x)) :
    Sim C R P (tryCatch m handler) (Traced.tryCatch m' handler') := by
  intro s s' hR hC
  unfold Traced.tryCatch at hC ⊢
  cases hres : (m s).result with
  | ok a =>
    simp only [hres] at hC ⊢
    obtain ⟨halike, hR'⟩ := hm s s' hR hC
    rw [hres] at halike
    cases hres' : (m' s').result with
    | ok a' =>
      rw [hres'] at halike
      exact ⟨halike, hR'⟩
    | error x' =>
      rw [hres'] at halike
      exact absurd halike id
  | error x =>
    simp only [hres] at hC ⊢
    obtain ⟨halike, hR'⟩ := hm s s' hR fun t ht => hC t (List.mem_append_left _ ht)
    rw [hres] at halike
    cases hres' : (m' s').result with
    | ok a' =>
      rw [hres'] at halike
      exact absurd halike id
    | error x' =>
      rw [hres'] at halike
      obtain rfl : x = x' := halike
      exact hh x _ _ hR' fun t ht => hC t (List.mem_append_right _ ht)

/-- What every round of a loop keeps, the loop keeps. -/
theorem foldlM {γ : Type} {step : β → γ → Traced ε σ τ β} {step' : β' → γ → Traced ε σ' τ' β'} (l : List γ)
    (h : ∀ b b' c, Q b b' → Sim C R Q (step b c) (step' b' c)) {b : β} {b' : β'} (hb : Q b b') :
    Sim C R Q (l.foldlM step b) (l.foldlM step' b') := by
  induction l generalizing b b' with
  | nil => exact pure hb
  | cons c l ih =>
    rw [List.foldlM_cons, List.foldlM_cons]
    exact (h b b' c hb).bind fun _ _ hb => ih hb

end Sim

end Sim

end Traced
