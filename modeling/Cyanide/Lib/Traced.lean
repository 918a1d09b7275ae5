import Mathlib.Data.List.Basic

/-!
# Computations with a state, exceptions and a trace

`Traced ε σ τ α` is a computation that reads and writes a state, may raise an exception (the state is then what it was
when it was raised), and records the steps it takes.  The trace is there for statements: `Triple C G P m Q E` says that
when `m` starts where `P` holds and all of its steps satisfy `C`, then all of its steps satisfy `G`, and the end is in
`Q` after a result and in `E` after an exception.  `RaisesOnly F m` says that all exceptions of `m` are in `F`,
`ReturnsOnly F m` that all its results are, and `Exact C F m` that its steps satisfy `C` just when its exceptions are in
`F`.  Each comes with rules for the ways to build a computation.
-/

/-- What a computation ends with. -/
structure Outcome (ε σ τ α : Type) where
  result : Except ε α
  state : σ
  steps : List τ

def Traced (ε σ τ α : Type) : Type := σ → Outcome ε σ τ α

namespace Traced

variable {ε σ τ α β : Type}

protected def pure (a : α) : Traced ε σ τ α := fun s => ⟨.ok a, s, []⟩

protected def bind (m : Traced ε σ τ α) (f : α → Traced ε σ τ β) : Traced ε σ τ β := fun s =>
  match (m s).result with
  | .ok a => ⟨(f a (m s).state).result, (f a (m s).state).state, (m s).steps ++ (f a (m s).state).steps⟩
  | .error x => ⟨.error x, (m s).state, (m s).steps⟩

instance : Monad (Traced ε σ τ) where
  pure := Traced.pure
  bind := Traced.bind

def throw (x : ε) : Traced ε σ τ α := fun s => ⟨.error x, s, []⟩

def get : Traced ε σ τ σ := fun s => ⟨.ok s, s, []⟩

def modify (f : σ → σ) : Traced ε σ τ Unit := fun s => ⟨.ok (), f s, []⟩

/-- Record a step. -/
def step (t : τ) : Traced ε σ τ Unit := fun s => ⟨.ok (), s, [t]⟩

/-- Run `m`, and `handler` from the state in which `m` raised an exception. -/
def tryCatch (m : Traced ε σ τ α) (handler : ε → Traced ε σ τ α) : Traced ε σ τ α := fun s =>
  match (m s).result with
  | .ok a => ⟨.ok a, (m s).state, (m s).steps⟩
  | .error x =>
    ⟨(handler x (m s).state).result, (handler x (m s).state).state, (m s).steps ++ (handler x (m s).state).steps⟩

/-- Run `m` on a part of the state. -/
def zoom {ρ : Type} (view : σ → ρ) (put : ρ → σ → σ) (m : Traced ε ρ τ α) : Traced ε σ τ α := fun s =>
  ⟨(m (view s)).result, put (m (view s)).state s, (m (view s)).steps⟩

/-- Run `m`, which takes no steps, on a part of the state. -/
def embed {ρ : Type} (view : σ → ρ) (put : ρ → σ → σ) (m : Traced ε ρ Empty α) : Traced ε σ τ α := fun s =>
  ⟨(m (view s)).result, put (m (view s)).state s, []⟩

theorem bind_ok {m : Traced ε σ τ α} {s : σ} {a : α} (h : (m s).result = .ok a) (f : α → Traced ε σ τ β) :
    (m >>= f) s =
      ⟨(f a (m s).state).result, (f a (m s).state).state, (m s).steps ++ (f a (m s).state).steps⟩ := by
  show Traced.bind m f s = _
  simp only [Traced.bind, h]

theorem bind_error {m : Traced ε σ τ α} {s : σ} {x : ε} (h : (m s).result = .error x) (f : α → Traced ε σ τ β) :
    (m >>= f) s = ⟨.error x, (m s).state, (m s).steps⟩ := by
  show Traced.bind m f s = _
  simp only [Traced.bind, h]

/-- A computation without steps, and what follows it. -/
theorem bind_of_eq {m : Traced ε σ τ α} {s s' : σ} {a : α} (h : m s = ⟨.ok a, s', []⟩) (f : α → Traced ε σ τ β) :
    (m >>= f) s = f a s' := by
  show Traced.bind m f s = _
  simp only [Traced.bind, h, List.nil_append]

/-- A computation that returns has returned in its first part. -/
theorem bind_eq_ok {m : Traced ε σ τ α} {f : α → Traced ε σ τ β} {s : σ} {b : β} (h : ((m >>= f) s).result = .ok b) :
    ∃ a, (m s).result = .ok a ∧ (f a (m s).state).result = .ok b := by
  cases hm : (m s).result with
  | ok a =>
    rw [bind_ok hm] at h
    exact ⟨a, rfl, h⟩
  | error x =>
    rw [bind_error hm] at h
    cases h

/-- The continuation gets the state. -/
theorem get_bind (f : σ → Traced ε σ τ α) (s : σ) : (get >>= f) s = f s s := rfl

theorem modify_bind (g : σ → σ) (f : Unit → Traced ε σ τ β) (s : σ) : (modify g >>= f) s = f () (g s) := rfl

/-- The continuation only depends on how the computation ends. -/
theorem bind_congr_left {m m' : Traced ε σ τ α} {s : σ} (h : m s = m' s) (f : α → Traced ε σ τ β) :
    (m >>= f) s = (m' >>= f) s := by
  show Traced.bind m f s = Traced.bind m' f s
  simp only [Traced.bind, h]

theorem step_bind_congr (t : τ) {f g : Unit → Traced ε σ τ β} {s : σ} (h : f () s = g () s) :
    (step t >>= f) s = (step t >>= g) s := by
  show Traced.bind (step t) f s = Traced.bind (step t) g s
  simp only [Traced.bind, step, h]

/-! ### The first steps -/

theorem steps_step_bind (t : τ) (f : Unit → Traced ε σ τ β) (s : σ) : ((step t >>= f) s).steps = t :: (f () s).steps :=
  rfl

theorem steps_prefix_bind (m : Traced ε σ τ α) (f : α → Traced ε σ τ β) (s : σ) :
    (m s).steps <+: ((m >>= f) s).steps := by
  cases h : (m s).result with
  | ok a =>
    rw [bind_ok h]
    exact List.prefix_append _ _
  | error x =>
    have heq : ((m >>= f) s).steps = (m s).steps := by rw [bind_error h]
    exact heq ▸ List.prefix_rfl

theorem steps_prefix_tryCatch (m : Traced ε σ τ α) (handler : ε → Traced ε σ τ α) (s : σ) :
    (m s).steps <+: (tryCatch m handler s).steps := by
  unfold tryCatch
  cases (m s).result with
  | ok a => exact List.prefix_rfl
  | error x => exact List.prefix_append _ _

private theorem id_map_traced (m : Traced ε σ τ α) : id <$> m = m := by
  funext s
  show Traced.bind m _ s = m s
  simp only [Traced.bind]
  cases h : m s with
  | mk result state steps => cases result <;> simp [Traced.pure]

private theorem bind_assoc_traced {γ : Type} (m : Traced ε σ τ α) (f : α → Traced ε σ τ β) (g : β → Traced ε σ τ γ) :
    m >>= f >>= g = m >>= fun a => f a >>= g := by
  funext s
  show Traced.bind (Traced.bind m f) g s = Traced.bind m (fun a => Traced.bind (f a) g) s
  simp only [Traced.bind]
  cases h : (m s).result with
  | error x => rfl
  | ok a => cases h' : (f a (m s).state).result <;> simp [h']

instance : LawfulMonad (Traced ε σ τ) :=
  LawfulMonad.mk' (Traced ε σ τ) id_map_traced (fun _ _ => rfl) bind_assoc_traced

theorem map_eq_ok {m : Traced ε σ τ α} {g : α → β} {s : σ} {b : β} (h : ((g <$> m) s).result = .ok b) :
    ∃ a, (m s).result = .ok a ∧ b = g a := by
  rw [map_eq_pure_bind] at h
  obtain ⟨a, ha, hb⟩ := bind_eq_ok h
  cases hb
  exact ⟨a, ha, rfl⟩

theorem steps_map (g : α → β) (m : Traced ε σ τ α) (s : σ) : ((g <$> m) s).steps = (m s).steps := by
  rw [map_eq_pure_bind]
  cases hres : (m s).result with
  | ok a =>
    rw [bind_ok hres]
    exact List.append_nil _
  | error x => rw [bind_error hres]

theorem state_map (g : α → β) (m : Traced ε σ τ α) (s : σ) : ((g <$> m) s).state = (m s).state := by
  rw [map_eq_pure_bind]
  cases hres : (m s).result with
  | ok a =>
    rw [bind_ok hres]
    rfl
  | error x => rw [bind_error hres]

/-! ### Triples -/

/-- From `P`, if all steps satisfy `C`: all steps satisfy `G`, and the end satisfies `Q` or, after an exception, `E`. -/
def Triple (C G : τ → Prop) (P : σ → Prop) (m : Traced ε σ τ α) (Q : α → σ → Prop) (E : σ → Prop) : Prop :=
  ∀ s, P s → (∀ t ∈ (m s).steps, C t) →
    (∀ t ∈ (m s).steps, G t) ∧
      match (m s).result with
      | .ok a => Q a (m s).state
      | .error _ => E (m s).state

section Triple

variable {C G : τ → Prop} {P P' : σ → Prop} {Q Q' : α → σ → Prop} {R : β → σ → Prop} {E E' : σ → Prop}
  {m : Traced ε σ τ α} {f : α → Traced ε σ τ β}

theorem Triple.pure {a : α} (h : ∀ s, P s → Q a s) : Triple C G P (pure a : Traced ε σ τ α) Q E := by
  intro s hs _
  refine ⟨fun t ht => ?_, h s hs⟩
  exact absurd ht List.not_mem_nil

theorem Triple.throw {x : ε} (h : ∀ s, P s → E s) : Triple C G P (throw x : Traced ε σ τ α) Q E := by
  intro s hs _
  exact ⟨fun t ht => absurd ht List.not_mem_nil, h s hs⟩

theorem Triple.get {Q : σ → σ → Prop} (h : ∀ s, P s → Q s s) : Triple C G P (get : Traced ε σ τ σ) Q E := by
  intro s hs _
  exact ⟨fun t ht => absurd ht List.not_mem_nil, h s hs⟩

theorem Triple.modify {g : σ → σ} {Q : Unit → σ → Prop} (h : ∀ s, P s → Q () (g s)) :
    Triple C G P (modify g : Traced ε σ τ Unit) Q E := by
  intro s hs _
  exact ⟨fun t ht => absurd ht List.not_mem_nil, h s hs⟩

/-- The step itself may be used: it satisfies `C`. -/
theorem Triple.step {t : τ} {Q : Unit → σ → Prop} (h : ∀ s, P s → C t → G t ∧ Q () s) :
    Triple C G P (step t : Traced ε σ τ Unit) Q E := by
  intro s hs hC
  obtain ⟨hG, hQ⟩ := h s hs (hC t (List.mem_singleton.2 rfl))
  refine ⟨fun u hu => ?_, hQ⟩
  rw [List.mem_singleton.1 hu]
  exact hG

theorem Triple.bind (hm : Triple C G P m Q E) (hf : ∀ a, Triple C G (Q a) (f a) R E) :
    Triple C G P (m >>= f) R E := by
  intro s hs hC
  cases hres : (m s).result with
  | ok a =>
    rw [bind_ok hres] at hC ⊢
    have hsteps : ∀ t ∈ (m s).steps, C t := fun t ht => hC t (List.mem_append_left _ ht)
    obtain ⟨hG, hQ⟩ := hm s hs hsteps
    rw [hres] at hQ
    obtain ⟨hG', hR⟩ := hf a (m s).state hQ fun t ht => hC t (List.mem_append_right _ ht)
    refine ⟨fun t ht => ?_, hR⟩
    rcases List.mem_append.1 ht with ht | ht
    · exact hG t ht
    · exact hG' t ht
  | error x =>
    rw [bind_error hres] at hC ⊢
    obtain ⟨hG, hE⟩ := hm s hs hC
    rw [hres] at hE
    exact ⟨hG, hE⟩

/-- Reading the state: the continuation may be proved for the state it is given. -/
theorem Triple.get_bind {f : σ → Traced ε σ τ β} (hf : ∀ s₀, Triple C G (fun s => P s ∧ s = s₀) (f s₀) R E) :
    Triple C G P (Traced.get >>= f) R E := by
  intro s hs hC
  have hres : ((Traced.get : Traced ε σ τ σ) s).result = .ok s := rfl
  rw [bind_ok hres] at hC ⊢
  have hstate : ((Traced.get : Traced ε σ τ σ) s).state = s := rfl
  rw [hstate] at hC ⊢
  exact hf s s ⟨hs, rfl⟩ hC

theorem Triple.conseq (h : Triple C G P m Q E) (hP : ∀ s, P' s → P s) (hQ : ∀ a s, Q a s → Q' a s)
    (hE : ∀ s, E s → E' s) : Triple C G P' m Q' E' := by
  intro s hs hC
  obtain ⟨hG, hend⟩ := h s (hP s hs) hC
  refine ⟨hG, ?_⟩
  cases hres : (m s).result with
  | ok a => exact hQ a _ (by simpa [hres] using hend)
  | error x => exact hE _ (by simpa [hres] using hend)

theorem Triple.tryCatch {handler : ε → Traced ε σ τ α} (hm : Triple C G P m Q E')
    (hh : ∀ x, Triple C G E' (handler x) Q E) : Triple C G P (tryCatch m handler) Q E := by
  intro s hs hC
  unfold Traced.tryCatch at hC ⊢
  cases hres : (m s).result with
  | ok a =>
    simp only [hres] at hC ⊢
    have := hm s hs hC
    rwa [hres] at this
  | error x =>
    simp only [hres] at hC ⊢
    obtain ⟨hG, hE⟩ := hm s hs fun t ht => hC t (List.mem_append_left _ ht)
    rw [hres] at hE
    obtain ⟨hG', hend⟩ := hh x (m s).state hE fun t ht => hC t (List.mem_append_right _ ht)
    refine ⟨fun t ht => ?_, hend⟩
    rcases List.mem_append.1 ht with ht | ht
    · exact hG t ht
    · exact hG' t ht

theorem Triple.zoom {ρ : Type} {view : σ → ρ} {put : ρ → σ → σ} {m : Traced ε ρ τ α}
    (h : ∀ s, P s → Triple C G (· = view s) m (fun a r => Q a (put r s)) fun r => E (put r s)) :
    Triple C G P (zoom view put m) Q E := fun s hs hC => h s hs (view s) rfl hC

/-- A part of the state is changed and no step is taken. -/
theorem Triple.embed {ρ : Type} {view : σ → ρ} {put : ρ → σ → σ} {m : Traced ε ρ Empty α}
    (hQ : ∀ s a r, P s → Q a (put r s)) (hE : ∀ s r, P s → E (put r s)) : Triple C G P (embed view put m) Q E := by
  intro s hs _
  refine ⟨fun t ht => absurd ht List.not_mem_nil, ?_⟩
  unfold Traced.embed
  cases (m (view s)).result with
  | ok a => exact hQ s a _ hs
  | error x => exact hE s _ hs

theorem Triple.map {g : α → β} (h : Triple C G P m (fun a => R (g a)) E) : Triple C G P (g <$> m) R E := by
  rw [map_eq_pure_bind]
  exact h.bind fun a => Triple.pure fun _ hs => hs

/-- What every round of a loop keeps, the loop keeps. -/
theorem Triple.foldlM {γ : Type} {step : β → γ → Traced ε σ τ β} {I : β → σ → Prop} (l : List γ)
    (h : ∀ b, ∀ c ∈ l, Triple C G (I b) (step b c) I E) (b : β) :
    Triple C G (I b) (l.foldlM step b) I E := by
  induction l generalizing b with
  | nil => exact Triple.pure fun _ hs => hs
  | cons c l ih =>
    rw [List.foldlM_cons]
    exact Triple.bind (h b c (by simp)) fun b' => ih (fun b d hd => h b d (by simp [hd])) b'

/-- `I` is kept, also where an exception is raised. -/
def Keeps (C G : τ → Prop) (I : σ → Prop) (m : Traced ε σ τ α) : Prop := Triple C G I m (fun _ => I) I

namespace Keeps

variable {I : σ → Prop}

theorem pure {a : α} : Keeps C G I (pure a : Traced ε σ τ α) := Triple.pure fun _ h => h

theorem throw {x : ε} : Keeps C G I (throw x : Traced ε σ τ α) := Triple.throw fun _ h => h

theorem get : Keeps C G I (get : Traced ε σ τ σ) := Triple.get fun _ h => h

theorem modify {g : σ → σ} (h : ∀ s, I s → I (g s)) : Keeps C G I (modify g : Traced ε σ τ Unit) := Triple.modify h

theorem step {t : τ} (h : C t → G t) : Keeps C G I (step t : Traced ε σ τ Unit) := Triple.step fun _ hs hC => ⟨h hC, hs⟩

theorem bind (hm : Keeps C G I m) (hf : ∀ a, Keeps C G I (f a)) : Keeps C G I (m >>= f) := Triple.bind hm hf

theorem map {g : α → β} (hm : Keeps C G I m) : Keeps C G I (g <$> m) := Triple.map hm

theorem ite {c : Prop} [Decidable c] {m' : Traced ε σ τ α} (hm : c → Keeps C G I m) (hm' : ¬c → Keeps C G I m') :
    Keeps C G I (if c then m else m') := by
  by_cases hc : c
  · rw [if_pos hc]
    exact hm hc
  · rw [if_neg hc]
    exact hm' hc

theorem embed {ρ : Type} {view : σ → ρ} {put : ρ → σ → σ} {m : Traced ε ρ Empty α} (h : ∀ s r, I s → I (put r s)) :
    Keeps C G I (embed view put m) := Triple.embed (fun s _ r hs => h s r hs) h

theorem tryCatch {handler : ε → Traced ε σ τ α} (hm : Keeps C G I m) (hh : ∀ x, Keeps C G I (handler x)) :
    Keeps C G I (tryCatch m handler) := Triple.tryCatch hm hh

theorem foldlM {γ : Type} {step : β → γ → Traced ε σ τ β} (l : List γ) (h : ∀ b c, Keeps C G I (step b c)) (b : β) :
    Keeps C G I (l.foldlM step b) := Triple.foldlM (I := fun _ => I) l (fun b c _ => h b c) b

end Keeps

/-- A computation that starts in a known state. -/
theorem Keeps.of_eq {I : σ → Prop} {s₀ : σ} (hm : Keeps C G I m) (h : I s₀) : Triple C G (· = s₀) m (fun _ => I) I := by
  refine Triple.conseq hm ?_ (fun _ _ h => h) fun _ h => h
  rintro s rfl
  exact h

/-- In a known state, `get` returns it. -/
theorem Triple.get_bind_eq {s₀ : σ} {f : σ → Traced ε σ τ β} (h : Triple C G (· = s₀) (f s₀) R E) :
    Triple C G (· = s₀) (Traced.get >>= f) R E := by
  refine Triple.get_bind fun s => ?_
  rintro s' ⟨rfl, rfl⟩ hC
  exact h s' rfl hC

end Triple

/-! ### Exceptions -/

/-- Whatever `m` raises is in `F`. -/
def RaisesOnly (F : ε → Prop) (m : Traced ε σ τ α) : Prop := ∀ s x, (m s).result = .error x → F x

namespace RaisesOnly

variable {F F' : ε → Prop} {m : Traced ε σ τ α} {f : α → Traced ε σ τ β}

theorem pure {a : α} : RaisesOnly F (pure a : Traced ε σ τ α) := by
  intro s x hx
  cases hx

theorem throw {x : ε} (hx : F x) : RaisesOnly F (throw x : Traced ε σ τ α) := by
  intro s y hy
  cases hy
  exact hx

theorem get : RaisesOnly F (get : Traced ε σ τ σ) := by
  intro s x hx
  cases hx

theorem modify {g : σ → σ} : RaisesOnly F (modify g : Traced ε σ τ Unit) := by
  intro s x hx
  cases hx

theorem bind (hm : RaisesOnly F m) (hf : ∀ a, RaisesOnly F (f a)) : RaisesOnly F (m >>= f) := by
  intro s x hx
  cases hres : (m s).result with
  | ok a =>
    rw [bind_ok hres] at hx
    exact hf a _ x hx
  | error y =>
    rw [bind_error hres] at hx
    cases hx
    exact hm s x hres

theorem map {g : α → β} (hm : RaisesOnly F m) : RaisesOnly F (g <$> m) := by
  rw [map_eq_pure_bind]
  exact hm.bind fun _ => pure

theorem ite {c : Prop} [Decidable c] {m' : Traced ε σ τ α} (hm : c → RaisesOnly F m) (hm' : ¬c → RaisesOnly F m') :
    RaisesOnly F (if c then m else m') := by
  by_cases hc : c
  · rw [if_pos hc]
    exact hm hc
  · rw [if_neg hc]
    exact hm' hc

theorem mono (hm : RaisesOnly F m) (h : ∀ x, F x → F' x) : RaisesOnly F' m := fun s x hx => h x (hm s x hx)

theorem tryCatch {handler : ε → Traced ε σ τ α} (hm : RaisesOnly F' m) (hh : ∀ x, F' x → RaisesOnly F (handler x)) :
    RaisesOnly F (tryCatch m handler) := by
  intro s x hx
  unfold Traced.tryCatch at hx
  cases hres : (m s).result with
  | ok a =>
    simp only [hres] at hx
    cases hx
  | error y =>
    simp only [hres] at hx
    exact hh y (hm s y hres) _ x hx

theorem foldlM {γ : Type} {step : β → γ → Traced ε σ τ β} (l : List γ) (h : ∀ b c, RaisesOnly F (step b c)) (b : β) :
    RaisesOnly F (l.foldlM step b) := by
  induction l generalizing b with
  | nil => exact pure
  | cons c l ih =>
    rw [List.foldlM_cons]
    exact (h b c).bind ih

end RaisesOnly

/-- Whatever `m` returns is in `F`. -/
def ReturnsOnly (F : α → Prop) (m : Traced ε σ τ α) : Prop := ∀ s a, (m s).result = .ok a → F a

namespace ReturnsOnly

variable {F : α → Prop} {G : β → Prop} {m : Traced ε σ τ α} {f : α → Traced ε σ τ β}

theorem pure {a : α} (ha : F a) : ReturnsOnly F (pure a : Traced ε σ τ α) := by
  intro s b hb
  cases hb
  exact ha

theorem bind (hm : ReturnsOnly F m) (hf : ∀ a, F a → ReturnsOnly G (f a)) : ReturnsOnly G (m >>= f) := by
  intro s b hb
  obtain ⟨a, ha, hb⟩ := bind_eq_ok hb
  exact hf a (hm s a ha) _ b hb

theorem of_bind (hf : ∀ a, ReturnsOnly G (f a)) : ReturnsOnly G (m >>= f) := by
  intro s b hb
  obtain ⟨a, -, hb⟩ := bind_eq_ok hb
  exact hf a _ b hb

/-- What every round of a loop returns, if it is given it, the loop returns. -/
theorem foldlM {γ : Type} {step : β → γ → Traced ε σ τ β} (l : List γ) (h : ∀ b c, G b → ReturnsOnly G (step b c))
    {b : β} (hb : G b) : ReturnsOnly G (l.foldlM step b) := by
  induction l generalizing b with
  | nil => exact pure hb
  | cons c l ih =>
    rw [List.foldlM_cons]
    exact (h b c hb).bind fun _ => ih

end ReturnsOnly

/-! ### Exactness -/

/-- From the state `s`, the steps of `m` satisfy `C` just when `m` raises nothing outside of `F`. -/
def ExactAt (C : τ → Prop) (F : ε → Prop) (m : Traced ε σ τ α) (s : σ) : Prop :=
  (∀ t ∈ (m s).steps, C t) ↔ ∀ x, (m s).result = .error x → F x

/-- The same from every state. -/
def Exact (C : τ → Prop) (F : ε → Prop) (m : Traced ε σ τ α) : Prop := ∀ s, ExactAt C F m s

section Exact

variable {C : τ → Prop} {F F' : ε → Prop} {m : Traced ε σ τ α} {f : α → Traced ε σ τ β} {s : σ}

/-- A computation without steps that raises nothing outside of `F`. -/
theorem ExactAt.of_silent (hsteps : (m s).steps = []) (h : ∀ x, (m s).result = .error x → F x) : ExactAt C F m s := by
  refine iff_of_true (fun t ht => ?_) h
  rw [hsteps] at ht
  exact absurd ht List.not_mem_nil

theorem Exact.pure {a : α} : Exact C F (pure a : Traced ε σ τ α) :=
  fun s => ExactAt.of_silent rfl (RaisesOnly.pure s)

theorem Exact.throw {x : ε} (hx : F x) : Exact C F (throw x : Traced ε σ τ α) :=
  fun s => ExactAt.of_silent rfl (RaisesOnly.throw hx s)

theorem Exact.get : Exact C F (get : Traced ε σ τ σ) := fun s => ExactAt.of_silent rfl (RaisesOnly.get s)

theorem Exact.modify {g : σ → σ} : Exact C F (modify g : Traced ε σ τ Unit) :=
  fun s => ExactAt.of_silent rfl (RaisesOnly.modify s)

theorem Exact.embed {ρ : Type} {view : σ → ρ} {put : ρ → σ → σ} {m : Traced ε ρ Empty α} (h : RaisesOnly F m) :
    Exact C F (embed view put m) := fun s => ExactAt.of_silent rfl (h (view s))

theorem ExactAt.bind (hm : ExactAt C F m s) (hf : ∀ a, (m s).result = .ok a → ExactAt C F (f a) (m s).state) :
    ExactAt C F (m >>= f) s := by
  unfold ExactAt at hm ⊢
  cases hres : (m s).result with
  | ok a =>
    rw [bind_ok hres]
    have hhead : ∀ t ∈ (m s).steps, C t := hm.2 fun x hx => by rw [hres] at hx; cases hx
    refine Iff.trans ⟨fun h t ht => ?_, fun h t ht => ?_⟩ (hf a hres)
    · exact h t (List.mem_append_right _ ht)
    · rcases List.mem_append.1 ht with ht | ht
      · exact hhead t ht
      · exact h t ht
  | error x =>
    rw [bind_error hres]
    refine hm.trans ⟨fun h y hy => ?_, fun h y hy => ?_⟩
    · cases hy
      exact h x hres
    · rw [hres] at hy
      cases hy
      exact h x rfl

theorem Exact.bind (hm : Exact C F m) (hf : ∀ a, Exact C F (f a)) : Exact C F (m >>= f) :=
  fun s => (hm s).bind fun a _ => hf a _

/-- The continuation gets the state. -/
theorem ExactAt.get_bind {f : σ → Traced ε σ τ β} (h : ExactAt C F (f s) s) : ExactAt C F (Traced.get >>= f) s :=
  ExactAt.bind (Exact.get s) fun a ha => by cases ha; exact h

theorem ExactAt.modify_bind {g : σ → σ} {f : Unit → Traced ε σ τ β} (h : ExactAt C F (f ()) (g s)) :
    ExactAt C F (Traced.modify g >>= f) s := ExactAt.bind (Exact.modify s) fun _ _ => h

/-- A step that does not satisfy `C` announces an exception. -/
theorem ExactAt.step_bind {t : τ} {f : Unit → Traced ε σ τ β} (h : C t → ExactAt C F (f ()) s)
    (hbad : ¬C t → ∃ x, (f () s).result = .error x ∧ ¬F x) : ExactAt C F (Traced.step t >>= f) s := by
  have hres : ((Traced.step t : Traced ε σ τ Unit) s).result = .ok () := rfl
  unfold ExactAt
  rw [bind_ok hres]
  by_cases ht : C t
  · refine Iff.trans ⟨fun h u hu => h u (List.mem_append_right _ hu), fun h u hu => ?_⟩ (h ht)
    rcases List.mem_append.1 hu with hu | hu
    · exact List.mem_singleton.1 hu ▸ ht
    · exact h u hu
  · obtain ⟨x, hx, hF⟩ := hbad ht
    exact iff_of_false (fun h => ht (h t List.mem_cons_self)) fun h => hF (h x hx)

/-- A step of which nothing is asked. -/
theorem Exact.step {t : τ} (ht : C t) : Exact C F (step t : Traced ε σ τ Unit) := by
  intro s
  refine iff_of_true (fun u hu => ?_) fun x hx => ?_
  · rw [List.mem_singleton.1 hu]
    exact ht
  · cases hx

/-- A handler that takes what is in `F'` and passes on the rest. -/
theorem Exact.tryCatch {handler : ε → Traced ε σ τ α} (hm : Exact C F' m) (hF : ∀ x, F x → F' x)
    (hcaught : ∀ x, F' x → Exact C F (handler x))
    (hpassed : ∀ x, ¬F' x → handler x = Traced.throw x) : Exact C F (tryCatch m handler) := by
  intro s
  unfold ExactAt Traced.tryCatch
  cases hres : (m s).result with
  | ok a =>
    have hhead : ∀ t ∈ (m s).steps, C t := (hm s).2 fun x hx => by rw [hres] at hx; cases hx
    refine iff_of_true hhead fun x hx => ?_
    cases hx
  | error x =>
    dsimp only
    by_cases hx : F' x
    · have hhead : ∀ t ∈ (m s).steps, C t := (hm s).2 fun y hy => by rw [hres] at hy; cases hy; exact hx
      refine Iff.trans ⟨fun h t ht => ?_, fun h t ht => ?_⟩ (hcaught x hx (m s).state)
      · exact h t (List.mem_append_right _ ht)
      · rcases List.mem_append.1 ht with ht | ht
        · exact hhead t ht
        · exact h t ht
    · have hbad : ¬∀ t ∈ (m s).steps, C t := fun h => hx ((hm s).1 h x hres)
      rw [hpassed x hx]
      refine iff_of_false (fun h => hbad fun t ht => h t (List.mem_append_left _ ht)) fun h => ?_
      exact hx (hF x (h x rfl))

theorem Exact.zoom {ρ : Type} {view : σ → ρ} {put : ρ → σ → σ} {m : Traced ε ρ τ α} (h : Exact C F m) :
    Exact C F (zoom view put m) := fun s => h (view s)

theorem ExactAt.map {g : α → β} (h : ExactAt C F m s) : ExactAt C F (g <$> m) s := by
  rw [map_eq_pure_bind]
  exact h.bind fun _ _ => Exact.pure _

theorem Exact.map {g : α → β} (h : Exact C F m) : Exact C F (g <$> m) := fun s => (h s).map

theorem Exact.ite {c : Prop} [Decidable c] {m' : Traced ε σ τ α} (hm : c → Exact C F m) (hm' : ¬c → Exact C F m') :
    Exact C F (if c then m else m') := by
  by_cases hc : c
  · rw [if_pos hc]
    exact hm hc
  · rw [if_neg hc]
    exact hm' hc

theorem Exact.foldlM {γ : Type} {step : β → γ → Traced ε σ τ β} (l : List γ) (h : ∀ b c, Exact C F (step b c)) (b : β) :
    Exact C F (l.foldlM step b) := by
  induction l generalizing b with
  | nil => exact Exact.pure
  | cons c l ih =>
    rw [List.foldlM_cons]
    exact Exact.bind (h b c) ih

end Exact

end Traced
