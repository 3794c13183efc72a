import DecoratedApi.Reference.Resolver

/-!
# Runs of a resolver's computation

A computation may end well, fail, or give no answer. `Ends` says what holds when it ends, `Yields`
splits this into a relation of the two states and a fact about the result.
-/

namespace DecoratedApi.Resolve

variable {α β : Type}

/-! ## Runs of the parts -/

@[simp]
theorem runFrom_pure (a : α) (s : ResolverState) :
    (pure a : Resolve α).runFrom s = some (.ok a, s) := rfl

@[simp]
theorem runFrom_throw (e : GenerateError) (s : ResolverState) :
    (throw e : Resolve α).runFrom s = some (.error e, s) := rfl

@[simp]
theorem runFrom_get (s : ResolverState) :
    (get : Resolve ResolverState).runFrom s = some (.ok s, s) := rfl

@[simp]
theorem runFrom_set (s' s : ResolverState) :
    (set s' : Resolve PUnit).runFrom s = some (.ok ⟨⟩, s') := rfl

@[simp]
theorem runFrom_modify (f : ResolverState → ResolverState) (s : ResolverState) :
    (modify f : Resolve PUnit).runFrom s = some (.ok ⟨⟩, f s) := rfl

@[simp]
theorem runFrom_ofOutcome (o : Outcome α) (s : ResolverState) :
    (ofOutcome o).runFrom s = some (o, s) := rfl

theorem runFrom_bind (x : Resolve α) (f : α → Resolve β) (s : ResolverState) :
    (x >>= f).runFrom s =
      match x.runFrom s with
      | none => none
      | some (.error e, s') => some (.error e, s')
      | some (.ok a, s') => (f a).runFrom s' := by
  simp only [runFrom, ExceptT.run, StateT.run, bind, ExceptT.bind, ExceptT.mk, StateT.bind,
    Option.bind]
  cases x s with
  | none => rfl
  | some out =>
    obtain ⟨r, s'⟩ := out
    cases r <;> rfl

theorem runFrom_outcome (x : Resolve α) (s : ResolverState) :
    (outcome x).runFrom s = (x.runFrom s).map fun out => (.ok out.1, out.2) := by
  simp only [runFrom, outcome, ExceptT.lift, ExceptT.run, ExceptT.mk, StateT.run, Functor.map,
    StateT.map, Option.map]
  cases x s <;> rfl

theorem runFrom_bind_ok {x : Resolve α} {f : α → Resolve β} {s s'' : ResolverState} {b : β} :
    (x >>= f).runFrom s = some (.ok b, s'') ↔
      ∃ a s', x.runFrom s = some (.ok a, s') ∧ (f a).runFrom s' = some (.ok b, s'') := by
  rw [runFrom_bind]
  constructor
  · intro h
    split at h
    · cases h
    · cases h
    · next a s' hx => exact ⟨a, s', hx, h⟩
  · rintro ⟨a, s', hx, hf⟩
    rw [hx]
    exact hf

/-! ## What holds at the end -/

/-- When the computation ends, it ends so. -/
def Ends (x : Resolve α) (s : ResolverState) (Q : Outcome α → ResolverState → Prop) : Prop :=
  ∀ r s', x.runFrom s = some (r, s') → Q r s'

theorem Ends.bind {x : Resolve α} {f : α → Resolve β} {s : ResolverState}
    {P : Outcome α → ResolverState → Prop} {Q : Outcome β → ResolverState → Prop}
    (hx : x.Ends s P) (herr : ∀ e s', P (.error e) s' → Q (.error e) s')
    (hf : ∀ a s', P (.ok a) s' → (f a).Ends s' Q) : (x >>= f).Ends s Q := by
  intro r s' h
  rw [runFrom_bind] at h
  split at h
  · cases h
  · next e s₁ he =>
    obtain ⟨rfl, rfl⟩ : .error e = r ∧ s₁ = s' := by simpa using h
    exact herr e s₁ (hx _ _ he)
  · next a s₁ ha => exact hf a s₁ (hx _ _ ha) r s' h

/-- The two states are related, and a result is as it should be. The relation may depend on whether
there is a result. -/
def Yields (R : Bool → ResolverState → ResolverState → Prop) (x : Resolve α) (s : ResolverState)
    (P : ResolverState → α → Prop) : Prop :=
  x.Ends s fun r s' => R r.isOk s s' ∧ ∀ a, r = .ok a → P s' a

/-- A relation that fits computations which change the state only by calls: nothing may happen, and
calls may follow one another. -/
structure Sequential (R : Bool → ResolverState → ResolverState → Prop) : Prop where
  refl : ∀ ok s, R ok s s
  trans : ∀ {ok s s' s''}, R true s s' → R ok s' s'' → R ok s s''

section Yields

variable {R : Bool → ResolverState → ResolverState → Prop} (hR : Sequential R)
variable {s : ResolverState} {P : ResolverState → α → Prop} {Q : ResolverState → β → Prop}

include hR

theorem yields_pure {a : α} (h : P s a) : Yields R (pure a) s P := by
  intro r s' hrun
  obtain ⟨rfl, rfl⟩ : .ok a = r ∧ s = s' := by simpa using hrun
  refine ⟨hR.refl _ _, ?_⟩
  rintro _ ⟨⟩
  exact h

theorem yields_ofOutcome {o : Outcome α} (h : ∀ a, o = .ok a → P s a) :
    Yields R (ofOutcome o) s P := by
  intro r s' hrun
  obtain ⟨rfl, rfl⟩ : o = r ∧ s = s' := by simpa using hrun
  exact ⟨hR.refl _ _, h⟩

theorem yields_throw (e : GenerateError) : Yields R (throw e) s P :=
  yields_ofOutcome hR (o := .error e) (by simp)

theorem yields_throw_bind (e : GenerateError) (f : α → Resolve β) :
    Yields R (throw e >>= f) s Q := by
  intro r s' hrun
  exact yields_throw hR e r s' hrun

theorem yields_ofOutcome_bind {o : Outcome α} {f : α → Resolve β}
    (hf : ∀ a, o = .ok a → Yields R (f a) s Q) : Yields R (ofOutcome o >>= f) s Q := by
  cases o with
  | error e => exact yields_throw_bind hR e f
  | ok a => exact hf a rfl

theorem Yields.bind {x : Resolve α} {f : α → Resolve β} (hx : Yields R x s P)
    (hf : ∀ a s', R true s s' → P s' a → Yields R (f a) s' Q) : Yields R (x >>= f) s Q := by
  refine Ends.bind hx ?_ ?_
  · rintro e s' ⟨h, -⟩
    exact ⟨h, by simp⟩
  · rintro a s₁ ⟨h, ha⟩ r s' hrun
    obtain ⟨h', hb⟩ := hf a s₁ h (ha a rfl) r s' hrun
    exact ⟨hR.trans h h', hb⟩

omit hR in
theorem Yields.mapError {f : GenerateError → GenerateError} {x : Resolve α}
    (hx : Yields R x s P) : Yields R (mapError f x) s P := by
  intro r s' hrun
  rw [Resolve.mapError, runFrom_bind, runFrom_outcome] at hrun
  cases hrun' : x.runFrom s with
  | none => simp [hrun'] at hrun
  | some out =>
    obtain ⟨o, s₁⟩ := out
    obtain ⟨h, ha⟩ := hx o s₁ hrun'
    rw [hrun'] at hrun
    cases o with
    | ok a =>
      obtain ⟨rfl, rfl⟩ : .ok a = r ∧ s₁ = s' := by simpa using hrun
      exact ⟨h, ha⟩
    | error e =>
      obtain ⟨rfl, rfl⟩ : .error (f e) = r ∧ s₁ = s' := by simpa using hrun
      exact ⟨h, by simp⟩

end Yields
end DecoratedApi.Resolve
