import DecoratedApi.Proofs.Steps

/-!
# Depth, and what the answer depends on

An answer that is given at some depth is given, with the same state, at every greater depth. The type
in an answer depends neither on the depth nor on the state.
-/

namespace DecoratedApi

namespace Resolve

variable {α β : Type}

/-- Wherever `x` ends, `y` ends in the same way. -/
def Below (x y : Resolve α) : Prop := ∀ s out, x.runFrom s = some out → y.runFrom s = some out

theorem Below.refl (x : Resolve α) : Below x x := fun _ _ h => h

theorem Below.bind {x y : Resolve α} {f g : α → Resolve β} (hx : Below x y)
    (hf : ∀ a, Below (f a) (g a)) : Below (x >>= f) (y >>= g) := by
  intro s out h
  rw [runFrom_bind] at h ⊢
  cases hrun : x.runFrom s with
  | none => simp [hrun] at h
  | some first =>
    obtain ⟨r, s'⟩ := first
    rw [hx s _ hrun]
    rw [hrun] at h
    cases r with
    | error e => exact h
    | ok a => exact hf a s' out h

end Resolve

namespace Resolver

open Resolve

/-- Wherever a call ends for `self`, it ends in the same way for `self'`. -/
def Recursor.Below (self self' : Recursor) : Prop :=
  ∀ node ctx, Resolve.Below (self node ctx) (self' node ctx)

section Below

variable {self self' : Recursor} (h : self.Below self')

include h

theorem property_below (flag : Bool) (p : PropertyDecl) :
    Below (property self flag p) (property self' flag p) :=
  (h _ _).bind fun _ => .refl _

theorem properties_below (flag : Bool) (ps : List PropertyDecl) :
    Below (properties self flag ps) (properties self' flag ps) := by
  induction ps with
  | nil => exact .refl _
  | cons p rest ih => exact (property_below h flag p).bind fun _ => ih.bind fun _ => .refl _

theorem additional_below (index : Option TypeNode) :
    Below (additional self index) (additional self' index) := by
  cases index with
  | none => exact .refl _
  | some node => exact (h node {}).bind fun _ => .refl _

theorem inheritAll_below (d : ObjectDefinition) (bases : List TypeNode) :
    Below (inheritAll self d bases) (inheritAll self' d bases) := by
  induction bases generalizing d with
  | nil => exact .refl _
  | cons base rest ih =>
    have hone : Below (inheritOne self d base) (inheritOne self' d base) := by
      rw [inheritOne_eq, inheritOne_eq]
      exact (h base {}).bind fun _ => .refl _
    exact hone.bind fun d' => ih d'

theorem build_below (b : Blueprint) (name : String) :
    Below (b.build self name) (b.build self' name) :=
  (properties_below h _ _).bind fun _ =>
    (additional_below h _).bind fun _ => inheritAll_below h _ _

theorem reference_below (b : Blueprint) (key : String) :
    Below (reference key (b.build self)) (reference key (b.build self')) := by
  intro s out hrun
  cases hkey : s.table.contains key with
  | true =>
    rw [reference_known hkey] at hrun ⊢
    exact hrun
  | false =>
    rw [reference_new hkey] at hrun ⊢
    cases hbuild : (b.build self key).runFrom (s.opened key) with
    | none => simp [hbuild] at hrun
    | some built =>
      rw [build_below h b key _ _ hbuild]
      rw [hbuild] at hrun
      exact hrun

theorem run_below (ctx : ResolveContext) (plan : Plan) :
    Below (plan.run self ctx) (plan.run self' ctx) := by
  cases plan with
  | answer o => exact .refl _
  | same node => exact h node ctx
  | list node => exact (h node ctx).bind fun _ => .refl _
  | register d => exact .refl _
  | define key b => exact reference_below h b key

end Below

theorem resolve_below_succ (p : Program) (depth : Nat) :
    (resolve p depth).Below (resolve p (depth + 1)) := by
  induction depth with
  | zero =>
    intro node ctx s out hrun
    simp [resolve_zero] at hrun
  | succ depth ih =>
    intro node ctx
    rw [resolve_succ, resolve_succ]
    exact run_below ih ctx _

/-- More depth keeps every answer. -/
theorem resolve_below (p : Program) {depth depth' : Nat} (h : depth ≤ depth') :
    (resolve p depth).Below (resolve p depth') := by
  induction h with
  | refl => exact fun node ctx => .refl _
  | step _ ih =>
    intro node ctx s out hrun
    exact resolve_below_succ p _ node ctx s out (ih node ctx s out hrun)

/-! ## How a call ends -/

section Ends

variable {p : Program} {node node' : TypeNode} {ctx : ResolveContext} {s : ResolverState}
  {out out' : Outcome ApiType × ResolverState}

/-- At depths that suffice, the call ends with this outcome and leaves this state. -/
def EndsWith (p : Program) (node : TypeNode) (ctx : ResolveContext) (s : ResolverState)
    (out : Outcome ApiType × ResolverState) : Prop :=
  ∃ depth, (resolve p depth node ctx).runFrom s = some out

theorem EndsWith.unique (h : EndsWith p node ctx s out) (h' : EndsWith p node ctx s out') :
    out = out' := by
  obtain ⟨depth, hrun⟩ := h
  obtain ⟨depth', hrun'⟩ := h'
  have hmax := resolve_below p (Nat.le_max_left depth depth') node ctx s _ hrun
  have hmax' := resolve_below p (Nat.le_max_right depth depth') node ctx s _ hrun'
  exact Option.some.inj (hmax.symm.trans hmax')

theorem endsWith_succ :
    EndsWith p node ctx s out ↔
      ∃ depth, ((plan p node ctx).run (resolve p depth) ctx).runFrom s = some out := by
  constructor
  · rintro ⟨depth, hrun⟩
    cases depth with
    | zero => cases hrun
    | succ depth => exact ⟨depth, by rwa [resolve_succ] at hrun⟩
  · rintro ⟨depth, hrun⟩
    exact ⟨depth + 1, by rwa [resolve_succ]⟩

theorem endsWith_same (h : plan p node ctx = .same node') :
    EndsWith p node ctx s out ↔ EndsWith p node' ctx s out := by
  rw [endsWith_succ, h]
  rfl

theorem endsWith_answer {o : Outcome ApiType} (h : plan p node ctx = .answer o) :
    EndsWith p node ctx s out ↔ out = (o, s) := by
  rw [endsWith_succ, h]
  simp [Plan.run, eq_comm]

end Ends

/-! ## The type of an answer -/

theorem reference_answer {key : String} {build : String → Resolve ObjectDefinition}
    {s s' : ResolverState} {t : ApiType}
    (h : (reference key build).runFrom s = some (.ok t, s')) : t = .refObject key := by
  cases hkey : s.table.contains key with
  | true =>
    rw [reference_known hkey] at h
    cases h
    rfl
  | false =>
    rw [reference_new hkey] at h
    split at h <;> cases h
    rfl

theorem registered_answer {d : EnumDefinition} {s s' : ResolverState} {t : ApiType}
    (h : (Plan.registered d).runFrom s = some (.ok t, s')) : t = .refEnum d.name := by
  rw [registered_run] at h
  cases h
  rfl

theorem resolve_answer_unique {p : Program} {depth depth' : Nat} {node : TypeNode}
    {ctx : ResolveContext} {s s' u u' : ResolverState} {t t' : ApiType}
    (h : (resolve p depth node ctx).runFrom s = some (.ok t, s'))
    (h' : (resolve p depth' node ctx).runFrom u = some (.ok t', u')) : t = t' := by
  induction depth generalizing depth' node s s' u u' t t' with
  | zero => simp [resolve_zero] at h
  | succ depth ih =>
    cases depth' with
    | zero => simp [resolve_zero] at h'
    | succ depth' =>
      rw [resolve_succ] at h h'
      cases hplan : plan p node ctx with
      | answer o =>
        rw [hplan] at h h'
        simp only [Plan.run, runFrom_ofOutcome, Option.some.injEq, Prod.mk.injEq] at h h'
        exact Except.ok.inj (h.1.symm.trans h'.1)
      | same node' =>
        rw [hplan] at h h'
        exact ih h h'
      | list node' =>
        rw [hplan] at h h'
        obtain ⟨a, s₁, ha, hpure⟩ := runFrom_bind_ok.mp h
        obtain ⟨a', u₁, ha', hpure'⟩ := runFrom_bind_ok.mp h'
        cases hpure
        cases hpure'
        rw [ih ha ha']
      | register d =>
        rw [hplan] at h h'
        rw [registered_answer h, registered_answer h']
      | define key b =>
        -- Whether the definition is built or found, the answer is its key.
        rw [hplan] at h h'
        rw [reference_answer h, reference_answer h']

end Resolver
end DecoratedApi
