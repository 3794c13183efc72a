import DecoratedApi.Proofs.Session
import DecoratedApi.Proofs.Depth
import DecoratedApi.Proofs.Parts

/-!
# What an answer depends on

The type in an answer does not depend on what was resolved before, and a call that is made again
changes nothing. The format hints of a place choose among number types and among date types, and
have no other effect: not on what is put into the table, and not on whether the call fails.
-/

namespace DecoratedApi

open Resolve

namespace Resolver

/-! ## Repeated calls -/

theorem resolve_ready {p : Program} {depth : Nat} {node : TypeNode} {ctx : ResolveContext}
    {s s' u : ResolverState} {t : ApiType}
    (h : (resolve p depth node ctx).runFrom s = some (.ok t, s')) (hknown : Known u t)
    (hready : ∀ name, t.mentioned? = some name → u.table.isPending name = false) :
    (resolve p depth node ctx).runFrom u = some (.ok t, u) := by
  induction depth generalizing node s s' t with
  | zero => simp [resolve_zero] at h
  | succ depth ih =>
    rw [resolve_succ] at h ⊢
    cases hplan : plan p node ctx with
    | answer o =>
      rw [hplan] at h
      obtain ⟨rfl, -⟩ : o = .ok t ∧ s = s' := by simpa [Plan.run] using h
      rfl
    | same node' =>
      rw [hplan] at h
      exact ih h hknown hready
    | list node' =>
      rw [hplan] at h
      obtain ⟨element, s₁, helement, hpure⟩ := runFrom_bind_ok.mp h
      cases hpure
      exact runFrom_bind_ok.mpr ⟨element, u, ih helement hknown hready, rfl⟩
    | register d =>
      rw [hplan] at h
      obtain rfl := registered_answer h
      have hname : u.table.contains d.name = true := hknown d.name rfl
      rw [Plan.run, registered_run, if_pos hname]
    | define key b =>
      rw [hplan] at h
      obtain rfl := reference_answer h
      have hname : u.table.contains key = true := hknown key rfl
      have hpending := hready key rfl
      rw [Plan.run, reference_known hname, hpending]
      rfl

end Resolver

open Resolver

/-- Two calls for one node at one place give the same type, in whatever states they are made. Where
nothing is being built, a call that has succeeded gives its answer again and changes nothing. -/
theorem answers_ignore_history (p : Program) (node : TypeNode) (ctx : ResolveContext) :
    (∀ depth depth' s s' u u' t t', (resolve p depth node ctx).runFrom s = some (.ok t, s') →
      (resolve p depth' node ctx).runFrom u = some (.ok t', u') → t = t') ∧
    ∀ depth s s' t, (∀ name, s.table.isPending name = false) →
      (resolve p depth node ctx).runFrom s = some (.ok t, s') →
      ∀ depth' ≥ depth, (resolve p depth' node ctx).runFrom s' = some (.ok t, s') := by
  constructor
  · intro depth depth' s s' u u' t t' h h'
    exact resolve_answer_unique h h'
  · intro depth s s' t hsettled h depth' hdepth
    obtain ⟨hadv, hknown⟩ := resolve_advances p depth node ctx s _ _ h
    have hready : ∀ name, s'.table.isPending name = false := by
      intro name
      by_contra hpending
      have hold := hadv.settled rfl name (by simpa using hpending)
      rw [hsettled name] at hold
      cases hold
    have hagain := resolve_ready h (hknown t rfl) fun name _ => hready name
    exact resolve_below p hdepth node ctx s' _ hagain

theorem trees_leaf_again :
    ∃ s s' t t',
      (resolve .trees 20 (.named "Leaf") {}).runFrom {} = some (.ok t, s) ∧
      (resolve .trees 30 (.named "Leaf") {}).runFrom (.opened {} "Node") = some (.ok t', s') ∧
      t = t' ∧ s.deferred ≠ [] ∧
      (resolve .trees 20 (.named "Leaf") {}).runFrom s = some (.ok t, s) := by
  obtain ⟨s, hfresh, hqueued⟩ : ∃ s,
      (resolve .trees 20 (.named "Leaf") {}).runFrom {} = some (.ok (.refObject "Leaf"), s) ∧
      s.deferred ≠ [] := ⟨_, rfl, by decide⟩
  obtain ⟨s', hwithin⟩ : ∃ s', (resolve .trees 30 (.named "Leaf") {}).runFrom (.opened {} "Node") =
      some (.ok (.refObject "Leaf"), s') := ⟨_, rfl⟩
  obtain ⟨hsame, hagain⟩ := answers_ignore_history .trees (.named "Leaf") {}
  exact ⟨s, s', _, _, hfresh, hwithin, hsame _ _ _ _ _ _ _ _ hfresh hwithin, hqueued,
    hagain 20 {} s _ isPending_fresh hfresh 20 (Nat.le_refl 20)⟩

/-! ## Hints -/

/-- The type without its format: all number types are one, and both date types are. -/
def ApiType.formatless : ApiType → ApiType
  | double | float | integer | long => double
  | date | datetime => datetime
  | array element => array element.formatless
  | t => t

/-- Whether the type is a named enum, or an array of one at any depth. -/
def ApiType.namesEnum : ApiType → Bool
  | refEnum _ => true
  | array element => element.namesEnum
  | _ => false

theorem ApiType.namesEnum_of_mentioned? {t : ApiType} (h : t.mentioned? = none) :
    t.namesEnum = false := by
  induction t with
  | array element ih => exact ih h
  | refEnum name => cases h
  | _ => rfl

theorem FormatHints.formatless_numberType (hints : FormatHints) :
    hints.numberType.formatless = .double := by
  unfold FormatHints.numberType
  split <;> rfl

theorem FormatHints.formatless_dateType (hints : FormatHints) :
    hints.dateType.formatless = .datetime := by
  unfold FormatHints.dateType
  split <;> rfl

namespace Resolver

variable {p : Program} {node : TypeNode} {ctx ctx' : ResolveContext}

/-- One plan, or two answers that differ in their formats only. -/
inductive Plan.Alike : Plan → Plan → Prop
  | refl (plan : Plan) : Alike plan plan
  | types {t t' : ApiType} (h : t.formatless = t'.formatless) :
      Alike (.answer (.ok t)) (.answer (.ok t'))

/-- Two calls end in one state, both with the same error or with types that differ in their formats
only; or neither gives an answer. -/
inductive Alike : Option (Outcome ApiType × ResolverState) →
    Option (Outcome ApiType × ResolverState) → Prop
  | unanswered : Alike none none
  | failed (e : GenerateError) (s : ResolverState) : Alike (some (.error e, s)) (some (.error e, s))
  | answered {t t' : ApiType} (h : t.formatless = t'.formatless) (s : ResolverState) :
      Alike (some (.ok t, s)) (some (.ok t', s))

theorem Alike.refl (out : Option (Outcome ApiType × ResolverState)) : Alike out out :=
  match out with
  | none => .unanswered
  | some (.error e, s) => .failed e s
  | some (.ok _, s) => .answered rfl s

theorem Alike.array {x y : Resolve ApiType} {s : ResolverState}
    (h : Alike (x.runFrom s) (y.runFrom s)) :
    Alike ((do let t ← x; pure (.array t) : Resolve ApiType).runFrom s)
      ((do let t ← y; pure (.array t) : Resolve ApiType).runFrom s) := by
  rw [runFrom_bind, runFrom_bind]
  generalize x.runFrom s = out, y.runFrom s = out' at h
  cases h with
  | unanswered => exact .unanswered
  | failed e s' => exact .failed e s'
  | @answered t t' ht s' =>
    have harray : (ApiType.array t).formatless = (ApiType.array t').formatless := by
      simp only [ApiType.formatless, ht]
    exact .answered harray s'

theorem keyword_alike (k : Keyword) :
    Plan.Alike (.answer (keywordType k ctx)) (.answer (keywordType k ctx')) := by
  cases k with
  | number =>
    refine .types ?_
    rw [FormatHints.formatless_numberType, FormatHints.formatless_numberType]
  | _ => exact .refl _

theorem ofDeclaration_alike (h : ctx.extractEnum = ctx'.extractEnum) (arguments : List TypeNode)
    (d : Declaration) :
    Plan.Alike (.ofDeclaration arguments ctx d) (.ofDeclaration arguments ctx' d) := by
  cases d with
  | ofEnum decl =>
    simp only [Plan.ofDeclaration, h]
    exact .refl _
  | _ => exact .refl _

theorem builtin?_alike (ctx ctx' : ResolveContext) (name : String) (arguments : List TypeNode) :
    builtin? name arguments ctx = builtin? name arguments ctx' ∨
      ∃ t t', builtin? name arguments ctx = some (.known t) ∧
        builtin? name arguments ctx' = some (.known t') ∧ t.formatless = t'.formatless := by
  unfold builtin?
  split
  case h_2 =>
    refine .inr ⟨_, _, rfl, rfl, ?_⟩
    rw [FormatHints.formatless_numberType, FormatHints.formatless_numberType]
  case h_4 =>
    refine .inr ⟨_, _, rfl, rfl, ?_⟩
    rw [FormatHints.formatless_dateType, FormatHints.formatless_dateType]
  all_goals exact .inl rfl

theorem ofName_alike (h : ctx.extractEnum = ctx'.extractEnum) (name : String)
    (arguments : List TypeNode) :
    Plan.Alike (.ofName p name arguments ctx) (.ofName p name arguments ctx') := by
  unfold Plan.ofName
  obtain heq | ⟨t, t', ht, ht', hformat⟩ := builtin?_alike ctx ctx' name arguments
  · rw [← heq]
    cases builtin? name arguments ctx with
    | some b => cases b <;> exact .refl _
    | none =>
      cases declarationOf p name with
      | error e => exact .refl _
      | ok d => exact ofDeclaration_alike h arguments d
  · rw [ht, ht']
    exact .types hformat

theorem plan_alike (p : Program) (node : TypeNode) (h : ctx.extractEnum = ctx'.extractEnum) :
    Plan.Alike (plan p node ctx) (plan p node ctx') := by
  cases node with
  | keyword k => exact keyword_alike k
  | literal l =>
    simp only [plan, h]
    exact .refl _
  | reference name arguments => exact ofName_alike h name arguments
  | _ => exact .refl _

theorem resolve_alike (p : Program) (depth : Nat) (node : TypeNode) (s : ResolverState)
    (h : ctx.extractEnum = ctx'.extractEnum) :
    Alike ((resolve p depth node ctx).runFrom s) ((resolve p depth node ctx').runFrom s) := by
  induction depth generalizing node with
  | zero => exact .unanswered
  | succ depth ih =>
    rw [resolve_succ, resolve_succ]
    have hplan := plan_alike p node h
    generalize plan p node ctx = pl, plan p node ctx' = pl' at hplan
    cases hplan with
    | types ht => exact .answered ht s
    | refl =>
      cases pl with
      | same node' => exact ih node'
      | list node' => exact (ih node').array
      | answer o => exact .refl _
      | register d => exact .refl _
      | define key b => exact .refl _

theorem plan_ne_register (hctx : ctx.extractEnum = false) (e : EnumDefinition) :
    plan p node ctx ≠ .register e := by
  intro h
  obtain ⟨o, ho⟩ | ⟨part, -, hpart | hpart⟩ | ⟨name, arguments, d, -, -, hd⟩ :=
    plan_cases p node ctx
  · simp [ho] at h
  · simp [hpart] at h
  · simp [hpart] at h
  · rw [hd] at h
    obtain ⟨o, ho⟩ | ⟨e', -, henum⟩ | ⟨key, b, hb⟩ | ⟨a, i, -, -, -, ha⟩ :=
      ofDeclaration_cases arguments ctx d
    · simp [ho] at h
    · simp [hctx] at henum
    · simp [hb] at h
    · simp [ha] at h

theorem resolve_namesEnum {depth : Nat} {s s' : ResolverState} {t : ApiType}
    (hctx : ctx.extractEnum = false)
    (h : (resolve p depth node ctx).runFrom s = some (.ok t, s')) : t.namesEnum = false := by
  induction depth generalizing node s s' t with
  | zero => simp [resolve_zero] at h
  | succ depth ih =>
    rw [resolve_succ] at h
    cases hplan : plan p node ctx with
    | answer o =>
      rw [hplan] at h
      obtain ⟨rfl, -⟩ : o = .ok t ∧ s = s' := by simpa [Plan.run] using h
      exact ApiType.namesEnum_of_mentioned? (plan_mentioned? hplan)
    | same node' =>
      rw [hplan] at h
      exact ih h
    | list node' =>
      rw [hplan] at h
      obtain ⟨element, s₁, helement, hpure⟩ := runFrom_bind_ok.mp h
      cases hpure
      rw [ApiType.namesEnum]
      exact ih helement
    | register d => exact absurd hplan (plan_ne_register hctx d)
    | define key b =>
      rw [hplan] at h
      rw [reference_answer h]
      rfl

end Resolver

/-- Two places that differ in their hints, and treat enums alike, have the same effect: the call
fails in both with the same error, or gives in both a type that is the same but for its format, and
leaves the same state. Where enums are written out, the type has none by name. -/
theorem hints_stay_local (p : Program) (depth : Nat) (node : TypeNode) (s : ResolverState)
    (ctx ctx' : ResolveContext) (h : ctx.extractEnum = ctx'.extractEnum) :
    Alike ((resolve p depth node ctx).runFrom s) ((resolve p depth node ctx').runFrom s) ∧
    (ctx.extractEnum = false → ∀ t s', (resolve p depth node ctx).runFrom s = some (.ok t, s') →
      t.namesEnum = false) :=
  ⟨resolve_alike p depth node s h, fun hctx _ _ hrun => resolve_namesEnum hctx hrun⟩

theorem trees_numbers_in_any_format :
    ∃ s s' t,
      (resolve .trees 20 (.reference "Promise" [.array (.keyword .number)])
        { hints := { number := some .int } }).runFrom {} = some (.ok (.array .integer), s) ∧
      (resolve .trees 20 (.reference "Promise" [.array (.keyword .number)]) {}).runFrom {} =
        some (.ok (.array .double), s') ∧
      Alike (some (.ok (.array .integer), s)) (some (.ok (.array .double), s')) ∧
      (resolve .trees 20 (.array (.named "State")) { extractEnum := false }).runFrom {} =
        some (.ok t, {}) ∧
      t.namesEnum = false := by
  obtain ⟨s, hinted⟩ : ∃ s, (resolve .trees 20 (.reference "Promise" [.array (.keyword .number)])
      { hints := { number := some .int } }).runFrom {} = some (.ok (.array .integer), s) := ⟨_, rfl⟩
  obtain ⟨s', hplain⟩ : ∃ s', (resolve .trees 20 (.reference "Promise" [.array (.keyword .number)])
      {}).runFrom {} = some (.ok (.array .double), s') := ⟨_, rfl⟩
  obtain ⟨t, hstates⟩ : ∃ t, (resolve .trees 20 (.array (.named "State"))
      { extractEnum := false }).runFrom {} = some (.ok t, {}) := ⟨_, rfl⟩
  have halike := (hints_stay_local .trees 20 (.reference "Promise" [.array (.keyword .number)]) {}
    { hints := { number := some .int } } {} rfl).1
  rw [hinted, hplain] at halike
  have henum := (hints_stay_local .trees 20 (.array (.named "State")) {} { extractEnum := false }
    { extractEnum := false } rfl).2 rfl t {} hstates
  exact ⟨s, s', t, hinted, hplain, halike, hstates, henum⟩

end DecoratedApi
