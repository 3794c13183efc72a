import DecoratedApi.Proofs.Calls
import DecoratedApi.Proofs.Session

/-!
# The states that a run passes through

A call changes the state step by step, and so do the calls within it. `trace` lists the states after
each change, in order, also those in the middle of a definition, those before a failure, and those
of a call that gives no answer. Every state follows from the one before by one of the six changes,
and the last one is the state in which the call ends. So what each change keeps holds of every state
that a resolver can be in.
-/

namespace DecoratedApi

open Resolve

/-! ## Changes -/

namespace ResolverState

/-- One change of the state, with what holds when the resolver makes it. -/
inductive Change : ResolverState → ResolverState → Prop
  | opened {s : ResolverState} {name : String} (h : s.table.contains name = false) :
      Change s (s.opened name)
  | closed {s : ResolverState} {d : ObjectDefinition} (h : s.table.slot? d.name = some .pending)
      (hd : Resolver.KnownDefinition s d) : Change s (s.closed d)
  | abandoned {s : ResolverState} : Change s s.abandoned
  | linked {s : ResolverState} {name : String} (h : s.table.contains name = true) :
      Change s (s.linked name)
  | postponed {s : ResolverState} {target base : String}
      (h : s.table.slot? target = some .pending) (hbase : s.table.HoldsObject base) :
      Change s (s.postponed target base)
  | enrolled {s : ResolverState} {e : EnumDefinition} (h : s.table.contains e.name = false) :
      Change s (s.enrolled e)

variable {s s' s'' : ResolverState} {l l' : List ResolverState}

theorem Change.wellFormed (h : Change s s') (hs : s.WellFormed) : s'.WellFormed := by
  cases h with
  | opened h => exact hs.opened h
  | closed h hd => exact hs.closed hd
  | abandoned => exact hs.abandoned
  | linked h => exact hs.linked h
  | postponed h hbase => exact hs.postponed (.inl h) hbase
  | enrolled h => exact hs.enrolled h

theorem Change.keeps (h : Change s s') : s.Keeps s' := by
  cases h with
  | opened h => exact (Grows.opened h).keeps
  | closed h hd => exact .closed h
  | abandoned => exact (Grows.refl s).abandoned.keeps
  | linked h => exact ((Grows.refl s).linked _).keeps
  | postponed h hbase => exact .postponed h _
  | @enrolled e h => exact ((Grows.refl s).filled (d := .enum e) h).keeps

/-- The states lead from the first state to the last one, by one change each. -/
inductive Path : ResolverState → List ResolverState → ResolverState → Prop
  | nil {s : ResolverState} : Path s [] s
  | cons {s s₁ s' : ResolverState} {l : List ResolverState} (h : Change s s₁)
      (hrest : Path s₁ l s') : Path s (s₁ :: l) s'

namespace Path

theorem append (h : Path s l s') (h' : Path s' l' s'') : Path s (l ++ l') s'' := by
  induction h with
  | nil => exact h'
  | cons h _ ih => exact .cons h (ih h')

theorem invariant {I : ResolverState → Prop} (hI : ∀ u u', Change u u' → I u → I u')
    (h : Path s l s') (hs : I s) : ∀ u ∈ s :: l, I u := by
  induction h with
  | nil => simpa using hs
  | cons hchange _ ih =>
    intro u hu
    rcases List.mem_cons.mp hu with rfl | hu
    · exact hs
    · exact ih (hI _ _ hchange hs) u hu

theorem mem_last (h : Path s l s') : s' ∈ s :: l := by
  induction h with
  | nil => exact List.mem_cons_self
  | cons _ _ ih => exact List.mem_cons_of_mem _ ih

theorem pairwise {R : ResolverState → ResolverState → Prop} (hrefl : ∀ u, R u u)
    (htrans : ∀ u v w, R u v → R v w → R u w) (hR : ∀ u u', Change u u' → R u u')
    (h : Path s l s') : (s :: l).Pairwise R ∧ ∀ u ∈ s :: l, R u s' := by
  induction h with
  | nil => simp [hrefl]
  | @cons s s₁ s' l hchange _ ih =>
    obtain ⟨hlater, hlast⟩ := ih
    have hfirst : ∀ u ∈ s₁ :: l, R s u := by
      intro u hu
      rcases List.mem_cons.mp hu with rfl | hu
      · exact hR _ _ hchange
      · exact htrans _ _ _ (hR _ _ hchange) (List.rel_of_pairwise_cons hlater hu)
    refine ⟨List.pairwise_cons.mpr ⟨hfirst, hlater⟩, ?_⟩
    intro u hu
    rcases List.mem_cons.mp hu with rfl | hu
    · exact htrans _ _ _ (hR _ _ hchange) (hlast s₁ List.mem_cons_self)
    · exact hlast u hu

end Path
end ResolverState

open ResolverState

namespace Resolve

variable {α β : Type}

/-- The list for what comes next, when the computation ends well. -/
def onward (x : Resolve α) (s : ResolverState)
    (next : α → ResolverState → List ResolverState) : List ResolverState :=
  match x.runFrom s with
  | some (.ok a, s') => next a s'
  | _ => []

theorem onward_of_ok {x : Resolve α} {s s' : ResolverState} {a : α}
    {next : α → ResolverState → List ResolverState} (h : x.runFrom s = some (.ok a, s')) :
    x.onward s next = next a s' := by
  rw [onward, h]

/-- The list leads through the computation: from the state in which it starts, and to the state in
which it ends if it does. -/
def Follows (x : Resolve α) (s : ResolverState) (l : List ResolverState) : Prop :=
  s.WellFormed → ∃ s', Path s l s' ∧ ∀ r u, x.runFrom s = some (r, u) → u = s'

theorem follows_of_runFrom {x : Resolve α} {s u : ResolverState} {l : List ResolverState}
    {r : Outcome α} (h : x.runFrom s = some (r, u)) (hpath : s.WellFormed → Path s l u) :
    x.Follows s l := by
  intro hs
  refine ⟨u, hpath hs, fun r' u' h' => ?_⟩
  rw [h] at h'
  cases h'
  rfl

/-- The computation leaves the state as it is. -/
def Still (x : Resolve α) : Prop := ∀ s r u, x.runFrom s = some (r, u) → u = s

theorem still_ofOutcome (o : Outcome α) : (ofOutcome o).Still := by
  rintro s r u ⟨⟩
  rfl

theorem still_pure (a : α) : (pure a : Resolve α).Still := still_ofOutcome (.ok a)

theorem still_ofOutcome_bind {o : Outcome α} {f : α → Resolve β} (hf : ∀ a, (f a).Still) :
    (ofOutcome o >>= f).Still := by
  cases o with
  | error e => exact still_ofOutcome (.error e)
  | ok a => exact hf a

theorem Still.follows {x : Resolve α} (h : x.Still) (s : ResolverState) : x.Follows s [] :=
  fun _ => ⟨s, .nil, h s⟩

theorem Follows.bind {x : Resolve α} {f : α → Resolve β} {s : ResolverState}
    {l : List ResolverState} {next : α → ResolverState → List ResolverState} (hx : x.Follows s l)
    (hf : ∀ a s', x.runFrom s = some (.ok a, s') → (f a).Follows s' (next a s')) :
    (x >>= f).Follows s (l ++ x.onward s next) := by
  intro hs
  obtain ⟨s₁, hpath, hend⟩ := hx hs
  rw [onward]
  simp only [runFrom_bind]
  cases hrun : x.runFrom s with
  | none => exact ⟨s₁, by simpa using hpath, by simp⟩
  | some out =>
    obtain ⟨r, u⟩ := out
    obtain rfl := hend r u hrun
    cases r with
    | error e =>
      refine ⟨u, by simpa using hpath, ?_⟩
      rintro r v ⟨⟩
      rfl
    | ok a =>
      have hu := hpath.invariant (fun _ _ h => h.wellFormed) hs u hpath.mem_last
      obtain ⟨s₂, hpath₂, hend₂⟩ := hf a u hrun hu
      exact ⟨s₂, hpath.append hpath₂, hend₂⟩

theorem Follows.mem {x : Resolve α} {s u : ResolverState} {l : List ResolverState}
    {r : Outcome α} (hx : x.Follows s l) (hs : s.WellFormed) (h : x.runFrom s = some (r, u)) :
    u ∈ s :: l := by
  obtain ⟨s', hpath, hend⟩ := hx hs
  obtain rfl := hend r u h
  exact hpath.mem_last

theorem Follows.bind_still {x : Resolve α} {f : α → Resolve β} {s : ResolverState}
    {l : List ResolverState} (hx : x.Follows s l) (hf : ∀ a, (f a).Still) :
    (x >>= f).Follows s l := by
  have h : (x >>= f).Follows s (l ++ x.onward s fun _ _ => []) :=
    hx.bind fun a s' _ => (hf a).follows s'
  have hnone : x.onward s (fun _ _ => []) = [] := by
    unfold onward
    split <;> rfl
  simpa [hnone] using h

end Resolve

namespace Resolver

/-! ## Traces -/

/-- How the states of a call are listed at some depth. -/
abbrev Tracer := TypeNode → ResolveContext → ResolverState → List ResolverState

section Trace

variable (self : Recursor) (tracer : Tracer)

/-- The states that follow while the members are resolved; those of the other parts are listed in
the same way. -/
def propertiesTrace (flag : Bool) : List PropertyDecl → ResolverState → List ResolverState
  | [], _ => []
  | m :: rest, s =>
    tracer (propertyNode m) { hints := .ofDoc m.doc } s ++
      (property self flag m).onward s fun _ s' => propertiesTrace flag rest s'

def additionalTrace : Option TypeNode → ResolverState → List ResolverState
  | none, _ => []
  | some node, s => tracer node {} s

def takeOverTrace (d : ObjectDefinition) (t : ApiType) (s : ResolverState) : List ResolverState :=
  match t with
  | .refObject name => if s.table.isComplete name then [] else [s.postponed d.name name]
  | _ => []

def inheritOneTrace (d : ObjectDefinition) (base : TypeNode) (s : ResolverState) :
    List ResolverState :=
  tracer base {} s ++ (self base {}).onward s (takeOverTrace d)

def inheritAllTrace : ObjectDefinition → List TypeNode → ResolverState → List ResolverState
  | _, [], _ => []
  | d, base :: rest, s =>
    inheritOneTrace self tracer d base s ++
      (inheritOne self d base).onward s fun d' s' => inheritAllTrace d' rest s'

/-- The members are resolved first, then the index, then the bases in turn. -/
def Blueprint.trace (b : Blueprint) (key : String) (s : ResolverState) : List ResolverState :=
  propertiesTrace self tracer b.initializedIsOptional b.members s ++
    (properties self b.initializedIsOptional b.members).onward s fun ps s₁ =>
      additionalTrace tracer b.index s₁ ++ (additional self b.index).onward s₁ fun extra s₂ =>
        inheritAllTrace self tracer (b.own key ps extra) b.bases s₂

/-- The last state of building a definition, which is closed or abandoned. -/
def Blueprint.ending (b : Blueprint) (key : String) (s : ResolverState) : List ResolverState :=
  match (b.build self key).runFrom s with
  | none => []
  | some (.ok d, u) => [u.closed d]
  | some (.error _, u) => [u.abandoned]

def Plan.trace (ctx : ResolveContext) : Plan → ResolverState → List ResolverState
  | answer _, _ => []
  | same node, s => tracer node ctx s
  | list node, s => tracer node ctx s
  | register d, s => if s.table.contains d.name then [] else [s.enrolled d]
  | define key b, s =>
    if s.table.contains key then
      if s.table.isPending key then [s.linked key] else []
    else
      s.opened key :: (b.trace self tracer key (s.opened key) ++ b.ending self key (s.opened key))

end Trace

/-- The states through which a call passes, after the one in which it starts. -/
def trace (p : Program) : (depth : Nat) → Tracer
  | 0, _, _, _ => []
  | depth + 1, node, ctx, s => (plan p node ctx).trace (resolve p depth) (trace p depth) ctx s

/-! ## Traces lead through calls -/

section Follows

variable {self : Recursor} {tracer : Tracer}
variable (htracer : ∀ node ctx s, (self node ctx).Follows s (tracer node ctx s))

include htracer in
theorem property_follows (flag : Bool) (m : PropertyDecl) (s : ResolverState) :
    (property self flag m).Follows s (tracer (propertyNode m) { hints := .ofDoc m.doc } s) := by
  refine (htracer _ _ s).bind_still fun type => ?_
  exact still_ofOutcome_bind fun validators => still_pure _

include htracer in
theorem properties_follows (flag : Bool) (ms : List PropertyDecl) (s : ResolverState) :
    (properties self flag ms).Follows s (propertiesTrace self tracer flag ms s) := by
  induction ms generalizing s with
  | nil => exact (still_pure []).follows s
  | cons m rest ih =>
    refine (property_follows htracer flag m s).bind fun q s' _ => ?_
    exact (ih s').bind_still fun qs => still_pure (q :: qs)

include htracer in
theorem additional_follows (index : Option TypeNode) (s : ResolverState) :
    (additional self index).Follows s (additionalTrace tracer index s) := by
  cases index with
  | none => exact (still_pure none).follows s
  | some node => exact (htracer node {} s).bind_still fun t => still_pure (some t)

theorem takeOver_follows {d : ObjectDefinition} {t : ApiType} {s : ResolverState}
    (hslot : s.table.slot? d.name = some .pending) (ht : Known s t) :
    (takeOver d t).Follows s (takeOverTrace d t s) := by
  cases t with
  | refObject name =>
    rw [takeOverTrace]
    cases hcomplete : s.table.isComplete name with
    | true => exact follows_of_runFrom (takeOver_complete hcomplete) fun _ => .nil
    | false =>
      refine follows_of_runFrom (takeOver_incomplete hcomplete) fun hs => ?_
      have hbase := ReferenceTable.holdsObject_of_incomplete (hs.waiting name) (ht name rfl) hcomplete
      exact .cons (.postponed hslot hbase) .nil
  | _ => exact (still_ofOutcome (.error _)).follows s

variable (hself : self.Meets Advances Known)

include htracer hself

theorem inheritOne_follows {d : ObjectDefinition} (base : TypeNode) {s : ResolverState}
    (hslot : s.table.slot? d.name = some .pending) :
    (inheritOne self d base).Follows s (inheritOneTrace self tracer d base s) := by
  rw [inheritOne_eq]
  refine (htracer base {} s).bind fun t s' hrun => ?_
  obtain ⟨hadv, ht⟩ := hself base {} s _ _ hrun
  exact takeOver_follows (hadv.grows.slot?_eq_some hslot) (ht t rfl)

theorem inheritAll_follows {d : ObjectDefinition} (bases : List TypeNode) {s : ResolverState}
    (hslot : s.table.slot? d.name = some .pending) :
    (inheritAll self d bases).Follows s (inheritAllTrace self tracer d bases s) := by
  induction bases generalizing d s with
  | nil => exact (still_pure d).follows s
  | cons base rest ih =>
    refine (inheritOne_follows htracer hself base hslot).bind fun d' s' hrun => ?_
    obtain ⟨_, _, -, -, -, hslot', hname, -⟩ := inheritOne_takesOver hself hslot hrun
    exact ih (by rw [hname]; exact hslot')

theorem build_follows (b : Blueprint) {key : String} {s : ResolverState}
    (hslot : s.table.slot? key = some .pending) :
    (b.build self key).Follows s (b.trace self tracer key s) := by
  refine (properties_follows htracer _ _ s).bind fun ps s₁ hps => ?_
  refine (additional_follows htracer _ s₁).bind fun extra s₂ hextra => ?_
  -- The placeholder is older than these calls, so they leave it alone.
  have hslot₂ := (own_advances hself hps hextra).grows.slot?_eq_some hslot
  exact inheritAll_follows htracer hself b.bases hslot₂

theorem reference_follows (b : Blueprint) (key : String) (ctx : ResolveContext)
    (s : ResolverState) :
    (reference key (b.build self)).Follows s ((Plan.define key b).trace self tracer ctx s) := by
  rw [Plan.trace]
  cases hkey : s.table.contains key with
  | true =>
    have hrun : (reference key (b.build self)).runFrom s = _ := reference_known hkey
    cases hpending : s.table.isPending key with
    | true =>
      rw [hpending] at hrun
      exact follows_of_runFrom hrun fun _ => .cons (.linked hkey) .nil
    | false =>
      rw [hpending] at hrun
      exact follows_of_runFrom hrun fun _ => .nil
  | false =>
    intro hs
    have hopened : Change s (s.opened key) := .opened hkey
    obtain ⟨s₁, hpath, hend⟩ :=
      build_follows htracer hself b (Building.opened hkey).slot (hs.opened hkey)
    rw [reference_new hkey]
    simp only [Bool.false_eq_true, if_false, Blueprint.ending]
    cases hbuild : (b.build self key).runFrom (s.opened key) with
    | none => exact ⟨s₁, by simpa using .cons hopened hpath, by simp⟩
    | some out =>
      obtain ⟨r, u⟩ := out
      obtain rfl := hend r u hbuild
      obtain ⟨hb, hd⟩ := build_building hself b hkey _ _ hbuild
      cases r with
      | error e =>
        refine ⟨u.abandoned, .cons hopened (hpath.append (.cons .abandoned .nil)), ?_⟩
        rintro r v ⟨⟩
        rfl
      | ok d =>
        obtain ⟨rfl, hknown⟩ := hd d rfl
        have hclosed : Change u (u.closed d) := .closed hb.slot (hknown hs)
        refine ⟨u.closed d, .cons hopened (hpath.append (.cons hclosed .nil)), ?_⟩
        rintro r v ⟨⟩
        rfl

theorem Plan.run_follows (pl : Plan) (ctx : ResolveContext) (s : ResolverState) :
    (pl.run self ctx).Follows s (pl.trace self tracer ctx s) := by
  cases pl with
  | answer o => exact (still_ofOutcome o).follows s
  | same node => exact htracer node ctx s
  | list node => exact (htracer node ctx s).bind_still fun t => still_pure (ApiType.array t)
  | register d =>
    have hrun := registered_run (s := s) d
    rw [Plan.trace]
    cases hname : s.table.contains d.name with
    | true =>
      rw [hname] at hrun
      exact follows_of_runFrom hrun fun _ => .nil
    | false =>
      rw [hname] at hrun
      exact follows_of_runFrom hrun fun _ => .cons (.enrolled hname) .nil
  | define key b => exact reference_follows htracer hself b key ctx s

end Follows

/-- The trace of a call leads, change by change, from the state in which it starts to the state in
which it ends. -/
theorem resolve_follows (p : Program) (depth : Nat) (node : TypeNode) (ctx : ResolveContext)
    (s : ResolverState) : (resolve p depth node ctx).Follows s (trace p depth node ctx s) := by
  induction depth generalizing node ctx s with
  | zero => exact fun _ => ⟨s, .nil, by simp [resolve_zero]⟩
  | succ depth ih =>
    rw [resolve_succ, trace]
    exact Plan.run_follows ih (resolve_advances p depth) (plan p node ctx) ctx s

/-! ## Sessions -/

/-- The states of a session, one call after the other. A failed call does not end it. -/
def sessionTrace (p : Program) (depth : Nat) :
    List (TypeNode × ResolveContext) → ResolverState → List ResolverState
  | [], _ => []
  | (node, ctx) :: rest, s =>
    trace p depth node ctx s ++
      match (resolve p depth node ctx).runFrom s with
      | none => []
      | some (_, s') => sessionTrace p depth rest s'

theorem sessionTrace_path (p : Program) (depth : Nat) (calls : List (TypeNode × ResolveContext))
    {s : ResolverState} (hs : s.WellFormed) :
    ∃ s', Path s (sessionTrace p depth calls s) s' ∧
      ∀ outcomes u, resolveAll p depth calls s = some (outcomes, u) → u = s' := by
  induction calls generalizing s with
  | nil =>
    refine ⟨s, .nil, ?_⟩
    rintro outcomes u ⟨⟩
    rfl
  | cons call rest ih =>
    obtain ⟨node, ctx⟩ := call
    obtain ⟨s₁, hpath, hend⟩ := resolve_follows p depth node ctx s hs
    rw [sessionTrace, resolveAll]
    cases hrun : (resolve p depth node ctx).runFrom s with
    | none => exact ⟨s₁, by simpa using hpath, by simp⟩
    | some out =>
      obtain ⟨r, u⟩ := out
      obtain rfl := hend r u hrun
      have hu := (resolve_advances p depth node ctx s r u hrun).1.wellFormed hs
      obtain ⟨s₂, hrest, hlast⟩ := ih hu
      refine ⟨s₂, hpath.append hrest, fun outcomes v hall => ?_⟩
      obtain ⟨⟨rs, v'⟩, hsome, heq⟩ := Option.map_eq_some_iff.mp hall
      cases heq
      exact hlast rs v hsome

/-- A resolver over the program can be in this state: at the beginning, between two calls, or in the
middle of one. -/
def Reached (p : Program) (s : ResolverState) : Prop :=
  ∃ depth calls, s ∈ {} :: sessionTrace p depth calls {}

theorem Reached.invariant {p : Program} {s : ResolverState} {I : ResolverState → Prop}
    (h : Reached p s) (hfresh : I {}) (hI : ∀ u u', Change u u' → I u → I u') : I s := by
  obtain ⟨depth, calls, hmem⟩ := h
  obtain ⟨_, hpath, -⟩ := sessionTrace_path p depth calls .fresh
  exact hpath.invariant hI hfresh s hmem

theorem Reached.wellFormed {p : Program} {s : ResolverState} (h : Reached p s) : s.WellFormed :=
  h.invariant .fresh fun _ _ hchange => hchange.wellFormed

theorem reached_of_resolveAll {p : Program} {depth : Nat}
    {calls : List (TypeNode × ResolveContext)} {outcomes : List (Outcome ApiType)}
    {s : ResolverState} (h : resolveAll p depth calls {} = some (outcomes, s)) : Reached p s := by
  obtain ⟨s', hpath, hend⟩ := sessionTrace_path p depth calls .fresh
  rw [hend outcomes s h]
  exact ⟨depth, calls, hpath.mem_last⟩

/-! ## Calls within calls -/

theorem propertiesTrace_append {self : Recursor} {tracer : Tracer} {flag : Bool}
    {before : List PropertyDecl} (after : List PropertyDecl) {ps : List Property}
    {s u : ResolverState} (h : (properties self flag before).runFrom s = some (.ok ps, u)) :
    propertiesTrace self tracer flag (before ++ after) s =
      propertiesTrace self tracer flag before s ++ propertiesTrace self tracer flag after u := by
  induction before generalizing s ps with
  | nil =>
    cases h
    rfl
  | cons m rest ih =>
    obtain ⟨q, s₁, hq, hmore⟩ := runFrom_bind_ok.mp h
    obtain ⟨qs, s₂, hqs, hpure⟩ := runFrom_bind_ok.mp hmore
    cases hpure
    simp only [List.cons_append, propertiesTrace, onward_of_ok hq, ih hqs, List.append_assoc]

theorem inheritAllTrace_append {self : Recursor} {tracer : Tracer} {before : List TypeNode}
    (after : List TypeNode) {d d' : ObjectDefinition} {s u : ResolverState}
    (h : (inheritAll self d before).runFrom s = some (.ok d', u)) :
    inheritAllTrace self tracer d (before ++ after) s =
      inheritAllTrace self tracer d before s ++ inheritAllTrace self tracer d' after u := by
  induction before generalizing s d with
  | nil =>
    cases h
    rfl
  | cons base rest ih =>
    obtain ⟨d₁, s₁, hone, hmore⟩ := runFrom_bind_ok.mp h
    simp only [List.cons_append, inheritAllTrace, onward_of_ok hone, ih hmore, List.append_assoc]

theorem Blueprint.Asks.states_subset {self : Recursor} {tracer : Tracer}
    (htracer : ∀ node ctx s, (self node ctx).Follows s (tracer node ctx s))
    (hself : self.Meets Advances Known) {b : Blueprint} {key : String} {s u : ResolverState}
    {node : TypeNode} {ctx : ResolveContext} (h : b.Asks self key s node ctx u)
    (hs : s.WellFormed) (hslot : s.table.slot? key = some .pending) :
    u :: tracer node ctx u ⊆ s :: b.trace self tracer key s := by
  cases h with
  | @member before after m ps _ hmembers hps =>
    have hmem := (properties_follows htracer _ before s).mem hs hps
    rw [Blueprint.trace, hmembers, propertiesTrace_append (m :: after) hps, propertiesTrace]
    intro v hv
    simp only [List.mem_cons, List.mem_append] at hmem hv ⊢
    grind
  | @index _ ps _ hindex hps =>
    have hmem := (properties_follows htracer _ b.members s).mem hs hps
    rw [Blueprint.trace, onward_of_ok hps, hindex, additionalTrace]
    intro v hv
    simp only [List.mem_cons, List.mem_append] at hmem hv ⊢
    grind
  | @base before after _ ps extra d s₁ s₂ _ hbases hps hextra hbefore =>
    have hadv := own_advances hself hps hextra
    have hs₁ := (properties_yields advances_invariant hself _ _ _ _ _ hps).1.wellFormed hs
    have hmem₁ := (properties_follows htracer _ b.members s).mem hs hps
    have hmem₂ := (additional_follows htracer b.index s₁).mem hs₁ hextra
    have hmem := (inheritAll_follows htracer hself before (hadv.grows.slot?_eq_some hslot)).mem
      (hadv.wellFormed hs) hbefore
    rw [Blueprint.trace, onward_of_ok hps, onward_of_ok hextra, hbases,
      inheritAllTrace_append _ hbefore, inheritAllTrace, inheritOneTrace]
    intro v hv
    simp only [List.mem_cons, List.mem_append] at hmem hmem₁ hmem₂ hv ⊢
    grind

namespace Call

variable {p : Program} {c c' : Call}

/-- The states of a call, with the one in which it starts. -/
def states (p : Program) (c : Call) : List ResolverState :=
  c.start :: trace p c.depth c.node c.ctx c.start

theorem states_wellFormed (hs : c.start.WellFormed) : ∀ u ∈ c.states p, u.WellFormed := by
  obtain ⟨_, hpath, -⟩ := resolve_follows p c.depth c.node c.ctx c.start hs
  exact hpath.invariant (fun _ _ h => h.wellFormed) hs

theorem Makes.states_subset (h : Makes p c c') (hs : c.start.WellFormed) :
    c'.states p ⊆ c.states p := by
  cases h with
  | same hplan => simp [states, trace, hplan, Plan.trace]
  | element hplan => simp [states, trace, hplan, Plan.trace]
  | @part depth node node' ctx ctx' s u key b hbegins hasks =>
    obtain ⟨hplan, hnew⟩ := hbegins
    have hsub := hasks.states_subset (resolve_follows p depth) (resolve_advances p depth)
      (hs.opened hnew) (Building.opened hnew).slot
    simp only [states, trace] at hplan hnew ⊢
    rw [hplan, Plan.trace, hnew]
    intro v hv
    have := hsub hv
    simp only [Bool.false_eq_true, if_false, List.mem_cons, List.mem_append] at this ⊢
    tauto

theorem states_subset_of_makes (h : Relation.ReflTransGen (Makes p) c c')
    (hs : c.start.WellFormed) : c'.states p ⊆ c.states p := by
  induction h with
  | refl => exact List.Subset.refl _
  | tail _ hmakes ih =>
    have hstart := states_wellFormed hs _ (ih List.mem_cons_self)
    exact List.Subset.trans (hmakes.states_subset hstart) ih

end Call

theorem start_mem_sessionTrace {p : Program} {depth : Nat}
    {before after : List (TypeNode × ResolveContext)} {node : TypeNode} {ctx : ResolveContext}
    {outcomes : List (Outcome ApiType)} {s u : ResolverState} {c : Call} (hs : s.WellFormed)
    (hbefore : resolveAll p depth before s = some (outcomes, u))
    (hc : Relation.ReflTransGen (Call.Makes p) ⟨depth, node, ctx, u⟩ c) :
    c.start ∈ s :: sessionTrace p depth (before ++ (node, ctx) :: after) s := by
  induction before generalizing s outcomes with
  | nil =>
    cases hbefore
    have hmem := Call.states_subset_of_makes hc hs List.mem_cons_self
    simp only [Call.states, List.nil_append, sessionTrace, List.mem_cons, List.mem_append] at hmem ⊢
    tauto
  | cons call rest ih =>
    obtain ⟨node', ctx'⟩ := call
    obtain ⟨r, s₁, rs, hrun, hrest, -⟩ := resolveAll_cons.mp hbefore
    have hs₁ := (resolve_advances p depth node' ctx' s r s₁ hrun).1.wellFormed hs
    have hmem₁ := (resolve_follows p depth node' ctx' s).mem hs hrun
    have hmem := ih hs₁ hrest
    simp only [List.cons_append, sessionTrace, hrun, List.mem_cons, List.mem_append] at hmem hmem₁ ⊢
    grind

theorem reached_of_makes {p : Program} {depth : Nat} {before : List (TypeNode × ResolveContext)}
    {node : TypeNode} {ctx : ResolveContext} {outcomes : List (Outcome ApiType)}
    {u : ResolverState} {c : Call} (hbefore : resolveAll p depth before {} = some (outcomes, u))
    (hc : Relation.ReflTransGen (Call.Makes p) ⟨depth, node, ctx, u⟩ c) : Reached p c.start :=
  ⟨depth, before ++ [(node, ctx)], start_mem_sessionTrace .fresh hbefore hc⟩

end Resolver
end DecoratedApi
