import Mathlib.Logic.Relation
import DecoratedApi.Proofs.Arrivals

/-!
# Calls within calls

A call makes further calls, each from a state of its own. When a call ends well, so has every call
that it made, and what was ready, queued or waited for at the end of an inner call is still so at
the end of the outer one.
-/

namespace DecoratedApi

open Resolve

namespace ResolverState

variable {s s' s'' : ResolverState} {name : String}

/-- What is ready stays as it is, and deferred work stays queued. Placeholders may be filled. -/
structure Keeps (s s' : ResolverState) : Prop where
  ready : ∀ name d, s.table.slot? name = some (.ready d) → s'.table.slot? name = some (.ready d)
  queued : ∀ w ∈ s.deferred, w ∈ s'.deferred
  waiting : ∀ name d, s.table.slot? name = some (.ready d) →
    s'.table.isInheriting name = s.table.isInheriting name

theorem Grows.keeps (h : s.Grows s') : s.Keeps s' where
  ready := fun _ _ hd => h.slot?_eq_some hd
  queued := fun w hw => by
    obtain ⟨added, heq, -⟩ := h.deferred
    rw [heq]
    exact List.mem_append_left _ hw
  waiting := fun name d hd => h.waiting name (by
    rw [ReferenceTable.contains_iff, hd]
    rfl)

namespace Keeps

theorem refl (s : ResolverState) : s.Keeps s := (Grows.refl s).keeps

theorem trans (h : s.Keeps s') (h' : s'.Keeps s'') : s.Keeps s'' where
  ready := fun name d hd => h'.ready name d (h.ready name d hd)
  queued := fun w hw => h'.queued w (h.queued w hw)
  waiting := fun name d hd => by rw [h'.waiting name d (h.ready name d hd), h.waiting name d hd]

theorem postponed (hname : s.table.slot? name = some .pending) (base : String) :
    s.Keeps (s.postponed name base) where
  ready := fun _ _ hd => hd
  queued := fun _ hw => List.mem_append_left _ hw
  waiting := fun other d hd => by
    have hne : other ≠ name := by
      rintro rfl
      rw [hname] at hd
      cases hd
    rw [Bool.eq_iff_iff]
    simp [ResolverState.postponed, ReferenceTable.isInheriting_awaitBase, hne]

theorem closed {d : ObjectDefinition} (hname : s.table.slot? d.name = some .pending) :
    s.Keeps (s.closed d) where
  ready := fun other d' hd' => by
    have hne : other ≠ (Definition.object d).name := by
      rintro rfl
      rw [Definition.name_object, hname] at hd'
      cases hd'
    rw [ResolverState.closed, ReferenceTable.slot?_fill, if_neg hne]
    exact hd'
  queued := fun _ hw => hw
  waiting := fun _ _ _ => rfl

end Keeps

/-- The definition has what the entry has, unless it still waits for it. -/
def TakesOver (s : ResolverState) (d : ObjectDefinition) (base : String) : Prop :=
  .inherit d.name base ∈ s.deferred ∨
    s.table.isComplete base = true ∧ ∀ b, s.table.object? base = some b → d.Covers b

theorem TakesOver.mono {d d' : ObjectDefinition} {base : String} (h : s.TakesOver d base)
    (hs : s.Keeps s') (hname : d'.name = d.name) (hd : d'.Covers d) : s'.TakesOver d' base := by
  rcases h with hmem | ⟨hcomplete, hcovers⟩
  · rw [TakesOver, hname]
    exact .inl (hs.queued _ hmem)
  · obtain ⟨⟨x, hx⟩, hwait⟩ := ReferenceTable.isComplete_iff.mp hcomplete
    have hx' := hs.ready base x hx
    refine .inr ⟨?_, fun b hb => hd.trans (hcovers b ?_)⟩
    · exact ReferenceTable.isComplete_iff.mpr ⟨⟨x, hx'⟩, by rw [hs.waiting base x hx, hwait]⟩
    · rw [ReferenceTable.object?_eq_some_iff] at hb ⊢
      rw [hx, ← hx', hb]

end ResolverState

namespace Resolver

variable {s s' : ResolverState}

/-! ## Parts of a run -/

theorem properties_append_ok {self : Recursor} {flag : Bool} {before after : List PropertyDecl}
    {ps qs : List Property} {u : ResolverState}
    (h : (properties self flag (before ++ after)).runFrom s = some (.ok ps, s'))
    (hbefore : (properties self flag before).runFrom s = some (.ok qs, u)) :
    ∃ rs, (properties self flag after).runFrom u = some (.ok rs, s') := by
  induction before generalizing s ps qs with
  | nil =>
    obtain ⟨-, rfl⟩ : [] = qs ∧ s = u := by simpa [properties] using hbefore
    exact ⟨ps, h⟩
  | cons p rest ih =>
    obtain ⟨q, s₁, hq, hmore⟩ := runFrom_bind_ok.mp h
    obtain ⟨q', s₁', hq', hmore'⟩ := runFrom_bind_ok.mp hbefore
    obtain ⟨rfl, rfl⟩ : q = q' ∧ s₁ = s₁' := by simpa [hq] using hq'
    obtain ⟨ps', s₂, hps', hpure⟩ := runFrom_bind_ok.mp hmore
    obtain ⟨qs', u', hqs', hpure'⟩ := runFrom_bind_ok.mp hmore'
    obtain ⟨-, rfl⟩ : q :: ps' = ps ∧ s₂ = s' := by simpa using hpure
    obtain ⟨-, rfl⟩ : q :: qs' = qs ∧ u' = u := by simpa using hpure'
    exact ih hps' hqs'

theorem inheritAll_append_ok {self : Recursor} {before after : List TypeNode}
    {d d₁ d' : ObjectDefinition} {u : ResolverState}
    (h : (inheritAll self d (before ++ after)).runFrom s = some (.ok d', s'))
    (hbefore : (inheritAll self d before).runFrom s = some (.ok d₁, u)) :
    (inheritAll self d₁ after).runFrom u = some (.ok d', s') := by
  induction before generalizing s d with
  | nil =>
    obtain ⟨rfl, rfl⟩ : d = d₁ ∧ s = u := by simpa [inheritAll] using hbefore
    exact h
  | cons base rest ih =>
    obtain ⟨d₂, s₂, hone, hmore⟩ := runFrom_bind_ok.mp h
    obtain ⟨d₂', s₂', hone', hmore'⟩ := runFrom_bind_ok.mp hbefore
    obtain ⟨rfl, rfl⟩ : d₂ = d₂' ∧ s₂ = s₂' := by simpa [hone] using hone'
    exact ih hmore hmore'

theorem property_ok {self : Recursor} {flag : Bool} {p : PropertyDecl} {q : Property}
    (h : (property self flag p).runFrom s = some (.ok q, s')) :
    (self (propertyNode p) { hints := .ofDoc p.doc }).runFrom s = some (.ok q.type, s') := by
  obtain ⟨t, s₁, ht, hmore⟩ := runFrom_bind_ok.mp h
  obtain ⟨validators, s₂, hvalidators, hpure⟩ := runFrom_bind_ok.mp hmore
  obtain ⟨-, rfl⟩ : Validators.ofProperty p.doc = .ok validators ∧ s₁ = s₂ := by
    simpa using hvalidators
  cases hpure
  exact ht

theorem build_ok {self : Recursor} {b : Blueprint} {key : String} {d : ObjectDefinition} :
    (b.build self key).runFrom s = some (.ok d, s') ↔
      ∃ ps s₁ extra s₂,
        (properties self b.initializedIsOptional b.members).runFrom s = some (.ok ps, s₁) ∧
        (additional self b.index).runFrom s₁ = some (.ok extra, s₂) ∧
        (inheritAll self (b.own key ps extra) b.bases).runFrom s₂ = some (.ok d, s') := by
  unfold Blueprint.build
  simp only [runFrom_bind_ok]
  constructor
  · rintro ⟨ps, s₁, hps, extra, s₂, hextra, hrest⟩
    exact ⟨ps, s₁, extra, s₂, hps, hextra, hrest⟩
  · rintro ⟨ps, s₁, extra, s₂, hps, hextra, hrest⟩
    exact ⟨ps, s₁, hps, extra, s₂, hextra, hrest⟩

theorem inheritOne_ok {self : Recursor} {d d' : ObjectDefinition} {base : TypeNode}
    (h : (inheritOne self d base).runFrom s = some (.ok d', s')) :
    ∃ name s₁, (self base {}).runFrom s = some (.ok (.refObject name), s₁) ∧
      (s₁.table.isComplete name = true ∧ d' = (s₁.table.object? name).elim d d.inherit ∧ s' = s₁ ∨
        s₁.table.isComplete name = false ∧ d' = d ∧ s' = s₁.postponed d.name name) := by
  rw [inheritOne_eq] at h
  obtain ⟨t, s₁, ht, htake⟩ := runFrom_bind_ok.mp h
  cases t with
  | refObject name =>
    refine ⟨name, s₁, ht, ?_⟩
    cases hcomplete : s₁.table.isComplete name with
    | true =>
      rw [takeOver_complete hcomplete] at htake
      cases htake
      exact .inl ⟨rfl, rfl, rfl⟩
    | false =>
      rw [takeOver_incomplete hcomplete] at htake
      cases htake
      exact .inr ⟨rfl, rfl, rfl⟩
  | _ => cases htake

theorem inheritOne_takesOver {self : Recursor} (hself : self.Meets Advances Known)
    {d d' : ObjectDefinition} {base : TypeNode} (hpending : s.table.slot? d.name = some .pending)
    (h : (inheritOne self d base).runFrom s = some (.ok d', s')) :
    ∃ name u, (self base {}).runFrom s = some (.ok (.refObject name), u) ∧ s.Keeps u ∧
      u.Keeps s' ∧ s'.table.slot? d.name = some .pending ∧ d'.name = d.name ∧ d'.Covers d ∧
      s'.TakesOver d' name := by
  obtain ⟨name, u, hbase, hcase⟩ := inheritOne_ok h
  obtain ⟨hadv, -⟩ := hself base {} s _ _ hbase
  have hpending' := hadv.grows.slot?_eq_some hpending
  refine ⟨name, u, hbase, hadv.grows.keeps, ?_⟩
  rcases hcase with ⟨hcomplete, rfl, rfl⟩ | ⟨-, rfl, rfl⟩
  · cases hobject : s'.table.object? name with
    | none => exact ⟨.refl s', hpending', rfl, .refl d, .inr ⟨hcomplete, by simp [hobject]⟩⟩
    | some b =>
      refine ⟨.refl s', hpending', rfl, ObjectDefinition.inherit_covers_left, .inr ⟨hcomplete, ?_⟩⟩
      intro b' hb'
      obtain rfl : b = b' := by simpa [hobject] using hb'
      exact ObjectDefinition.inherit_covers_right
  · exact ⟨.postponed hpending' name, hpending', rfl, .refl _,
      .inl (List.mem_append_right _ List.mem_cons_self)⟩

theorem inheritAll_takesOver {self : Recursor} (hself : self.Meets Advances Known)
    {d d' : ObjectDefinition} {bases : List TypeNode}
    (hpending : s.table.slot? d.name = some .pending)
    (h : (inheritAll self d bases).runFrom s = some (.ok d', s')) :
    s.Keeps s' ∧ s'.table.slot? d.name = some .pending ∧ d'.name = d.name ∧ d'.Covers d ∧
      ∀ base ∈ bases, ∃ name u u', (self base {}).runFrom u = some (.ok (.refObject name), u') ∧
        s'.TakesOver d' name := by
  induction bases generalizing s d with
  | nil =>
    obtain ⟨rfl, rfl⟩ : d = d' ∧ s = s' := by simpa [inheritAll] using h
    exact ⟨.refl s, hpending, rfl, .refl d, by simp⟩
  | cons base rest ih =>
    obtain ⟨d₁, s₁, hone, hrest⟩ := runFrom_bind_ok.mp h
    obtain ⟨name, u, hbase, hkeeps, hkeeps₁, hslot, hname, hcovers, htakes⟩ :=
      inheritOne_takesOver hself hpending hone
    obtain ⟨hkeeps', hslot', hname', hcovers', hall⟩ := ih (by rw [hname]; exact hslot) hrest
    rw [hname] at hslot' hname'
    refine ⟨hkeeps.trans (hkeeps₁.trans hkeeps'), hslot', hname', hcovers'.trans hcovers, ?_⟩
    intro base' hmem
    rcases List.mem_cons.mp hmem with rfl | hmem
    · exact ⟨name, s, u, hbase, htakes.mono hkeeps' (hname'.trans hname.symm) hcovers'⟩
    · exact hall base' hmem

theorem build_takesOver {self : Recursor} (hself : self.Meets Advances Known) {b : Blueprint}
    {key : String} {d : ObjectDefinition} (hkey : s.table.slot? key = some .pending)
    (h : (b.build self key).runFrom s = some (.ok d, s')) :
    s'.table.slot? d.name = some .pending ∧ d.name = key ∧
      ∀ base ∈ b.bases, ∃ name u u', (self base {}).runFrom u = some (.ok (.refObject name), u') ∧
        s'.TakesOver d name := by
  obtain ⟨ps, s₁, extra, s₂, hps, hextra, hrest⟩ := build_ok.mp h
  obtain ⟨hadv, -⟩ := properties_yields advances_invariant hself _ _ _ _ _ hps
  obtain ⟨hadv', -⟩ := additional_yields advances_invariant hself _ _ _ _ hextra
  have hslot := (hadv.grows.trans hadv'.grows).slot?_eq_some hkey
  obtain ⟨-, hslot', hname, -, hall⟩ := inheritAll_takesOver hself hslot hrest
  refine ⟨by rw [hname]; exact hslot', hname, hall⟩

/-! ## Calls made by a call -/

/-- While the definition under `key` is built from `s`, a node is asked for in a later state. -/
inductive Blueprint.Asks (self : Recursor) (b : Blueprint) (key : String) (s : ResolverState) :
    TypeNode → ResolveContext → ResolverState → Prop
  | member {before after : List PropertyDecl} {m : PropertyDecl} {ps : List Property}
      {u : ResolverState} (hmembers : b.members = before ++ m :: after)
      (hps : (properties self b.initializedIsOptional before).runFrom s = some (.ok ps, u)) :
      Asks self b key s (propertyNode m) { hints := .ofDoc m.doc } u
  | index {node : TypeNode} {ps : List Property} {u : ResolverState} (hindex : b.index = some node)
      (hps : (properties self b.initializedIsOptional b.members).runFrom s = some (.ok ps, u)) :
      Asks self b key s node {} u
  | base {before after : List TypeNode} {base : TypeNode} {ps : List Property}
      {extra : Option ApiType} {d : ObjectDefinition} {s₁ s₂ u : ResolverState}
      (hbases : b.bases = before ++ base :: after)
      (hps : (properties self b.initializedIsOptional b.members).runFrom s = some (.ok ps, s₁))
      (hextra : (additional self b.index).runFrom s₁ = some (.ok extra, s₂))
      (hbefore : (inheritAll self (b.own key ps extra) before).runFrom s₂ = some (.ok d, u)) :
      Asks self b key s base {} u

theorem Blueprint.Asks.ok {self : Recursor} (hself : self.Meets Advances Known) {b : Blueprint}
    {key : String} {d : ObjectDefinition} {node : TypeNode} {ctx : ResolveContext}
    {u : ResolverState} (hasks : b.Asks self key s node ctx u)
    (hkey : s.table.slot? key = some .pending)
    (h : (b.build self key).runFrom s = some (.ok d, s')) :
    ∃ t u', (self node ctx).runFrom u = some (.ok t, u') ∧ u'.Keeps s' := by
  obtain ⟨ps, s₁, extra, s₂, hps, hextra, hrest⟩ := build_ok.mp h
  obtain ⟨hadv, -⟩ := properties_yields advances_invariant hself _ _ _ _ _ hps
  obtain ⟨hadv', -⟩ := additional_yields advances_invariant hself _ _ _ _ hextra
  have hslot := (hadv.grows.trans hadv'.grows).slot?_eq_some hkey
  have hlast : s₂.Keeps s' := (inheritAll_takesOver hself hslot hrest).1
  cases hasks with
  | @member before after m qs _ hmembers hqs =>
    rw [hmembers] at hps
    obtain ⟨rs, hrs⟩ := properties_append_ok hps hqs
    obtain ⟨q, u', hq, hmore⟩ := runFrom_bind_ok.mp hrs
    obtain ⟨rs', u'', hrs', hpure⟩ := runFrom_bind_ok.mp hmore
    cases hpure
    obtain ⟨hadv'', -⟩ := properties_yields advances_invariant hself _ _ _ _ _ hrs'
    exact ⟨q.type, u', property_ok hq, ((hadv''.grows.trans hadv'.grows).keeps).trans hlast⟩
  | @index _ qs _ hindex hqs =>
    obtain ⟨rfl, rfl⟩ : ps = qs ∧ s₁ = u := by simpa [hps] using hqs
    rw [hindex] at hextra
    obtain ⟨t, u', ht, hpure⟩ := runFrom_bind_ok.mp hextra
    cases hpure
    exact ⟨t, s₂, ht, hlast⟩
  | @base before after _ qs extra' d₁ _ _ _ hbases hqs hextra' hbefore =>
    obtain ⟨rfl, rfl⟩ : ps = qs ∧ s₁ = _ := by simpa [hps] using hqs
    obtain ⟨rfl, rfl⟩ : extra = extra' ∧ s₂ = _ := by simpa [hextra] using hextra'
    rw [hbases] at hrest
    -- The bases before this one are taken over; the call is what comes next.
    have hafter := inheritAll_append_ok hrest hbefore
    obtain ⟨-, hslot', hname, -, -⟩ := inheritAll_takesOver hself hslot hbefore
    obtain ⟨d₂, s₃, hone, hmore⟩ := runFrom_bind_ok.mp hafter
    obtain ⟨name, u', hcall, -, hkeeps, hslot₃, hname₃, -, -⟩ :=
      inheritOne_takesOver hself (by rw [hname]; exact hslot') hone
    obtain ⟨hkeeps', -⟩ := inheritAll_takesOver hself (by rw [hname₃]; exact hslot₃) hmore
    exact ⟨_, u', hcall, hkeeps.trans hkeeps'⟩

/-- A call, with the state that it starts from. -/
structure Call where
  depth : Nat
  node : TypeNode
  ctx : ResolveContext
  start : ResolverState

namespace Call

/-- The call gives an answer and leaves this state. -/
def EndsIn (p : Program) (c : Call) (s : ResolverState) : Prop :=
  ∃ t, (resolve p c.depth c.node c.ctx).runFrom c.start = some (.ok t, s)

/-- The call begins to build the definition under `key`, which is new. -/
def Begins (p : Program) (c : Call) (key : String) (b : Blueprint) : Prop :=
  plan p c.node c.ctx = .define key b ∧ c.start.table.contains key = false

/-- The calls that a call makes itself. -/
inductive Makes (p : Program) : Call → Call → Prop
  | same {depth : Nat} {node node' : TypeNode} {ctx : ResolveContext} {s : ResolverState}
      (h : plan p node ctx = .same node') :
      Makes p ⟨depth + 1, node, ctx, s⟩ ⟨depth, node', ctx, s⟩
  | element {depth : Nat} {node node' : TypeNode} {ctx : ResolveContext} {s : ResolverState}
      (h : plan p node ctx = .list node') :
      Makes p ⟨depth + 1, node, ctx, s⟩ ⟨depth, node', ctx, s⟩
  | part {depth : Nat} {node node' : TypeNode} {ctx ctx' : ResolveContext} {s u : ResolverState}
      {key : String} {b : Blueprint} (h : Begins p ⟨depth + 1, node, ctx, s⟩ key b)
      (hasks : b.Asks (resolve p depth) key (s.opened key) node' ctx' u) :
      Makes p ⟨depth + 1, node, ctx, s⟩ ⟨depth, node', ctx', u⟩

variable {p : Program} {c c' : Call} {key : String} {b : Blueprint}

theorem Begins.endsIn (h : c.Begins p key b) (hend : c.EndsIn p s) :
    ∃ depth d u, c.depth = depth + 1 ∧ s = u.closed d ∧
      (b.build (resolve p depth) key).runFrom (c.start.opened key) = some (.ok d, u) := by
  obtain ⟨depth, node, ctx, start⟩ := c
  obtain ⟨hplan, hnew⟩ := h
  obtain ⟨t, hrun⟩ := hend
  cases depth with
  | zero => simp [resolve_zero] at hrun
  | succ depth =>
    simp only at hplan hnew hrun ⊢
    rw [resolve_succ, hplan, Plan.run, reference_new hnew] at hrun
    split at hrun
    · cases hrun
    · next d u hbuild =>
      cases hrun
      exact ⟨depth, d, u, rfl, rfl, hbuild⟩
    · cases hrun

theorem Makes.endsIn (h : Makes p c c') (hend : c.EndsIn p s) :
    ∃ s', c'.EndsIn p s' ∧ s'.Keeps s := by
  cases h with
  | @same depth node node' ctx start hplan =>
    obtain ⟨t, hrun⟩ := hend
    simp only [resolve_succ, hplan] at hrun
    exact ⟨s, ⟨t, hrun⟩, .refl s⟩
  | @element depth node node' ctx start hplan =>
    obtain ⟨t, hrun⟩ := hend
    simp only [resolve_succ, hplan] at hrun
    obtain ⟨t', s', ht', hpure⟩ := runFrom_bind_ok.mp hrun
    cases hpure
    exact ⟨s, ⟨t', ht'⟩, .refl s⟩
  | @part depth node node' ctx ctx' start u key b hbegins hasks =>
    obtain ⟨depth', d, v, hdepth, rfl, hbuild⟩ := hbegins.endsIn hend
    obtain rfl : depth = depth' := by simpa using hdepth
    have hself := resolve_advances p depth
    have hopened := (Building.opened hbegins.2).slot
    obtain ⟨t, u', ht, hkeeps⟩ := hasks.ok hself hopened hbuild
    have hclosed := ResolverState.Keeps.closed (build_takesOver hself hopened hbuild).1
    exact ⟨u', ⟨t, ht⟩, hkeeps.trans hclosed⟩

theorem endsIn_of_makes (h : Relation.ReflTransGen (Makes p) c c') (hend : c.EndsIn p s) :
    ∃ s', c'.EndsIn p s' ∧ s'.Keeps s := by
  induction h with
  | refl => exact ⟨s, hend, .refl s⟩
  | tail _ hmakes ih =>
    obtain ⟨s₁, hend₁, hkeeps₁⟩ := ih
    obtain ⟨s₂, hend₂, hkeeps₂⟩ := hmakes.endsIn hend₁
    exact ⟨s₂, hend₂, hkeeps₂.trans hkeeps₁⟩

end Call

end Resolver
end DecoratedApi
