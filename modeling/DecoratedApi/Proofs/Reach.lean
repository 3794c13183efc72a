import DecoratedApi.Proofs.Origin

/-!
# Which names a session meets

A name leads to those that its declaration mentions and to the bases that it lists. The names in the
table are those to which the resolved types lead: a call adds no others, and once nothing is left to
build the table is closed. So the names do not depend on the order of the calls.
-/

namespace DecoratedApi

open Resolve

/-- Every entry that is new has the property. -/
def ResolverState.AddsOnly (s s' : ResolverState) (P : String → Prop) : Prop :=
  ∀ n, s'.table.contains n = true → s.table.contains n = true ∨ P n

namespace ResolverState.AddsOnly

variable {s s' s'' : ResolverState} {P Q : String → Prop}

theorem mono (h : s.AddsOnly s' P) (hPQ : ∀ n, P n → Q n) : s.AddsOnly s' Q :=
  fun n hn => (h n hn).imp_right (hPQ n)

theorem trans (h : s.AddsOnly s' P) (h' : s'.AddsOnly s'' P) : s.AddsOnly s'' P := fun n hn => by
  rcases h' n hn with hn | hP
  · exact h n hn
  · exact .inr hP

end ResolverState.AddsOnly

namespace Resolver

variable {p : Program} {s s' : ResolverState} {name other : String} {t : ApiType}

/-- The declaration of the name mentions the other, or lists it as a base. -/
def Leads (p : Program) (name other : String) : Prop :=
  ∃ own bases, Declared p name own bases ∧ (own.Mentions other ∨ other ∈ bases)

/-- The name in the type leads to this one, through any number of declarations. -/
def Reaches (p : Program) (t : ApiType) (name : String) : Prop :=
  ∃ first, t.mentioned? = some first ∧ Relation.ReflTransGen (Leads p) first name

/-! ## Nothing else is added -/

/-- A call that succeeds adds only names to which its answer leads. -/
def Recursor.AddsReached (p : Program) (self : Recursor) : Prop :=
  ∀ node ctx s t s', (self node ctx).runFrom s = some (.ok t, s') → s.AddsOnly s' (Reaches p t)

section Build

variable {depth : Nat} (hself : (resolve p depth).AddsReached p)

include hself

theorem properties_addsOnly {flag : Bool} {ms : List PropertyDecl} {qs : List Property}
    (h : (properties (resolve p depth) flag ms).runFrom s = some (.ok qs, s')) :
    s.AddsOnly s' fun n => ∃ q ∈ qs, Reaches p q.type n := by
  induction ms generalizing s qs with
  | nil =>
    cases h
    exact fun n hn => .inl hn
  | cons m rest ih =>
    obtain ⟨q, s₁, hq, hmore⟩ := runFrom_bind_ok.mp h
    obtain ⟨qs', s₂, hqs, hpure⟩ := runFrom_bind_ok.mp hmore
    cases hpure
    have hone := hself _ _ _ _ _ (property_ok hq)
    refine (hone.mono fun n hn => ?_).trans ((ih hqs).mono fun n hn => ?_)
    · exact ⟨q, List.mem_cons_self, hn⟩
    · obtain ⟨q', hq', hreach⟩ := hn
      exact ⟨q', List.mem_cons_of_mem _ hq', hreach⟩

theorem additional_addsOnly {index : Option TypeNode} {extra : Option ApiType}
    (h : (additional (resolve p depth) index).runFrom s = some (.ok extra, s')) :
    s.AddsOnly s' fun n => ∃ t, extra = some t ∧ Reaches p t n := by
  cases index with
  | none =>
    cases h
    exact fun n hn => .inl hn
  | some node =>
    obtain ⟨t, s₁, ht, hpure⟩ := runFrom_bind_ok.mp h
    cases hpure
    exact (hself _ _ _ _ _ ht).mono fun n hn => ⟨t, rfl, hn⟩

theorem inheritAll_addsOnly {nodes : List TypeNode} {d d' : ObjectDefinition}
    (h : (inheritAll (resolve p depth) d nodes).runFrom s = some (.ok d', s')) :
    ∃ names, List.Forall₂ (fun base n => Answers p base {} (.refObject n)) nodes names ∧
      s.AddsOnly s' fun n => ∃ m ∈ names, Relation.ReflTransGen (Leads p) m n := by
  induction nodes generalizing s d with
  | nil =>
    cases h
    exact ⟨[], .nil, fun n hn => .inl hn⟩
  | cons base rest ih =>
    obtain ⟨d₁, s₁, hone, hrest⟩ := runFrom_bind_ok.mp h
    obtain ⟨m, u, hrun, hcase⟩ := inheritOne_ok hone
    obtain ⟨names, hanswers, hmore⟩ := ih hrest
    have hentries : s₁.table.entries = u.table.entries := by
      rcases hcase with ⟨-, -, rfl⟩ | ⟨-, -, rfl⟩ <;> rfl
    have hfirst : s.AddsOnly s₁ fun n => Relation.ReflTransGen (Leads p) m n := fun n hn => by
      have hu : u.table.contains n = true := by
        rw [ReferenceTable.contains, ← hentries]
        exact hn
      refine (hself _ _ _ _ _ hrun n hu).imp_right ?_
      rintro ⟨first, hmention, hleads⟩
      obtain rfl : m = first := by simpa [ApiType.mentioned?, ApiType.refName?] using hmention
      exact hleads
    refine ⟨m :: names, .cons ⟨depth, s, u, hrun⟩ hanswers, ?_⟩
    refine (hfirst.mono fun n hn => ?_).trans (hmore.mono fun n hn => ?_)
    · exact ⟨m, List.mem_cons_self, hn⟩
    · obtain ⟨m', hm', hleads⟩ := hn
      exact ⟨m', List.mem_cons_of_mem _ hm', hleads⟩

theorem build_addsOnly {node : TypeNode} {ctx : ResolveContext} {b : Blueprint} {key : String}
    {d : ObjectDefinition} (hplan : plan p node ctx = .define key b)
    (h : (b.build (resolve p depth) key).runFrom s = some (.ok d, s')) :
    s.AddsOnly s' (Relation.ReflTransGen (Leads p) key) := by
  obtain ⟨ps, s₁, extra, s₂, hps, hextra, hrest⟩ := build_ok.mp h
  obtain ⟨names, hanswers, hbases⟩ := inheritAll_addsOnly hself hrest
  have hdeclared : Declared p key (b.own key ps extra) names :=
    ⟨node, ctx, b, hplan, Blueprint.declares_own hps hextra, hanswers⟩
  have hproperties := properties_addsOnly hself hps
  have hadditional := additional_addsOnly hself hextra
  refine (hproperties.mono fun n hn => ?_).trans
    ((hadditional.mono fun n hn => ?_).trans (hbases.mono fun n hn => ?_))
  · obtain ⟨q, hq, first, hmention, hleads⟩ := hn
    exact .head ⟨_, names, hdeclared, .inl (.inl ⟨q, hq, hmention⟩)⟩ hleads
  · obtain ⟨t, ht, first, hmention, hleads⟩ := hn
    exact .head ⟨_, names, hdeclared, .inl (.inr ⟨t, ht, hmention⟩)⟩ hleads
  · obtain ⟨m, hm, hleads⟩ := hn
    exact .head ⟨_, names, hdeclared, .inr hm⟩ hleads

end Build

theorem resolve_addsReached (p : Program) (depth : Nat) : (resolve p depth).AddsReached p := by
  induction depth with
  | zero =>
    intro node ctx s t s' h
    simp [resolve_zero] at h
  | succ depth ih =>
    intro node ctx s t s' h
    rw [resolve_succ] at h
    cases hplan : plan p node ctx with
    | answer o =>
      rw [hplan] at h
      obtain ⟨-, rfl⟩ : o = .ok t ∧ s = s' := by simpa [Plan.run] using h
      exact fun n hn => .inl hn
    | same node' =>
      rw [hplan] at h
      exact ih node' ctx s t s' h
    | list node' =>
      rw [hplan] at h
      obtain ⟨element, s₁, helement, hpure⟩ := runFrom_bind_ok.mp h
      cases hpure
      exact ih node' ctx s element s' helement
    | register e =>
      rw [hplan, Plan.run, registered_run] at h
      cases h
      intro n hn
      split at hn
      · exact .inl hn
      · rw [ReferenceTable.contains_iff, ResolverState.enrolled, ReferenceTable.slot?_fill] at hn
        split at hn
        · next he => exact .inr ⟨e.name, rfl, he ▸ .refl⟩
        · exact .inl hn
    | define key b =>
      rw [hplan, Plan.run] at h
      cases hkey : s.table.contains key with
      | true =>
        rw [reference_known hkey] at h
        cases h
        cases s.table.isPending key <;> exact fun n hn => .inl hn
      | false =>
        rw [reference_new hkey] at h
        split at h
        · cases h
        · next d u hbuild =>
          cases h
          -- The key itself is the only entry that is there before the parts are resolved.
          have hname : d.name = key := (build_takesOver (resolve_advances p depth)
            (Building.opened hkey).slot hbuild).2.1
          intro n hn
          rw [ReferenceTable.contains_iff, ResolverState.closed, ReferenceTable.slot?_fill] at hn
          split at hn
          · next he =>
            rw [Definition.name_object, hname] at he
            exact .inr ⟨key, rfl, he ▸ .refl⟩
          · rcases build_addsOnly ih hplan hbuild n hn with hopened | hleads
            · rw [ReferenceTable.contains_iff, ResolverState.opened,
                ReferenceTable.slot?_reserve hkey] at hopened
              split at hopened
              · next he => exact .inr ⟨key, rfl, he ▸ .refl⟩
              · exact .inl hopened
            · exact .inr ⟨key, rfl, hleads⟩
        · cases h

/-! ## Everything is added -/

theorem Explained.contains_of_leads (hp : p.IsPlain) (h : Explained p s)
    (hsettled : ∀ n, s.table.isPending n = false) (hname : s.table.contains name = true)
    (hleads : Leads p name other) : s.table.contains other = true := by
  obtain ⟨own, bases, hdeclared, hother⟩ := hleads
  obtain ⟨x, hx⟩ := ReferenceTable.exists_ready hname (hsettled name)
  obtain ⟨node, ctx, b, hplan⟩ := hdeclared.defines
  obtain ⟨o, own', bases', rfl, hbuilt⟩ := h.built_of_define hp hplan hx
  obtain ⟨rfl, rfl⟩ := hdeclared.unique hp hbuilt.declared
  rcases hother with hmention | hbase
  · have hextends := hbuilt.taken.extends_own
    exact h.table.closed name _ hx other ⟨o, rfl, hextends.mentions hmention⟩
  · exact hbuilt.known other hbase

variable {depth : Nat} {calls : List (TypeNode × ResolveContext)}
variable {outcomes : List (Outcome ApiType)}

theorem resolveAll_answers (h : resolveAll p depth calls s = some (outcomes, s'))
    (hok : ∀ r ∈ outcomes, r.isOk = true) :
    (∀ c ∈ calls, ∃ t, Answers p c.1 c.2 t ∧ Known s' t) ∧
      s.AddsOnly s' fun n => ∃ c ∈ calls, ∃ t, Answers p c.1 c.2 t ∧ Reaches p t n := by
  induction calls generalizing s outcomes with
  | nil =>
    obtain ⟨-, rfl⟩ : [] = outcomes ∧ s = s' := by simpa [resolveAll] using h
    exact ⟨by simp, fun n hn => .inl hn⟩
  | cons call rest ih =>
    obtain ⟨node, ctx⟩ := call
    obtain ⟨r, s₁, rs, hrun, hrest, rfl⟩ := resolveAll_cons.mp h
    cases r with
    | error e => cases hok (.error e) List.mem_cons_self
    | ok t =>
      have hanswer : Answers p node ctx t := ⟨depth, s, s₁, hrun⟩
      have hknown : Known s₁ t := (resolve_advances p depth node ctx s _ _ hrun).2 t rfl
      have hgrows := (resolveAll_advances hrest).1
      have hadds := resolve_addsReached p depth node ctx s t s₁ hrun
      obtain ⟨hanswers, hadds'⟩ := ih hrest fun r' hr' => hok r' (List.mem_cons_of_mem _ hr')
      refine ⟨fun c hc => ?_, (hadds.mono fun n hn => ?_).trans (hadds'.mono fun n hn => ?_)⟩
      · rcases List.mem_cons.mp hc with rfl | hc
        · exact ⟨t, hanswer, fun n hn => hgrows.contains (hknown n hn)⟩
        · exact hanswers c hc
      · exact ⟨(node, ctx), List.mem_cons_self, t, hanswer, hn⟩
      · obtain ⟨c, hc, t', ht', hreach⟩ := hn
        exact ⟨c, List.mem_cons_of_mem _ hc, t', ht', hreach⟩

theorem resolveAll_contains_iff (hp : p.IsPlain)
    (h : resolveAll p depth calls {} = some (outcomes, s)) (hok : ∀ r ∈ outcomes, r.isOk = true) :
    s.table.contains name = true ↔ ∃ c ∈ calls, ∃ t, Answers p c.1 c.2 t ∧ Reaches p t name := by
  obtain ⟨hanswers, hadds⟩ := resolveAll_answers h hok
  have hexplained := resolveAll_explained hp h hok .fresh
  have hsettled := not_pending_of_advances ((resolveAll_advances h).2.2 hok)
  constructor
  · intro hname
    rcases hadds name hname with hfresh | hreach
    · cases hfresh
    · exact hreach
  · rintro ⟨c, hc, t, ht, first, hmention, hleads⟩
    obtain ⟨t', ht', hknown⟩ := hanswers c hc
    obtain rfl := ht.unique ht'
    induction hleads with
    | refl => exact hknown first hmention
    | tail _ hstep ih => exact hexplained.contains_of_leads hp hsettled ih hstep

end Resolver
end DecoratedApi
