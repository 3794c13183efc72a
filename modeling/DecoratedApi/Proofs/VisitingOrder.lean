import DecoratedApi.Proofs.Reach

/-!
# The order in which types are visited

Sessions that resolve the same types in different orders meet the same names, and build each of them
from the same declaration. What may differ is which bases are complete when a type is built, and so
which of them arrive later and in which order. Where the copies follow the order of inheritance,
every type is whole in the end, and the order of the visits does not show.
-/

namespace DecoratedApi

/-! ## What arrives -/

namespace ObjectDefinition

/-- What the definition has beyond its own properties. -/
def gained (own d : ObjectDefinition) : List Property × Option ApiType :=
  (d.properties.drop own.properties.length, d.additional)

theorem foldl_inherit_extends (d : ObjectDefinition) (bs : List ObjectDefinition) :
    (bs.foldl inherit d).Extends d := by
  induction bs generalizing d with
  | nil => exact .refl d
  | cons b rest ih => exact (ih _).trans (inherit_extends d b)

end ObjectDefinition

namespace Deferred

variable {t t' : ReferenceTable} {queue : List Deferred} {name target base : String}

theorem BaseFirst.tail {w : Deferred} (h : BaseFirst target base (w :: queue)) :
    BaseFirst target base queue :=
  fun before after heq => h (w :: before) after (by rw [heq]; rfl)

theorem arrivals_final (h : runAll t queue = .ok t') (hself : name ∉ copies name queue)
    (hfirst : ∀ n ∈ copies name queue, BaseFirst name n queue) :
    List.Forall₂ (fun n x => t'.object? n = some x) (copies name queue) (arrivals name t queue) := by
  induction queue generalizing t with
  | nil => exact .nil
  | cons w rest ih =>
    obtain ⟨t₁, hrun, hrest⟩ := runAll_cons_ok.mp h
    obtain ⟨n, referrer, rfl, rfl⟩ | ⟨target, base, d, b, rfl, -, hb, hentries⟩ := run_cases hrun
    · rw [copies_cons_link] at hself hfirst ⊢
      simpa [arrivals, hrun] using ih hrest hself fun m hm => (hfirst m hm).tail
    · rw [copies_cons_inherit] at hself hfirst ⊢
      split at hself
      · next htarget =>
        subst htarget
        rw [if_pos rfl] at hfirst ⊢
        obtain ⟨hne, hself'⟩ := not_or.mp (List.mem_cons.not.mp hself)
        have hlast : ∀ x, .inherit base x ∉ rest := hfirst base List.mem_cons_self [] rest rfl
        have hbase : t'.object? base = some b := by
          rw [ReferenceTable.object?_eq_some_iff, runAll_slot? hrest hlast, run_slot? hentries,
            if_neg (Ne.symm hne)]
          exact ReferenceTable.object?_eq_some_iff.mp hb
        have hmore := ih hrest hself' fun m hm => (hfirst m (List.mem_cons_of_mem _ hm)).tail
        simpa [arrivals, hrun, hb] using ⟨hbase, hmore⟩
      · next htarget =>
        rw [if_neg htarget] at hfirst ⊢
        simpa [arrivals, hrun, htarget] using ih hrest hself fun m hm => (hfirst m hm).tail

end Deferred

open Deferred

/-- What the definition becomes by what arrives for it while the deferred work is done. -/
def ResolverState.completed (s : ResolverState) (name : String) (d : ObjectDefinition) :
    ObjectDefinition := (arrivals name s.table s.deferred).foldl .inherit d

theorem ResolverState.completed_extends (s : ResolverState) (name : String)
    (d : ObjectDefinition) : (s.completed name d).Extends d :=
  ObjectDefinition.foldl_inherit_extends d _

namespace Resolver

open Resolve

variable {p : Program} {s s₁ s₂ : ResolverState} {name : String} {nodes : List TypeNode}
variable {defs defs₁ defs₂ : OrderedMap Definition} {own o d : ObjectDefinition}
variable {bases : List String}

/-! ## Copies in order -/

/-- A copy from a base into the type is queued. -/
def Awaits (s : ResolverState) (name : String) : Prop := ∃ base, .inherit name base ∈ s.deferred

/-- The copies into the type come from bases that are whole by then, and no base is taken over
before one that is listed earlier. -/
inductive ComesWhole (p : Program) (s : ResolverState) : String → Prop
  | intro {name : String}
      (hlisted : ∀ own bases, Declared p name own bases →
        bases.Pairwise fun n m => n ∈ copies name s.deferred → m ∈ copies name s.deferred)
      (hfirst : ∀ n ∈ copies name s.deferred, BaseFirst name n s.deferred)
      (hbases : ∀ n ∈ copies name s.deferred, ComesWhole p s n) : ComesWhole p s name

theorem ComesWhole.of_not_awaits (h : ¬ Awaits s name) : ComesWhole p s name := by
  have hnone : ∀ n, n ∉ copies name s.deferred := fun n hn => h ⟨n, mem_copies.mp hn⟩
  exact .intro (fun _ _ _ => List.pairwise_of_forall fun n _ hn => absurd hn (hnone n))
    (fun n hn => absurd hn (hnone n)) (fun n hn => absurd hn (hnone n))

theorem ComesWhole.not_mem (h : ComesWhole p s name) : name ∉ copies name s.deferred := by
  induction h with
  | @intro name _ _ _ ih => exact fun hmem => ih name hmem hmem

/-! ## Sessions -/

/-- The nodes are resolved one after the other on a fresh resolver, none fails, and the work is
finished. -/
def Visits (p : Program) (nodes : List TypeNode) (s : ResolverState)
    (defs : OrderedMap Definition) : Prop :=
  ∃ depth outcomes, resolveAll p depth (nodes.map fun node => (node, {})) {} = some (outcomes, s) ∧
    (∀ r ∈ outcomes, r.isOk = true) ∧ finish s = .ok defs

namespace Visits

theorem explained (hp : p.IsPlain) (h : Visits p nodes s defs) : Explained p s := by
  obtain ⟨depth, outcomes, hsession, hok, -⟩ := h
  exact resolveAll_explained hp hsession hok .fresh

theorem contains_iff (hp : p.IsPlain) (h : Visits p nodes s defs) :
    s.table.contains name = true ↔ ∃ node ∈ nodes, ∃ t, Answers p node {} t ∧ Reaches p t name := by
  obtain ⟨depth, outcomes, hsession, hok, -⟩ := h
  rw [resolveAll_contains_iff hp hsession hok]
  simp

theorem runs (h : Visits p nodes s defs) :
    ∃ t, runAll s.table s.deferred = .ok t ∧
      ∀ name, OrderedMap.find? name defs = t.get? name := by
  obtain ⟨depth, outcomes, -, -, hfinish⟩ := h
  obtain ⟨t, hrun, hdefs⟩ := finish_ok.mp hfinish
  exact ⟨t, hrun, ReferenceTable.find?_definitions hdefs⟩

theorem find?_object (h : Visits p nodes s defs) (ho : s.table.object? name = some o) :
    OrderedMap.find? name defs = some (.object (s.completed name o)) := by
  obtain ⟨t, hrun, hfind⟩ := h.runs
  rw [hfind, ReferenceTable.get?_eq_some_iff, ← ReferenceTable.object?_eq_some_iff]
  exact runAll_object? hrun ho

theorem find?_enum {e : EnumDefinition} (h : Visits p nodes s defs)
    (he : s.table.slot? name = some (.ready (.enum e))) :
    OrderedMap.find? name defs = some (.enum e) := by
  obtain ⟨t, hrun, hfind⟩ := h.runs
  rw [hfind, ReferenceTable.get?_eq_some_iff]
  exact (runAll_sameKinds hrun).enum name e he

theorem find?_eq_none (h : Visits p nodes s defs) (hname : s.table.contains name = false) :
    OrderedMap.find? name defs = none := by
  obtain ⟨t, hrun, hfind⟩ := h.runs
  rw [← (runAll_sameKinds hrun).contains, ReferenceTable.not_contains_iff,
    ReferenceTable.slot?] at hname
  rw [hfind, ReferenceTable.get?, hname]

theorem exists_ready (h : Visits p nodes s defs) (hname : s.table.contains name = true) :
    ∃ x, s.table.slot? name = some (.ready x) := by
  obtain ⟨depth, outcomes, hsession, hok, -⟩ := h
  have hadv := (resolveAll_advances hsession).2.2 hok
  exact ReferenceTable.exists_ready hname (not_pending_of_advances hadv name)

theorem exists_object (hp : p.IsPlain) (h : Visits p nodes s defs)
    (hd : OrderedMap.find? name defs = some (.object d)) :
    ∃ own bases o, Built p s name o own bases ∧ s.table.object? name = some o ∧
      d = s.completed name o := by
  cases hname : s.table.contains name with
  | false =>
    rw [h.find?_eq_none hname] at hd
    cases hd
  | true =>
    obtain ⟨x, hx⟩ := h.exists_ready hname
    cases x with
    | enum e =>
      rw [h.find?_enum hx] at hd
      cases hd
    | object o =>
      obtain ⟨own, bases, hbuilt⟩ := (h.explained hp).origin name _ hx
      have ho := ReferenceTable.object?_eq_some_iff.mpr hx
      rw [h.find?_object ho] at hd
      exact ⟨own, bases, o, hbuilt, ho, (Definition.object.inj (Option.some.inj hd)).symm⟩

theorem whole (hp : p.IsPlain) (h : Visits p nodes s defs) (hname : ComesWhole p s name)
    (hd : OrderedMap.find? name defs = some (.object d)) : Whole p name d := by
  induction hname generalizing d with
  | @intro name hlisted hfirst hbases ih =>
    obtain ⟨own, bases, o, hbuilt, -, rfl⟩ := h.exists_object hp hd
    obtain ⟨t, hrun, hfind⟩ := h.runs
    have hself := (ComesWhole.intro hlisted hfirst hbases).not_mem
    have harrivals : List.Forall₂ (Whole p) (copies name s.deferred)
        (arrivals name s.table s.deferred) := by
      have hwhole : ∀ n ∈ copies name s.deferred, ∀ x,
          OrderedMap.find? n defs = some (.object x) → Whole p n x := fun n hn x hx => ih n hn hx
      refine ((List.forall₂_and_left _ _).mpr ⟨hwhole, arrivals_final hrun hself hfirst⟩).imp ?_
      rintro n x ⟨hn, hx⟩
      refine hn x ?_
      rw [hfind, ReferenceTable.get?_eq_some_iff]
      exact ReferenceTable.object?_eq_some_iff.mp hx
    have hsplit := filter_not_append_filter (hlisted own bases hbuilt.declared)
    rw [hbuilt.later] at hsplit
    have hextended := hbuilt.taken.foldl_inherit harrivals
    rw [hsplit] at hextended
    exact ⟨own, bases, hbuilt.declared, hextended⟩

section Orders

variable {nodes₁ nodes₂ : List TypeNode} (hp : p.IsPlain) (hperm : nodes₁.Perm nodes₂)
variable (h₁ : Visits p nodes₁ s₁ defs₁) (h₂ : Visits p nodes₂ s₂ defs₂)

include hp hperm h₁ h₂

theorem eq_or_built (name : String) :
    OrderedMap.find? name defs₁ = OrderedMap.find? name defs₂ ∨
      ∃ own bases o₁ o₂, Built p s₁ name o₁ own bases ∧ Built p s₂ name o₂ own bases ∧
        s₁.table.object? name = some o₁ ∧ s₂.table.object? name = some o₂ := by
  have hcontains : s₁.table.contains name = s₂.table.contains name := by
    rw [Bool.eq_iff_iff, h₁.contains_iff hp, h₂.contains_iff hp]
    simp only [hperm.mem_iff]
  have hs₁ := h₁.explained hp
  have hs₂ := h₂.explained hp
  cases hname : s₁.table.contains name with
  | false =>
    rw [h₁.find?_eq_none hname, h₂.find?_eq_none (hcontains ▸ hname)]
    exact .inl rfl
  | true =>
    obtain ⟨x₁, hx₁⟩ := h₁.exists_ready hname
    obtain ⟨x₂, hx₂⟩ := h₂.exists_ready (hcontains ▸ hname)
    cases x₁ with
    | object o₁ =>
      obtain ⟨own, bases, hbuilt₁⟩ := hs₁.origin name _ hx₁
      obtain ⟨node, ctx, b, hplan⟩ := hbuilt₁.declared.defines
      obtain ⟨o₂, own₂, bases₂, rfl, hbuilt₂⟩ := hs₂.built_of_define hp hplan hx₂
      obtain ⟨rfl, rfl⟩ := hbuilt₁.declared.unique hp hbuilt₂.declared
      exact .inr ⟨own, bases, o₁, o₂, hbuilt₁, hbuilt₂,
        ReferenceTable.object?_eq_some_iff.mpr hx₁, ReferenceTable.object?_eq_some_iff.mpr hx₂⟩
    | enum e₁ =>
      obtain ⟨node₁, ctx₁, hplan₁⟩ := hs₁.origin name _ hx₁
      cases x₂ with
      | object o₂ =>
        obtain ⟨own, bases, hbuilt₂⟩ := hs₂.origin name _ hx₂
        obtain ⟨node, ctx, b, hplan⟩ := hbuilt₂.declared.defines
        exact absurd hplan₁ (register_ne_of_define hp hplan (hs₁.table.named name _ hx₁))
      | enum e₂ =>
        obtain ⟨node₂, ctx₂, hplan₂⟩ := hs₂.origin name _ hx₂
        have hname₁ : e₁.name = name := hs₁.table.named name _ hx₁
        have hname₂ : e₂.name = name := hs₂.table.named name _ hx₂
        have hplan : plan p node₁ ctx₁ = plan p node₂ ctx₂ :=
          plan_unique hp (by rw [hplan₁, Plan.name?, hname₁]) (by rw [hplan₂, Plan.name?, hname₂])
        obtain rfl : e₁ = e₂ := by simpa [hplan₁, hplan₂] using hplan
        rw [h₁.find?_enum hx₁, h₂.find?_enum hx₂]
        exact .inl rfl

end Orders
end Visits

end Resolver

open Resolver

/-- Two orders of the same nodes give a name different definitions exactly when it is an object type
that waits for a base in one of them, and what arrives makes it gain different things beyond what it
declares. They agree on a name that comes whole in both. -/
theorem definitions_differ_only_by_arrivals {p : Program} (hp : p.IsPlain)
    {nodes₁ nodes₂ : List TypeNode} (hperm : nodes₁.Perm nodes₂) {s₁ s₂ : ResolverState}
    {defs₁ defs₂ : OrderedMap Definition} (h₁ : Visits p nodes₁ s₁ defs₁)
    (h₂ : Visits p nodes₂ s₂ defs₂) :
    (∀ name, OrderedMap.find? name defs₁ ≠ OrderedMap.find? name defs₂ ↔
      ∃ own bases o₁ o₂, Declared p name own bases ∧ (Awaits s₁ name ∨ Awaits s₂ name) ∧
        s₁.table.object? name = some o₁ ∧ s₂.table.object? name = some o₂ ∧
        o₁.Extends own ∧ o₂.Extends own ∧
        own.gained (s₁.completed name o₁) ≠ own.gained (s₂.completed name o₂)) ∧
    ∀ name, ComesWhole p s₁ name → ComesWhole p s₂ name →
      OrderedMap.find? name defs₁ = OrderedMap.find? name defs₂ := by
  have hagree : ∀ name, ComesWhole p s₁ name → ComesWhole p s₂ name →
      OrderedMap.find? name defs₁ = OrderedMap.find? name defs₂ := by
    intro name hname₁ hname₂
    obtain heq | ⟨own, bases, o₁, o₂, -, -, ho₁, ho₂⟩ := Visits.eq_or_built hp hperm h₁ h₂ name
    · exact heq
    have hfind₁ := h₁.find?_object ho₁
    have hfind₂ := h₂.find?_object ho₂
    rw [hfind₁, hfind₂, (h₁.whole hp hname₁ hfind₁).unique hp (h₂.whole hp hname₂ hfind₂)]
  refine ⟨fun name => ⟨fun hne => ?_, ?_⟩, hagree⟩
  · obtain heq | ⟨own, bases, o₁, o₂, hbuilt₁, hbuilt₂, ho₁, ho₂⟩ :=
      Visits.eq_or_built hp hperm h₁ h₂ name
    · exact absurd heq hne
    have hextends₁ := hbuilt₁.taken.extends_own
    have hextends₂ := hbuilt₂.taken.extends_own
    refine ⟨own, bases, o₁, o₂, hbuilt₁.declared, ?_, ho₁, ho₂, hextends₁, hextends₂, ?_⟩
    · by_contra hwait
      obtain ⟨hwait₁, hwait₂⟩ := not_or.mp hwait
      exact hne (hagree name (.of_not_awaits hwait₁) (.of_not_awaits hwait₂))
    · intro hgained
      have hfinal₁ := (s₁.completed_extends name o₁).trans hextends₁
      have hfinal₂ := (s₂.completed_extends name o₂).trans hextends₂
      have heq := (hfinal₁.eq_iff hfinal₂).mpr (Prod.mk.inj hgained)
      exact hne (by rw [h₁.find?_object ho₁, h₂.find?_object ho₂, heq])
  · rintro ⟨own, bases, o₁, o₂, -, -, ho₁, ho₂, -, -, hgained⟩ heq
    rw [h₁.find?_object ho₁, h₂.find?_object ho₂] at heq
    rw [Definition.object.inj (Option.some.inj heq)] at hgained
    exact hgained rfl

/-! ## Two programs -/

theorem Resolver.visits_of_concludes (p : Program) (depth : Nat) (nodes : List TypeNode)
    (check : ResolverState → OrderedMap Definition → Bool)
    (h : concludes p depth (nodes.map fun node => (node, {}))
      (fun outcomes s defs => outcomes.all (·.isOk) && check s defs) = true) :
    ∃ s defs, Visits p nodes s defs ∧ check s defs = true := by
  obtain ⟨outcomes, s, defs, hsession, hfinish, hcheck⟩ := concludes_iff.mp h
  simp only [Bool.and_eq_true, List.all_eq_true] at hcheck
  exact ⟨s, defs, ⟨depth, outcomes, hsession, hcheck.1, hfinish⟩, hcheck.2⟩

theorem Resolver.trees_leaf_bases {own : ObjectDefinition} {bases : List String}
    (h : Declared .trees "Leaf" own bases) : bases.length = 1 := by
  obtain ⟨node, ctx, b, hplan, -, hbases⟩ := h
  have hname : (plan .trees node ctx).name? = some "Leaf" := by rw [hplan, Plan.name?]
  have heq : plan .trees node ctx = plan .trees (.named "Leaf") {} :=
    plan_unique Program.trees_isPlain hname rfl
  obtain rfl : b = _ := (Plan.define.inj (hplan.symm.trans heq)).2
  exact hbases.length_eq.symm

theorem Resolver.trees_comesWhole {s : ResolverState}
    (h : s.deferred = [.link "Node" "Leaf", .inherit "Leaf" "Node"]) (name : String) :
    ComesWhole .trees s name := by
  by_cases hname : name = "Leaf"
  · subst hname
    have hcopies : copies "Leaf" s.deferred = ["Node"] := by rw [h]; rfl
    refine .intro (fun own bases hdeclared => ?_) (fun n hn => ?_) (fun n hn => ?_)
    · obtain ⟨base, rfl⟩ := List.length_eq_one_iff.mp (trees_leaf_bases hdeclared)
      exact List.pairwise_singleton _ _
    all_goals obtain rfl : n = "Node" := by simpa [hcopies] using hn
    · exact .of_notMem fun x => by simp [h]
    · exact .of_not_awaits fun ⟨base, hmem⟩ => by simp [h] at hmem
  · exact .of_not_awaits fun ⟨base, hmem⟩ => by simp [h, hname] at hmem

theorem trees_order_does_not_show :
    ∃ s₁ s₂ defs₁ defs₂, Visits .trees [.named "Node", .named "Leaf"] s₁ defs₁ ∧
      Visits .trees [.named "Leaf", .named "Node"] s₂ defs₂ ∧
      Awaits s₁ "Leaf" ∧ ¬ Awaits s₂ "Leaf" ∧
      ∀ name, OrderedMap.find? name defs₁ = OrderedMap.find? name defs₂ := by
  obtain ⟨s₁, defs₁, h₁, hcheck₁⟩ := visits_of_concludes .trees 20 [.named "Node", .named "Leaf"]
    (fun s _ => decide (s.deferred = [.link "Node" "Leaf", .inherit "Leaf" "Node"]))
    (by decide +kernel)
  obtain ⟨s₂, defs₂, h₂, hcheck₂⟩ := visits_of_concludes .trees 20 [.named "Leaf", .named "Node"]
    (fun s _ => decide (s.deferred = [.link "Leaf" "Node"])) (by decide +kernel)
  have hdeferred₁ := of_decide_eq_true hcheck₁
  have hdeferred₂ := of_decide_eq_true hcheck₂
  have hnone₂ : ∀ name, ¬ Awaits s₂ name := by
    rintro name ⟨base, hmem⟩
    simp [hdeferred₂] at hmem
  refine ⟨s₁, s₂, defs₁, defs₂, h₁, h₂, ⟨"Node", by simp [hdeferred₁]⟩, hnone₂ "Leaf", ?_⟩
  exact fun name => (definitions_differ_only_by_arrivals Program.trees_isPlain (.swap _ _ _) h₁ h₂).2
    name (trees_comesWhole hdeferred₁ name) (.of_not_awaits (hnone₂ name))

/-- The bottom lacks what the middle has from the top when the top is visited before it. -/
theorem steps_order_shows :
    Program.steps.IsPlain ∧
    [TypeNode.named "Top", .named "Bottom"].Perm [.named "Bottom", .named "Top"] ∧
    ∃ s₁ s₂ defs₁ defs₂, Visits .steps [.named "Top", .named "Bottom"] s₁ defs₁ ∧
      Visits .steps [.named "Bottom", .named "Top"] s₂ defs₂ ∧
      OrderedMap.find? "Bottom" defs₁ ≠ OrderedMap.find? "Bottom" defs₂ := by
  obtain ⟨s₁, defs₁, h₁, hcheck₁⟩ := visits_of_concludes .steps 20 [.named "Top", .named "Bottom"]
    (fun _ defs => !(OrderedMap.find? "Bottom" defs).any
      fun d => d.object?.any (·.declares "id")) (by decide +kernel)
  obtain ⟨s₂, defs₂, h₂, hcheck₂⟩ := visits_of_concludes .steps 20 [.named "Bottom", .named "Top"]
    (fun _ defs => (OrderedMap.find? "Bottom" defs).any
      fun d => d.object?.any (·.declares "id")) (by decide +kernel)
  refine ⟨by decide, .swap _ _ _, s₁, s₂, defs₁, defs₂, h₁, h₂, fun heq => ?_⟩
  rw [heq, hcheck₂] at hcheck₁
  cases hcheck₁

end DecoratedApi
