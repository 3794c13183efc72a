import DecoratedApi.Proofs.Calls
import DecoratedApi.Proofs.Depth
import DecoratedApi.Proofs.Session

/-!
# Inheritance

A type takes over what its base has when it is built, or what the base has when the deferred copy is
done. Either way it lacks at most what reaches the base later. The copies are done in the order in
which they were queued, and this order may put a copy from a base before the copies into it.
-/

namespace DecoratedApi

open Resolve

namespace Resolver

variable {p : Program} {depth : Nat} {calls : List (TypeNode × ResolveContext)}
variable {outcomes : List (Outcome ApiType)} {s : ResolverState} {key : String} {b : Blueprint}

/-- A call of the session, or a call within one, builds the definition under `key`. -/
def Builds (p : Program) (depth : Nat) (calls : List (TypeNode × ResolveContext)) (key : String)
    (b : Blueprint) : Prop :=
  ∃ before node ctx after outcomes s c, calls = before ++ (node, ctx) :: after ∧
    resolveAll p depth before {} = some (outcomes, s) ∧
    Relation.ReflTransGen (Call.Makes p) ⟨depth, node, ctx, s⟩ c ∧ c.Begins p key b

theorem resolveAll_append {before after : List (TypeNode × ResolveContext)}
    {firsts : List (Outcome ApiType)} {s₀ s₁ : ResolverState}
    (h : resolveAll p depth (before ++ after) s₀ = some (outcomes, s))
    (hbefore : resolveAll p depth before s₀ = some (firsts, s₁)) :
    ∃ others, resolveAll p depth after s₁ = some (others, s) ∧ outcomes = firsts ++ others := by
  induction before generalizing s₀ outcomes firsts with
  | nil =>
    obtain ⟨rfl, rfl⟩ : [] = firsts ∧ s₀ = s₁ := by simpa [resolveAll] using hbefore
    exact ⟨outcomes, h, rfl⟩
  | cons call rest ih =>
    obtain ⟨node, ctx⟩ := call
    obtain ⟨r, u, rs, hrun, hrest, rfl⟩ := resolveAll_cons.mp h
    obtain ⟨r', u', rs', hrun', hrest', rfl⟩ := resolveAll_cons.mp hbefore
    obtain ⟨rfl, rfl⟩ : r = r' ∧ u = u' := by simpa [hrun] using hrun'
    obtain ⟨others, hothers, rfl⟩ := ih hrest hrest'
    exact ⟨others, hothers, rfl⟩

theorem Builds.ended (hsession : resolveAll p depth calls {} = some (outcomes, s))
    (hok : ∀ r ∈ outcomes, r.isOk = true) (h : Builds p depth calls key b) :
    ∃ (depth' : Nat) (s₀ : ResolverState) (d : ObjectDefinition) (v : ResolverState),
      s₀.table.contains key = false ∧
      (b.build (resolve p depth') key).runFrom (s₀.opened key) = some (.ok d, v) ∧
      (v.closed d).Keeps s := by
  obtain ⟨before, node, ctx, after, firsts, s₁, c, rfl, hbefore, hmakes, hbegins⟩ := h
  obtain ⟨others, hothers, rfl⟩ := resolveAll_append hsession hbefore
  obtain ⟨r, s₂, rs, hrun, hrest, rfl⟩ := resolveAll_cons.mp hothers
  obtain ⟨t, rfl⟩ : ∃ t, r = .ok t := by
    have hr := hok r (by simp)
    cases r with
    | ok t => exact ⟨t, rfl⟩
    | error e => cases hr
  obtain ⟨u, hend, hkeeps⟩ := Call.endsIn_of_makes hmakes ⟨t, hrun⟩
  obtain ⟨depth₁, d, v, -, rfl, hbuild⟩ := hbegins.endsIn hend
  exact ⟨depth₁, c.start, d, v, hbegins.2, hbuild,
    hkeeps.trans (resolveAll_advances hrest).1.keeps⟩

theorem Builds.takesOver (hsession : resolveAll p depth calls {} = some (outcomes, s))
    (hok : ∀ r ∈ outcomes, r.isOk = true) (h : Builds p depth calls key b) :
    ∃ d, s.table.object? key = some d ∧
      ∀ base ∈ b.bases, ∀ depth' u u' name,
        (resolve p depth' base {}).runFrom u = some (.ok (.refObject name), u') →
        s.TakesOver d name := by
  obtain ⟨depth₁, s₀, d, v, hnew, hbuild, hkeeps⟩ := h.ended hsession hok
  obtain ⟨hslot, rfl, htakes⟩ := build_takesOver (resolve_advances p depth₁)
    (Building.opened hnew).slot hbuild
  have hready := hkeeps.ready d.name (.object d) (v.slot?_closed d)
  refine ⟨d, ReferenceTable.object?_eq_some_iff.mpr hready, ?_⟩
  intro base hmem depth' w w' name hname
  obtain ⟨name', x, x', hname', htake⟩ := htakes base hmem
  obtain rfl : name' = name := by simpa using resolve_answer_unique hname' hname
  exact htake.mono ((ResolverState.Keeps.closed hslot).trans hkeeps) rfl (.refl d)

theorem not_queued_of_complete (hs : s.WellFormed) {name : String}
    (h : s.table.isComplete name = true) (x : String) : .inherit name x ∉ s.deferred := by
  intro hmem
  obtain ⟨-, -, hwait⟩ := hs.inherits name x hmem
  rw [(ReferenceTable.isComplete_iff.mp h).2] at hwait
  cases hwait

theorem covers_of_takesOver (hs : s.WellFormed) {t : ReferenceTable} {base : String}
    {d b : ObjectDefinition} (hrun : Deferred.runAll s.table s.deferred = .ok t)
    (hd : s.table.object? key = some d) (h : s.TakesOver d base)
    (hb : t.object? base = some b) :
    ∃ c, t.object? key = some c ∧
      (c.Covers b ↔ ∀ y ∈ Deferred.lateArrivals key base s.table s.deferred, c.Covers y) := by
  obtain rfl : d.name = key :=
    hs.table.named key (.object d) (ReferenceTable.object?_eq_some_iff.mp hd)
  rcases h with hqueued | ⟨hcomplete, hcovers⟩
  · obtain ⟨c, b', hc, hb', hiff⟩ := Deferred.covers_base_iff hrun hqueued
    obtain rfl : b' = b := Option.some.inj (hb'.symm.trans hb)
    exact ⟨c, hc, hiff⟩
  · have hnone := not_queued_of_complete hs hcomplete
    -- Nothing is copied into the base, so it is in the end what it is now.
    have hb₀ : s.table.object? base = some b := by
      rw [ReferenceTable.object?_eq_some_iff, ← Deferred.runAll_slot? hrun hnone]
      exact ReferenceTable.object?_eq_some_iff.mp hb
    obtain ⟨c, hc, hcoversTarget⟩ := Deferred.covers_final_iff hrun hd
    have hcovered : c.Covers b := ((hcoversTarget c).mp (.refl c)).1.trans (hcovers b hb₀)
    refine ⟨c, hc, iff_of_true hcovered ?_⟩
    rw [Deferred.lateArrivals_eq_nil (.of_notMem hnone)]
    simp

end Resolver

open Resolver

/-- After a session without failures a type covers its base exactly when it covers what reached the
base late. When the copies into the base are queued before the copy from it, nothing is late. -/
theorem inherits_all_but_late_arrivals {p : Program} {depth depth' : Nat}
    {calls : List (TypeNode × ResolveContext)} {outcomes : List (Outcome ApiType)}
    {s u u' : ResolverState} {defs : OrderedMap Definition} {target base : String}
    {blueprint : Blueprint} {node : TypeNode} {b : ObjectDefinition}
    (hsession : resolveAll p depth calls {} = some (outcomes, s))
    (hok : ∀ r ∈ outcomes, r.isOk = true) (hfinish : finish s = .ok defs)
    (hbuilds : Builds p depth calls target blueprint) (hnode : node ∈ blueprint.bases)
    (hbase : (resolve p depth' node {}).runFrom u = some (.ok (.refObject base), u'))
    (hb : OrderedMap.find? base defs = some (.object b)) :
    ∃ c, OrderedMap.find? target defs = some (.object c) ∧
      (c.Covers b ↔ ∀ y ∈ Deferred.lateArrivals target base s.table s.deferred, c.Covers y) ∧
      (Deferred.BaseFirst target base s.deferred → c.Covers b) := by
  obtain ⟨-, hwell, -⟩ := resolveAll_advances hsession
  obtain ⟨d, hd, hbases⟩ := hbuilds.takesOver hsession hok
  obtain ⟨t, hrun, hdefs⟩ := finish_ok.mp hfinish
  have hfind : ∀ name o, OrderedMap.find? name defs = some (.object o) ↔ t.object? name = some o := by
    intro name o
    rw [ReferenceTable.find?_definitions hdefs, ReferenceTable.get?_eq_some_iff,
      ReferenceTable.object?_eq_some_iff]
  rw [hfind] at hb
  have htakes := hbases node hnode depth' u u' base hbase
  obtain ⟨c, hc, hiff⟩ := covers_of_takesOver (hwell .fresh) hrun hd htakes hb
  refine ⟨c, (hfind target c).mpr hc, hiff, fun hfirst => hiff.mpr ?_⟩
  rw [Deferred.lateArrivals_eq_nil hfirst]
  simp

/-! ## Two sessions -/

theorem Resolver.Blueprint.Asks.first {self : Recursor} {b : Blueprint} {key : String}
    {s : ResolverState} (m : PropertyDecl) {after : List PropertyDecl}
    (h : b.members = m :: after) :
    b.Asks self key s (propertyNode m) { hints := .ofDoc m.doc } s :=
  .member (show b.members = [] ++ m :: after from h) rfl

theorem trees_leaves_inherit :
    ∃ outcomes s defs c b,
      resolveAll .trees 20 [(.named "Node", {})] {} = some (outcomes, s) ∧ finish s = .ok defs ∧
      .inherit "Leaf" "Node" ∈ s.deferred ∧
      OrderedMap.find? "Leaf" defs = some (.object c) ∧
      OrderedMap.find? "Node" defs = some (.object b) ∧ c.Covers b := by
  have hrun : concludes .trees 20 [(.named "Node", {})] (fun outcomes s defs =>
      outcomes.all (·.isOk) && decide (s.deferred = [.link "Node" "Leaf", .inherit "Leaf" "Node"]) &&
        (OrderedMap.find? "Node" defs).any (·.object?.isSome)) = true := by decide +kernel
  obtain ⟨outcomes, s, defs, hsession, hfinish, hcheck⟩ := concludes_iff.mp hrun
  simp only [Bool.and_eq_true, List.all_eq_true, decide_eq_true_eq] at hcheck
  obtain ⟨⟨hok, hdeferred⟩, hnode⟩ := hcheck
  obtain ⟨b, hb⟩ : ∃ b, OrderedMap.find? "Node" defs = some (.object b) := by
    obtain ⟨d, hd, hobject⟩ := (Option.any_eq_true _ _).mp hnode
    cases d with
    | object b => exact ⟨b, hd⟩
    | enum e => cases hobject
  have hbuilds : Builds .trees 20 [(.named "Node", {})] "Leaf"
      { description := none, initializedIsOptional := false
        members := [.plain "color" (.keyword .string)], index := none, bases := [.named "Node"] } :=
    ⟨[], .named "Node", {}, [], [], {}, ⟨18, .named "Leaf", {}, .opened {} "Node"⟩, rfl, rfl,
      .tail (.single (.part ⟨rfl, rfl⟩ (.first (.plain "leaves" (.array (.named "Leaf"))) rfl)))
        (.element rfl), rfl, rfl⟩
  obtain ⟨u, hbase⟩ : ∃ u, (resolve .trees 20 (.named "Node") {}).runFrom {} =
      some (.ok (.refObject "Node"), u) := ⟨_, rfl⟩
  obtain ⟨c, hc, -, hfirst⟩ := inherits_all_but_late_arrivals hsession hok hfinish hbuilds
    List.mem_cons_self hbase hb
  refine ⟨outcomes, s, defs, c, b, hsession, hfinish, by simp [hdeferred], hc, hb, hfirst ?_⟩
  exact .of_notMem fun x => by simp [hdeferred]

/-- The top mentions the middle and the middle mentions the bottom, and each extends the one
before. -/
def Program.steps : Program :=
  { units := [
      { path := "steps.ts"
        imports := []
        declarations := [
          .plainInterface "Top" [] [.plain "middle" (.named "Middle"), .plain "id" (.keyword .string)],
          .plainInterface "Middle" [.named "Top"] [.plain "bottom" (.named "Bottom")],
          .plainInterface "Bottom" [.named "Middle"] [.plain "label" (.keyword .string)]] }] }

theorem Definition.exists_object {found : Option Definition} {check : ObjectDefinition → Bool}
    (h : found.any (fun d => d.object?.any check) = true) :
    ∃ o, found = some (.object o) ∧ check o = true := by
  obtain ⟨d, hd, hobject⟩ := (Option.any_eq_true _ _).mp h
  cases d with
  | object o => exact ⟨o, hd, hobject⟩
  | enum e => cases hobject

/-- The bottom is built first, so its copy from the middle is queued before the copy from the top
into the middle. -/
theorem steps_bottom_lacks_id :
    ∃ outcomes s defs blueprint u c b,
      resolveAll .steps 20 [(.named "Top", {})] {} = some (outcomes, s) ∧
      (∀ r ∈ outcomes, r.isOk = true) ∧ finish s = .ok defs ∧
      Builds .steps 20 [(.named "Top", {})] "Bottom" blueprint ∧
      .named "Middle" ∈ blueprint.bases ∧
      (resolve .steps 20 (.named "Middle") {}).runFrom {} = some (.ok (.refObject "Middle"), u) ∧
      OrderedMap.find? "Bottom" defs = some (.object c) ∧
      OrderedMap.find? "Middle" defs = some (.object b) ∧
      b.declares "id" = true ∧ c.declares "id" = false ∧ ¬ c.Covers b := by
  have hrun : concludes .steps 20 [(.named "Top", {})] (fun outcomes _ defs =>
      outcomes.all (·.isOk) &&
        ((OrderedMap.find? "Bottom" defs).any fun d => d.object?.any fun c => !c.declares "id") &&
        (OrderedMap.find? "Middle" defs).any fun d => d.object?.any (·.declares "id")) = true := by
    decide +kernel
  obtain ⟨outcomes, s, defs, hsession, hfinish, hcheck⟩ := concludes_iff.mp hrun
  simp only [Bool.and_eq_true, List.all_eq_true] at hcheck
  obtain ⟨⟨hok, hbottom⟩, hmiddle⟩ := hcheck
  obtain ⟨c, hc, hlacks⟩ := Definition.exists_object hbottom
  obtain ⟨b, hb, hdeclares⟩ := Definition.exists_object hmiddle
  have hnone : c.declares "id" = false := by simpa using hlacks
  have hbuilds : Builds .steps 20 [(.named "Top", {})] "Bottom"
      { description := none, initializedIsOptional := false
        members := [.plain "label" (.keyword .string)], index := none
        bases := [.named "Middle"] } :=
    ⟨[], .named "Top", {}, [], [], {},
      ⟨18, .named "Bottom", {}, .opened (.opened {} "Top") "Middle"⟩, rfl, rfl,
      .tail (.single (.part ⟨rfl, rfl⟩ (.first (.plain "middle" (.named "Middle")) rfl)))
        (.part ⟨rfl, rfl⟩ (.first (.plain "bottom" (.named "Bottom")) rfl)), rfl, rfl⟩
  refine ⟨outcomes, s, defs, _, _, c, b, hsession, hok, hfinish, hbuilds, List.mem_cons_self, rfl,
    hc, hb, hdeclares, hnone, fun hcovers => ?_⟩
  have hid := hcovers.1 "id" hdeclares
  rw [hnone] at hid
  cases hid

end DecoratedApi
