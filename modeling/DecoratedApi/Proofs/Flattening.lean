import DecoratedApi.Proofs.Permanence

/-!
# Flattened definitions

A type takes over a complete base at once, and what is complete stays as it is. So when no copy had
to be deferred, each object type is in the end what it declares itself, followed by what its bases
have in the end, as far as the names have not come before.
-/

namespace DecoratedApi

open Resolve

/-! ## Taking over one base after the other -/

/-- The properties in order, without those whose names are in the list or have come before. -/
def Property.unseen (seen : List String) : List Property → List Property
  | [] => []
  | q :: rest =>
    if q.name ∈ seen then unseen seen rest else q :: unseen (seen ++ [q.name]) rest

namespace ObjectDefinition

theorem foldl_addMissing (qs ps : List Property) :
    qs.foldl addMissing ps = ps ++ Property.unseen (ps.map (·.name)) qs := by
  induction qs generalizing ps with
  | nil => simp [Property.unseen]
  | cons q rest ih =>
    rw [List.foldl_cons, ih, addMissing, Property.unseen]
    by_cases h : q.name ∈ ps.map (·.name)
    · have hany : ps.any (·.name == q.name) = true := by simpa using h
      rw [if_pos hany, if_pos h]
    · have hany : ¬ ps.any (·.name == q.name) = true := by simpa using h
      rw [if_neg hany, if_neg h]
      simp

theorem description_foldl_inherit (bs : List ObjectDefinition) (d : ObjectDefinition) :
    (bs.foldl inherit d).description = d.description := by
  induction bs generalizing d with
  | nil => rfl
  | cons b rest ih => rw [List.foldl_cons, ih, inherit]

theorem properties_foldl_inherit (bs : List ObjectDefinition) (d : ObjectDefinition) :
    (bs.foldl inherit d).properties =
      d.properties ++
        Property.unseen (d.properties.map (·.name)) (bs.flatMap (·.properties)) := by
  rw [← foldl_addMissing]
  induction bs generalizing d with
  | nil => rfl
  | cons b rest ih => rw [List.foldl_cons, ih, List.flatMap_cons, List.foldl_append, inherit]

theorem additional_foldl_inherit (bs : List ObjectDefinition) (d : ObjectDefinition) :
    (bs.foldl inherit d).additional = (d.additional <|> bs.findSome? (·.additional)) := by
  induction bs generalizing d with
  | nil => simp
  | cons b rest ih =>
    rw [List.foldl_cons, ih, inherit]
    cases hd : d.additional <;> cases hb : b.additional <;> simp [hb]

end ObjectDefinition

namespace Resolver

variable {p : Program} {depth : Nat} {s s' : ResolverState}

theorem inheritAll_flattens {d d' : ObjectDefinition} {bases : List TypeNode}
    (hslot : s.table.slot? d.name = some .pending)
    (h : (inheritAll (resolve p depth) d bases).runFrom s = some (.ok d', s'))
    (hnone : ∀ x, .inherit d.name x ∉ s'.deferred) :
    ∃ names, List.Forall₂ (fun base n => Answers p base {} (.refObject n)) bases names ∧
      (∀ n ∈ names, s'.table.isComplete n = true) ∧
      d' = (names.filterMap s'.table.object?).foldl .inherit d := by
  induction bases generalizing s d with
  | nil =>
    cases h
    exact ⟨[], .nil, by simp, rfl⟩
  | cons base rest ih =>
    obtain ⟨d₁, s₁, hone, hrest⟩ := runFrom_bind_ok.mp h
    have hself := resolve_advances p depth
    obtain ⟨-, -, -, -, -, hslot₁, hname, -, -⟩ := inheritOne_takesOver hself hslot hone
    rw [← hname] at hslot₁ hnone
    have hkeeps := (inheritAll_takesOver hself hslot₁ hrest).1
    obtain ⟨n, u, hbase, ⟨hcomplete, rfl, rfl⟩ | ⟨-, rfl, rfl⟩⟩ := inheritOne_ok hone
    · obtain ⟨names, hnames, hall, rfl⟩ := ih hslot₁ hrest hnone
      obtain ⟨hcomplete', hget⟩ := hkeeps.keepsComplete n hcomplete
      refine ⟨n :: names, .cons ⟨depth, s, s₁, hbase⟩ hnames, by simpa using ⟨hcomplete', hall⟩, ?_⟩
      have hobject : s'.table.object? n = s₁.table.object? n := by
        rw [ReferenceTable.object?, hget, ReferenceTable.object?]
      cases hfound : s₁.table.object? n <;> simp [hobject, hfound]
    · exact absurd (hkeeps.queued _ (List.mem_append_right _ List.mem_cons_self)) (hnone n)

/-! ## What is in the table has been built -/

/-- The call, or a call within it, begins the definition under `key`. -/
def Call.BeginsWithin (p : Program) (c : Call) (key : String) : Prop :=
  ∃ c' b, Relation.ReflTransGen (Call.Makes p) c c' ∧ c'.Begins p key b

theorem Call.BeginsWithin.head {c c' : Call} {key : String} (h : c'.BeginsWithin p key)
    (hmakes : Call.Makes p c c') : c.BeginsWithin p key := by
  obtain ⟨c'', b, hcalls, hbegins⟩ := h
  exact ⟨c'', b, .head hmakes hcalls, hbegins⟩

/-- Every object that is ready in `s'` and was not in `s` has the property. -/
def NewObjects (s s' : ResolverState) (P : String → Prop) : Prop :=
  ∀ key o, s'.table.slot? key = some (.ready (.object o)) →
    s.table.slot? key = some (.ready (.object o)) ∨ P key

namespace NewObjects

variable {s'' : ResolverState} {P Q : String → Prop}

theorem refl (s : ResolverState) : NewObjects s s P := fun _ _ h => .inl h

theorem mono (h : NewObjects s s' P) (hPQ : ∀ key, P key → Q key) : NewObjects s s' Q :=
  fun key o ho => (h key o ho).imp_right (hPQ key)

theorem trans (h : NewObjects s s' P) (h' : NewObjects s' s'' P) : NewObjects s s'' P := by
  intro key o ho
  rcases h' key o ho with ho | hP
  · exact h key o ho
  · exact .inr hP

end NewObjects

section Build

variable (hself : ∀ node ctx s t s', (resolve p depth node ctx).runFrom s = some (.ok t, s') →
  NewObjects s s' (Call.BeginsWithin p ⟨depth, node, ctx, s⟩))

include hself

theorem properties_newObjects {flag : Bool} {ms : List PropertyDecl} {qs : List Property}
    (h : (properties (resolve p depth) flag ms).runFrom s = some (.ok qs, s')) :
    NewObjects s s' fun key => ∃ before m after ps u, ms = before ++ m :: after ∧
      (properties (resolve p depth) flag before).runFrom s = some (.ok ps, u) ∧
      Call.BeginsWithin p ⟨depth, propertyNode m, { hints := .ofDoc m.doc }, u⟩ key := by
  induction ms generalizing s qs with
  | nil =>
    cases h
    exact .refl _
  | cons m rest ih =>
    obtain ⟨q, s₁, hq, hmore⟩ := runFrom_bind_ok.mp h
    obtain ⟨qs', s₂, hqs, hpure⟩ := runFrom_bind_ok.mp hmore
    cases hpure
    have hfirst := hself _ _ _ _ _ (property_ok hq)
    refine (hfirst.mono fun key hkey => ?_).trans ((ih hqs).mono fun key hkey => ?_)
    · exact ⟨[], m, rest, [], s, rfl, rfl, hkey⟩
    · obtain ⟨before, m', after, ps, u, rfl, hps, hbegins⟩ := hkey
      refine ⟨m :: before, m', after, q :: ps, u, rfl, ?_, hbegins⟩
      exact runFrom_bind_ok.mpr ⟨q, s₁, hq, runFrom_bind_ok.mpr ⟨ps, u, hps, rfl⟩⟩

theorem inheritAll_newObjects {d d' : ObjectDefinition} {bases : List TypeNode}
    (h : (inheritAll (resolve p depth) d bases).runFrom s = some (.ok d', s')) :
    NewObjects s s' fun key => ∃ before base after d₁ u, bases = before ++ base :: after ∧
      (inheritAll (resolve p depth) d before).runFrom s = some (.ok d₁, u) ∧
      Call.BeginsWithin p ⟨depth, base, {}, u⟩ key := by
  induction bases generalizing s d with
  | nil =>
    cases h
    exact .refl _
  | cons base rest ih =>
    obtain ⟨d₁, s₁, hone, hrest⟩ := runFrom_bind_ok.mp h
    obtain ⟨n, u, hbase, hcase⟩ := inheritOne_ok hone
    have hfirst : NewObjects s s₁ (Call.BeginsWithin p ⟨depth, base, {}, s⟩) := by
      -- To postpone the base changes no slot.
      rcases hcase with ⟨-, -, rfl⟩ | ⟨-, -, rfl⟩ <;>
        exact fun key o ho => hself _ _ _ _ _ hbase key o ho
    refine (hfirst.mono fun key hkey => ?_).trans ((ih hrest).mono fun key hkey => ?_)
    · exact ⟨[], base, rest, d, s, rfl, rfl, hkey⟩
    · obtain ⟨before, base', after, d₂, v, rfl, hbefore, hbegins⟩ := hkey
      exact ⟨base :: before, base', after, d₂, v, rfl,
        runFrom_bind_ok.mpr ⟨d₁, s₁, hone, hbefore⟩, hbegins⟩

theorem build_newObjects {b : Blueprint} {key : String} {d : ObjectDefinition}
    (h : (b.build (resolve p depth) key).runFrom s = some (.ok d, s')) :
    NewObjects s s' fun n => ∃ node ctx u, b.Asks (resolve p depth) key s node ctx u ∧
      Call.BeginsWithin p ⟨depth, node, ctx, u⟩ n := by
  obtain ⟨ps, s₁, extra, s₂, hps, hextra, hrest⟩ := build_ok.mp h
  refine ((properties_newObjects hself hps).mono fun n hn => ?_).trans
    (.trans ?_ ((inheritAll_newObjects hself hrest).mono fun n hn => ?_))
  · obtain ⟨before, m, after, qs, u, hmembers, hqs, hbegins⟩ := hn
    exact ⟨_, _, u, .member hmembers hqs, hbegins⟩
  · cases hindex : b.index with
    | none =>
      rw [hindex] at hextra
      cases hextra
      exact .refl _
    | some node =>
      rw [hindex] at hextra
      obtain ⟨t, u, ht, hpure⟩ := runFrom_bind_ok.mp hextra
      cases hpure
      exact (hself _ _ _ _ _ ht).mono fun n hn => ⟨node, {}, s₁, .index hindex hps, hn⟩
  · obtain ⟨before, base, after, d₁, u, hbases, hbefore, hbegins⟩ := hn
    exact ⟨base, {}, u, .base hbases hps hextra hbefore, hbegins⟩

end Build

theorem resolve_newObjects (p : Program) (depth : Nat) (node : TypeNode) (ctx : ResolveContext)
    (s : ResolverState) (t : ApiType) (s' : ResolverState)
    (h : (resolve p depth node ctx).runFrom s = some (.ok t, s')) :
    NewObjects s s' (Call.BeginsWithin p ⟨depth, node, ctx, s⟩) := by
  induction depth generalizing node ctx s t s' with
  | zero => simp [resolve_zero] at h
  | succ depth ih =>
    rw [resolve_succ] at h
    cases hplan : plan p node ctx with
    | answer o =>
      rw [hplan] at h
      cases h
      exact .refl s
    | same node' =>
      rw [hplan] at h
      exact (ih _ _ _ _ _ h).mono fun key hkey => hkey.head (.same hplan)
    | list node' =>
      rw [hplan] at h
      obtain ⟨t', u, ht', hpure⟩ := runFrom_bind_ok.mp h
      cases hpure
      exact (ih _ _ _ _ _ ht').mono fun key hkey => hkey.head (.element hplan)
    | register e =>
      rw [hplan, Plan.run, registered_run] at h
      cases h
      split
      · exact .refl s
      · intro key o ho
        rw [ResolverState.enrolled, ReferenceTable.slot?_fill] at ho
        split at ho
        · cases ho
        · exact .inl ho
    | define key b =>
      rw [hplan, Plan.run] at h
      cases hkey : s.table.contains key with
      | true =>
        rw [reference_known hkey] at h
        cases h
        split <;> exact .refl s
      | false =>
        rw [reference_new hkey] at h
        split at h
        · cases h
        · next d u hbuild =>
          cases h
          have hbegins : Call.Begins p ⟨depth + 1, node, ctx, s⟩ key b := ⟨hplan, hkey⟩
          have hname := (build_takesOver (resolve_advances p depth) (Building.opened hkey).slot
            hbuild).2.1
          intro n o ho
          rw [ResolverState.closed, ReferenceTable.slot?_fill] at ho
          split at ho
          · next hn =>
            rw [Definition.name_object, hname] at hn
            exact .inr ⟨_, b, .refl, hn ▸ hbegins⟩
          · rcases build_newObjects ih hbuild n o ho with hold | ⟨node', ctx', v, hasks, hwithin⟩
            · rw [ResolverState.opened, ReferenceTable.slot?_reserve hkey] at hold
              split at hold
              · cases hold
              · exact .inl hold
            · exact .inr (hwithin.head (.part hbegins hasks))
        · cases h

variable {calls : List (TypeNode × ResolveContext)} {outcomes : List (Outcome ApiType)}

theorem resolveAll_newObjects (h : resolveAll p depth calls s = some (outcomes, s'))
    (hok : ∀ r ∈ outcomes, r.isOk = true) :
    NewObjects s s' fun key => ∃ before node ctx after firsts u,
      calls = before ++ (node, ctx) :: after ∧ resolveAll p depth before s = some (firsts, u) ∧
      Call.BeginsWithin p ⟨depth, node, ctx, u⟩ key := by
  induction calls generalizing s outcomes with
  | nil =>
    cases h
    exact .refl _
  | cons call rest ih =>
    obtain ⟨node, ctx⟩ := call
    obtain ⟨r, s₁, rs, hrun, hrest, rfl⟩ := resolveAll_cons.mp h
    cases r with
    | error e => cases hok (.error e) List.mem_cons_self
    | ok t =>
      have hfirst := resolve_newObjects p depth node ctx s t s₁ hrun
      have hmore := ih hrest fun r' hr' => hok r' (List.mem_cons_of_mem _ hr')
      refine (hfirst.mono fun key hkey => ?_).trans (hmore.mono fun key hkey => ?_)
      · exact ⟨[], node, ctx, rest, [], s, rfl, rfl, hkey⟩
      · obtain ⟨before, node', ctx', after, firsts, u, rfl, hbefore, hbegins⟩ := hkey
        refine ⟨(node, ctx) :: before, node', ctx', after, .ok t :: firsts, u, rfl, ?_, hbegins⟩
        exact resolveAll_cons.mpr ⟨_, s₁, firsts, hrun, hbefore, rfl⟩

theorem builds_of_object (hsession : resolveAll p depth calls {} = some (outcomes, s))
    (hok : ∀ r ∈ outcomes, r.isOk = true) {key : String} {o : ObjectDefinition}
    (h : s.table.slot? key = some (.ready (.object o))) : ∃ b, Builds p depth calls key b := by
  rcases resolveAll_newObjects hsession hok key o h with hfresh | hbuilt
  · cases hfresh
  · obtain ⟨before, node, ctx, after, firsts, u, hcalls, hbefore, c, b, hmakes, hbegins⟩ := hbuilt
    exact ⟨b, before, node, ctx, after, firsts, u, c, hcalls, hbefore, hmakes, hbegins⟩

/-! ## Definitions in the end -/

theorem Builds.declaration {key : String} {b : Blueprint} (h : Builds p depth calls key b) :
    ∃ q : Referent, q.declaration ∈ p.declarations ∧ q.plan = .define key b := by
  obtain ⟨-, -, -, -, -, -, c, -, -, -, hplan, -⟩ := h
  have hname : (plan p c.node c.ctx).name? = some key := by rw [hplan, Plan.name?]
  have hdefault := plan_default hname
  rw [← hdefault] at hname
  obtain ⟨q, hq, hqplan⟩ := refers_of_plan hname
  exact ⟨q, hq.mem, by rw [hqplan, hdefault, hplan]⟩

theorem Builds.flattened {key : String} {b : Blueprint}
    (hsession : resolveAll p depth calls {} = some (outcomes, s))
    (hok : ∀ r ∈ outcomes, r.isOk = true) (h : Builds p depth calls key b)
    (hnone : ∀ x, .inherit key x ∉ s.deferred) :
    ∃ own names, b.Declares p key own ∧
      List.Forall₂ (fun base n => Answers p base {} (.refObject n)) b.bases names ∧
      s.table.object? key = some ((names.filterMap s.table.object?).foldl .inherit own) := by
  obtain ⟨depth', s₀, d, v, hnew, hbuild, hkeeps⟩ := h.ended hsession hok
  have hself := resolve_advances p depth'
  have hopened := (Building.opened hnew).slot
  obtain ⟨hslot, rfl, -⟩ := build_takesOver hself hopened hbuild
  obtain ⟨ps, s₁, extra, s₂, hps, hextra, hrest⟩ := build_ok.mp hbuild
  have hslot₂ : s₂.table.slot? (b.own d.name ps extra).name = some .pending :=
    (own_advances hself hps hextra).grows.slot?_eq_some hopened
  have hkeeps' := (ResolverState.Keeps.closed hslot).trans hkeeps
  obtain ⟨names, hnames, hcomplete, hd⟩ := inheritAll_flattens hslot₂ hrest
    fun x hx => hnone x (hkeeps'.queued _ hx)
  have hready := hkeeps.ready d.name (.object d) (v.slot?_closed d)
  refine ⟨_, names, Blueprint.declares_own hps hextra, hnames, ?_⟩
  -- The bases were complete when they were taken over, so they are the same at the end.
  have hobjects : names.filterMap s.table.object? = names.filterMap v.table.object? := by
    refine List.filterMap_congr fun n hn => ?_
    rw [ReferenceTable.object?, (hkeeps'.keepsComplete n (hcomplete n hn)).2, ReferenceTable.object?]
  rw [hobjects, ← hd]
  exact ReferenceTable.object?_eq_some_iff.mpr hready

/-- The object type under a name, when there is one. -/
def objectIn? (defs : OrderedMap Definition) (name : String) : Option ObjectDefinition :=
  (OrderedMap.find? name defs).bind (·.object?)

/-- The definition is what the blueprint declares itself, followed by what the bases have among the
definitions in the end, one base after the other. A base that is no object type adds nothing. -/
structure Flattening (p : Program) (defs : OrderedMap Definition) (key : String) (b : Blueprint)
    (own : ObjectDefinition) (names : List String) (d : ObjectDefinition) : Prop where
  declared : b.Declares p key own
  bases : List.Forall₂ (fun base n => Answers p base {} (.refObject n)) b.bases names
  description : d.description = b.description
  properties : d.properties = own.properties ++
    Property.unseen (own.properties.map (·.name))
      ((names.filterMap (objectIn? defs)).flatMap (·.properties))
  additional : d.additional =
    (own.additional <|> (names.filterMap (objectIn? defs)).findSome? (·.additional))

end Resolver

open Resolver

/-- After a session without failures that has deferred no inheritance, the work can be finished. Every
object type of the result was built. What was built, from a declaration with arguments for its
parameters, is flattened in the result: its own properties come first, then those of its bases in
the result whose names have not come before. -/
theorem flattening_is_exact {p : Program} {depth : Nat} {calls : List (TypeNode × ResolveContext)}
    {outcomes : List (Outcome ApiType)} {s : ResolverState}
    (hsession : resolveAll p depth calls {} = some (outcomes, s))
    (hok : ∀ r ∈ outcomes, r.isOk = true)
    (hnone : ∀ target base, .inherit target base ∉ s.deferred) :
    ∃ defs, finish s = .ok defs ∧
      (∀ key o, OrderedMap.find? key defs = some (.object o) → ∃ b, Builds p depth calls key b) ∧
      ∀ key b, Builds p depth calls key b →
        ∃ (q : Referent) (d own : ObjectDefinition) (names : List String),
          q.declaration ∈ p.declarations ∧ q.plan = .define key b ∧
          OrderedMap.find? key defs = some (.object d) ∧
          Flattening p defs key b own names d := by
  obtain ⟨-, hwell, hadv⟩ := resolveAll_advances hsession
  obtain ⟨defs, hfinish⟩ :=
    (finish_isOk_iff (hwell .fresh)).mpr (not_pending_of_advances (hadv hok))
  obtain ⟨t, hrun, hdefs⟩ := finish_ok.mp hfinish
  -- Links change nothing, so the result has what the table had.
  have hget : ∀ n, OrderedMap.find? n defs = s.table.get? n := by
    intro n
    have hslot := Deferred.runAll_slot? hrun (hnone n)
    unfold ReferenceTable.slot? at hslot
    rw [ReferenceTable.find?_definitions hdefs, ReferenceTable.get?, hslot, ReferenceTable.get?]
  have hobjects : objectIn? defs = s.table.object? := by
    funext n
    rw [objectIn?, hget, ReferenceTable.object?]
  refine ⟨defs, hfinish, fun key o ho => ?_, fun key b hbuilds => ?_⟩
  · rw [hget, ReferenceTable.get?_eq_some_iff] at ho
    exact builds_of_object hsession hok ho
  · obtain ⟨own, names, hown, hnames, hd⟩ := hbuilds.flattened hsession hok (hnone key)
    rw [ReferenceTable.object?_eq_some_iff, ← ReferenceTable.get?_eq_some_iff, ← hget,
      ← hobjects] at hd
    obtain ⟨q, hmem, hplan⟩ := hbuilds.declaration
    exact ⟨q, _, own, names, hmem, hplan, hd,
      { declared := hown
        bases := hnames
        description := (ObjectDefinition.description_foldl_inherit _ own).trans hown.description
        properties := ObjectDefinition.properties_foldl_inherit _ own
        additional := ObjectDefinition.additional_foldl_inherit _ own }⟩

/-! ## A diamond -/

/-- Products are priced and stored, and all of these are items. Prices are of any type, what is
stored has additional properties, and products have identifiers of their own. -/
def Program.catalog : Program :=
  { units := [
      { path := "catalog.ts"
        imports := []
        declarations := [
          .plainInterface "Item" [] [.plain "id" (.keyword .string)],
          .ofInterface
            { name := "Priced", doc := none, typeParameters := [⟨"T", none⟩]
              bases := [.named "Item"], properties := [.plain "price" (.named "T")]
              index := none },
          .ofInterface
            { name := "Stored", doc := none, typeParameters := [], bases := [.named "Item"]
              properties := [.plain "place" (.keyword .string)]
              index := some (.keyword .string) },
          .plainInterface "Product" [.reference "Priced" [.keyword .number], .named "Stored"]
            [.plain "id" (.keyword .number)]] }] }

theorem products_are_flattened :
    ∃ outcomes s defs b d own names,
      resolveAll .catalog 20 [(.named "Product", {})] {} = some (outcomes, s) ∧
      finish s = .ok defs ∧ OrderedMap.find? "Product" defs = some (.object d) ∧
      Flattening .catalog defs "Product" b own names d ∧
      d.properties.map (·.name) = ["id", "price", "place"] ∧ d.additional.isSome = true := by
  have hrun : concludes .catalog 20 [(.named "Product", {})] (fun outcomes s defs =>
      outcomes.all (·.isOk) && decide (s.deferred = []) &&
        (OrderedMap.find? "Product" defs).any fun d => d.object?.any fun o =>
          decide (o.properties.map (·.name) = ["id", "price", "place"]) && o.additional.isSome) =
      true := by decide +kernel
  obtain ⟨outcomes, s, defs, hsession, hfinish, hcheck⟩ := concludes_iff.mp hrun
  simp only [Bool.and_eq_true, List.all_eq_true, decide_eq_true_eq] at hcheck
  obtain ⟨⟨hok, hdeferred⟩, hproduct⟩ := hcheck
  obtain ⟨d, hd, hshape⟩ := Definition.exists_object hproduct
  simp only [Bool.and_eq_true, decide_eq_true_eq] at hshape
  have hbuilds : Builds .catalog 20 [(.named "Product", {})] "Product"
      { description := none, initializedIsOptional := false
        members := [.plain "id" (.keyword .number)], index := none
        bases := [.reference "Priced" [.keyword .number], .named "Stored"] } :=
    ⟨[], .named "Product", {}, [], [], {}, ⟨20, .named "Product", {}, {}⟩, rfl, rfl, .refl, rfl, rfl⟩
  obtain ⟨defs', hfinish', -, hflat⟩ :=
    flattening_is_exact hsession hok fun target base => by simp [hdeferred]
  obtain rfl : defs = defs' := Except.ok.inj (hfinish.symm.trans hfinish')
  obtain ⟨-, d', own, names, -, -, hd', hflattening⟩ := hflat _ _ hbuilds
  obtain rfl : d = d' := by simpa [hd] using hd'
  exact ⟨outcomes, s, defs, _, d, own, names, hsession, hfinish, hd, hflattening, hshape.1, hshape.2⟩

end DecoratedApi
