import DecoratedApi.Proofs.Declared
import DecoratedApi.Proofs.Inheritance

/-!
# Where entries come from

Every entry of the table has its origin in a declaration. An enum is what is declared. An object type
is what it declares itself, and has taken over the bases that were complete when it was built; the
copies from its other bases are queued, in the order in which it lists them. A call keeps this,
because it leaves older entries and the copies into them alone.
-/

namespace DecoratedApi

/-! ## Queued copies -/

namespace Deferred

variable {name target base : String} {queue queue' : List Deferred}

/-- The base that is copied into the type, when the work is such a copy. -/
def baseFor? (name : String) : Deferred → Option String
  | .inherit target base => if target = name then some base else none
  | .link _ _ => none

/-- The bases from which copies into the type are queued, in order. -/
def copies (name : String) (queue : List Deferred) : List String := queue.filterMap (baseFor? name)

theorem baseFor?_eq_some {d : Deferred} : baseFor? name d = some base ↔ d = .inherit name base := by
  cases d <;> simp [baseFor?]

theorem mem_copies : base ∈ copies name queue ↔ .inherit name base ∈ queue := by
  simp [copies, baseFor?_eq_some]

theorem copies_append :
    copies name (queue ++ queue') = copies name queue ++ copies name queue' :=
  List.filterMap_append

theorem copies_cons_link (n referrer : String) :
    copies name (.link n referrer :: queue) = copies name queue := rfl

theorem copies_cons_inherit :
    copies name (.inherit target base :: queue) =
      if target = name then base :: copies name queue else copies name queue := by
  unfold copies
  split <;> simp_all [baseFor?]

theorem copies_eq_nil_iff : copies name queue = [] ↔ ∀ x, .inherit name x ∉ queue := by
  simp [List.eq_nil_iff_forall_not_mem, mem_copies]

end Deferred

open Deferred

namespace ResolverState

variable {s s' s'' : ResolverState} {name : String}

theorem Grows.copies_eq (h : s.Grows s') (hname : s.table.contains name = true) :
    copies name s'.deferred = copies name s.deferred := by
  obtain ⟨added, heq, hnew⟩ := h.deferred
  have hnone : copies name added = [] := copies_eq_nil_iff.mpr fun x hx => by
    rw [hnew name x hx] at hname
    cases hname
  rw [heq, copies_append, hnone, List.append_nil]

theorem WellFormed.copies_eq_nil (h : s.WellFormed) (hname : s.table.contains name = false) :
    copies name s.deferred = [] := copies_eq_nil_iff.mpr fun x hx => by
  rw [(h.inherits name x hx).1.contains] at hname
  cases hname

theorem copies_postponed (s : ResolverState) (target base : String) :
    copies name (s.postponed target base).deferred =
      copies name s.deferred ++ if target = name then [base] else [] := by
  rw [postponed, copies_append]
  congr 1
  unfold copies
  split <;> simp_all [baseFor?]

/-- Entries stay, and none becomes complete or ceases to be. -/
def Steady (s s' : ResolverState) : Prop :=
  ∀ n, s.table.contains n = true →
    s'.table.contains n = true ∧ s'.table.isComplete n = s.table.isComplete n

namespace Steady

theorem trans (h : s.Steady s') (h' : s'.Steady s'') : s.Steady s'' := fun n hn => by
  obtain ⟨hn', heq⟩ := h n hn
  obtain ⟨hn'', heq'⟩ := h' n hn'
  exact ⟨hn'', heq'.trans heq⟩

theorem of_grows (h : s.Grows s') : s.Steady s' := fun n hn => by
  have hslot := h.slot?_eq hn
  unfold ReferenceTable.slot? at hslot
  refine ⟨h.contains hn, ?_⟩
  simp only [ReferenceTable.isComplete, ReferenceTable.get?, hslot, h.waiting n hn]

theorem postponed (hname : s.table.slot? name = some .pending) (base : String) :
    s.Steady (s.postponed name base) := fun n hn => by
  refine ⟨hn, ?_⟩
  by_cases hne : n = name
  · -- A placeholder is not complete, whatever it waits for.
    subst hne
    unfold ReferenceTable.slot? at hname
    simp [ReferenceTable.isComplete, ReferenceTable.get?, ResolverState.postponed, hname]
  · have hwait : (s.postponed name base).table.isInheriting n = s.table.isInheriting n := by
      rw [Bool.eq_iff_iff]
      simp [ResolverState.postponed, ReferenceTable.isInheriting_awaitBase, hne]
    simp only [ReferenceTable.isComplete, hwait]
    rfl

end Steady
end ResolverState

namespace Resolver

open Resolve

variable {p : Program} {s s' : ResolverState} {name : String} {own d d' o : ObjectDefinition}
variable {bases : List String}

/-! ## Origins -/

/-- How the entry of an object type has come about. -/
structure Built (p : Program) (s : ResolverState) (name : String) (o own : ObjectDefinition)
    (bases : List String) : Prop where
  declared : Declared p name own bases
  known : ∀ n ∈ bases, s.table.contains n = true
  later : bases.filter (· ∈ copies name s.deferred) = copies name s.deferred
  taken : Extended p own (bases.filter (· ∉ copies name s.deferred)) o

/-- The definition under a name has its origin in the program. -/
def Origin (p : Program) (s : ResolverState) (name : String) : Definition → Prop
  | .enum e => ∃ node ctx, plan p node ctx = .register e
  | .object o => ∃ own bases, Built p s name o own bases

/-- All entries that are ready have their origins in the program. -/
structure Explained (p : Program) (s : ResolverState) : Prop extends s.WellFormed where
  origin : ∀ name x, s.table.slot? name = some (.ready x) → Origin p s name x

theorem Built.mono (h : Built p s name o own bases)
    (hcontains : ∀ n, s.table.contains n = true → s'.table.contains n = true)
    (hcopies : copies name s'.deferred = copies name s.deferred) : Built p s' name o own bases where
  declared := h.declared
  known := fun n hn => hcontains n (h.known n hn)
  later := by rw [hcopies, h.later]
  taken := by
    rw [hcopies]
    exact h.taken

theorem Built.whole (h : Built p s name o own bases) (hnone : copies name s.deferred = []) :
    Whole p name o := by
  have htaken := h.taken
  rw [hnone, List.filter_eq_self.mpr (by simp)] at htaken
  exact ⟨own, bases, h.declared, htaken⟩

namespace Explained

theorem fresh : Explained p {} := ⟨.fresh, fun _ _ h => by cases h⟩

theorem change (h : Explained p s) (hs' : s'.WellFormed)
    (hcontains : ∀ n, s.table.contains n = true → s'.table.contains n = true)
    (hcopies : ∀ n x, s.table.slot? n = some (.ready x) →
      copies n s'.deferred = copies n s.deferred)
    (hready : ∀ n x, s'.table.slot? n = some (.ready x) →
      s.table.slot? n = some (.ready x) ∨ Origin p s' n x) : Explained p s' where
  toWellFormed := hs'
  origin := fun n x hslot => by
    rcases hready n x hslot with hold | hnew
    · have horigin := h.origin n x hold
      cases x with
      | enum e => exact horigin
      | object o =>
        obtain ⟨own, bases, hbuilt⟩ := horigin
        exact ⟨own, bases, hbuilt.mono hcontains (hcopies n _ hold)⟩
    · exact hnew

theorem opened (h : Explained p s) (hname : s.table.contains name = false) :
    Explained p (s.opened name) := by
  refine h.change (h.toWellFormed.opened hname)
    (fun n hn => (ResolverState.Grows.opened hname).contains hn) (fun _ _ _ => rfl) ?_
  intro n x hslot
  rw [ResolverState.opened, ReferenceTable.slot?_reserve hname] at hslot
  split at hslot
  · cases hslot
  · exact .inl hslot

theorem linked (h : Explained p s) (hname : s.table.contains name = true) :
    Explained p (s.linked name) := by
  refine h.change (h.toWellFormed.linked hname) (fun _ hn => hn) (fun n _ _ => ?_)
    (fun _ _ hslot => .inl hslot)
  rw [ResolverState.linked, copies_append]
  simp [copies, baseFor?]

theorem postponed (h : Explained p s) {base : String}
    (hname : s.table.slot? name = some .pending) (hbase : s.table.HoldsObject base) :
    Explained p (s.postponed name base) := by
  refine h.change (h.toWellFormed.postponed (.inl hname) hbase) (fun _ hn => hn) (fun n x hx => ?_)
    (fun _ _ hslot => .inl hslot)
  have hne : name ≠ n := by
    rintro rfl
    rw [hname] at hx
    cases hx
  rw [ResolverState.copies_postponed, if_neg hne, List.append_nil]

theorem enrolled (h : Explained p s) {e : EnumDefinition} {node : TypeNode} {ctx : ResolveContext}
    (hname : s.table.contains e.name = false) (hplan : plan p node ctx = .register e) :
    Explained p (s.enrolled e) := by
  refine h.change (h.toWellFormed.enrolled hname)
    (fun n hn => ((ResolverState.Grows.refl s).filled (d := .enum e) hname).contains hn)
    (fun _ _ _ => rfl) ?_
  intro n x hslot
  rw [ResolverState.enrolled, ReferenceTable.slot?_fill] at hslot
  split at hslot
  · cases hslot
    exact .inr ⟨node, ctx, hplan⟩
  · exact .inl hslot

theorem closed (h : Explained p s) (hs' : (s.closed d).WellFormed)
    (hd : Built p (s.closed d) d.name d own bases) : Explained p (s.closed d) := by
  refine h.change hs' (fun n hn => ?_) (fun _ _ _ => rfl) ?_
  · rw [ReferenceTable.contains_iff, ResolverState.closed, ReferenceTable.slot?_fill]
    split
    · rfl
    · exact hn
  · intro n x hslot
    rw [ResolverState.closed, ReferenceTable.slot?_fill] at hslot
    split at hslot
    · next hn =>
      cases hslot
      rw [Definition.name_object] at hn
      subst hn
      exact .inr ⟨own, bases, hd⟩
    · exact .inl hslot

theorem built_of_define (hp : p.IsPlain) (h : Explained p s) {node : TypeNode}
    {ctx : ResolveContext} {b : Blueprint} {x : Definition} (hplan : plan p node ctx = .define name b)
    (hx : s.table.slot? name = some (.ready x)) :
    ∃ o own bases, x = .object o ∧ Built p s name o own bases := by
  have horigin := h.origin name x hx
  cases x with
  | enum e =>
    obtain ⟨node', ctx', hregister⟩ := horigin
    exact absurd hregister (register_ne_of_define hp hplan (h.table.named name _ hx))
  | object o =>
    obtain ⟨own, bases, hbuilt⟩ := horigin
    exact ⟨o, own, bases, rfl, hbuilt⟩

theorem whole_of_complete (hp : p.IsPlain) (h : Explained p s) {base : TypeNode}
    (hanswer : Answers p base {} (.refObject name)) (hcomplete : s.table.isComplete name = true) :
    ∃ whole, s.table.object? name = some whole ∧ Whole p name whole := by
  obtain ⟨⟨x, hx⟩, -⟩ := ReferenceTable.isComplete_iff.mp hcomplete
  obtain ⟨node, b, hplan⟩ := hanswer.defines
  obtain ⟨o, own, bases, rfl, hbuilt⟩ := h.built_of_define hp hplan hx
  have hnone := copies_eq_nil_iff.mpr (not_queued_of_complete h.toWellFormed hcomplete)
  exact ⟨o, ReferenceTable.object?_eq_some_iff.mpr hx, hbuilt.whole hnone⟩

end Explained

/-! ## Calls -/

/-- A call that succeeds keeps origins. -/
def Explains (p : Program) (ok : Bool) (s s' : ResolverState) : Prop :=
  ok = true → Explained p s → Explained p s'

theorem explains_invariant : Invariant (Explains p) fun _ _ => True where
  refl := fun _ _ _ h => h
  trans := fun h h' hok hs => h' hok (h rfl hs)
  keeps := fun _ _ => trivial

/-- The type is being built. What is queued into it comes from bases that are not complete. -/
structure Waiting (p : Program) (s : ResolverState) (key : String) : Prop where
  explained : Explained p s
  pending : s.table.slot? key = some .pending
  queued : ∀ n ∈ copies key s.deferred,
    s.table.contains n = true ∧ s.table.isComplete n = false

namespace Waiting

variable {key n : String}

theorem contains (h : Waiting p s key) : s.table.contains key = true := by
  rw [ReferenceTable.contains_iff, h.pending]
  rfl

theorem grows (h : Waiting p s key) (hgrows : s.Grows s') (hs' : Explained p s') :
    Waiting p s' key where
  explained := hs'
  pending := hgrows.slot?_eq_some h.pending
  queued := fun m hm => by
    rw [hgrows.copies_eq h.contains] at hm
    obtain ⟨hcontains, hincomplete⟩ := h.queued m hm
    obtain ⟨hcontains', heq⟩ := ResolverState.Steady.of_grows hgrows m hcontains
    exact ⟨hcontains', heq.trans hincomplete⟩

theorem postponed (h : Waiting p s key) (hn : s.table.contains n = true)
    (hincomplete : s.table.isComplete n = false) : Waiting p (s.postponed key n) key where
  explained := h.explained.postponed h.pending
    (ReferenceTable.holdsObject_of_incomplete (h.explained.waiting n) hn hincomplete)
  pending := h.pending
  queued := fun m hm => by
    rw [ResolverState.copies_postponed, if_pos rfl] at hm
    obtain ⟨hcontains, hm⟩ : s.table.contains m = true ∧ s.table.isComplete m = false := by
      rcases List.mem_append.mp hm with hm | hm
      · exact h.queued m hm
      · obtain rfl : m = n := by simpa using hm
        exact ⟨hn, hincomplete⟩
    exact ⟨hcontains, (ResolverState.Steady.postponed h.pending n m hcontains).2.trans hm⟩

end Waiting

section Build

variable {depth : Nat} (hp : p.IsPlain)
variable (hself : (resolve p depth).Meets (Explains p) fun _ _ => True)

include hp hself

theorem inheritOne_waiting {base : TypeNode} (hs : Waiting p s d.name)
    (h : (inheritOne (resolve p depth) d base).runFrom s = some (.ok d', s')) :
    ∃ n, Answers p base {} (.refObject n) ∧ s'.table.contains n = true ∧ s.Steady s' ∧
      Waiting p s' d.name ∧ d'.name = d.name ∧
      (s'.table.isComplete n = true ∧ copies d.name s'.deferred = copies d.name s.deferred ∧
          (∃ whole, Whole p n whole ∧ d' = d.inherit whole) ∨
        s'.table.isComplete n = false ∧
          copies d.name s'.deferred = copies d.name s.deferred ++ [n] ∧ d' = d) := by
  obtain ⟨n, s₁, hrun, hcase⟩ := inheritOne_ok h
  have hanswer : Answers p base {} (.refObject n) := ⟨depth, s, s₁, hrun⟩
  obtain ⟨hadv, hknown⟩ := resolve_advances p depth base {} s _ _ hrun
  have hn : s₁.table.contains n = true := hknown _ rfl n rfl
  have hs₁ := hs.grows hadv.grows ((hself base {} s _ _ hrun).1 rfl hs.explained)
  have hsteady := ResolverState.Steady.of_grows hadv.grows
  have hcopies := hadv.grows.copies_eq hs.contains
  rcases hcase with ⟨hcomplete, rfl, rfl⟩ | ⟨hincomplete, rfl, rfl⟩
  · obtain ⟨whole, hobject, hwhole⟩ := hs₁.explained.whole_of_complete hp hanswer hcomplete
    rw [hobject]
    exact ⟨n, hanswer, hn, hsteady, hs₁, rfl, .inl ⟨hcomplete, hcopies, whole, hwhole, rfl⟩⟩
  · have hsteady' := ResolverState.Steady.postponed hs₁.pending n
    refine ⟨n, hanswer, hn, hsteady.trans hsteady', hs₁.postponed hn hincomplete, rfl,
      .inr ⟨(hsteady' n hn).2.trans hincomplete, ?_, rfl⟩⟩
    rw [ResolverState.copies_postponed, if_pos rfl, hcopies]

theorem inheritAll_waiting {nodes : List TypeNode} (hs : Waiting p s d.name)
    (h : (inheritAll (resolve p depth) d nodes).runFrom s = some (.ok d', s')) :
    s.Steady s' ∧ Waiting p s' d.name ∧ d'.name = d.name ∧
      ∃ names, List.Forall₂ (fun base n => Answers p base {} (.refObject n)) nodes names ∧
        (∀ n ∈ names, s'.table.contains n = true) ∧
        copies d.name s'.deferred =
          copies d.name s.deferred ++ names.filter (· ∈ copies d.name s'.deferred) ∧
        Extended p d (names.filter (· ∉ copies d.name s'.deferred)) d' := by
  induction nodes generalizing s d with
  | nil =>
    obtain ⟨rfl, rfl⟩ : d = d' ∧ s = s' := by simpa [inheritAll] using h
    exact ⟨fun _ hn => ⟨hn, rfl⟩, hs, rfl, [], .nil, by simp, by simp, .nil d⟩
  | cons base rest ih =>
    obtain ⟨d₁, s₁, hone, hrest⟩ := runFrom_bind_ok.mp h
    obtain ⟨n, hanswer, hn, hsteady, hs₁, hname, hcase⟩ := inheritOne_waiting hp hself hs hone
    rw [← hname] at hs₁
    obtain ⟨hsteady', hs', hname', names, hanswers, hknown, hcopies, hextended⟩ := ih hs₁ hrest
    rw [hname] at hs' hname' hcopies hextended
    obtain ⟨hn', hcomplete'⟩ := hsteady' n hn
    refine ⟨hsteady.trans hsteady', hs', hname', n :: names, .cons hanswer hanswers, ?_, ?_⟩
    · intro m hm
      rcases List.mem_cons.mp hm with rfl | hm
      · exact hn'
      · exact hknown m hm
    · rcases hcase with ⟨hcomplete, hsame, whole, ⟨own, bases, hdeclared, hwhole⟩, rfl⟩ |
        ⟨-, hadded, rfl⟩
      · -- What is complete stays complete, so no copy from this base comes to be queued.
        have hnot : n ∉ copies d.name s'.deferred := fun hmem => by
          have hincomplete := (hs'.queued n hmem).2
          rw [hcomplete', hcomplete] at hincomplete
          cases hincomplete
        rw [List.filter_cons_of_neg (by simpa using hnot),
          List.filter_cons_of_pos (by simpa using hnot)]
        exact ⟨by rw [← hsame]; exact hcopies, .cons hdeclared hwhole hextended⟩
      · have hmem : n ∈ copies d₁.name s'.deferred := by
          rw [hcopies, hadded]
          simp
        rw [List.filter_cons_of_pos (by simpa using hmem),
          List.filter_cons_of_neg (by simpa using hmem)]
        refine ⟨?_, hextended⟩
        rw [hadded, List.append_assoc] at hcopies
        exact hcopies

theorem build_explained {node : TypeNode} {ctx : ResolveContext} {b : Blueprint} {key : String}
    {u : ResolverState} (hplan : plan p node ctx = .define key b) (hs : Explained p s)
    (hkey : s.table.contains key = false) (hclosed : (u.closed d).WellFormed)
    (h : (b.build (resolve p depth) key).runFrom (s.opened key) = some (.ok d, u)) :
    Explained p (u.closed d) := by
  obtain ⟨ps, s₁, extra, s₂, hps, hextra, hrest⟩ := build_ok.mp h
  have hself' := resolve_advances p depth
  obtain ⟨hadv, -⟩ := properties_yields advances_invariant hself' _ _ _ _ _ hps
  obtain ⟨hadv', -⟩ := additional_yields advances_invariant hself' _ _ _ _ hextra
  have hs₁ := (properties_yields explains_invariant hself _ _ _ _ _ hps).1 rfl (hs.opened hkey)
  have hs₂ := (additional_yields explains_invariant hself _ _ _ _ hextra).1 rfl hs₁
  have hgrows := hadv.grows.trans hadv'.grows
  have hopened := Building.opened hkey
  have hcopies : copies key s₂.deferred = [] := by
    rw [hgrows.copies_eq hopened.contains]
    exact hs.toWellFormed.copies_eq_nil hkey
  have hwaiting : Waiting p s₂ (b.own key ps extra).name :=
    ⟨hs₂, hgrows.slot?_eq_some hopened.slot, by simp [Blueprint.own, hcopies]⟩
  obtain ⟨-, hu, hname, names, hanswers, hknown, hlater, htaken⟩ :=
    inheritAll_waiting hp hself hwaiting hrest
  simp only [Blueprint.own] at hu hname hlater
  obtain rfl : d.name = key := hname
  rw [hcopies, List.nil_append] at hlater
  have hdeclared : Declared p d.name (b.own d.name ps extra) names :=
    ⟨node, ctx, b, hplan, Blueprint.declares_own hps hextra, hanswers⟩
  have hbuilt : Built p u d.name d (b.own d.name ps extra) names :=
    ⟨hdeclared, hknown, hlater.symm, htaken⟩
  refine hu.explained.closed hclosed (hbuilt.mono (fun n hn => ?_) rfl)
  rw [ReferenceTable.contains_iff, ResolverState.closed, ReferenceTable.slot?_fill]
  split
  · rfl
  · exact hn

end Build

theorem resolve_explains (hp : p.IsPlain) (depth : Nat) :
    (resolve p depth).Meets (Explains p) fun _ _ => True := by
  induction depth with
  | zero =>
    intro node ctx s r s' hrun
    simp [resolve_zero] at hrun
  | succ depth ih =>
    intro node ctx s
    rw [resolve_succ]
    cases hplan : plan p node ctx with
    | answer o => exact yields_ofOutcome explains_invariant.toSequential fun _ _ => trivial
    | same node' => exact ih node' ctx s
    | list node' =>
      refine (ih node' ctx s).bind explains_invariant.toSequential fun t s' _ _ => ?_
      exact yields_pure explains_invariant.toSequential trivial
    | register e =>
      intro r s' hrun
      rw [Plan.run, registered_run] at hrun
      cases hrun
      refine ⟨fun _ hs => ?_, fun _ _ => trivial⟩
      cases hname : s.table.contains e.name with
      | true => exact hs
      | false => exact hs.enrolled hname hplan
    | define key b =>
      intro r s' hrun
      refine ⟨fun hok hs => ?_, fun _ _ => trivial⟩
      cases hkey : s.table.contains key with
      | true =>
        rw [Plan.run, reference_known hkey] at hrun
        cases hrun
        cases s.table.isPending key with
        | true => exact hs.linked hkey
        | false => exact hs
      | false =>
        have hadv := (reference_advances (resolve_advances p depth) b key s r s' hrun).1
        have hs' := hadv.wellFormed hs.toWellFormed
        rw [Plan.run, reference_new hkey] at hrun
        split at hrun
        · cases hrun
        · next d u hbuild =>
          cases hrun
          exact build_explained hp ih hplan hs hkey hs' hbuild
        · cases hrun
          cases hok

theorem resolveAll_explained (hp : p.IsPlain) {depth : Nat}
    {calls : List (TypeNode × ResolveContext)} {outcomes : List (Outcome ApiType)}
    (h : resolveAll p depth calls s = some (outcomes, s')) (hok : ∀ r ∈ outcomes, r.isOk = true)
    (hs : Explained p s) : Explained p s' := by
  induction calls generalizing s outcomes with
  | nil =>
    obtain ⟨-, rfl⟩ : [] = outcomes ∧ s = s' := by simpa [resolveAll] using h
    exact hs
  | cons call rest ih =>
    obtain ⟨node, ctx⟩ := call
    obtain ⟨r, s₁, rs, hrun, hrest, rfl⟩ := resolveAll_cons.mp h
    have hs₁ := (resolve_explains hp depth node ctx s r s₁ hrun).1 (hok r List.mem_cons_self) hs
    exact ih hrest (fun r' hr' => hok r' (List.mem_cons_of_mem _ hr')) hs₁

end Resolver
end DecoratedApi
