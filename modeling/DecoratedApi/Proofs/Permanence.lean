import DecoratedApi.Proofs.Origin
import DecoratedApi.Proofs.Trace

/-!
# What a run leaves alone

A call only extends the state that it starts from, whether it succeeds or fails. An entry that is
complete is not touched again, neither by later calls nor by the deferred work: the count of bases
for which a type waits is the number of copies that are queued into it, so nothing is queued into a
complete entry.
-/

namespace DecoratedApi

open Deferred Resolver ResolverState

/-! ## Calls -/

theorem ResolverState.WellFormed.not_contains_added {s s' : ResolverState} (hs' : s'.WellFormed)
    {added : OrderedMap Slot} (h : s'.table.entries = s.table.entries ++ added) {name : String}
    {slot : Slot} (hmem : (name, slot) ∈ added) : s.table.contains name = false := by
  have hnodup := hs'.table.nodup
  rw [h, OrderedMap.keys, List.map_append] at hnodup
  have hdisjoint := List.disjoint_of_nodup_append hnodup
  rw [← Bool.not_eq_true, ReferenceTable.contains_iff_mem]
  intro hold
  exact hdisjoint hold (List.mem_map_of_mem (f := (·.1)) hmem)

/-- From any state that a resolver can be in, a call keeps every entry with its place and its slot,
and all deferred work in its place, and puts the stack of open types back. When it succeeds, whatever
it has added is ready. -/
theorem resolve_only_extends {p : Program} {s s' : ResolverState} {depth : Nat} {node : TypeNode}
    {ctx : ResolveContext} {r : Outcome ApiType} (hs : Reached p s)
    (h : (resolve p depth node ctx).runFrom s = some (r, s')) :
    (∃ added, s'.table.entries = s.table.entries ++ added ∧
      (r.isOk = true → ∀ e ∈ added, ∃ d, e.2 = .ready d)) ∧
    (∃ queued, s'.deferred = s.deferred ++ queued) ∧ s'.building = s.building := by
  obtain ⟨hadv, -⟩ := resolve_advances p depth node ctx s r s' h
  obtain ⟨added, hadded⟩ := hadv.grows.entries
  obtain ⟨queued, hqueued, -⟩ := hadv.grows.deferred
  refine ⟨⟨added, hadded.symm, fun hok e he => ?_⟩, ⟨queued, hqueued⟩, hadv.building⟩
  obtain ⟨name, slot⟩ := e
  cases slot with
  | ready d => exact ⟨d, rfl⟩
  | pending =>
    -- A placeholder would have been one before, and so would not be new.
    have hs' := hadv.wellFormed hs.wellFormed
    have hnew := hs'.not_contains_added hadded.symm he
    have hfind : s'.table.slot? name = some .pending :=
      OrderedMap.find?_eq_some_of_mem hs'.table.nodup
        (by rw [← hadded]; exact List.mem_append_right _ he)
    have hold := hadv.settled hok name (ReferenceTable.isPending_iff.mpr hfind)
    rw [ReferenceTable.not_contains_iff] at hnew
    rw [ReferenceTable.isPending_iff, hnew] at hold
    cases hold

theorem trees_leaf_only_extends :
    ∃ s' added,
      (resolve .trees 20 (.named "Leaf") {}).runFrom (.opened {} "Node") =
        some (.ok (.refObject "Leaf"), s') ∧
      s'.table.entries = [("Node", .pending)] ++ added ∧ (∀ e ∈ added, ∃ d, e.2 = .ready d) ∧
      s'.building = ["Node"] := by
  have hmakes : Relation.ReflTransGen (Call.Makes .trees) ⟨20, .named "Node", {}, {}⟩
      ⟨18, .named "Leaf", {}, .opened {} "Node"⟩ :=
    .tail (.single (.part ⟨rfl, rfl⟩ (.first (.plain "leaves" (.array (.named "Leaf"))) rfl)))
      (.element rfl)
  have hbefore : resolveAll .trees 20 [] {} = some ([], {}) := rfl
  have hreached : Reached .trees (.opened {} "Node") := reached_of_makes hbefore hmakes
  obtain ⟨s', hrun⟩ : ∃ s', (resolve .trees 20 (.named "Leaf") {}).runFrom (.opened {} "Node") =
      some (.ok (.refObject "Leaf"), s') := ⟨_, rfl⟩
  obtain ⟨⟨added, hadded, hready⟩, -, hbuilding⟩ := resolve_only_extends hreached hrun
  exact ⟨s', added, hrun, hadded, hready rfl, hbuilding⟩

/-! ## Counts -/

namespace ReferenceTable

variable {t t' t'' : ReferenceTable} {name other : String}

/-- How many bases the entry waits for. -/
def outstanding (t : ReferenceTable) (name : String) : Nat :=
  (OrderedMap.find? name t.inheriting).getD 0

theorem outstanding_awaitBase :
    (t.awaitBase name).outstanding other =
      t.outstanding other + if other = name then 1 else 0 := by
  unfold outstanding awaitBase
  rw [OrderedMap.find?_set]
  split
  · next h => rw [h]; rfl
  · rfl

theorem find?_baseArrived_of_ne (h : other ≠ name) :
    OrderedMap.find? other (t.baseArrived name).inheriting =
      OrderedMap.find? other t.inheriting := by
  unfold baseArrived
  split
  · rfl
  · split
    · rw [OrderedMap.find?_erase, if_neg h]
    · rw [OrderedMap.find?_set, if_neg h]

theorem outstanding_baseArrived :
    (t.baseArrived name).outstanding other =
      t.outstanding other - if other = name then 1 else 0 := by
  by_cases h : other = name
  · subst h
    unfold outstanding baseArrived
    split
    · next hnone => simp [hnone]
    · next count hcount =>
      split
      · next hle => simp [OrderedMap.find?_erase, hcount, hle]
      · simp [OrderedMap.find?_set, hcount]
  · rw [outstanding, find?_baseArrived_of_ne h, if_neg h, Nat.sub_zero, outstanding]

/-- Each entry waits for as many bases as there are copies queued into it. -/
def Accounts (t : ReferenceTable) (queue : List Deferred) : Prop :=
  ∀ name, t.outstanding name = (copies name queue).length

theorem Accounts.congr {queue queue' : List Deferred} (h : t.Accounts queue)
    (ht : t'.inheriting = t.inheriting) (hqueue : ∀ n, copies n queue' = copies n queue) :
    t'.Accounts queue' := fun n => by
  rw [hqueue, ← h n, outstanding, outstanding, ht]

theorem Accounts.copies_eq_nil {queue : List Deferred} (h : t.Accounts queue)
    (hname : t.isInheriting name = false) : copies name queue = [] := by
  have hnone : OrderedMap.find? name t.inheriting = none := by
    rw [isInheriting] at hname
    simpa using hname
  have hcount := h name
  rw [outstanding, hnone, Option.getD_none] at hcount
  exact List.length_eq_zero_iff.mp hcount.symm

@[simp]
theorem inheriting_reserve : (t.reserve name).inheriting = t.inheriting := by
  unfold reserve
  split <;> rfl

/-- What was complete still is, with the same definition. -/
def KeepsComplete (t t' : ReferenceTable) : Prop :=
  ∀ name, t.isComplete name = true → t'.isComplete name = true ∧ t'.get? name = t.get? name

namespace KeepsComplete

theorem refl (t : ReferenceTable) : t.KeepsComplete t := fun _ h => ⟨h, rfl⟩

theorem trans (h : t.KeepsComplete t') (h' : t'.KeepsComplete t'') : t.KeepsComplete t'' := by
  intro name hname
  obtain ⟨hcomplete, hget⟩ := h name hname
  obtain ⟨hcomplete', hget'⟩ := h' name hcomplete
  exact ⟨hcomplete', hget'.trans hget⟩

theorem of_slot? (h : ∀ name, t.isComplete name = true →
    t'.slot? name = t.slot? name ∧ t'.isInheriting name = t.isInheriting name) :
    t.KeepsComplete t' := by
  intro name hname
  obtain ⟨hslot, hwait⟩ := h name hname
  have hget : t'.get? name = t.get? name := by
    unfold slot? at hslot
    rw [get?, get?, hslot]
  rw [isComplete] at hname ⊢
  exact ⟨by rw [hget, hwait]; exact hname, hget⟩

end KeepsComplete
end ReferenceTable

open ReferenceTable

namespace ResolverState

variable {s s' : ResolverState}

theorem Change.accounts (h : Change s s') (hs : s.table.Accounts s.deferred) :
    s'.table.Accounts s'.deferred := by
  -- A copy is queued and counted at once, and nothing else is.
  cases h with
  | opened _ => exact hs.congr inheriting_reserve fun _ => rfl
  | closed _ _ => exact hs.congr rfl fun _ => rfl
  | abandoned => exact hs
  | linked _ =>
    refine hs.congr rfl fun n => ?_
    rw [ResolverState.linked, copies_append]
    simp [copies, baseFor?]
  | @postponed target base _ _ =>
    intro n
    rw [copies_postponed, List.length_append, ← hs n, ResolverState.postponed, outstanding_awaitBase]
    by_cases hn : n = target
    · simp [hn]
    · simp [hn, Ne.symm hn]
  | enrolled _ => exact hs.congr rfl fun _ => rfl

theorem Keeps.keepsComplete (h : s.Keeps s') : s.table.KeepsComplete s'.table := by
  refine .of_slot? fun name hname => ?_
  obtain ⟨⟨d, hd⟩, -⟩ := isComplete_iff.mp hname
  exact ⟨by rw [h.ready name d hd, hd], h.waiting name d hd⟩

end ResolverState

/-! ## Deferred work -/

namespace Deferred

variable {t t' : ReferenceTable} {queue rest : List Deferred} {d : Deferred}

theorem run_inheriting (h : d.run t = .ok t') :
    t'.inheriting =
      match d with
      | .link _ _ => t.inheriting
      | .inherit target _ => (t.baseArrived target).inheriting := by
  cases d with
  | link name referrer =>
    simp only [run] at h
    split at h <;> cases h
    rfl
  | inherit target base =>
    simp only [run] at h
    split at h
    · cases h
    · split at h <;> cases h
      unfold baseArrived
      dsimp only
      split
      · rfl
      · split <;> rfl

theorem run_accounts (h : d.run t = .ok t') (ht : t.Accounts (d :: rest)) : t'.Accounts rest := by
  have hinheriting := run_inheriting h
  intro n
  have hcount := ht n
  cases d with
  | link name referrer =>
    rw [outstanding, hinheriting, ← outstanding, hcount]
    rfl
  | inherit target base =>
    rw [outstanding, hinheriting, ← outstanding, outstanding_baseArrived, hcount]
    by_cases hn : target = n
    · simp [copies, baseFor?, hn]
    · simp [copies, baseFor?, hn, Ne.symm hn]

theorem run_keepsComplete (h : d.run t = .ok t') (ht : t.Accounts (d :: rest)) :
    t.KeepsComplete t' := by
  -- Work on an entry that is complete would be a copy into it, and none is queued.
  have hinheriting := run_inheriting h
  refine .of_slot? fun name hname => ?_
  obtain ⟨-, hwait⟩ := isComplete_iff.mp hname
  have hnone := copies_eq_nil_iff.mp (ht.copies_eq_nil hwait)
  obtain ⟨n, referrer, rfl, rfl⟩ | ⟨target, base, o, b, rfl, -, -, hentries⟩ := run_cases h
  · exact ⟨rfl, rfl⟩
  · have hne : name ≠ target := by
      rintro rfl
      exact hnone base List.mem_cons_self
    refine ⟨by rw [run_slot? hentries, if_neg hne], ?_⟩
    rw [isInheriting, hinheriting, find?_baseArrived_of_ne hne, isInheriting]

/-- The tables after each piece of work, until one fails. -/
def trace (t : ReferenceTable) : List Deferred → List ReferenceTable
  | [] => []
  | d :: rest =>
    match d.run t with
    | .error _ => []
    | .ok t' => t' :: trace t' rest

theorem trace_pairwise (ht : t.Accounts queue) :
    (t :: trace t queue).Pairwise KeepsComplete ∧
      ∀ t', runAll t queue = .ok t' → ∀ u ∈ t :: trace t queue, u.KeepsComplete t' := by
  induction queue generalizing t with
  | nil =>
    refine ⟨by simp [trace], ?_⟩
    rintro t' ⟨⟩
    simp [trace, KeepsComplete.refl]
  | cons d rest ih =>
    rw [trace]
    cases hrun : d.run t with
    | error e => simp [runAll, hrun, bind, Except.bind]
    | ok t₁ =>
      have hone := run_keepsComplete hrun ht
      obtain ⟨hpairwise, hlast⟩ := ih (run_accounts hrun ht)
      refine ⟨List.pairwise_cons.mpr ⟨fun u hu => ?_, hpairwise⟩, fun t' hall u hu => ?_⟩
      · rcases List.mem_cons.mp hu with rfl | hu
        · exact hone
        · exact hone.trans (List.rel_of_pairwise_cons hpairwise hu)
      · obtain ⟨t₁', hrun', hrest⟩ := runAll_cons_ok.mp hall
        rw [hrun] at hrun'
        cases hrun'
        rcases List.mem_cons.mp hu with rfl | hu
        · exact hone.trans (hlast t' hrest _ List.mem_cons_self)
        · exact hlast t' hrest u hu

end Deferred

/-! ## Whole runs -/

/-- The tables of a run: those of the calls, at each change, and then those of the deferred work. -/
def Resolver.tables (p : Program) (depth : Nat) (calls : List (TypeNode × ResolveContext)) :
    List ReferenceTable :=
  ({} :: sessionTrace p depth calls {}).map (·.table) ++
    match resolveAll p depth calls {} with
    | none => []
    | some (_, s) => Deferred.trace s.table s.deferred

/-- Once an entry is complete, also in the middle of building another one, its definition stays the
same at every later point of the run, and is the one in the end. -/
theorem complete_entries_are_final (p : Program) (depth : Nat)
    (calls : List (TypeNode × ResolveContext)) :
    (tables p depth calls).Pairwise KeepsComplete ∧
    ∀ outcomes s defs, resolveAll p depth calls {} = some (outcomes, s) → finish s = .ok defs →
      ∀ t ∈ tables p depth calls, ∀ name, t.isComplete name = true →
        OrderedMap.find? name defs = t.get? name := by
  obtain ⟨s, hpath, hend⟩ := sessionTrace_path p depth calls .fresh
  have haccounts : s.table.Accounts s.deferred :=
    hpath.invariant (I := fun u => u.table.Accounts u.deferred) (fun _ _ h => h.accounts)
      (fun _ => rfl) s hpath.mem_last
  obtain ⟨hbefore, hcalls⟩ := hpath.pairwise (R := fun u v => u.table.KeepsComplete v.table)
    (fun _ => .refl _) (fun _ _ _ => .trans) fun _ _ h => h.keeps.keepsComplete
  obtain ⟨hafter, hwork⟩ := trace_pairwise haccounts
  rw [← List.pairwise_map] at hbefore
  unfold tables
  cases hsession : resolveAll p depth calls {} with
  | none => exact ⟨by simpa using hbefore, by simp⟩
  | some out =>
    obtain ⟨outcomes, s'⟩ := out
    obtain rfl := hend outcomes s' hsession
    -- All tables of the calls come before the one that the deferred work starts from.
    have hlast : ∀ t ∈ ({} :: sessionTrace p depth calls {}).map (·.table),
        t.KeepsComplete s'.table := by
      intro t ht
      obtain ⟨u, hu, rfl⟩ := List.mem_map.mp ht
      exact hcalls u hu
    constructor
    · refine List.pairwise_append.mpr ⟨hbefore, (List.pairwise_cons.mp hafter).2, ?_⟩
      intro t ht t' ht'
      exact (hlast t ht).trans (List.rel_of_pairwise_cons hafter ht')
    · rintro outcomes' s'' defs ⟨⟩ hfinish t ht name hname
      obtain ⟨t', hrun, hdefs⟩ := finish_ok.mp hfinish
      have hkeeps : t.KeepsComplete t' := by
        rcases List.mem_append.mp ht with ht | ht
        · exact (hlast t ht).trans (hwork t' hrun _ List.mem_cons_self)
        · exact hwork t' hrun t (List.mem_cons_of_mem _ ht)
      rw [find?_definitions hdefs]
      exact (hkeeps name hname).2

theorem trees_complete_entries :
    ∃ outcomes s defs t t',
      resolveAll .trees 20 [(.named "Node", {})] {} = some (outcomes, s) ∧ finish s = .ok defs ∧
      t ∈ tables .trees 20 [(.named "Node", {})] ∧ t.isPending "Node" = true ∧
      t.isComplete "State" = true ∧ OrderedMap.find? "State" defs = t.get? "State" ∧
      t' ∈ tables .trees 20 [(.named "Node", {})] ∧ s.table.isComplete "Leaf" = false ∧
      t'.isComplete "Leaf" = true ∧ OrderedMap.find? "Leaf" defs = t'.get? "Leaf" := by
  have hrun : concludes .trees 20 [(.named "Node", {})]
      (fun _ s _ => !s.table.isComplete "Leaf") = true := by decide +kernel
  have hstate : (tables .trees 20 [(.named "Node", {})]).any
      (fun t => t.isPending "Node" && t.isComplete "State") = true := by decide +kernel
  have hleaf : (tables .trees 20 [(.named "Node", {})]).any (·.isComplete "Leaf") = true := by
    decide +kernel
  obtain ⟨outcomes, s, defs, hsession, hfinish, hlater⟩ := concludes_iff.mp hrun
  obtain ⟨t, ht, htcheck⟩ := List.any_eq_true.mp hstate
  obtain ⟨hpending, hcomplete⟩ := Bool.and_eq_true_iff.mp htcheck
  obtain ⟨t', ht', hcomplete'⟩ := List.any_eq_true.mp hleaf
  obtain ⟨-, hfinal⟩ := complete_entries_are_final .trees 20 [(.named "Node", {})]
  exact ⟨outcomes, s, defs, t, t', hsession, hfinish, ht, hpending, hcomplete,
    hfinal outcomes s defs hsession hfinish t ht "State" hcomplete, ht', by simpa using hlater,
    hcomplete', hfinal outcomes s defs hsession hfinish t' ht' "Leaf" hcomplete'⟩

end DecoratedApi
