import DecoratedApi.Proofs.Permanence

/-!
# Outstanding copies

The table counts the bases for which a type waits, and the queue holds the copies from them. Both
change in different places, and a failed call leaves them as they are. They agree in every state
that a resolver can be in, and again after each piece of deferred work, so a count that is taken down
is never zero and nothing waits in the end (`outstanding_copies_are_counted`).
-/

namespace DecoratedApi

open Deferred Resolver ResolverState

namespace ReferenceTable

variable {t t' : ReferenceTable} {name other : String}

/-- What the table keeps for the copies in a queue: as many as there are for each name, no count of
zero, and counts only for objects, built or still to be built. -/
structure Tallies (t : ReferenceTable) (queue : List Deferred) : Prop where
  accounts : t.Accounts queue
  positive : ∀ e ∈ t.inheriting, 0 < e.2
  object : ∀ name, t.isInheriting name = true → t.HoldsObject name

theorem positive_awaitBase (h : ∀ e ∈ t.inheriting, 0 < e.2) :
    ∀ e ∈ (t.awaitBase name).inheriting, 0 < e.2 := by
  intro e he
  unfold awaitBase at he
  rcases OrderedMap.mem_of_mem_set he with rfl | he
  · exact Nat.succ_pos _
  · exact h e he

theorem positive_baseArrived (h : ∀ e ∈ t.inheriting, 0 < e.2) :
    ∀ e ∈ (t.baseArrived name).inheriting, 0 < e.2 := by
  intro e he
  unfold baseArrived at he
  split at he
  · exact h e he
  · split at he
    · exact h e (List.mem_of_mem_filter he)
    · next hmany =>
      rcases OrderedMap.mem_of_mem_set he with rfl | he
      · simp only
        omega
      · exact h e he

theorem isInheriting_of_baseArrived (h : (t.baseArrived name).isInheriting other = true) :
    t.isInheriting other = true := by
  by_cases hother : other = name
  · subst hother
    unfold isInheriting
    cases hfind : OrderedMap.find? other t.inheriting with
    | some count => rfl
    | none =>
      unfold baseArrived at h
      rw [hfind] at h
      simp [isInheriting, hfind] at h
  · rw [isInheriting, find?_baseArrived_of_ne hother] at h
    exact h

namespace Tallies

variable {rest : List Deferred} {target base : String}

theorem find?_target (h : t.Tallies (.inherit target base :: rest)) :
    ∃ n, OrderedMap.find? target t.inheriting = some (n + 1) := by
  have hcount := h.accounts target
  rw [copies_cons_inherit, if_pos rfl, List.length_cons, outstanding] at hcount
  cases hfind : OrderedMap.find? target t.inheriting with
  | none => simp [hfind] at hcount
  | some count => exact ⟨(copies target rest).length, by simpa [hfind] using hcount⟩

theorem inheriting_eq_nil (h : t.Tallies []) : t.inheriting = [] := by
  apply OrderedMap.eq_nil_of_find?
  intro key
  have hcount := h.accounts key
  cases hfind : OrderedMap.find? key t.inheriting with
  | none => rfl
  | some count =>
    have hpositive := h.positive (key, count) (OrderedMap.mem_of_find?_eq_some hfind)
    have hzero : count = 0 := by simpa [outstanding, hfind, copies] using hcount
    simp only at hpositive
    omega

end Tallies
end ReferenceTable

open ReferenceTable

/-! ## Calls -/

theorem ResolverState.Change.positive {s s' : ResolverState} (h : Change s s')
    (hs : ∀ e ∈ s.table.inheriting, 0 < e.2) : ∀ e ∈ s'.table.inheriting, 0 < e.2 := by
  cases h with
  | @opened name _ => rwa [ResolverState.opened, inheriting_reserve]
  | postponed _ _ => exact positive_awaitBase hs
  | closed _ _ | abandoned | linked _ | enrolled _ => exact hs

theorem Resolver.Reached.tallies {p : Program} {s : ResolverState} (h : Reached p s) :
    s.table.Tallies s.deferred where
  accounts := h.invariant (I := fun u => u.table.Accounts u.deferred) (fun _ => rfl)
    fun _ _ hchange => hchange.accounts
  positive := h.invariant (I := fun u => ∀ e ∈ u.table.inheriting, 0 < e.2) nofun
    fun _ _ hchange => hchange.positive
  object := h.wellFormed.waiting

/-! ## Deferred work -/

namespace Deferred

variable {t t' : ReferenceTable} {d : Deferred} {rest : List Deferred}

theorem run_tallies (h : d.run t = .ok t') (ht : t.Tallies (d :: rest)) : t'.Tallies rest := by
  have hinheriting := run_inheriting h
  refine ⟨run_accounts h ht.accounts, ?_, ?_⟩
  · rw [hinheriting]
    cases d with
    | link name referrer => exact ht.positive
    | inherit target base => exact positive_baseArrived ht.positive
  · intro name hname
    apply (run_sameKinds h).holdsObject
    apply ht.object
    rw [isInheriting, hinheriting] at hname
    cases d with
    | link other referrer => exact hname
    | inherit target base => exact isInheriting_of_baseArrived hname

theorem runAll_tallies {before after : List Deferred} (h : runAll t before = .ok t')
    (ht : t.Tallies (before ++ after)) : t'.Tallies after := by
  induction before generalizing t with
  | nil =>
    cases h
    exact ht
  | cons d rest ih =>
    obtain ⟨t₁, hrun, hrest⟩ := runAll_cons_ok.mp h
    exact ih hrest (run_tallies hrun ht)

end Deferred

/-- Every session leaves the resolver in a state that is reached, and in every such state each count
is the number of copies that are queued. It stays so while the deferred work is done: the count that
a copy takes down is there and is not zero, and when all work has been done no count is left. -/
theorem outstanding_copies_are_counted (p : Program) :
    (∀ depth calls outcomes s, resolveAll p depth calls {} = some (outcomes, s) → Reached p s) ∧
    ∀ s, Reached p s →
      s.table.Tallies s.deferred ∧
      (∀ before after t, s.deferred = before ++ after → runAll s.table before = .ok t →
        t.Tallies after ∧ ∀ target base rest, after = .inherit target base :: rest →
          ∃ n, OrderedMap.find? target t.inheriting = some (n + 1)) ∧
      ∀ defs, finish s = .ok defs →
        ∃ t, runAll s.table s.deferred = .ok t ∧ t.definitions = .ok defs ∧ t.inheriting = [] := by
  refine ⟨fun _ _ _ _ => reached_of_resolveAll, ?_⟩
  intro s hs
  refine ⟨hs.tallies, ?_, ?_⟩
  · intro before after t hqueue hrun
    have hstart := hs.tallies
    rw [hqueue] at hstart
    have ht := runAll_tallies hrun hstart
    refine ⟨ht, ?_⟩
    rintro target base rest rfl
    exact ht.find?_target
  · intro defs hfinish
    obtain ⟨t, hrun, hdefs⟩ := finish_ok.mp hfinish
    have hstart := hs.tallies
    rw [← List.append_nil s.deferred] at hstart
    exact ⟨t, hrun, hdefs, (runAll_tallies hrun hstart).inheriting_eq_nil⟩

/-- A bird takes over a branch and a nest while both are being built. -/
def Program.nests : Program :=
  { units := [
      { path := "nests.ts"
        imports := []
        declarations := [
          .plainInterface "Branch" [] [.plain "nest" (.named "Nest"), .plain "length" (.keyword .number)],
          .plainInterface "Nest" [] [.plain "bird" (.named "Bird"), .plain "width" (.keyword .number)],
          .plainInterface "Bird" [.named "Branch", .named "Nest"]
            [.plain "song" (.keyword .string)]] }] }

/-- The bird waits for two bases while the branch is open, also after a call that has failed, and for
none when the session is over and the work has been done. -/
theorem birds_wait_for_two_bases :
    (∃ s, Reached .nests s ∧ s.table.isPending "Branch" = true ∧
      copies "Bird" s.deferred = ["Branch", "Nest"] ∧ s.table.outstanding "Bird" = 2) ∧
    ∃ outcomes s t, resolveAll .nests 20 [(.named "Egg", {}), (.named "Branch", {})] {} =
        some (outcomes, s) ∧ outcomes.map (·.isOk) = [false, true] ∧
      s.table.outstanding "Bird" = 2 ∧ runAll s.table s.deferred = .ok t ∧ t.inheriting = [] := by
  have hopen : (sessionTrace .nests 20 [(.named "Egg", {}), (.named "Branch", {})] {}).any
      (fun s => s.table.isPending "Branch" && copies "Bird" s.deferred == ["Branch", "Nest"]) =
      true := by decide +kernel
  have hover : concludes .nests 20 [(.named "Egg", {}), (.named "Branch", {})] (fun outcomes s _ =>
      outcomes.map (·.isOk) == [false, true] && s.table.outstanding "Bird" == 2) = true := by
    decide +kernel
  obtain ⟨hend, hcounted⟩ := outstanding_copies_are_counted .nests
  constructor
  · obtain ⟨s, hs, hcheck⟩ := List.any_eq_true.mp hopen
    simp only [Bool.and_eq_true, beq_iff_eq] at hcheck
    have hreached : Reached .nests s := ⟨20, _, List.mem_cons_of_mem _ hs⟩
    refine ⟨s, hreached, hcheck.1, hcheck.2, ?_⟩
    rw [(hcounted s hreached).1.accounts, hcheck.2]
    rfl
  · obtain ⟨outcomes, s, defs, hsession, hfinish, hcheck⟩ := concludes_iff.mp hover
    simp only [Bool.and_eq_true, beq_iff_eq] at hcheck
    obtain ⟨-, -, hfinal⟩ := hcounted s (hend _ _ _ _ hsession)
    obtain ⟨t, hrun, -, hnone⟩ := hfinal defs hfinish
    exact ⟨outcomes, s, t, hsession, hcheck.1, hcheck.2, hrun, hnone⟩

end DecoratedApi
