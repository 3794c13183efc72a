import Mathlib.Data.List.Forall2
import Mathlib.Data.List.Nodup

/-!
# Lists

What the theory needs of lists in general: parts that keep their order, folds that write, and lists
of results, where all succeed or one of them fails.
-/

namespace DecoratedApi

variable {α β : Type}

theorem map_eq_self_iff {f : α → α} {l : List α} : l.map f = l ↔ ∀ a ∈ l, f a = a := by
  have h := List.map_inj_left (l := l) (f := f) (g := id)
  simpa using h

theorem exists_of_forall₂ {R : α → β → Prop} {as : List α} {bs : List β} {b : β}
    (h : List.Forall₂ R as bs) (hb : b ∈ bs) : ∃ a ∈ as, R a b := by
  induction h with
  | nil => cases hb
  | cons hr _ ih =>
    rcases List.mem_cons.mp hb with rfl | hb
    · exact ⟨_, List.mem_cons_self, hr⟩
    · obtain ⟨a, ha, hab⟩ := ih hb
      exact ⟨a, List.mem_cons_of_mem _ ha, hab⟩

/-! ## Order -/

theorem eraseDups_concat [BEq α] [LawfulBEq α] (l : List α) (a : α) :
    (l ++ [a]).eraseDups = if a ∈ l then l.eraseDups else l.eraseDups ++ [a] := by
  rw [List.eraseDups_append]
  split
  · next h => simp [List.removeAll, h]
  · next h => simp [List.removeAll, h, List.eraseDups_cons]

theorem filter_not_append_filter [DecidableEq α] {later l : List α}
    (h : l.Pairwise fun a b => a ∈ later → b ∈ later) :
    l.filter (· ∉ later) ++ l.filter (· ∈ later) = l := by
  induction l with
  | nil => rfl
  | cons a rest ih =>
    obtain ⟨ha, hrest⟩ := List.pairwise_cons.mp h
    by_cases hmem : a ∈ later
    · -- All that follows comes later too.
      have hall : ∀ b ∈ a :: rest, b ∈ later := fun b hb => by
        rcases List.mem_cons.mp hb with rfl | hb
        · exact hmem
        · exact ha b hb hmem
      rw [List.filter_eq_nil_iff.mpr (by simpa using hall),
        List.filter_eq_self.mpr (by simpa using hall), List.nil_append]
    · rw [List.filter_cons_of_pos (by simpa using hmem),
        List.filter_cons_of_neg (by simpa using hmem), List.cons_append, ih hrest]

theorem mem_of_pair_sublist {a b : α} {first rest : List α} (hnodup : (first ++ rest).Nodup)
    (h : [a, b].Sublist (first ++ rest)) (hb : b ∈ first) : a ∈ first := by
  obtain ⟨l₁, l₂, hpair, hfirst, hrest⟩ := List.sublist_append_iff.mp h
  cases l₁ with
  | nil =>
    obtain rfl : [a, b] = l₂ := hpair
    have hmem : b ∈ rest := hrest.subset (by simp)
    exact absurd hmem ((List.nodup_append'.mp hnodup).2.2 hb)
  | cons x l₁ =>
    obtain ⟨rfl, -⟩ : a = x ∧ [b] = l₁ ++ l₂ := by simpa using hpair
    exact hfirst.subset List.mem_cons_self

/-! ## Folds -/

/-- When each step either writes what is looked for or leaves it alone, the last write is found. -/
theorem foldl_last_write {σ : Type} {f : σ → α → σ} {look : σ → Option β} {hits : α → Bool}
    {value : α → β} (hstep : ∀ s a, look (f s a) = if hits a then some (value a) else look s)
    (as : List α) (s : σ) :
    look (as.foldl f s) = ((as.filter hits).getLast?.map value).or (look s) := by
  induction as generalizing s with
  | nil => rfl
  | cons a rest ih =>
    rw [List.foldl_cons, ih, hstep, List.filter_cons]
    split
    · rw [List.getLast?_cons]
      cases (rest.filter hits).getLast? <;> rfl
    · rfl

/-! ## Lists of results -/

section Results

variable {ε : Type} {f : α → Except ε β} {a : α} {as : List α} {bs : List β}

theorem mapM_cons_eq_ok_iff : (a :: as).mapM f = .ok bs ↔
    ∃ b rest, f a = .ok b ∧ as.mapM f = .ok rest ∧ bs = b :: rest := by
  rw [List.mapM_cons]
  cases f a with
  | error e => simp [bind, Except.bind]
  | ok b => cases as.mapM f <;> simp [bind, Except.bind, pure, Except.pure, eq_comm]

theorem mapM_eq_ok_iff : as.mapM f = .ok bs ↔ List.Forall₂ (fun a b => f a = .ok b) as bs := by
  induction as generalizing bs with
  | nil => simp [pure, Except.pure, eq_comm]
  | cons a as ih =>
    rw [mapM_cons_eq_ok_iff]
    constructor
    · rintro ⟨b, rest, ha, has, rfl⟩
      exact .cons ha (ih.mp has)
    · intro h
      cases h with
      | cons ha has => exact ⟨_, _, ha, ih.mpr has, rfl⟩

theorem exists_mapM_iff : (∃ bs, as.mapM f = .ok bs) ↔ ∀ a ∈ as, ∃ b, f a = .ok b := by
  induction as with
  | nil => simp [pure, Except.pure]
  | cons a as ih =>
    simp only [mapM_cons_eq_ok_iff, List.forall_mem_cons, ← ih]
    constructor
    · rintro ⟨_, b, rest, ha, has, -⟩
      exact ⟨⟨b, ha⟩, rest, has⟩
    · rintro ⟨⟨b, ha⟩, rest, has⟩
      exact ⟨_, b, rest, ha, has, rfl⟩

theorem exists_of_mapM_error {e : ε} (h : as.mapM f = .error e) : ∃ a ∈ as, f a = .error e := by
  induction as with
  | nil => cases h
  | cons a rest ih =>
    rw [List.mapM_cons] at h
    cases ha : f a with
    | error cause =>
      rw [ha] at h
      cases h
      exact ⟨a, List.mem_cons_self, ha⟩
    | ok b =>
      rw [ha] at h
      cases hrest : rest.mapM f with
      | error cause =>
        rw [hrest] at h
        cases h
        obtain ⟨a', ha', hfail⟩ := ih hrest
        exact ⟨a', List.mem_cons_of_mem a ha', hfail⟩
      | ok bs =>
        rw [hrest] at h
        cases h

end Results
end DecoratedApi
