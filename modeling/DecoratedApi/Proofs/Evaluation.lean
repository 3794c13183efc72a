import DecoratedApi.Literal.Value
import DecoratedApi.Proofs.Maps

/-!
# Values of expressions

An expression made of literals has its JSON image as its value. An expression has no value exactly
when some part of it, at any depth, cannot be read off its text or is a moment outside the calendar
(`literals_have_images`).
-/

namespace DecoratedApi

namespace Expr

variable {e part : Expr} {items : List Expr} {entries : List (String × Expr)}

/-! ## Parts -/

/-- The expressions that stand directly in an expression. -/
def parts : Expr → List Expr
  | array items => items
  | object entries => entries.map (·.2)
  | construct _ arguments => arguments
  | _ => []

theorem sizeOf_lt_of_mem_parts (h : part ∈ e.parts) : sizeOf part < sizeOf e := by
  cases e with
  | array items =>
    have hlt : sizeOf part < sizeOf items := List.sizeOf_lt_of_mem h
    simp only [array.sizeOf_spec]
    omega
  | object entries =>
    obtain ⟨⟨key, value⟩, hmem, rfl⟩ := List.mem_map.mp h
    have hlt := List.sizeOf_lt_of_mem hmem
    simp only [Prod.mk.sizeOf_spec, object.sizeOf_spec] at hlt ⊢
    omega
  | construct name arguments =>
    have hlt : sizeOf part < sizeOf arguments := List.sizeOf_lt_of_mem h
    simp only [construct.sizeOf_spec]
    omega
  | _ => cases h

theorem parts_induction {motive : Expr → Prop}
    (h : ∀ e, (∀ part ∈ e.parts, motive part) → motive e) (e : Expr) : motive e :=
  h e fun part hpart =>
    have := sizeOf_lt_of_mem_parts hpart
    parts_induction h part
termination_by sizeOf e

/-- The expression stands in the other one, at any depth. -/
inductive Within (part : Expr) : Expr → Prop
  | self : Within part part
  | part {direct e : Expr} (hdirect : direct ∈ e.parts) (h : Within part direct) : Within part e

theorem exists_within_iff {P : Expr → Prop} :
    (∃ part, Within part e ∧ P part) ↔
      P e ∨ ∃ direct ∈ e.parts, ∃ part, Within part direct ∧ P part := by
  constructor
  · rintro ⟨part, h, hpart⟩
    cases h with
    | self => exact .inl hpart
    | part hdirect h => exact .inr ⟨_, hdirect, part, h, hpart⟩
  · rintro (he | ⟨direct, hdirect, part, h, hpart⟩)
    · exact ⟨e, .self, he⟩
    · exact ⟨part, .part hdirect h, hpart⟩

/-! ## Images -/

/-- Made of literals, arrays and objects, where the keys of an object differ. -/
inductive IsLiteral : Expr → Prop
  | string (s : String) : IsLiteral (string s)
  | number (n : Binary64) : IsLiteral (number n)
  | bool (b : Bool) : IsLiteral (bool b)
  | null : IsLiteral null
  | undefined : IsLiteral undefined
  | array {items : List Expr} (h : ∀ item ∈ items, IsLiteral item) : IsLiteral (array items)
  | object {entries : List (String × Expr)} (hkeys : (entries.map (·.1)).Nodup)
      (h : ∀ entry ∈ entries, IsLiteral entry.2) : IsLiteral (object entries)

/-- The JSON value that a literal spells; none for `undefined` and for all that is no literal. An
item that is `undefined` is `null`, and an entry that is `undefined` is left out. -/
def image : Expr → Option Json
  | string s => some (.string s)
  | number n => some (.ofBinary64 n)
  | bool b => some (.bool b)
  | null => some .null
  | array items => some (.array (items.map fun item => item.image.getD .null))
  | object entries =>
    some (.object (entries.filterMap fun entry => entry.2.image.map fun v => (entry.1, v)))
  | undefined | construct _ _ | identifier _ | other _ _ => none
decreasing_by
  · exact sizeOf_lt_of_mem_parts (e := array items) ‹_›
  · exact sizeOf_lt_of_mem_parts (e := object entries) (List.mem_map_of_mem ‹_›)

theorem IsLiteral.image_eq_none_iff (h : e.IsLiteral) : e.image = none ↔ e = .undefined := by
  cases h <;> simp [image]

theorem evaluateItems_eq_image (h : ∀ item ∈ items, item.evaluate = .ok item.image) :
    evaluateItems items = .ok (items.map fun item => item.image.getD .null) := by
  induction items with
  | nil => rfl
  | cons item rest ih =>
    obtain ⟨hitem, hrest⟩ := List.forall_mem_cons.mp h
    rw [evaluateItems, hitem, ih hrest]
    rfl

theorem evaluateEntries_eq_image (members : OrderedMap Json)
    (h : ∀ entry ∈ entries, entry.2.evaluate = .ok entry.2.image)
    (hkeys : (members.keys ++ entries.map (·.1)).Nodup) :
    evaluateEntries entries members =
      .ok (members ++ entries.filterMap fun entry => entry.2.image.map fun v => (entry.1, v)) := by
  induction entries generalizing members with
  | nil => rw [evaluateEntries, List.filterMap_nil, List.append_nil]
  | cons entry rest ih =>
    obtain ⟨key, value⟩ := entry
    obtain ⟨hvalue, hrest⟩ := List.forall_mem_cons.mp h
    have hvalue : value.evaluate = .ok value.image := hvalue
    rw [evaluateEntries, hvalue]
    cases himage : value.image with
    | none =>
      have hnext : (members.keys ++ rest.map (·.1)).Nodup :=
        hkeys.sublist ((List.Sublist.refl _).append (List.sublist_cons_self _ _))
      rw [List.filterMap_cons_none (by simp [himage])]
      exact ih members hrest hnext
    | some v =>
      -- The key is new, so its member comes last, and is one of those that the rest is set on.
      have hnew : key ∉ members.keys := fun hmem => by
        simpa using List.disjoint_of_nodup_append hkeys hmem
      have hnext : ((OrderedMap.set key v members).keys ++ rest.map (·.1)).Nodup := by
        simpa [OrderedMap.set_of_notMem hnew, OrderedMap.keys] using hkeys
      refine (ih _ hrest hnext).trans ?_
      rw [List.filterMap_cons_some (b := (key, v)) (by simp [himage]),
        OrderedMap.set_of_notMem hnew, List.append_assoc, List.singleton_append]

theorem IsLiteral.evaluate_eq (h : e.IsLiteral) : e.evaluate = .ok e.image := by
  induction h with
  | string | number | bool | null | undefined => simp [evaluate, image]
  | array _ ih =>
    rw [evaluate, evaluateItems_eq_image ih, image]
    rfl
  | object hkeys _ ih =>
    rw [evaluate, evaluateEntries_eq_image [] ih hkeys, image]
    rfl

/-! ## Failures -/

/-- Cannot be read off its text: a name, an expression of another kind, or a new object that is not
a date of one string or number. -/
def IsDynamic : Expr → Prop
  | identifier _ | other _ _ => True
  | construct name arguments =>
    ¬(name = "Date" ∧ ((∃ s, arguments = [string s]) ∨ ∃ n, arguments = [number n]))
  | _ => False

/-- A moment in milliseconds that lies outside the calendar. -/
def IsOffCalendar (e : Expr) : Prop :=
  ∃ millis, e = construct "Date" [number millis] ∧ Timestamp.ofMillis? millis.toInt64 = none

/-- The expression has no value. -/
def Fails (e : Expr) : Prop := ∃ error, e.evaluate = .error error

theorem evaluateItems_fails_iff :
    (∃ error, evaluateItems items = .error error) ↔ ∃ item ∈ items, item.Fails := by
  induction items with
  | nil => simp [evaluateItems]
  | cons item rest ih =>
    rw [List.exists_mem_cons_iff, ← ih, evaluateItems, Fails]
    cases item.evaluate with
    | error e => simp [bind, Except.bind]
    | ok value => cases evaluateItems rest <;> simp [bind, Except.bind]

theorem evaluateEntries_fails_iff (members : OrderedMap Json) :
    (∃ error, evaluateEntries entries members = .error error) ↔
      ∃ value ∈ entries.map (·.2), value.Fails := by
  induction entries generalizing members with
  | nil => simp [evaluateEntries]
  | cons entry rest ih =>
    obtain ⟨key, value⟩ := entry
    rw [List.map_cons, List.exists_mem_cons_iff, evaluateEntries, Fails]
    cases value.evaluate with
    | error e => simp [bind, Except.bind]
    | ok found =>
      -- Whether the members before it grow or not, the rest fails on its own.
      cases found with
      | none => simpa [bind, Except.bind] using ih members
      | some v => simpa [bind, Except.bind] using ih (OrderedMap.set key v members)

theorem construct_fails_iff {name : String} {arguments : List Expr} :
    (construct name arguments).Fails ↔
      (construct name arguments).IsDynamic ∨ (construct name arguments).IsOffCalendar := by
  by_cases hdynamic : (construct name arguments).IsDynamic
  · refine iff_of_true ?_ (.inl hdynamic)
    rw [Fails]
    unfold evaluate
    split
    · next hname =>
      split
      · next s => simp [IsDynamic, hname] at hdynamic
      · next millis => simp [IsDynamic, hname] at hdynamic
      · exact ⟨_, rfl⟩
    · exact ⟨_, rfl⟩
  · obtain ⟨rfl, ⟨s, rfl⟩ | ⟨millis, rfl⟩⟩ := not_not.mp hdynamic
    · simp [Fails, evaluate, IsDynamic, IsOffCalendar]
    · cases hmoment : Timestamp.ofMillis? millis.toInt64 <;>
        simp [Fails, evaluate, IsDynamic, IsOffCalendar, hmoment]

theorem fails_iff_parts :
    e.Fails ↔ (e.IsDynamic ∨ e.IsOffCalendar) ∨ ∃ part ∈ e.parts, part.Fails := by
  cases e with
  | string | number | bool | null | undefined =>
    simp [Fails, evaluate, IsDynamic, IsOffCalendar, parts]
  | identifier | other => simp [Fails, evaluate, IsDynamic]
  | array items =>
    have hfails : (array items).Fails ↔ ∃ item ∈ items, item.Fails := by
      rw [← evaluateItems_fails_iff, Fails, evaluate]
      cases evaluateItems items <;> simp [bind, Except.bind]
    simpa [IsDynamic, IsOffCalendar, parts] using hfails
  | object entries =>
    have hfails : (object entries).Fails ↔ ∃ value ∈ entries.map (·.2), value.Fails := by
      rw [← evaluateEntries_fails_iff [], Fails, evaluate]
      cases evaluateEntries entries [] <;> simp [bind, Except.bind]
    simpa [IsDynamic, IsOffCalendar, parts] using hfails
  | construct name arguments =>
    rw [construct_fails_iff]
    refine (or_iff_left_of_imp ?_).symm
    rintro ⟨argument, hmem, hfails⟩
    -- A date of one string or number has no argument that fails.
    refine .inl ?_
    rintro ⟨-, ⟨s, rfl⟩ | ⟨n, rfl⟩⟩
    all_goals
      obtain rfl := List.mem_singleton.mp hmem
      simp [Fails, evaluate] at hfails

theorem fails_iff :
    e.Fails ↔ ∃ part, Within part e ∧ (part.IsDynamic ∨ part.IsOffCalendar) := by
  induction e using parts_induction with
  | h e ih =>
    rw [fails_iff_parts, exists_within_iff]
    exact or_congr_right (exists_congr fun part => and_congr_right (ih part))

end Expr

/-- An expression of literals has its image as its value, and the image is none for `undefined`
only. An expression has no value exactly when a part of it, at any depth, cannot be read off its
text or is a moment outside the calendar. -/
theorem literals_have_images (e : Expr) :
    (e.IsLiteral → e.evaluate = .ok e.image ∧ (e.image = none ↔ e = .undefined)) ∧
    ((∃ error, e.evaluate = .error error) ↔
      ∃ part, Expr.Within part e ∧ (part.IsDynamic ∨ part.IsOffCalendar)) :=
  ⟨fun h => ⟨h.evaluate_eq, h.image_eq_none_iff⟩, Expr.fails_iff⟩

/-- Three, a missing item, a missing entry and a truth value. -/
def Expr.parcel : Expr :=
  object [("sizes", array [number (.ofInt 3), undefined]), ("note", undefined), ("open", bool true)]

theorem parcel_is_read_without_today :
    Expr.parcel.IsLiteral ∧
    Expr.parcel.evaluate =
      .ok (some (.object [("sizes", .array [.ofInt 3, .null]), ("open", .bool true)])) ∧
    ∃ error, (Expr.array [.parcel, .construct "Date" [.identifier "today"]]).evaluate =
      .error error := by
  have hsizes : (Expr.array [.number (.ofInt 3), .undefined]).IsLiteral :=
    .array (by simp [Expr.IsLiteral.number, Expr.IsLiteral.undefined])
  have hliteral : Expr.parcel.IsLiteral :=
    .object (by decide) (by simp [hsizes, Expr.IsLiteral.undefined, Expr.IsLiteral.bool])
  have himage : Expr.parcel.image =
      some (.object [("sizes", .array [.ofBinary64 (.ofInt 3), .null]), ("open", .bool true)]) := by
    simp [Expr.parcel, Expr.image]
  refine ⟨hliteral, ?_, ?_⟩
  · rw [((literals_have_images _).1 hliteral).1, himage]
    rfl
  · have htoday : Expr.Within (.construct "Date" [.identifier "today"])
        (.array [.parcel, .construct "Date" [.identifier "today"]]) :=
      .part (List.mem_cons_of_mem _ (List.mem_singleton_self _)) .self
    exact (literals_have_images _).2.mpr ⟨_, htoday, .inl (by simp [Expr.IsDynamic])⟩

end DecoratedApi
