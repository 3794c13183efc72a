import DecoratedApi.Literal.Value
import DecoratedApi.Proofs.Lists
import DecoratedApi.Proofs.Moments
import DecoratedApi.Proofs.WholeNumbers

/-!
# Fitted values

A default value is fitted to the type that it initializes. This succeeds exactly on the values that
the type admits, and keeps their kind (`fitted_exactly_when_admitted`). Fitting the result once more
changes nothing, unless a moment in it has a year that is not written with four digits: such a text
is written but not read (`fitted_values_stay_iff`).
-/

namespace DecoratedApi

namespace ApiType

variable {t : ApiType} {v w : Json}

/-! ## One call -/

/-- A value that fits as it is. -/
inductive Keeps : ApiType → Json → Prop
  | double (n : JsonNumber) : Keeps double (.number n)
  | float (n : JsonNumber) : Keeps float (.number n)
  | string (s : String) : Keeps string (.string s)
  | boolean (b : Bool) : Keeps boolean (.bool b)
  | enum {values : List Json} {v listed : Json} (hmem : listed ∈ values)
      (h : listed.same v = true) : Keeps (enum values) v
  | any (v : Json) : Keeps any v
  | object (v : Json) : Keeps object v
  | refObject (name : String) (v : Json) : Keeps (refObject name) v
  | refEnum (name : String) (v : Json) : Keeps (refEnum name) v

/-- What a value becomes when it is fitted. -/
inductive Fits : ApiType → Json → Json → Prop
  | null (t : ApiType) : Fits t .null .null
  | integer {n : JsonNumber} (h : n.toBinary64.isWhole = true) :
      Fits integer (.number n) (.ofBinary64 n.toBinary64)
  | long {n : JsonNumber} (h : n.toBinary64.isWhole = true) :
      Fits long (.number n) (.ofBinary64 n.toBinary64)
  | date {s : String} {m : Timestamp} (h : Timestamp.read? s = some m) :
      Fits date (.string s) (.string m.dateText)
  | datetime {s : String} {m : Timestamp} (h : Timestamp.read? s = some m) :
      Fits datetime (.string s) (.string m.text)
  | array {element : ApiType} {items values : List Json}
      (h : items.mapM element.coerce = .ok values) :
      Fits (array element) (.array items) (.array values)
  | kept {t : ApiType} {v : Json} (h : t.Keeps v) : Fits t v v

theorem coerce_null (t : ApiType) : t.coerce .null = .ok .null := by
  cases t <;> rfl

theorem fits_of_coerce : t.coerce v = .ok w → t.Fits v w := by
  fun_cases coerce t v with
  | case1 => rintro ⟨⟩; exact .null t
  | case2 n h => rintro ⟨⟩; exact .integer h
  | case4 n h => rintro ⟨⟩; exact .long h
  | case6 n => rintro ⟨⟩; exact .kept (.double n)
  | case7 n => rintro ⟨⟩; exact .kept (.float n)
  | case8 s => rintro ⟨⟩; exact .kept (.string s)
  | case9 b => rintro ⟨⟩; exact .kept (.boolean b)
  | case10 s m h => rintro ⟨⟩; exact .date h
  | case12 s m h => rintro ⟨⟩; exact .datetime h
  | case14 _ values _ hany =>
    rintro ⟨⟩
    obtain ⟨listed, hmem, hsame⟩ := List.any_eq_true.mp hany
    exact .kept (.enum hmem hsame)
  | case16 element items =>
    cases hitems : items.mapM (coerce element) with
    | error e => rintro ⟨⟩
    | ok values => rintro ⟨⟩; exact .array hitems
  | case17 => rintro ⟨⟩; exact .kept (.any v)
  | case18 => rintro ⟨⟩; exact .kept (.object v)
  | case19 name => rintro ⟨⟩; exact .kept (.refObject name v)
  | case20 name => rintro ⟨⟩; exact .kept (.refEnum name v)
  | case3 | case5 | case11 | case13 | case15 | case21 => rintro ⟨⟩

theorem coerce_of_keeps (h : t.Keeps v) : t.coerce v = .ok v := by
  cases h with
  | double | float | string | boolean => rfl
  | @enum values _ listed hmem hsame =>
    have hany : values.any (·.same v) = true := List.any_eq_true.mpr ⟨listed, hmem, hsame⟩
    cases v with
    | null => rfl
    | _ => simp only [coerce, hany, if_true]
  | any | object | refObject | refEnum => cases v <;> rfl

theorem coerce_of_fits (h : t.Fits v w) : t.coerce v = .ok w := by
  cases h with
  | null => exact coerce_null t
  | integer h | long h => simp only [coerce, h, if_true]
  | date h | datetime h => simp only [coerce, h]
  | array h =>
    rw [coerce, h]
    rfl
  | kept h => exact coerce_of_keeps h

end ApiType

/-! ## Admitted values -/

namespace Json

/-- Every integer in the value fits in 64 bits, with or without a sign. -/
inductive InRange : Json → Prop
  | null : InRange null
  | bool (b : Bool) : InRange (bool b)
  | integer {n : ℤ} (hlow : -2 ^ 63 ≤ n) (hhigh : n < 2 ^ 64) : InRange (number (.integer n))
  | float (x : Binary64) : InRange (number (.float x))
  | string (s : String) : InRange (string s)
  | array {items : List Json} (h : ∀ item ∈ items, InRange item) : InRange (array items)
  | object {members : List (String × Json)} (h : ∀ m ∈ members, InRange m.2) :
      InRange (object members)

/-- The kinds of JSON values, with one for all numbers. -/
inductive Kind
  | null
  | bool
  | number
  | string
  | array
  | object
deriving DecidableEq, Repr

def kind : Json → Kind
  | null => .null
  | bool _ => .bool
  | number _ => .number
  | string _ => .string
  | array _ => .array
  | object _ => .object

end Json

namespace JsonNumber

/-- The exact value of a number. -/
def value? : JsonNumber → Option ℚ
  | integer n => some n
  | float x => x.value?

/-- The exact value is an integer, however the number is held. -/
def HasNoFraction (n : JsonNumber) : Prop := ∃ k : ℤ, n.value? = some (k : ℚ)

theorem isWhole_toBinary64_iff {n : JsonNumber} (h : (Json.number n).InRange) :
    n.toBinary64.isWhole = true ↔ n.HasNoFraction := by
  cases h with
  | integer hlow hhigh => exact iff_of_true (Binary64.isWhole_ofInt (by omega)) ⟨_, rfl⟩
  | float x => exact Binary64.isWhole_iff

end JsonNumber

namespace ApiType

variable {t : ApiType} {v w : Json}

/-- The values that a type admits. -/
inductive Admits : ApiType → Json → Prop
  | null (t : ApiType) : Admits t .null
  | integer {n : JsonNumber} (h : n.HasNoFraction) : Admits integer (.number n)
  | long {n : JsonNumber} (h : n.HasNoFraction) : Admits long (.number n)
  | date {s : String} (h : Timestamp.IsDateText s) : Admits date (.string s)
  | datetime {s : String} (h : Timestamp.IsDateText s) : Admits datetime (.string s)
  | array {element : ApiType} {items : List Json} (h : ∀ item ∈ items, Admits element item) :
      Admits (array element) (.array items)
  | kept {t : ApiType} {v : Json} (h : t.Keeps v) : Admits t v

theorem Fits.admits {t : ApiType} {v w : Json} (hv : v.InRange) (h : t.Fits v w) :
    t.Admits v := by
  cases h with
  | null => exact .null t
  | integer h => exact .integer ((JsonNumber.isWhole_toBinary64_iff hv).mp h)
  | long h => exact .long ((JsonNumber.isWhole_toBinary64_iff hv).mp h)
  | date h => exact .date (Timestamp.isDateText_iff.mpr ⟨_, h⟩)
  | datetime h => exact .datetime (Timestamp.isDateText_iff.mpr ⟨_, h⟩)
  | @array element items values h =>
    cases hv with
    | array hitems =>
      refine .array fun item hitem => ?_
      obtain ⟨value, hvalue⟩ := exists_mapM_iff.mp ⟨values, h⟩ item hitem
      exact (fits_of_coerce hvalue).admits (hitems item hitem)
  | kept h => exact .kept h
termination_by t

theorem Admits.fits (h : t.Admits v) (hv : v.InRange) : ∃ w, t.Fits v w := by
  induction h with
  | null t => exact ⟨_, .null t⟩
  | integer h => exact ⟨_, .integer ((JsonNumber.isWhole_toBinary64_iff hv).mpr h)⟩
  | long h => exact ⟨_, .long ((JsonNumber.isWhole_toBinary64_iff hv).mpr h)⟩
  | date h =>
    obtain ⟨m, hm⟩ := Timestamp.isDateText_iff.mp h
    exact ⟨_, .date hm⟩
  | datetime h =>
    obtain ⟨m, hm⟩ := Timestamp.isDateText_iff.mp h
    exact ⟨_, .datetime hm⟩
  | array _ ih =>
    cases hv with
    | array hitems =>
      obtain ⟨values, hvalues⟩ := exists_mapM_iff.mpr fun item hitem => by
        obtain ⟨value, hvalue⟩ := ih item hitem (hitems item hitem)
        exact ⟨value, coerce_of_fits hvalue⟩
      exact ⟨_, .array hvalues⟩
  | kept h => exact ⟨_, .kept h⟩

theorem Fits.kind_eq (h : t.Fits v w) : w.kind = v.kind := by
  cases h with
  | integer h | long h =>
    rcases Json.ofBinary64_of_isWhole h with ⟨heq, -⟩ | heq
    · rw [heq]; rfl
    · rw [heq]; rfl
  | _ => rfl

/-- Whether fitting a value to the type may change it. -/
def changesValues : ApiType → Bool
  | integer | long | date | datetime => true
  | array element => element.changesValues
  | _ => false

theorem Fits.eq_of_not_changesValues {t : ApiType} {v w : Json} (h : t.Fits v w)
    (ht : t.changesValues = false) : w = v := by
  cases h with
  | null | kept => rfl
  | integer | long | date | datetime => cases ht
  | @array element items values h =>
    have helement : element.changesValues = false := ht
    have hsame : List.Forall₂ Eq items values := (mapM_eq_ok_iff.mp h).imp
      fun item value hvalue => ((fits_of_coerce hvalue).eq_of_not_changesValues helement).symm
    rw [List.forall₂_eq_eq_eq] at hsame
    rw [hsame]
termination_by t

end ApiType

/-- A value can be fitted to a type exactly when the type admits it. The result has the same kind,
and is the same value where the type changes none. The items of an array are fitted one by one. -/
theorem fitted_exactly_when_admitted (t : ApiType) {v : Json} (hv : v.InRange) :
    ((∃ w, t.coerce v = .ok w) ↔ t.Admits v) ∧
    ∀ w, t.coerce v = .ok w → w.kind = v.kind ∧ (t.changesValues = false → w = v) ∧
      ∀ element items, t = .array element → v = .array items → ∃ values, w = .array values ∧
        values.length = items.length ∧
        List.Forall₂ (fun item value => element.coerce item = .ok value) items values := by
  refine ⟨⟨?_, ?_⟩, fun w h => ?_⟩
  · rintro ⟨w, h⟩
    exact (ApiType.fits_of_coerce h).admits hv
  · intro h
    obtain ⟨w, hw⟩ := h.fits hv
    exact ⟨w, ApiType.coerce_of_fits hw⟩
  · have hfits := ApiType.fits_of_coerce h
    refine ⟨hfits.kind_eq, hfits.eq_of_not_changesValues, ?_⟩
    rintro element items rfl rfl
    cases hfits with
    | array hvalues =>
      have hall := mapM_eq_ok_iff.mp hvalues
      exact ⟨_, rfl, hall.length_eq.symm, hall⟩
    | kept hkept => cases hkept

/-- Seven, two written as a float, and no value. -/
def Json.weights : Json :=
  .array [.number (.integer 7), .number (.float (.finite false (2 ^ 52) (-51))), .null]

theorem weights_are_fitted :
    Json.weights.InRange ∧
    (ApiType.array .integer).coerce Json.weights = .ok (.array [.ofInt 7, .ofInt 2, .null]) ∧
    (ApiType.array .integer).Admits Json.weights ∧
    List.Forall₂ (fun item value => ApiType.integer.coerce item = .ok value)
      [.number (.integer 7), .number (.float (.finite false (2 ^ 52) (-51))), .null]
      [.ofInt 7, .ofInt 2, .null] := by
  have hrange : Json.weights.InRange := by
    refine .array fun item hitem => ?_
    simp only [List.mem_cons, List.not_mem_nil, or_false] at hitem
    rcases hitem with rfl | rfl | rfl
    · exact .integer (by decide) (by decide)
    · exact .float _
    · exact .null
  have hfit : (ApiType.array .integer).coerce Json.weights =
      .ok (.array [.ofInt 7, .ofInt 2, .null]) := rfl
  obtain ⟨hiff, hall⟩ := fitted_exactly_when_admitted (.array .integer) hrange
  obtain ⟨-, -, hitems⟩ := hall _ hfit
  obtain ⟨values, hvalues, -, hpairs⟩ := hitems _ _ rfl rfl
  cases hvalues
  exact ⟨hrange, hfit, hiff.mp ⟨_, hfit⟩, hpairs⟩

/-! ## Fitting again -/

namespace ApiType

variable {t : ApiType} {v w : Json}

/-- The moments in a value, where the type asks for date and time. -/
def moments : ApiType → Json → List Timestamp
  | datetime, .string s => (Timestamp.read? s).toList
  | array element, .array items => items.flatMap element.moments
  | _, _ => []

/-- How it ends when `w` is fitted again: as `w`, where all moments have plain years, and else with
the text of one of the others as an invalid date. -/
def Refits {α : Type} (ms : List Timestamp) (w : α) (again : Outcome α) : Prop :=
  ((∀ m ∈ ms, m.date.HasPlainYear) ∧ again = .ok w) ∨
    ∃ m ∈ ms, ¬m.date.HasPlainYear ∧ again = .error (.invalidDate m.text)

theorem coerce_whole (ht : t = integer ∨ t = long) {n : JsonNumber}
    (h : n.toBinary64.isWhole = true) :
    t.coerce (.number n) = .ok (.ofBinary64 n.toBinary64) := by
  rcases ht with rfl | rfl
  · exact coerce_of_fits (.integer h)
  · exact coerce_of_fits (.long h)

theorem coerce_ofBinary64 (ht : t = integer ∨ t = long) {x : Binary64} (h : x.isWhole = true) :
    t.coerce (.ofBinary64 x) = .ok (.ofBinary64 x) := by
  rcases Json.ofBinary64_of_isWhole h with ⟨heq, hsmall⟩ | heq
  · -- What became an integer is held exactly.
    have hexact := (Binary64.ofInt_exact hsmall).1
    have hagain := coerce_whole ht (show (JsonNumber.integer x.truncate).toBinary64.isWhole = true
      from hexact)
    rw [heq, Json.ofInt, hagain]
    exact congrArg _ (Json.ofBinary64_ofInt hsmall)
  · have hagain := coerce_whole ht (show (JsonNumber.float x).toBinary64.isWhole = true from h)
    rw [heq, hagain]
    exact congrArg _ heq

theorem refits_items {element : ApiType} {items values : List Json}
    (hone : ∀ item value, element.coerce item = .ok value →
      Refits (element.moments item) value (element.coerce value))
    (h : List.Forall₂ (fun item value => element.coerce item = .ok value) items values) :
    Refits (items.flatMap element.moments) values (values.mapM element.coerce) := by
  induction h with
  | nil => exact .inl ⟨by simp, rfl⟩
  | @cons item value items values hitem _ ih =>
    rw [List.flatMap_cons, List.mapM_cons]
    -- The items are fitted from the left, so an invalid date hides those behind it.
    rcases hone item value hitem with ⟨hplain, hok⟩ | ⟨m, hm, hyear, herror⟩
    · rcases ih with ⟨hplains, hoks⟩ | ⟨m, hm, hyear, herror⟩
      · refine .inl ⟨fun m hm => ?_, by rw [hok, hoks]; rfl⟩
        exact (List.mem_append.mp hm).elim (hplain m) (hplains m)
      · exact .inr ⟨m, List.mem_append_right _ hm, hyear, by rw [hok, herror]; rfl⟩
    · exact .inr ⟨m, List.mem_append_left _ hm, hyear, by rw [herror]; rfl⟩

theorem Fits.refits {t : ApiType} {v w : Json} (h : t.Fits v w) :
    Refits (t.moments v) w (t.coerce w) := by
  cases h with
  | null => exact .inl ⟨by cases t <;> simp [moments], coerce_null t⟩
  | integer h => exact .inl ⟨by simp [moments], coerce_ofBinary64 (.inl rfl) h⟩
  | long h => exact .inl ⟨by simp [moments], coerce_ofBinary64 (.inr rfl) h⟩
  | date h =>
    have hagain := coerce_of_fits (.date (Timestamp.read?_dateText (Timestamp.read?_regular h)))
    exact .inl ⟨by simp [moments], hagain⟩
  | @datetime s m h =>
    have hregular := Timestamp.read?_regular h
    by_cases hplain : m.date.HasPlainYear
    · have hagain := coerce_of_fits (.datetime (Timestamp.read?_text_plain hregular hplain))
      rw [Timestamp.text_cut] at hagain
      exact .inl ⟨by simp [moments, h, hplain], hagain⟩
    · refine .inr ⟨m, by simp [moments, h], hplain, ?_⟩
      simp only [coerce, Timestamp.read?_text_signed hregular hplain]
  | @array element items values h =>
    have hitems := refits_items (fun item value hvalue => (fits_of_coerce hvalue).refits)
      (mapM_eq_ok_iff.mp h)
    rcases hitems with ⟨hplain, hok⟩ | ⟨m, hm, hyear, herror⟩
    · exact .inl ⟨hplain, coerce_of_fits (.array hok)⟩
    · refine .inr ⟨m, hm, hyear, ?_⟩
      rw [coerce, herror]
      rfl
  | kept h => exact .inl ⟨by cases h <;> simp [moments], coerce_of_keeps h⟩
termination_by t

end ApiType

/-- A fitted value stays as it is when it is fitted again, exactly when all its moments have years
of four digits. Otherwise one of the other moments, as it was written, is refused. -/
theorem fitted_values_stay_iff {t : ApiType} {v w : Json} (h : t.coerce v = .ok w) :
    (t.coerce w = .ok w ↔ ∀ m ∈ t.moments v, m.date.HasPlainYear) ∧
    ((∃ m ∈ t.moments v, ¬m.date.HasPlainYear) →
      ∃ m ∈ t.moments v, ¬m.date.HasPlainYear ∧ t.coerce w = .error (.invalidDate m.text)) := by
  rcases (ApiType.fits_of_coerce h).refits with ⟨hplain, hok⟩ | ⟨m, hm, hyear, herror⟩
  · exact ⟨iff_of_true hok hplain, fun ⟨m, hm, hyear⟩ => absurd (hplain m hm) hyear⟩
  · refine ⟨iff_of_false ?_ fun hplain => hyear (hplain m hm), fun _ => ⟨m, hm, hyear, herror⟩⟩
    rw [herror]
    nofun

/-- A leap second in another zone, with more digits than are written, and no value. -/
def Json.leapSeconds : Json := .array [.string "2017-01-01T00:59:60.9999+01:00", .null]

theorem leap_seconds_stay :
    (ApiType.array .datetime).coerce Json.leapSeconds =
      .ok (.array [.string "2016-12-31T23:59:60.999Z", .null]) ∧
    (ApiType.array .datetime).moments Json.leapSeconds =
      [⟨⟨2016, 12, 31⟩, 23, 59, 60, 999900000⟩] ∧
    (ApiType.array .datetime).coerce (.array [.string "2016-12-31T23:59:60.999Z", .null]) =
      .ok (.array [.string "2016-12-31T23:59:60.999Z", .null]) := by
  have hfit : (ApiType.array .datetime).coerce Json.leapSeconds =
      .ok (.array [.string "2016-12-31T23:59:60.999Z", .null]) := rfl
  have hmoments : (ApiType.array .datetime).moments Json.leapSeconds =
      [⟨⟨2016, 12, 31⟩, 23, 59, 60, 999900000⟩] := rfl
  refine ⟨hfit, hmoments, (fitted_values_stay_iff hfit).1.mpr ?_⟩
  rw [hmoments]
  decide

/-- The last hour of the year 9999 in a zone behind universal time is written with a year of five
digits, and that text is refused. -/
theorem last_hour_of_9999_is_refused :
    ApiType.datetime.coerce (.string "9999-12-31T23:59:59-01:00") =
      .ok (.string "+10000-01-01T00:59:59.000Z") ∧
    ApiType.datetime.coerce (.string "+10000-01-01T00:59:59.000Z") =
      .error (.invalidDate "+10000-01-01T00:59:59.000Z") :=
  ⟨rfl, rfl⟩

end DecoratedApi
