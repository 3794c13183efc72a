import Mathlib.Data.List.TakeWhile
import Mathlib.Data.Nat.Digits.Defs
import Mathlib.Tactic.GCongr
import DecoratedApi.Calendar.Timestamp

/-!
# Moments that are read and written

A moment that has been read lies in the calendar. Its date, written alone, is always read again
(`read?_dateText`). Its full text is read again when the year has four digits
(`read?_text_plain`): a full timestamp has no sign before its year, and the other two forms do not
end in `Z`, so that every other text is refused (`read?_text_signed`).
-/

namespace DecoratedApi

namespace Date

variable {d : Date}

/-- The year is written with four digits and no sign. -/
def HasPlainYear (d : Date) : Prop := 0 ≤ d.year ∧ d.year ≤ 9999

instance (d : Date) : Decidable d.HasPlainYear := inferInstanceAs (Decidable (_ ∧ _))

theorem HasPlainYear.natAbs_lt (h : d.HasPlainYear) : d.year.natAbs < 10 ^ 4 := by
  unfold HasPlainYear at h
  omega

theorem valid_iff : d.valid = true ↔
    (firstYear ≤ d.year ∧ d.year ≤ lastYear) ∧ (1 ≤ d.month ∧ d.month ≤ 12) ∧
      1 ≤ d.day ∧ d.day ≤ daysIn d.year d.month := by
  simp only [valid, decide_eq_true_eq]
  tauto

theorem daysIn_bounds (year : Int) (month : Nat) :
    28 ≤ daysIn year month ∧ daysIn year month ≤ 31 := by
  unfold daysIn
  split_ifs <;> omega

theorem valid_next (h : d.valid = true) (hyear : d.year < lastYear) : d.next.valid = true := by
  rw [valid_iff] at h ⊢
  unfold next
  split
  · dsimp only
    omega
  · split
    · have hdays := daysIn_bounds d.year (d.month + 1)
      dsimp only
      omega
    · have hdays := daysIn_bounds (d.year + 1) 1
      dsimp only
      omega

theorem valid_previous (h : d.valid = true) (hyear : firstYear < d.year) :
    d.previous.valid = true := by
  rw [valid_iff] at h ⊢
  unfold previous
  split
  · dsimp only
    omega
  · split
    · have hdays := daysIn_bounds d.year (d.month - 1)
      dsimp only
      omega
    · have hdecember : daysIn (d.year - 1) 12 = 31 := rfl
      dsimp only
      omega

end Date

namespace Timestamp

variable {cs rest : List Char} {t : Timestamp} {d : Date}

/-! ## Digits -/

theorem numberOf_eq (cs : List Char) : numberOf cs = Nat.ofDigitChars 10 cs 0 := by
  simp only [numberOf, Nat.ofDigitChars_eq_foldl, Nat.mul_comm 10]

theorem numberOf_lt (h : ∀ c ∈ cs, c.isDigit = true) : numberOf cs < 10 ^ cs.length := by
  rw [numberOf_eq]
  induction cs with
  | nil => simp
  | cons c cs ih =>
    have hc := Char.isDigit_iff_toNat.mp (h c List.mem_cons_self)
    have hrest := ih fun d hd => h d (List.mem_cons_of_mem _ hd)
    have hnine : c.toNat - '0'.toNat ≤ 9 := by
      have : '9'.toNat = '0'.toNat + 9 := rfl
      omega
    have hscaled := Nat.mul_le_mul_left (10 ^ cs.length) hnine
    rw [Nat.ofDigitChars_cons, Nat.ofDigitChars_eq_ofDigitChars_zero, Nat.mul_zero, Nat.zero_add,
      List.length_cons, Nat.pow_succ]
    omega

theorem isDigit_of_mem_padded {width n : Nat} {c : Char} (h : c ∈ padded width n) :
    c.isDigit = true := by
  rcases List.mem_append.mp h with hzero | hdigit
  · rw [List.eq_of_mem_replicate hzero]
    rfl
  · exact Nat.isDigit_of_mem_toDigits (by omega) (by omega) hdigit

theorem numberOf_padded (width n : Nat) : numberOf (padded width n) = n := by
  rw [numberOf_eq, padded, Nat.ofDigitChars_append, Nat.ofDigitChars_replicate_zero, Nat.mul_zero,
    Nat.ofDigitChars_ten_toDigits]

theorem le_length_padded (width n : Nat) : width ≤ (padded width n).length := by
  simp only [padded, List.length_append, List.length_replicate]
  omega

theorem length_padded {width n : Nat} (hwidth : 0 < width) (h : n < 10 ^ width) :
    (padded width n).length = width := by
  have hle := (Nat.length_toDigits_le_iff (by omega) hwidth).mpr h
  simp only [padded, List.length_append, List.length_replicate]
  omega

theorem padded_eq_cons (width n : Nat) : ∃ c cs, padded width n = c :: cs ∧ c.isDigit = true := by
  cases h : padded width n with
  | nil => simp [padded, Nat.toDigits_ne_nil] at h
  | cons c cs => exact ⟨c, cs, rfl, isDigit_of_mem_padded (by rw [h]; exact List.mem_cons_self)⟩

theorem isBlank_of_isDigit {c : Char} (h : c.isDigit = true) : Text.isBlank c = false := by
  have hc := Char.isDigit_iff_toNat.mp h
  have hzero : '0'.toNat = 48 := rfl
  have hnine : '9'.toNat = 57 := rfl
  simp only [Text.isBlank, Bool.or_eq_false_iff, Bool.and_eq_false_iff, decide_eq_false_iff_not,
    beq_eq_false_iff_ne]
  omega

theorem dropWhile_padded (width n : Nat) (rest : List Char) :
    (padded width n ++ rest).dropWhile Text.isBlank = padded width n ++ rest := by
  obtain ⟨c, cs, hcs, hc⟩ := padded_eq_cons width n
  rw [hcs, List.cons_append, List.dropWhile_cons_of_neg (by simp [isBlank_of_isDigit hc])]

theorem digits?_append {least most : Nat} {ds : List Char} (hdigits : ∀ c ∈ ds, c.isDigit = true)
    (hleast : least ≤ ds.length) (hmost : ds.length ≤ most)
    (hstop : ds.length = most ∨ ∀ c ∈ rest.head?, c.isDigit = false) :
    digits? least most (ds ++ rest) = some (numberOf ds, rest) := by
  have htaken : ((ds ++ rest).take most).takeWhile Char.isDigit = ds := by
    rw [List.take_append, List.take_of_length_le hmost, List.takeWhile_append_of_pos hdigits]
    rcases hstop with hfull | hother
    · simp [hfull]
    · cases rest with
      | nil => simp
      | cons c rest =>
        have hc : c.isDigit = false := hother c rfl
        cases most - ds.length <;> simp [hc]
  unfold digits?
  simp only [htaken]
  rw [if_neg (by omega), List.drop_left]

theorem digits?_padded {least width n : Nat} (hwidth : 0 < width) (h : n < 10 ^ width)
    (hleast : least ≤ width) (rest : List Char) :
    digits? least width (padded width n ++ rest) = some (n, rest) := by
  have hlength := length_padded hwidth h
  rw [digits?_append (fun c => isDigit_of_mem_padded) (by omega) (by omega) (.inl hlength),
    numberOf_padded]

theorem digits?_two {n : Nat} (h : n < 100) (rest : List Char) :
    digits? 2 2 (padded 2 n ++ rest) = some (n, rest) :=
  digits?_padded (by omega) h (by omega) rest

theorem field?_padded {n : Nat} (h : n < 100) (rest : List Char) :
    field? (padded 2 n ++ rest) = some (n, rest) := by
  rw [field?, dropWhile_padded, digits?_padded (by omega) h (by omega)]

theorem digits?_lt {least most n : Nat} (h : digits? least most cs = some (n, rest)) :
    n < 10 ^ most := by
  unfold digits? at h
  dsimp only at h
  split at h
  · cases h
  · cases h
    have hlength : ((cs.take most).takeWhile Char.isDigit).length ≤ most :=
      (List.takeWhile_prefix _).length_le.trans (List.length_take_le ..)
    exact (numberOf_lt fun c => List.mem_takeWhile_imp).trans_le
      (Nat.pow_le_pow_right (by omega) hlength)

theorem char?_self (c : Char) (cs : List Char) : char? c (c :: cs) = some cs := by
  simp [char?]

theorem reads {α β : Type} {x : Option α} {a : α} {f : α → Option β} {r : Option β}
    (hx : x = some a) (hrest : f a = r) : x >>= f = r := by
  rw [hx]
  exact hrest

/-! ## Years and dates -/

theorem yearChars_plain {year : Int} (h : 0 ≤ year ∧ year ≤ 9999) :
    yearChars year = padded 4 year.natAbs := by
  rw [yearChars, if_neg (by omega), if_neg (by omega)]

theorem yearChars_signed {year : Int} (h : ¬(0 ≤ year ∧ year ≤ 9999)) :
    (yearChars year = '-' :: padded 4 year.natAbs ∧ year = -(year.natAbs : Int)) ∨
      (yearChars year = '+' :: padded 4 year.natAbs ∧ year = (year.natAbs : Int)) := by
  by_cases hneg : year < 0
  · exact .inl ⟨by rw [yearChars, if_pos hneg], by omega⟩
  · exact .inr ⟨by rw [yearChars, if_neg hneg, if_pos (by omega)], by omega⟩

theorem digits?_signedYear (n : Nat) (rest : List Char) :
    digits? 1 (padded 4 n ++ '-' :: rest).length (padded 4 n ++ '-' :: rest) =
      some (n, '-' :: rest) := by
  have hfour := le_length_padded 4 n
  rw [digits?_append (fun c => isDigit_of_mem_padded) (by omega) (by simp) (.inr (by simp)),
    numberOf_padded]

theorem year?_yearChars (year : Int) (rest : List Char) :
    year? (yearChars year ++ '-' :: rest) = some (year, '-' :: rest) := by
  by_cases hplain : 0 ≤ year ∧ year ≤ 9999
  · have hread : digits? 1 4 (padded 4 year.natAbs ++ '-' :: rest) =
        some (year.natAbs, '-' :: rest) :=
      digits?_padded (by omega) (by omega) (by omega) _
    obtain ⟨c, cs, hcs, hc⟩ := padded_eq_cons 4 year.natAbs
    rw [yearChars_plain hplain, year?, dropWhile_padded]
    rw [hcs, List.cons_append] at hread ⊢
    -- The first character is a digit and so no sign.
    split
    · next heq => cases heq; cases hc
    · next heq => cases heq; cases hc
    · simp only [hread, Option.map_some, Int.natAbs_of_nonneg hplain.1]
  · rcases yearChars_signed hplain with ⟨hchars, hyear⟩ | ⟨hchars, hyear⟩
    all_goals
      rw [hchars, year?, List.cons_append, List.dropWhile_cons_of_neg (by decide)]
      simp only [digits?_signedYear, Option.map_some]
      rw [← hyear]

theorem dateFields?_dateChars (h : d.valid = true) (rest : List Char) :
    dateFields? (dateChars d ++ rest) = some ((d.year, d.month, d.day), rest) := by
  have hvalid := Date.valid_iff.mp h
  have hdays := Date.daysIn_bounds d.year d.month
  rw [dateFields?, dateChars]
  simp only [List.append_assoc, List.cons_append]
  refine reads (year?_yearChars ..) ?_
  refine reads (char?_self ..) (reads (field?_padded (by omega) _) ?_)
  exact reads (char?_self ..) (reads (field?_padded (by omega) _) rfl)

theorem full?_signed (h : ¬d.HasPlainYear) (rest : List Char) :
    full? (dateChars d ++ rest) = none := by
  have hnone {c : Char} (hc : c.isDigit = false) (cs : List Char) :
      digits? 4 4 (c :: cs) = none := by
    simp [digits?, hc]
  rcases yearChars_signed h with ⟨hchars, -⟩ | ⟨hchars, -⟩
  all_goals
    rw [full?, dateChars, hchars]
    simp only [List.append_assoc, List.cons_append]
    rw [hnone (by decide)]
    rfl

/-! ## Moments of the calendar -/

/-- A moment of the calendar; second 60 is a leap second. -/
structure IsRegular (t : Timestamp) : Prop where
  date : t.date.valid = true
  hour : t.hour ≤ 23
  minute : t.minute ≤ 59
  second : t.second ≤ 60
  nanosecond : t.nanosecond < 10 ^ 9

theorem at?_eq_some {year : Int} {month day hour minute second nanosecond : Nat} :
    at? year month day hour minute second nanosecond = some t ↔
      t = ⟨⟨year, month, day⟩, hour, minute, second, nanosecond⟩ ∧ t.date.valid = true ∧
        t.hour ≤ 23 ∧ t.minute ≤ 59 ∧ t.second ≤ 60 := by
  unfold at? Date.of?
  simp only [Option.bind_eq_bind, Option.bind_eq_some_iff, Option.ite_none_right_eq_some,
    Option.some.injEq]
  constructor
  · rintro ⟨d, ⟨hvalid, rfl⟩, hrange, rfl⟩
    exact ⟨rfl, hvalid, hrange⟩
  · rintro ⟨rfl, hvalid, hrange⟩
    exact ⟨_, ⟨hvalid, rfl⟩, hrange, rfl⟩

theorem fraction?_lt {n : Nat} (h : fraction? cs = some (n, rest)) : n < 10 ^ 9 := by
  unfold fraction? at h
  split at h
  · next digits =>
    dsimp only at h
    split at h
    · cases h
    · cases h
      have hlength : ((digits.takeWhile Char.isDigit).take 9).length ≤ 9 := List.length_take_le ..
      have hdigits : ∀ c ∈ (digits.takeWhile Char.isDigit).take 9, c.isDigit = true :=
        fun c hc => List.mem_takeWhile_imp (List.mem_of_mem_take hc)
      generalize (digits.takeWhile Char.isDigit).take 9 = nine at hlength hdigits ⊢
      have hlt := numberOf_lt hdigits
      calc numberOf nine * 10 ^ (9 - nine.length)
          < 10 ^ nine.length * 10 ^ (9 - nine.length) := by gcongr
        _ = 10 ^ 9 := by rw [← Nat.pow_add, Nat.add_sub_cancel' hlength]
  · cases h
    omega

theorem offset?_lt {minutes : Int} (h : offset? cs = some (minutes, rest)) :
    -1440 < minutes ∧ minutes < 1440 := by
  have hafter {sign : Int} {cs : List Char} (hsign : sign = 1 ∨ sign = -1)
      (h : offset?.after sign cs = some (minutes, rest)) : -1440 < minutes ∧ minutes < 1440 := by
    simp only [offset?.after, Option.bind_eq_bind, Option.bind_eq_some_iff,
      Option.ite_none_right_eq_some, Option.some.injEq, Prod.mk.injEq, Prod.exists] at h
    obtain ⟨hours, cs, -, cs', -, minutes', cs'', -, hrange, rfl, -⟩ := h
    rcases hsign with rfl | rfl <;> omega
  unfold offset? at h
  split at h
  · cases h; omega
  · cases h; omega
  · exact hafter (.inl rfl) h
  · exact hafter (.inr rfl) h
  · exact hafter (.inr rfl) h
  · cases h

theorem IsRegular.behind (h : t.IsRegular) (hplain : t.date.HasPlainYear) {minutes : Int}
    (hminutes : -1440 < minutes ∧ minutes < 1440) : (t.behind minutes).IsRegular := by
  -- An offset moves a moment by less than a day, so the date changes by at most one day.
  obtain ⟨hdate, hhour, hminute, hsecond, hnano⟩ := h
  have hyear : Date.firstYear < t.date.year ∧ t.date.year < Date.lastYear := by
    unfold Date.HasPlainYear at hplain
    unfold Date.firstYear Date.lastYear
    omega
  unfold Timestamp.behind
  dsimp only
  split_ifs with hbefore hafter
  · exact ⟨Date.valid_previous hdate hyear.1, by dsimp only; omega, by dsimp only; omega, hsecond,
      hnano⟩
  · exact ⟨Date.valid_next hdate hyear.2, by dsimp only; omega, by dsimp only; omega, hsecond,
      hnano⟩
  · exact ⟨hdate, by dsimp only; omega, by dsimp only; omega, hsecond, hnano⟩

theorem behind_zero (hhour : t.hour ≤ 23) (hminute : t.minute ≤ 59) : t.behind 0 = t := by
  have htotal : (t.hour * 60 + t.minute - 0 : Int) = (t.hour * 60 + t.minute : Nat) := by omega
  have hhours : (t.hour * 60 + t.minute) / 60 = t.hour := by omega
  have hminutes : (t.hour * 60 + t.minute) % 60 = t.minute := by omega
  unfold behind
  simp only [htotal]
  rw [if_neg (by omega), if_neg (by omega)]
  simp only [Int.toNat_natCast, hhours, hminutes]

/-! ## What is read -/

theorem of_reads {α β : Type} {x : Option α} {f : α → Option β} {P : β → Prop}
    (h : ∀ a, x = some a → ∀ b, f a = some b → P b) : ∀ b, x >>= f = some b → P b := by
  intro b hb
  obtain ⟨a, ha, hf⟩ := Option.bind_eq_some_iff.mp hb
  exact h a ha b hf

theorem full?_regular : ∀ r, full? cs = some r → r.1.IsRegular := by
  unfold full?
  refine of_reads fun year hyear => ?_
  iterate 10 refine of_reads fun _ _ => ?_
  refine of_reads fun nano hnano => of_reads fun offset hoffset => of_reads fun t hat => ?_
  rintro _ ⟨⟩
  obtain ⟨rfl, hdate, hhour, hminute, hsecond⟩ := at?_eq_some.mp hat
  have hfour := digits?_lt hyear
  refine IsRegular.behind ⟨hdate, hhour, hminute, hsecond, fraction?_lt hnano⟩ ?_
    (offset?_lt hoffset)
  unfold Date.HasPlainYear
  dsimp only
  omega

theorem plain?_regular : ∀ r, plain? cs = some r → r.1.IsRegular := by
  unfold plain?
  iterate 7 refine of_reads fun _ _ => ?_
  refine of_reads fun nano hnano => of_reads fun t hat => ?_
  rintro _ ⟨⟩
  obtain ⟨rfl, hdate, hhour, hminute, hsecond⟩ := at?_eq_some.mp hat
  exact ⟨hdate, hhour, hminute, hsecond, fraction?_lt hnano⟩

theorem dateOnly?_regular : ∀ r, dateOnly? cs = some r → r.1.IsRegular := by
  unfold dateOnly?
  refine of_reads fun _ _ => of_reads fun t hat => ?_
  rintro _ ⟨⟩
  obtain ⟨rfl, hdate, hhour, hminute, hsecond⟩ := at?_eq_some.mp hat
  exact ⟨hdate, hhour, hminute, hsecond, by simp⟩

theorem whole?_eq_some {form : List Char → Option (Timestamp × List Char)} :
    whole? form cs = some t ↔ form cs = some (t, []) := by
  unfold whole?
  constructor
  · intro h
    split at h
    · next heq =>
      cases h
      exact heq
    · cases h
  · intro h
    rw [h]

/-- The whole text is a full timestamp, a date and time without an offset, or a date alone. -/
def IsDateText (s : String) : Prop :=
  ∃ t, full? s.toList = some (t, []) ∨ plain? s.toList = some (t, []) ∨
    dateOnly? s.toList = some (t, [])

theorem isDateText_iff {s : String} : IsDateText s ↔ ∃ t, read? s = some t := by
  simp only [IsDateText, ← whole?_eq_some, read?]
  cases whole? full? s.toList <;> cases whole? plain? s.toList <;>
    cases whole? dateOnly? s.toList <;> simp

theorem read?_regular {s : String} (h : read? s = some t) : t.IsRegular := by
  simp only [read?, Option.orElse_eq_some, whole?_eq_some] at h
  rcases h with h | ⟨-, h | ⟨-, h⟩⟩
  · exact full?_regular _ h
  · exact plain?_regular _ h
  · exact dateOnly?_regular _ h

/-! ## What is read again -/

/-- The moment cut to milliseconds. -/
def cut (t : Timestamp) : Timestamp := { t with nanosecond := t.nanosecond / 1000000 * 1000000 }

theorem text_cut (t : Timestamp) : t.cut.text = t.text := by
  rw [text, text, cut, Nat.mul_div_cancel _ (by omega)]

theorem toList_text (t : Timestamp) :
    t.text.toList = dateChars t.date ++ 'T' :: (padded 2 t.hour ++ ':' :: (padded 2 t.minute ++
      ':' :: (padded 2 t.second ++ '.' :: (padded 3 (t.nanosecond / 1000000) ++ ['Z'])))) := by
  simp [text]

theorem fraction?_padded {n : Nat} (h : n < 1000) :
    fraction? ('.' :: (padded 3 n ++ ['Z'])) = some (n * 1000000, ['Z']) := by
  have hall : (padded 3 n ++ ['Z']).takeWhile Char.isDigit = padded 3 n := by
    rw [List.takeWhile_append_of_pos (fun c => isDigit_of_mem_padded)]
    simp
  have hlength : (padded 3 n).length = 3 := length_padded (by omega) h
  have hne : padded 3 n ≠ [] := List.ne_nil_of_length_pos (by omega)
  simp only [fraction?, hall, List.isEmpty_iff, hne, if_false]
  rw [List.take_of_length_le (by omega), numberOf_padded, List.drop_append]
  simp [hlength]

theorem full?_text (h : t.IsRegular) (hplain : t.date.HasPlainYear) :
    full? t.text.toList = some (t.cut, []) := by
  obtain ⟨hdate, hhour, hminute, hsecond, hnano⟩ := h
  have hvalid := Date.valid_iff.mp hdate
  have hdays := Date.daysIn_bounds t.date.year t.date.month
  have hat : at? t.date.year.natAbs t.date.month t.date.day t.hour t.minute t.second
      (t.nanosecond / 1000000 * 1000000) = some t.cut := by
    rw [Int.natAbs_of_nonneg hplain.1]
    exact at?_eq_some.mpr ⟨rfl, hdate, hhour, hminute, hsecond⟩
  have hbehind : t.cut.behind 0 = t.cut := behind_zero hhour hminute
  rw [toList_text, full?, dateChars, yearChars_plain hplain]
  simp only [List.append_assoc, List.cons_append]
  refine reads (digits?_padded (by omega) hplain.natAbs_lt (by omega) _) ?_
  refine reads (char?_self ..) (reads (digits?_two (by omega) _) ?_)
  refine reads (char?_self ..) (reads (digits?_two (by omega) _) ?_)
  refine reads rfl (reads (digits?_two (by omega) _) ?_)
  refine reads (char?_self ..) (reads (digits?_two (by omega) _) ?_)
  refine reads (char?_self ..) (reads (digits?_two (by omega) _) ?_)
  refine reads (fraction?_padded (by omega)) (reads rfl ?_)
  exact reads hat (congrArg (fun m => some (m, [])) hbehind)

theorem full?_dateChars (h : d.valid = true) : full? (dateChars d) = none := by
  rw [← List.append_nil (dateChars d)]
  by_cases hplain : d.HasPlainYear
  · have hvalid := Date.valid_iff.mp h
    have hdays := Date.daysIn_bounds d.year d.month
    rw [full?, dateChars, yearChars_plain hplain]
    simp only [List.append_assoc, List.cons_append]
    refine reads (digits?_padded (by omega) hplain.natAbs_lt (by omega) _) ?_
    refine reads (char?_self ..) (reads (digits?_two (by omega) _) ?_)
    exact reads (char?_self ..) (reads (digits?_two (by omega) _) rfl)
  · exact full?_signed hplain []

theorem plain?_text (h : t.IsRegular) : plain? t.text.toList = some (t.cut, ['Z']) := by
  obtain ⟨hdate, hhour, hminute, hsecond, hnano⟩ := h
  rw [toList_text, plain?]
  refine reads (dateFields?_dateChars hdate _) ?_
  refine reads (char?_self ..) (reads (field?_padded (by omega) _) ?_)
  refine reads (char?_self ..) (reads (field?_padded (by omega) _) ?_)
  refine reads (char?_self ..) (reads (field?_padded (by omega) _) ?_)
  refine reads (fraction?_padded (by omega)) ?_
  exact reads (at?_eq_some.mpr ⟨rfl, hdate, hhour, hminute, hsecond⟩) rfl

theorem plain?_dateChars (h : d.valid = true) : plain? (dateChars d) = none := by
  rw [plain?, ← List.append_nil (dateChars d)]
  exact reads (dateFields?_dateChars h []) rfl

theorem dateOnly?_dateChars (h : d.valid = true) (rest : List Char) :
    dateOnly? (dateChars d ++ rest) = some (⟨d, 0, 0, 0, 0⟩, rest) := by
  rw [dateOnly?]
  refine reads (dateFields?_dateChars h rest) ?_
  exact reads (at?_eq_some.mpr ⟨rfl, h, by simp⟩) rfl

theorem read?_dateText (h : t.IsRegular) : read? t.dateText = some ⟨t.date, 0, 0, 0, 0⟩ := by
  have hdateOnly := dateOnly?_dateChars h.date []
  rw [List.append_nil] at hdateOnly
  simp only [read?, dateText, String.toList_ofList, whole?, full?_dateChars h.date,
    plain?_dateChars h.date, hdateOnly]
  rfl

theorem read?_text_plain (h : t.IsRegular) (hplain : t.date.HasPlainYear) :
    read? t.text = some t.cut := by
  simp only [read?, whole?, full?_text h hplain]
  rfl

theorem read?_text_signed (h : t.IsRegular) (hsigned : ¬t.date.HasPlainYear) :
    read? t.text = none := by
  simp only [read?, whole?, plain?_text h]
  rw [toList_text, full?_signed hsigned, dateOnly?_dateChars h.date]
  rfl

end Timestamp
end DecoratedApi
