import Mathlib.Algebra.Order.Field.Rat
import Mathlib.Tactic.NormNum
import Mathlib.Tactic.Positivity
import DecoratedApi.Json.Value

/-!
# Whole numbers

A binary64 number is whole exactly when its value is an integer (`isWhole_iff`). Integers of at most
53 binary digits are held exactly (`ofInt_exact`), and those of 64 bits are rounded to whole numbers
(`isWhole_ofInt`).
-/

namespace DecoratedApi

namespace Binary64

/-! ## Values -/

/-- A mantissa with its sign. -/
def signed (negative : Bool) (mantissa : ℕ) : ℤ := if negative then -mantissa else mantissa

theorem natAbs_signed (negative : Bool) (m : ℕ) : (signed negative m).natAbs = m := by
  cases negative <;> simp [signed]

theorem signed_natAbs (n : ℤ) : signed (decide (n < 0)) n.natAbs = n := by
  unfold signed
  split_ifs with h <;> simp at h <;> omega

/-- The exact value of a finite number. -/
def value? : Binary64 → Option ℚ
  | finite s m e => some (signed s m * 2 ^ e)
  | _ => none

theorem isWhole_of_nonneg {e : ℤ} (h : 0 ≤ e) (negative : Bool) (m : ℕ) :
    (finite negative m e).isWhole = true := by
  simp [isWhole, h]

theorem isWhole_iff {x : Binary64} : x.isWhole = true ↔ ∃ k : ℤ, x.value? = some (k : ℚ) := by
  match x with
  | nan | infinite _ => simp [isWhole, value?]
  | finite s m e =>
    by_cases he : 0 ≤ e
    · obtain ⟨n, rfl⟩ := Int.eq_ofNat_of_zero_le he
      exact iff_of_true (isWhole_of_nonneg he s m) ⟨signed s m * 2 ^ n, by simp [value?]⟩
    · obtain ⟨n, rfl⟩ : ∃ n : ℕ, e = -n := ⟨(-e).toNat, by omega⟩
      have htwo : (2 : ℚ) ^ n ≠ 0 := by positivity
      calc (finite s m (-n)).isWhole = true
          ↔ 2 ^ n ∣ m := by
            simp only [isWhole, he, decide_false, Bool.false_or, neg_neg, Int.toNat_natCast,
              beq_iff_eq]
            exact (Nat.dvd_iff_mod_eq_zero ..).symm
        _ ↔ ((2 ^ n : ℕ) : ℤ) ∣ signed s m := by rw [Int.natCast_dvd, natAbs_signed]
        _ ↔ ∃ k : ℤ, (finite s m (-n)).value? = some (k : ℚ) := by
            simp only [value?, zpow_neg, zpow_natCast, Option.some.injEq,
              mul_inv_eq_iff_eq_mul₀ htwo]
            refine exists_congr fun k => ?_
            rw [mul_comm]
            exact_mod_cast Iff.rfl

theorem isWhole_and_truncate_scaled (negative : Bool) (n k : ℕ) :
    (finite negative (n * 2 ^ k) (-k)).isWhole = true ∧
      (finite negative (n * 2 ^ k) (-k)).truncate = signed negative n := by
  rcases Nat.eq_zero_or_pos k with rfl | hk
  · simp [isWhole, truncate, signed]
  · have hneg : ¬(0 : ℤ) ≤ -k := by omega
    simp only [isWhole, truncate, hneg, decide_false, Bool.false_or, neg_neg, Int.toNat_natCast,
      Nat.pow_eq, if_false, beq_iff_eq]
    refine ⟨Nat.mul_mod_left .., ?_⟩
    rw [Nat.mul_div_cancel _ (by positivity)]
    rfl

/-! ## Integers -/

theorem roundDiv_one (n : ℕ) : roundDiv n 1 = n := by
  simp [roundDiv, Nat.mod_one]

theorem exponentFor_one {n : ℕ} (h : n ≠ 0) : exponentFor n 1 = (n.log2 : ℤ) - 52 := by
  -- The leading binary digit of an integer gets the place 52.
  have hlow := Nat.log2_self_le h
  have hone : Nat.log2 1 = 0 := rfl
  have hreaches : (if 0 ≤ (n.log2 : ℤ) - 52 then
        decide (1 * Nat.pow 2 (((n.log2 : ℤ) - 52).toNat + 52) ≤ n)
      else decide (1 * Nat.pow 2 52 ≤ n * Nat.pow 2 (-((n.log2 : ℤ) - 52)).toNat)) = true := by
    split
    · have hsum : ((n.log2 : ℤ) - 52).toNat + 52 = n.log2 := by omega
      rw [hsum]
      simpa using hlow
    · have hsum : n.log2 + (-((n.log2 : ℤ) - 52)).toNat = 52 := by omega
      have hscaled := Nat.mul_le_mul_right (2 ^ (-((n.log2 : ℤ) - 52)).toNat) hlow
      rw [← Nat.pow_add, hsum] at hscaled
      simpa using hscaled
  simp only [exponentFor, hone, Nat.cast_zero, sub_zero, hreaches, if_true, minExponent]
  omega

theorem ofRatio_one_small {n : ℕ} (h : n ≠ 0) (hsmall : n < 2 ^ 53) (negative : Bool) :
    ofRatio negative n 1 = finite negative (n * 2 ^ (52 - n.log2)) (n.log2 - 52) := by
  have hlog : n.log2 < 53 := (Nat.log2_lt h).mpr hsmall
  have hfits : n * 2 ^ (52 - n.log2) < 2 ^ 53 := by
    have hsum : n.log2 + 1 + (52 - n.log2) = 53 := by omega
    rw [← hsum, Nat.pow_add]
    exact Nat.mul_lt_mul_of_pos_right Nat.lt_log2_self (by positivity)
  have hmantissa : (if 0 ≤ (n.log2 : ℤ) - 52 then
        roundDiv n (1 * Nat.pow 2 ((n.log2 : ℤ) - 52).toNat)
      else roundDiv (n * Nat.pow 2 (-((n.log2 : ℤ) - 52)).toNat) 1) = n * 2 ^ (52 - n.log2) := by
    split
    · have hzero : ((n.log2 : ℤ) - 52).toNat = 0 ∧ 52 - n.log2 = 0 := by omega
      rw [hzero.1, hzero.2]
      exact (roundDiv_one n).trans (Nat.mul_one n).symm
    · have hsame : (-((n.log2 : ℤ) - 52)).toNat = 52 - n.log2 := by omega
      rw [hsame]
      exact roundDiv_one _
  have hcarry : n * 2 ^ (52 - n.log2) ≠ Nat.pow 2 53 := Nat.ne_of_lt hfits
  have hmax : ¬maxExponent < (n.log2 : ℤ) - 52 := by
    unfold maxExponent
    omega
  simp only [ofRatio, h, if_false, exponentFor_one h, hmantissa, hcarry, hmax]

theorem isWhole_ofRatio_one_large {n : ℕ} (hlow : 53 ≤ n.log2) (hhigh : n.log2 < 64)
    (negative : Bool) : (ofRatio negative n 1).isWhole = true := by
  have hne : n ≠ 0 := by
    rintro rfl
    simp at hlow
  have hexponent : 0 ≤ (n.log2 : ℤ) - 52 ∧ (n.log2 : ℤ) - 52 + 1 ≤ maxExponent := by
    unfold maxExponent
    omega
  simp only [ofRatio, hne, if_false, exponentFor_one hne, hexponent.1, if_true]
  -- Rounding up may carry into the next exponent.
  by_cases hcarry : roundDiv n (1 * Nat.pow 2 ((n.log2 : ℤ) - 52).toNat) = Nat.pow 2 53
  · rw [if_pos hcarry]
    dsimp only
    rw [if_neg (by omega)]
    exact isWhole_of_nonneg (by omega) ..
  · rw [if_neg hcarry]
    dsimp only
    rw [if_neg (by omega)]
    exact isWhole_of_nonneg hexponent.1 ..

theorem ofInt_exact {n : ℤ} (h : n.natAbs < 2 ^ 53) :
    (ofInt n).isWhole = true ∧ (ofInt n).truncate = n := by
  rcases eq_or_ne n 0 with rfl | hne
  · simp [ofInt, ofRatio, isWhole, truncate]
  · have hlog : n.natAbs.log2 < 53 := (Nat.log2_lt (by omega)).mpr h
    have hexponent : (n.natAbs.log2 : ℤ) - 52 = -(52 - n.natAbs.log2 : ℕ) := by omega
    have hscaled := isWhole_and_truncate_scaled (decide (n < 0)) n.natAbs (52 - n.natAbs.log2)
    rw [signed_natAbs] at hscaled
    rw [ofInt, ofRatio_one_small (by omega) h, hexponent]
    exact hscaled

theorem isWhole_ofInt {n : ℤ} (h : n.natAbs < 2 ^ 64) : (ofInt n).isWhole = true := by
  by_cases hsmall : n.natAbs < 2 ^ 53
  · exact (ofInt_exact hsmall).1
  · have hne : n.natAbs ≠ 0 := by omega
    have hlow : ¬n.natAbs.log2 < 53 := fun hlt => hsmall ((Nat.log2_lt hne).mp hlt)
    exact isWhole_ofRatio_one_large (by omega) ((Nat.log2_lt hne).mpr h) _

end Binary64

namespace Json

/-! ## Numbers in documents -/

theorem ofBinary64_of_isWhole {x : Binary64} (h : x.isWhole = true) :
    (ofBinary64 x = ofInt x.truncate ∧ x.truncate.natAbs < 2 ^ 53) ∨
      ofBinary64 x = number (.float x) := by
  have hfinite : x.isFinite = true := by
    cases x with
    | finite => rfl
    | _ => cases h
  unfold ofBinary64
  simp only [h, hfinite, true_and, if_true]
  split
  · next hsmall => exact .inl ⟨rfl, hsmall⟩
  · exact .inr rfl

theorem ofBinary64_ofInt {n : ℤ} (h : n.natAbs < 2 ^ 53) :
    ofBinary64 (Binary64.ofInt n) = ofInt n := by
  obtain ⟨hwhole, htruncate⟩ := Binary64.ofInt_exact h
  rw [ofBinary64, htruncate, if_pos ⟨hwhole, h⟩]

end Json
end DecoratedApi
