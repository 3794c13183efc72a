/-!
# Numbers in binary64

A number is not-a-number, an infinity, or a sign with a natural mantissa and a binary exponent.
All arithmetic is done on exact ratios of natural numbers and rounded once, to the nearest
representable number, and to the even mantissa when two are equally near.
-/

namespace DecoratedApi

/-- A binary64 number. The value of `finite s m e` is `m * 2 ^ e` with sign `s` (true is
negative). -/
inductive Binary64
  | nan
  | infinite (negative : Bool)
  | finite (negative : Bool) (mantissa : Nat) (exponent : Int)
deriving DecidableEq, Repr, Inhabited

namespace Binary64

/-- The quotient rounded to the nearest natural number, and to the even one on a tie. -/
def roundDiv (num den : Nat) : Nat :=
  let q := num / den
  let r := num % den
  if den < 2 * r ∨ (2 * r = den ∧ q % 2 = 1) then q + 1 else q

def minExponent : Int := -1074

def maxExponent : Int := 971

/-- The exponent at which `num / den` has 53 binary digits before the point, but never below
the least one. -/
def exponentFor (num den : Nat) : Int :=
  let guess : Int := (num.log2 : Int) - den.log2 - 52
  let reaches : Bool :=
    if 0 ≤ guess then decide (den * Nat.pow 2 (guess.toNat + 52) ≤ num)
    else decide (den * Nat.pow 2 52 ≤ num * Nat.pow 2 (-guess).toNat)
  max minExponent (if reaches then guess else guess - 1)

/-- The number nearest to `num / den`, with the given sign. -/
def ofRatio (negative : Bool) (num den : Nat) : Binary64 :=
  if num = 0 then finite negative 0 minExponent
  else
    let e := exponentFor num den
    let m :=
      if 0 ≤ e then roundDiv num (den * Nat.pow 2 e.toNat)
      else roundDiv (num * Nat.pow 2 (-e).toNat) den
    let (m, e) := if m = Nat.pow 2 53 then (Nat.pow 2 52, e + 1) else (m, e)
    if maxExponent < e then infinite negative else finite negative m e

/-- The number nearest to an integer. -/
def ofInt (n : Int) : Binary64 := ofRatio (decide (n < 0)) n.natAbs 1

/-- Zero, without a sign. -/
def zero : Binary64 := finite false 0 minExponent

def one : Binary64 := ofInt 1

/-- The magnitude of a finite number as a ratio of natural numbers. -/
def magnitude (mantissa : Nat) (exponent : Int) : Nat × Nat :=
  if 0 ≤ exponent then (mantissa * Nat.pow 2 exponent.toNat, 1)
  else (mantissa, Nat.pow 2 (-exponent).toNat)

/-- The same magnitude with the other sign. -/
def neg : Binary64 → Binary64
  | nan => nan
  | infinite s => infinite (!s)
  | finite s m e => finite (!s) m e

def isFinite : Binary64 → Bool
  | finite .. => true
  | _ => false

/-- Whether the number is finite and has no fractional part. -/
def isWhole : Binary64 → Bool
  | finite _ m e => decide (0 ≤ e) || m % Nat.pow 2 (-e).toNat == 0
  | _ => false

/-- The integer part of a finite number, towards zero; zero for the others. -/
def truncate : Binary64 → Int
  | finite s m e =>
    let n : Nat := if 0 ≤ e then m * Nat.pow 2 e.toNat else m / Nat.pow 2 (-e).toNat
    if s then -(n : Int) else n
  | _ => 0

def leastInt64 : Int := -9223372036854775808

def greatestInt64 : Int := 9223372036854775807

/-- The integer part held within 64 bits with a sign: what is too large is the nearest bound, and
not-a-number is zero. -/
def toInt64 : Binary64 → Int
  | nan => 0
  | infinite s => if s then leastInt64 else greatestInt64
  | x => max leastInt64 (min greatestInt64 x.truncate)

/-- The sum, rounded. Opposite numbers add up to zero without a sign. -/
def add : Binary64 → Binary64 → Binary64
  | nan, _ | _, nan => nan
  | infinite s, infinite t => if s = t then infinite s else nan
  | infinite s, _ | _, infinite s => infinite s
  | finite s m e, finite t n f =>
    let low := min e f
    let signed (sign : Bool) (k : Nat) : Int := if sign then -(k : Int) else k
    let sum := signed s (m * Nat.pow 2 (e - low).toNat) + signed t (n * Nat.pow 2 (f - low).toNat)
    if sum = 0 then finite (s && t) 0 minExponent
    else
      let (num, den) := magnitude sum.natAbs low
      ofRatio (decide (sum < 0)) num den

/-- The product of a number and a positive finite one, rounded. -/
def mulPositive (x scale : Binary64) : Binary64 :=
  match x, scale with
  | finite s m e, finite _ n f =>
    let (num, den) := magnitude (m * n) (e + f)
    ofRatio s num den
  | x, _ => x

/-- The quotient of a number and a positive finite one, rounded. -/
def divPositive (x scale : Binary64) : Binary64 :=
  match x, scale with
  | finite s m e, finite _ n f =>
    let (num, den) := magnitude m (e - f)
    ofRatio s num (den * n)
  | x, _ => x

/-- Equality of values: zeros agree whatever their sign, and not-a-number differs from itself. -/
def sameValue : Binary64 → Binary64 → Bool
  | finite s m e, finite t n f => (m == 0 && n == 0) || (s == t && m == n && e == f)
  | infinite s, infinite t => s == t
  | _, _ => false

end Binary64
end DecoratedApi
