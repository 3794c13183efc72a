import DecoratedApi.Number.Binary64
import DecoratedApi.Text.Words

/-!
# Decimal texts of binary64 numbers

Reading a decimal text gives the nearest number. Writing uses the fewest digits that read back as
the same number and, of those, the nearest ones; a `Layout` says how the digits are set out.
-/

namespace DecoratedApi

/-- `digits * 10 ^ exponent`, the value that a decimal text stands for. -/
structure Decimal where
  digits : Nat
  exponent : Int
deriving DecidableEq, Repr

namespace Binary64

/-- The number nearest to `digits * 10 ^ exponent`. Exponents far outside the range are settled
without computing the power. -/
def ofDecimal (negative : Bool) (digits : Nat) (exponent : Int) : Binary64 :=
  if digits = 0 then finite negative 0 minExponent
  else if 400 < exponent then infinite negative
  else if 0 ≤ exponent then ofRatio negative (digits * Nat.pow 10 exponent.toNat) 1
  else if (digits.log2 : Int) + 3 * exponent < -1100 then finite negative 0 minExponent
  else ofRatio negative digits (Nat.pow 10 (-exponent).toNat)

/-- An exponent: an optional sign and at least one digit. -/
def readExponent? : List Char → Option Int
  | '-' :: cs => if cs.isEmpty then none else (Text.readDigits? 10 cs).map fun n => -(n : Int)
  | '+' :: cs => if cs.isEmpty then none else (Text.readDigits? 10 cs).map Int.ofNat
  | cs => if cs.isEmpty then none else (Text.readDigits? 10 cs).map Int.ofNat

/-- A number without its sign: digits with at most one point and at least one digit, then an
optional exponent. -/
def readUnsigned? (negative : Bool) (cs : List Char) : Option Binary64 := do
  let isMark (c : Char) : Bool := c == 'e' || c == 'E'
  let body := cs.takeWhile (!isMark ·)
  let exponent ← match cs.dropWhile (!isMark ·) with
    | [] => some 0
    | _ :: tail => readExponent? tail
  let whole := body.takeWhile (· != '.')
  let fraction ← match body.dropWhile (· != '.') with
    | [] => some []
    | _ :: rest => some rest
  if whole.isEmpty && fraction.isEmpty then none
  let digits ← Text.readDigits? 10 (whole ++ fraction)
  some (ofDecimal negative digits (exponent - fraction.length))

/-- Reads a number: an optional sign, then a decimal number or one of the words `inf`, `infinity`
and `nan` in any case. -/
def read? (s : String) : Option Binary64 :=
  let (negative, body) := match s.toList with
    | '-' :: cs => (true, cs)
    | '+' :: cs => (false, cs)
    | cs => (false, cs)
  let word := Text.asciiLower (String.ofList body)
  if word = "inf" ∨ word = "infinity" then some (infinite negative)
  else if word = "nan" then some nan
  else readUnsigned? negative body

/-! ## The fewest digits -/

/-- Which neighbour is taken when a number lies exactly between two shortest decimals. -/
inductive Tie
  | up
  | even
deriving DecidableEq, Repr

def decimalLength (n : Nat) : Nat := (Nat.toDigits 10 n).length

/-- The exponent `p` with `10 ^ p ≤ num / den < 10 ^ (p + 1)`. -/
def decimalExponent (num den : Nat) : Int :=
  if den ≤ num then (decimalLength (num / den) : Int) - 1
  else
    let d := decimalLength (den / num)
    if den ≤ num * Nat.pow 10 (d - 1) then 1 - (d : Int) else -(d : Int)

/-- The ratios that read back as `mantissa * 2 ^ exponent`: the half gaps to its two neighbours,
over the common denominator `4 * den`. The ends belong to it when the mantissa is even. -/
structure Gap where
  below : Nat
  value : Nat
  above : Nat
  den : Nat
  closed : Bool

/-- The gap around a number. The gap below the least mantissa of a binade is half as wide. -/
def gapOf (mantissa : Nat) (exponent : Int) : Gap :=
  let (num, den) := magnitude mantissa exponent
  let (unit, _) := magnitude 1 exponent
  let narrow : Bool := mantissa == Nat.pow 2 52 && exponent != minExponent
  { below := 4 * num - (if narrow then unit else 2 * unit)
    value := 4 * num
    above := 4 * num + 2 * unit
    den := 4 * den
    closed := mantissa % 2 == 0 }

/-- Whether `n * 10 ^ k` lies in the gap. -/
def Gap.holds (g : Gap) (n : Nat) (k : Int) : Bool :=
  let point := if 0 ≤ k then n * Nat.pow 10 k.toNat * g.den else n * g.den
  let scale := if 0 ≤ k then 1 else Nat.pow 10 (-k).toNat
  if g.closed then g.below * scale ≤ point && point ≤ g.above * scale
  else g.below * scale < point && point < g.above * scale

/-- The nearest decimal on the grid `10 ^ k` that lies in the gap. -/
def Gap.nearest? (g : Gap) (tie : Tie) (k : Int) : Option Nat :=
  let num := if 0 ≤ k then g.value else g.value * Nat.pow 10 (-k).toNat
  let den := if 0 ≤ k then g.den * Nat.pow 10 k.toNat else g.den
  let low := num / den
  let rest := num % den
  let upFirst : Bool := den < 2 * rest || (2 * rest == den && (tie == .up || low % 2 == 1))
  let (first, second) := if upFirst then (low + 1, low) else (low, low + 1)
  if g.holds first k then some first else if g.holds second k then some second else none

/-- A decimal without trailing zeros in its digits; `fuel` bounds how many are taken off. -/
def Gap.dropZeros : Nat → Nat → Int → Decimal
  | 0, n, k => ⟨n, k⟩
  | fuel + 1, n, k => if n % 10 = 0 ∧ n ≠ 0 then Gap.dropZeros fuel (n / 10) (k + 1) else ⟨n, k⟩

/-- The decimal with the fewest digits in the gap, tried from `digits` digits on. -/
def Gap.shortestFrom (g : Gap) (tie : Tie) (top : Int) : (fuel digits : Nat) → Decimal
  | 0, digits => ⟨g.value / g.den, digits⟩
  | fuel + 1, digits =>
    let k := top + 1 - digits
    match g.nearest? tie k with
    | some n => Gap.dropZeros 20 n k
    | none => g.shortestFrom tie top fuel (digits + 1)

/-- The decimal with the fewest digits that reads back as the finite number `mantissa * 2 ^
exponent`, the nearest of them. Seventeen digits always suffice. -/
def shortest (tie : Tie) (mantissa : Nat) (exponent : Int) : Decimal :=
  if mantissa = 0 then ⟨0, 0⟩
  else
    let g := gapOf mantissa exponent
    g.shortestFrom tie (decimalExponent g.value g.den) 18 1

/-! ## Layouts -/

/-- How the digits of a number are set out. -/
structure Layout where
  /-- Which of two equally near digit strings is taken. -/
  tie : Tie
  /-- Decimal exponents of the leading digit that are written positionally; none is all of them. -/
  positional : Option (Int × Int)
  /-- Whether a whole number ends in `.0`. -/
  wholeMark : Bool
  /-- Whether a positive exponent carries a plus sign. -/
  plus : Bool

/-- Digits with no exponent at all and no mark on whole numbers. -/
def Layout.plain : Layout := ⟨.up, none, false, false⟩

def Layout.json : Layout := ⟨.even, some (-5, 15), true, true⟩

def Layout.yaml : Layout := ⟨.even, some (-5, 15), true, false⟩

/-- The digits without an exponent. -/
def positionalText (wholeMark : Bool) (d : Decimal) : String :=
  let digits := Nat.toDigits 10 d.digits
  if 0 ≤ d.exponent then
    String.ofList (digits ++ List.replicate d.exponent.toNat '0') ++
      (if wholeMark then ".0" else "")
  else
    let places := (-d.exponent).toNat
    let padded := List.replicate (places + 1 - digits.length) '0' ++ digits
    let cut := padded.length - places
    String.ofList (padded.take cut ++ '.' :: padded.drop cut)

/-- One digit before the point, and the exponent. -/
def scientificText (plus : Bool) (d : Decimal) : String :=
  let digits := Nat.toDigits 10 d.digits
  let exponent := d.exponent + digits.length - 1
  let head := match digits with
    | [] => []
    | [c] => [c]
    | c :: rest => c :: '.' :: rest
  let sign := if exponent < 0 then "-" else if plus then "+" else ""
  String.ofList head ++ "e" ++ sign ++ exponent.natAbs.repr

def render (layout : Layout) : Binary64 → String
  | nan => "NaN"
  | infinite s => if s then "-inf" else "inf"
  | finite s m e =>
    let d := shortest layout.tie m e
    let lead := d.exponent + decimalLength d.digits - 1
    let body := match layout.positional with
      | none => positionalText layout.wholeMark d
      | some (low, high) =>
        if low ≤ lead ∧ lead ≤ high then positionalText layout.wholeMark d
        else scientificText layout.plus d
    if s then "-" ++ body else body

end Binary64
end DecoratedApi
