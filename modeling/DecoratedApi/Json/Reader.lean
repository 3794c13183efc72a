import DecoratedApi.Json.Value
import DecoratedApi.Text.Words

/-!
# Reading JSON text

The strict grammar: one value, blank characters around it, no comments and no trailing commas.
Objects and arrays may be nested 127 deep. Integers that do not fit in 64 bits become floats.
A float is its leading digits, rounded once, times one rounded power of ten, so that its last bit
may differ from the nearest number to the text.
-/

namespace DecoratedApi.Json

/-- The characters that may stand between tokens. -/
def isSpace (c : Char) : Bool := c == ' ' || c == '\n' || c == '\t' || c == '\r'

/-- The characters from the next token on. -/
def skipSpace (cs : List Char) : List Char := cs.dropWhile isSpace

/-! ## Numbers -/

/-- Digits that fit in 64 bits, and the power of ten to apply to them. -/
structure Scaled where
  significand : Nat
  exponent : Int
deriving Repr

/-- `significand * 10 ^ exponent`, where both steps round; none when it is too large. The fuel
bounds how often the number is divided by the largest power. -/
def scaleBy (negative : Bool) : (fuel : Nat) → Binary64 → Int → Option Binary64
  | 0, _, _ => none
  | fuel + 1, x, e =>
    if e.natAbs ≤ 308 then
      let power := Binary64.ofRatio false (Nat.pow 10 e.natAbs) 1
      let y := if 0 ≤ e then x.mulPositive power else x.divPositive power
      if y.isFinite then some (if negative then y.neg else y) else none
    else if x.sameValue Binary64.zero then some (if negative then x.neg else x)
    else if 0 ≤ e then none
    else scaleBy negative fuel (x.divPositive (Binary64.ofRatio false (Nat.pow 10 308) 1)) (e + 308)

def floatOf (negative : Bool) (s : Scaled) : Option Binary64 :=
  scaleBy negative 8 (Binary64.ofInt s.significand) s.exponent

/-- Adds the leading digits that still fit to the significand; says whether all of them did. -/
def takeDigits : Nat → List Char → (taken : Nat) → Nat × Nat × List Char
  | n, c :: cs, taken =>
    if c.isDigit then
      let next := n * 10 + (c.toNat - '0'.toNat)
      if next < Nat.pow 2 64 then takeDigits next cs (taken + 1) else (n, taken, c :: cs)
    else (n, taken, c :: cs)
  | n, [], taken => (n, taken, [])

/-- Reads an exponent, after its mark, and applies it. -/
def readPower (negative : Bool) (s : Scaled) (cs : List Char) :
    Option (Binary64 × List Char) := do
  let (minus, cs) := match cs with
    | '+' :: r => (false, r)
    | '-' :: r => (true, r)
    | r => (false, r)
  let digits := cs.takeWhile Char.isDigit
  let rest := cs.dropWhile Char.isDigit
  if digits.isEmpty then none
  let power ← Text.readDigits? 10 digits
  if power < Nat.pow 2 31 then
    let e := if minus then s.exponent - power else s.exponent + power
    let x ← floatOf negative { s with exponent := e }
    some (x, rest)
  else if s.significand ≠ 0 ∧ !minus then none
  else some (if negative then Binary64.zero.neg else Binary64.zero, rest)

/-- Ends a float: an exponent may follow. -/
def endFloat (negative : Bool) (s : Scaled) : List Char → Option (Binary64 × List Char)
  | 'e' :: cs | 'E' :: cs => readPower negative s cs
  | cs => do
    let x ← floatOf negative s
    some (x, cs)

/-- Reads the digits after the point. Those that no longer fit are passed over. -/
def readFraction (negative : Bool) (s : Scaled) (cs : List Char) :
    Option (Binary64 × List Char) :=
  let (n, taken, rest) := takeDigits s.significand cs 0
  let s := { significand := n, exponent := s.exponent - taken : Scaled }
  match rest with
  | c :: _ =>
    if c.isDigit then endFloat negative s (rest.dropWhile Char.isDigit)
    else if taken = 0 then none
    else endFloat negative s rest
  | [] => if taken = 0 then none else endFloat negative s rest

/-- Reads a number whose sign has been read. A leading zero stands alone. -/
def readNumber (negative : Bool) (cs : List Char) : Option (JsonNumber × List Char) := do
  let first ← cs.head?
  if !first.isDigit then none
  let (n, _, rest) := if first = '0' then (0, 1, cs.drop 1) else takeDigits 0 cs 0
  let float (r : Option (Binary64 × List Char)) : Option (JsonNumber × List Char) :=
    r.map fun (x, rest) => (.float x, rest)
  match rest with
  | '.' :: more => float (readFraction negative ⟨n, 0⟩ more)
  | 'e' :: more | 'E' :: more => float (readPower negative ⟨n, 0⟩ more)
  | c :: _ =>
    if c.isDigit then
      if first = '0' then none
      else
        let more := rest.takeWhile Char.isDigit
        let s : Scaled := ⟨n, more.length⟩
        match rest.dropWhile Char.isDigit with
        | '.' :: after => float (readFraction negative s after)
        | after => float (endFloat negative s after)
    else some (whole n, rest)
  | [] => some (whole n, rest)
where
  whole (n : Nat) : JsonNumber :=
    if !negative then .integer n
    else if n = 0 ∨ Nat.pow 2 63 < n then .float (Binary64.ofInt n).neg
    else .integer (-n)

/-! ## Strings -/

def readHex4 : List Char → Option (Nat × List Char)
  | a :: b :: c :: d :: rest => (Text.readDigits? 16 [a, b, c, d]).map (·, rest)
  | _ => none

/-- One escape after its backslash: the character, and how many characters it took. A pair of
escapes stands for a character beyond the first plane; a lone half of such a pair is refused. -/
def readEscape : List Char → Option (Char × List Char)
  | '"' :: rest => some ('"', rest)
  | '\\' :: rest => some ('\\', rest)
  | '/' :: rest => some ('/', rest)
  | 'b' :: rest => some (Char.ofNat 8, rest)
  | 'f' :: rest => some (Char.ofNat 12, rest)
  | 'n' :: rest => some ('\n', rest)
  | 'r' :: rest => some ('\r', rest)
  | 't' :: rest => some ('\t', rest)
  | 'u' :: rest => do
    let (n, rest) ← readHex4 rest
    if 0xDC00 ≤ n ∧ n ≤ 0xDFFF then none
    else if 0xD800 ≤ n ∧ n ≤ 0xDBFF then
      match rest with
      | '\\' :: 'u' :: more => do
        let (low, more) ← readHex4 more
        if 0xDC00 ≤ low ∧ low ≤ 0xDFFF then
          some (Char.ofNat (0x10000 + (n - 0xD800) * 0x400 + (low - 0xDC00)), more)
        else none
      | _ => none
    else some (Char.ofNat n, rest)
  | _ => none

/-- The characters up to the closing quote. Control characters have to be escaped. The fuel is the
number of characters left. -/
def readString : (fuel : Nat) → List Char → Option (List Char × List Char)
  | 0, _ => none
  | _, [] => none
  | fuel + 1, c :: cs =>
    if c = '"' then some ([], cs)
    else if c = '\\' then do
      let (x, rest) ← readEscape cs
      let (xs, rest) ← readString fuel rest
      some (x :: xs, rest)
    else if c.toNat < 32 then none
    else do
      let (xs, rest) ← readString fuel cs
      some (c :: xs, rest)

/-! ## Values -/

/-- What is being read: a value, the items of an array, or the members of an object. -/
inductive Part
  | value
  | items (before : List Json)
  | members (before : List (String × Json))

/-- Reads a part. `depth` is how many more brackets may be opened; the fuel is the number of
characters left. Items and members that came before are kept in reverse. -/
def readPart : (fuel : Nat) → (depth : Nat) → Part → List Char → Option (Json × List Char)
  | 0, _, _, _ => none
  | fuel + 1, depth, .value, cs =>
    match skipSpace cs with
    | 'n' :: 'u' :: 'l' :: 'l' :: rest => some (null, rest)
    | 't' :: 'r' :: 'u' :: 'e' :: rest => some (bool true, rest)
    | 'f' :: 'a' :: 'l' :: 's' :: 'e' :: rest => some (bool false, rest)
    | '"' :: rest => do
      let (s, rest) ← readString rest.length.succ rest
      some (string (String.ofList s), rest)
    | '-' :: rest => do
      let (n, rest) ← readNumber true rest
      some (number n, rest)
    | '[' :: rest =>
      if depth ≤ 1 then none
      else match skipSpace rest with
        | ']' :: rest => some (array [], rest)
        | rest => readPart fuel (depth - 1) (.items []) rest
    | c :: rest =>
      if c = '\x7b' then
        if depth ≤ 1 then none
        else match skipSpace rest with
          | d :: more =>
            if d = '\x7d' then some (object [], more)
            else readPart fuel (depth - 1) (.members []) (d :: more)
          | [] => none
      else do
        let (n, rest) ← readNumber false (c :: rest)
        some (number n, rest)
    | [] => none
  | fuel + 1, depth, .items before, cs => do
    let (v, rest) ← readPart fuel depth .value cs
    match skipSpace rest with
    | ',' :: rest => readPart fuel depth (.items (v :: before)) rest
    | ']' :: rest => some (array (v :: before).reverse, rest)
    | _ => none
  | fuel + 1, depth, .members before, cs => do
    match skipSpace cs with
    | '"' :: rest => do
      let (k, rest) ← readString rest.length.succ rest
      match skipSpace rest with
      | ':' :: rest => do
        let (v, rest) ← readPart fuel depth .value rest
        let before := OrderedMap.set (String.ofList k) v before
        match skipSpace rest with
        | ',' :: rest => readPart fuel depth (.members before) rest
        | c :: rest => if c = '\x7d' then some (object before, rest) else none
        | [] => none
      | _ => none
    | _ => none

/-- How many brackets may be open at once, and one more. -/
def depthLimit : Nat := 128

/-- The value that a text writes, if it writes one and nothing else. -/
def read? (s : String) : Option Json := do
  let cs := s.toList
  let (v, rest) ← readPart (2 * cs.length + 2) depthLimit .value cs
  if (skipSpace rest).isEmpty then some v else none

end DecoratedApi.Json
