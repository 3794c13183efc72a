/-!
# Patterns of paths

A question mark stands for any character, a star for any run of characters, slashes among them, and
brackets for one character of a class. Two stars are a whole step: they stand for any run of steps.
-/

namespace DecoratedApi.Files

structure CharRange where
  first : Char
  last : Char

/-- A part of a pattern. -/
inductive GlobToken
  | char (c : Char)
  | anyChar
  | anySequence
  | anySteps
  | oneOf (ranges : List CharRange)
  | noneOf (ranges : List CharRange)

abbrev Glob := List GlobToken

namespace Glob

/-! ## Reading -/

/-- The ranges of a class. A dash between two characters makes a range. -/
def readRanges : List Char → List CharRange
  | a :: '-' :: b :: rest => ⟨a, b⟩ :: readRanges rest
  | a :: rest => ⟨a, a⟩ :: readRanges rest
  | [] => []

/-- The characters up to the bracket that closes a class, and those behind it. The first character
never closes the class. -/
def splitClass? : List Char → Option (List Char × List Char)
  | [] => none
  | first :: rest =>
    let (members, after) := rest.span (· != ']')
    match after with
    | [] => none
    | _ :: after => some (first :: members, after)

/-- Reads a pattern; none when it is malformed. `fresh` says whether a step starts here. The fuel
bounds the number of parts. -/
def readFrom : (fuel : Nat) → (fresh : Bool) → List Char → Option Glob
  | 0, _, _ => none
  | _, _, [] => some []
  | _, _, '*' :: '*' :: '*' :: _ => none
  | fuel + 1, fresh, '*' :: '*' :: rest =>
    if fresh then
      match rest with
      | [] => some [.anySteps]
      | '/' :: rest => (readFrom fuel true rest).map (.anySteps :: ·)
      | _ => none
    else none
  | fuel + 1, _, '*' :: rest => (readFrom fuel false rest).map (.anySequence :: ·)
  | fuel + 1, _, '?' :: rest => (readFrom fuel false rest).map (.anyChar :: ·)
  | fuel + 1, _, '[' :: '!' :: rest => do
    let (members, rest) ← splitClass? rest
    let tokens ← readFrom fuel false rest
    return .noneOf (readRanges members) :: tokens
  | fuel + 1, _, '[' :: rest => do
    let (members, rest) ← splitClass? rest
    let tokens ← readFrom fuel false rest
    return .oneOf (readRanges members) :: tokens
  | fuel + 1, _, c :: rest => (readFrom fuel (c == '/') rest).map (.char c :: ·)

/-- Reads a pattern; none when it is malformed. -/
def read? (pattern : String) : Option Glob :=
  let cs := pattern.toList
  readFrom (cs.length + 1) true cs

/-! ## Matching -/

/-- Whether a character belongs to a class. -/
def inRanges (ranges : List CharRange) (c : Char) : Bool :=
  ranges.any fun r => r.first ≤ c && c ≤ r.last

/-- Whether the test holds of some end of the characters. -/
def anySuffix (test : List Char → Bool) : List Char → Bool
  | [] => test []
  | c :: cs => test (c :: cs) || anySuffix test cs

/-- Whether the test holds of some end of the characters that starts a step, or of the very end. -/
def anyStep (test : List Char → Bool) : List Char → Bool
  | [] => test []
  | c :: cs => (c == '/' && test cs) || anyStep test cs

/-- Whether a pattern describes all of the characters. -/
def matchesAll : Glob → List Char → Bool
  | [], cs => cs.isEmpty
  | .anySequence :: rest, cs => anySuffix (matchesAll rest) cs
  | .anySteps :: rest, cs => matchesAll rest cs || anyStep (matchesAll rest) cs
  | _ :: _, [] => false
  | .char d :: rest, c :: cs => c == d && matchesAll rest cs
  | .anyChar :: rest, _ :: cs => matchesAll rest cs
  | .oneOf ranges :: rest, c :: cs => inRanges ranges c && matchesAll rest cs
  | .noneOf ranges :: rest, c :: cs => !inRanges ranges c && matchesAll rest cs

def describes (glob : Glob) (path : String) : Bool := matchesAll glob path.toList

end Glob
end DecoratedApi.Files
