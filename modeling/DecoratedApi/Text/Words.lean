import DecoratedApi.Text.Blank

/-!
# Lines, words and segments

How a text is cut into lines, into its first word and the rest, and into segments between dots.
-/

namespace DecoratedApi.Text

/-- The pieces between the characters equal to `sep`: always one more than there are separators. -/
def splitAt (sep : Char) : List Char → List (List Char)
  | [] => [[]]
  | c :: cs =>
    if c = sep then [] :: splitAt sep cs
    else match splitAt sep cs with
      | [] => [[c]]
      | piece :: pieces => (c :: piece) :: pieces

/-- The lines of a text. A line break ends a line, so nothing follows the last one. -/
def linesOf (cs : List Char) : List (List Char) :=
  match (splitAt '\n' cs).reverse with
  | [] :: earlier => earlier.reverse
  | all => all.reverse

/-- The first word of a text and what follows it, both trimmed. -/
def splitWord (cs : List Char) : List Char × List Char :=
  let t := trimBlank cs
  (t.takeWhile (!isBlank ·), trimBlank (t.dropWhile (!isBlank ·)))

/-- The part of a name after its last dot, or the whole name when it has none. -/
def lastSegmentOf (cs : List Char) : List Char :=
  (cs.reverse.takeWhile (· != '.')).reverse

def firstWord (s : String) : String × String :=
  let (first, rest) := splitWord s.toList
  (String.ofList first, String.ofList rest)

def lastSegment (name : String) : String := String.ofList (lastSegmentOf name.toList)

/-- Whether `needle` occurs in `hay` as a run of consecutive characters. -/
def occursIn (needle : List Char) : List Char → Bool
  | [] => needle.isEmpty
  | c :: cs => needle.isPrefixOf (c :: cs) || occursIn needle cs

/-- What follows `lead` at the start of the characters. -/
def dropLead? : List Char → List Char → Option (List Char)
  | [], cs => some cs
  | _ :: _, [] => none
  | l :: lead, c :: cs => if l = c then dropLead? lead cs else none

/-- What precedes `tail` at the end of the characters. -/
def dropTail? (tail cs : List Char) : Option (List Char) :=
  (dropLead? tail.reverse cs.reverse).map List.reverse

/-- The capital letters `A` to `Z` made small; every other character is kept. -/
def asciiLower (s : String) : String := String.ofList (s.toList.map Char.toLower)

/-- The small letters `a` to `z` made capital; every other character is kept. -/
def asciiUpper (s : String) : String := String.ofList (s.toList.map Char.toUpper)

/-- Two names agree up to the case of the letters `a` to `z`. -/
def sameLetters (a b : String) : Bool := asciiLower a == asciiLower b

def hexDigit? (c : Char) : Option Nat :=
  if '0' ≤ c ∧ c ≤ '9' then some (c.toNat - '0'.toNat)
  else if 'a' ≤ c ∧ c ≤ 'f' then some (c.toNat - 'a'.toNat + 10)
  else if 'A' ≤ c ∧ c ≤ 'F' then some (c.toNat - 'A'.toNat + 10)
  else none

/-- The number written by the digits in the given base; none when a digit does not belong to it. -/
def readDigits? (base : Nat) (cs : List Char) : Option Nat :=
  cs.foldl (fun acc c => do
    let n ← acc
    let d ← hexDigit? c
    if d < base then some (n * base + d) else none) (some 0)

end DecoratedApi.Text
