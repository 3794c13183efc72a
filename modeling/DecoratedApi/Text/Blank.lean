/-!
# Blank characters and trimming

Which characters count as blank, and how a run of characters is taken off the ends of a text.
Every function here works on lists of characters; the versions on `String` follow at the end.
-/

namespace DecoratedApi.Text

/-- The characters that have the Unicode property `White_Space`. -/
def isBlank (c : Char) : Bool :=
  let n := c.toNat
  (9 ≤ n && n ≤ 13) || n == 0x20 || n == 0x85 || n == 0xA0 || n == 0x1680 ||
    (0x2000 ≤ n && n ≤ 0x200A) || n == 0x2028 || n == 0x2029 || n == 0x202F ||
    n == 0x205F || n == 0x3000

/-- Takes the longest run of characters that satisfy `p` off the end. -/
def dropEndWhile (p : Char → Bool) (cs : List Char) : List Char :=
  (cs.reverse.dropWhile p).reverse

/-- Takes the characters that satisfy `p` off both ends. -/
def stripWhile (p : Char → Bool) (cs : List Char) : List Char :=
  dropEndWhile p (cs.dropWhile p)

def trimBlank (cs : List Char) : List Char := stripWhile isBlank cs

def trim (s : String) : String := String.ofList (trimBlank s.toList)

def strip (p : Char → Bool) (s : String) : String := String.ofList (stripWhile p s.toList)

/-- A text that is empty once it is trimmed carries no message. -/
def nonBlank? (s : String) : Option String :=
  let t := trim s
  if t.isEmpty then none else some t

end DecoratedApi.Text
