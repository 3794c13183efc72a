import DecoratedApi.Number.Decimal
import DecoratedApi.Text.Words

/-!
# What literals stand for

The text between quotes is decoded by undoing its escapes. A number may have digit separators and
may be written in base 16, 8 or 2.
-/

namespace DecoratedApi.Source

/-! ## Strings -/

/-- The character with the given number in base 16; a plus sign may stand before it. -/
def codePoint? (digits : List Char) : Option Char :=
  let digits := match digits with
    | '+' :: rest => rest
    | all => all
  if digits.isEmpty then none
  else do
    let n ← Text.readDigits? 16 digits
    if n < 0xD800 ∨ (0xDFFF < n ∧ n < 0x110000) then some (Char.ofNat n) else none

/-- The character that a backslash and this one stand for. -/
def escaped : Char → Char
  | 'n' => '\n'
  | 't' => '\t'
  | 'r' => '\r'
  | '0' => '\x00'
  | c => c

/-- The four characters after `\u` stand for one character; where they do not, the text is kept. -/
def unescapeUnit (digits : List Char) : List Char :=
  match codePoint? digits with
  | some c => [c]
  | none => '\\' :: 'u' :: digits

/-- Undoes the escapes of a text. A backslash at the very end is kept. -/
def unescape : List Char → List Char
  | [] => []
  | ['\\'] => ['\\']
  | '\\' :: 'u' :: a :: b :: c :: d :: rest => unescapeUnit [a, b, c, d] ++ unescape rest
  | '\\' :: 'u' :: rest => unescapeUnit rest
  | '\\' :: c :: rest => escaped c :: unescape rest
  | c :: rest => c :: unescape rest

/-- Whether a character opens and closes a string. -/
def isQuote (c : Char) : Bool := c == '\x27' || c == '"'

/-- The content of a quoted text. A text without quotes is its own content. -/
def stringContentOf (cs : List Char) : List Char :=
  match cs with
  | q :: rest =>
    match rest.reverse with
    | last :: middle => if isQuote q ∧ last = q then unescape middle.reverse else cs
    | [] => cs
  | [] => cs

def stringContent (s : String) : String := String.ofList (stringContentOf s.toList)

/-- The content of a template without substitutions: every backtick at its ends is taken off, then
its escapes are undone. -/
def templateContent (s : String) : String :=
  String.ofList (unescape (Text.stripWhile (· == '\x60') s.toList))

/-! ## Numbers -/

/-- A whole number in the given base; a sign may stand before it. None when it does not fit in 64
bits. -/
def readWhole? (base : Nat) (digits : List Char) : Option Binary64 := do
  let (negative, digits) := match digits with
    | '+' :: rest => (false, rest)
    | '-' :: rest => (true, rest)
    | all => (false, all)
  if digits.isEmpty then none
  else
    let n ← Text.readDigits? base digits
    let value : Int := if negative then -(n : Int) else n
    if Binary64.leastInt64 ≤ value ∧ value ≤ Binary64.greatestInt64 then
      some (Binary64.ofInt value)
    else none

/-- The number that a literal stands for. -/
def readNumber? (s : String) : Option Binary64 :=
  let cs := s.toList.filter (· != '_')
  match cs.map Char.toLower with
  | '0' :: 'x' :: digits => readWhole? 16 digits
  | '0' :: 'b' :: digits => readWhole? 2 digits
  | '0' :: 'o' :: digits => readWhole? 8 digits
  | _ => Binary64.read? (String.ofList cs)

end DecoratedApi.Source
