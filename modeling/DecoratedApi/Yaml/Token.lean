import DecoratedApi.Yaml.Place

/-!
# Tokens

The signs of a text and the marks that its indentation stands for: where a list or a mapping of
lines starts and where it ends.
-/

namespace DecoratedApi.Yaml

inductive Token
  | version (major minor : Nat)
  /-- A directive: tags that start with the handle stand for longer ones. -/
  | handle (handle meaning : String)
  | documentStart
  | documentEnd
  | listStart
  | mappingStart
  | blockEnd
  | openBracket
  | closeBracket
  | openBrace
  | closeBrace
  | dash
  | comma
  | key
  | value
  | label (name : String)
  | use (name : String)
  | tag (handle ending : String)
  | text (text : String) (plain : Bool)
deriving DecidableEq, Repr

/-! ## Labels and tags -/

/-- Whether a character may follow a label. -/
def endsLabel (cs : List Char) : Bool :=
  endsWord cs || cs.head?.any fun c => ['?', ':', ',', ']', '\x7d', '%', '@', '\x60'].contains c

/-- Reads the name behind the sign of a label. -/
def labelName? (cs : List Char) : Option (String × List Char) := do
  let name := cs.takeWhile isLabelPart
  let rest := cs.drop name.length
  guard (!name.isEmpty && endsLabel rest)
  return (String.ofList name, rest)

/-- The characters that a tag may hold; a bracket or a comma only where the tag has a closing
sign. -/
def isTagPart (closed : Bool) (c : Char) : Bool :=
  isLabelPart c || ";/?:@&=+$.%!~*\x27()".toList.contains c || (closed && ",[]".toList.contains c)

/-- How many bytes a character takes that starts with the given one. -/
def byteWidth? (byte : Nat) : Option Nat :=
  if byte < 0x80 then some 1
  else if byte < 0xC0 then none
  else if byte < 0xE0 then some 2
  else if byte < 0xF0 then some 3
  else if byte < 0xF8 then some 4
  else none

/-- The bytes that a tag stands for, and what follows it. Behind a percent sign a byte is written by
two digits; `missing` bytes still belong to a character that was begun so. -/
def tagBytes? (closed : Bool) (missing : Nat) : List Char → Option (List Char × List Char)
  | '%' :: a :: b :: cs => do
    let byte ← Text.readDigits? 16 [a, b]
    let missing ← if missing = 0 then (byteWidth? byte).map (· - 1)
      else if 0x80 ≤ byte ∧ byte < 0xC0 then some (missing - 1) else none
    let (bytes, rest) ← tagBytes? closed missing cs
    return (Char.ofNat byte :: bytes, rest)
  | c :: cs =>
    if missing ≠ 0 || c == '%' then none
    else if isTagPart closed c then do
      let (bytes, rest) ← tagBytes? closed 0 cs
      return (c :: bytes, rest)
    else some ([], c :: cs)
  | [] => if missing = 0 then some ([], []) else none

/-- The text of some bytes, up to the first one that is zero. -/
def tagText (bytes : List Char) : String := String.ofList (bytes.takeWhile (· != '\x00'))

/-- A handle: a name between exclamation marks, or a start of a tag that is none. -/
def handleOf (cs : List Char) : List Char × List Char :=
  match cs with
  | '!' :: rest =>
    let name := rest.takeWhile isLabelPart
    match rest.drop name.length with
    | '!' :: behind => ('!' :: name ++ ['!'], behind)
    | behind => ('!' :: name, behind)
  | _ => ([], cs)

def isWholeHandle (handle : List Char) : Bool :=
  2 ≤ handle.length && handle.getLast? == some '!'

/-- Reads a tag: a whole one between angle brackets, one behind a handle, or one of its own. -/
def readTag? (bracketed : Bool) (cs : List Char) : Option (Token × List Char) := do
  let (token, rest) ← match cs with
    | '!' :: '<' :: rest => do
      let (bytes, behind) ← tagBytes? true 0 rest
      guard (!bytes.isEmpty && behind.head? == some '>')
      some (Token.tag "" (tagText bytes), behind.drop 1)
    | _ => do
      let (handle, rest) := handleOf cs
      let (bytes, behind) ← tagBytes? false 0 rest
      if isWholeHandle handle then
        guard !bytes.isEmpty
        some (Token.tag (String.ofList handle) (tagText bytes), behind)
      else
        let ending := tagText (handle.drop 1 ++ bytes)
        some (if ending.isEmpty then .tag "" "!" else .tag "!" ending, behind)
  guard (endsWord rest || (bracketed && rest.head? == some ','))
  return (token, rest)

/-! ## Directives -/

/-- Reads a number of at most nine digits. -/
def versionNumber? (cs : List Char) : Option (Nat × List Char) := do
  let digits := cs.takeWhile Char.isDigit
  guard (!digits.isEmpty && digits.length ≤ 9)
  return (← Text.readDigits? 10 digits, cs.drop digits.length)

/-- Reads the version behind its directive. -/
def versionToken? (cs : List Char) : Option (Token × List Char) := do
  let (major, rest) ← versionNumber? (cs.dropWhile isSpace)
  guard (rest.head? == some '.')
  let (minor, rest) ← versionNumber? (rest.drop 1)
  return (.version major minor, rest)

/-- Reads a handle and what it stands for behind their directive. -/
def handleToken? (cs : List Char) : Option (Token × List Char) := do
  let (handle, rest) := handleOf (cs.dropWhile isSpace)
  guard (handle == ['!'] || isWholeHandle handle)
  guard (rest.head?.any isSpace)
  let (bytes, rest) ← tagBytes? true 0 (rest.dropWhile isSpace)
  guard (!bytes.isEmpty && endsWord rest)
  return (.handle (String.ofList handle) (tagText bytes), rest)

/-- Reads a directive behind its percent sign, without the rest of its line. -/
def directive? (cs : List Char) : Option (Token × List Char) :=
  let name := cs.takeWhile isLabelPart
  let rest := cs.drop name.length
  if !endsWord rest then none
  else match String.ofList name with
    | "YAML" => versionToken? rest
    | "TAG" => handleToken? rest
    | _ => none

end DecoratedApi.Yaml
