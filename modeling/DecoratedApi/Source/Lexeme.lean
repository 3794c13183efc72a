import DecoratedApi.Source.Literal

/-!
# Texts of tokens

How far a token reaches from the start of the characters. Each function counts characters and gives
zero when no such token starts there.
-/

namespace DecoratedApi.Source

/-! ## Characters -/

/-- The characters that may stand between tokens. -/
def isGapBlank (c : Char) : Bool :=
  (Text.isBlank c && c != '\u0085') || c == '\uFEFF' || c == '\u2060' || c == '\u200B'

/-- The blanks of the basic alphabet. -/
def isBasicBlank (c : Char) : Bool := c == ' ' || (9 ≤ c.toNat && c.toNat ≤ 13)

def isHex (c : Char) : Bool := (Text.hexDigit? c).isSome

/-- How many characters at the start satisfy a condition. -/
def countWhile (p : Char → Bool) : List Char → Nat
  | [] => 0
  | c :: cs => if p c then countWhile p cs + 1 else 0

/-- How many characters a fixed text takes at the start of the characters. -/
def textLength (text cs : List Char) : Nat := if text.isPrefixOf cs then text.length else 0

/-! ## Words -/

/-- Whether a character may stand in a name: any that is not a blank, a control character, an
operator or a bracket. -/
def isWordPart (c : Char) : Bool :=
  !(c.toNat < 0x20 || isGapBlank c ||
    ":;\x60\"'@#.,|^&<=>+-*/\\%?!~()[]\x7b\x7d".toList.contains c)

/-- How far the number of a character between braces reaches. -/
def bracedLength (cs : List Char) : Nat :=
  match cs with
  | '\x7b' :: rest =>
    let digits := countWhile isHex rest
    if digits != 0 && (rest.drop digits).head? == some '\x7d' then digits + 2 else 0
  | _ => 0

/-- How far a character reaches that is written by its number, such as `\u0041` or `\u{41}`. -/
def pointLength (cs : List Char) : Nat :=
  match cs with
  | '\\' :: 'u' :: rest =>
    if (rest.take 4).length = 4 && (rest.take 4).all isHex then 6
    else if bracedLength rest == 0 then 0 else bracedLength rest + 2
  | _ => 0

/-- How far the inner part of a name reaches. The first `skip` characters belong to it. -/
def wordTail (skip : Nat) : List Char → Nat
  | [] => 0
  | c :: cs =>
    match skip with
    | skip + 1 => wordTail skip cs + 1
    | 0 =>
      if isWordPart c then wordTail 0 cs + 1
      else match pointLength (c :: cs) with
        | 0 => 0
        | length + 1 => wordTail length cs + 1

/-- How far a name reaches. A digit does not start one. -/
def wordLength (cs : List Char) : Nat :=
  if cs.head?.any Char.isDigit then 0 else wordTail 0 cs

def privateLength (cs : List Char) : Nat :=
  match cs with
  | '#' :: rest => if wordLength rest == 0 then 0 else wordLength rest + 1
  | _ => 0

/-! ## Numbers -/

/-- How far digits reach, with single separators between them. -/
def digitTail (isDigit : Char → Bool) : List Char → Nat
  | [] => 0
  | c :: rest =>
    if isDigit c || (c == '_' && rest.head?.any isDigit) then digitTail isDigit rest + 1 else 0

/-- How far a run of digits reaches that starts with a digit. -/
def digitRun (isDigit : Char → Bool) (cs : List Char) : Nat :=
  if cs.head?.any isDigit then digitTail isDigit cs else 0

def isDigitOf (base : Nat) (c : Char) : Bool := (Text.hexDigit? c).any (· < base)

/-- One more when the mark of an unbounded integer follows. -/
def withMark (length : Nat) (cs : List Char) : Nat :=
  if length != 0 && (cs.drop length).head? == some 'n' then length + 1 else length

/-- How far a number with a mark for its base reaches. -/
def basedLength (cs : List Char) : Nat :=
  let digits (base : Nat) : Nat := digitRun (isDigitOf base) (cs.drop 2)
  let based (digits : Nat) : Nat := if digits == 0 then 0 else withMark (2 + digits) cs
  match (cs.take 2).map Char.toLower with
  | ['0', 'x'] => based (digits 16)
  | ['0', 'b'] => based (digits 2)
  | ['0', 'o'] => based (digits 8)
  | _ => 0

def exponentLength (cs : List Char) : Nat :=
  match cs with
  | e :: rest =>
    if e == 'e' || e == 'E' then
      let sign := if rest.head?.any (fun c => c == '+' || c == '-') then 1 else 0
      let digits := digitRun Char.isDigit (rest.drop sign)
      if digits == 0 then 0 else 1 + sign + digits
    else 0
  | [] => 0

/-- How far the whole part of a number with a point or an exponent reaches: one zero may stand
before other digits. -/
def wholeLength (cs : List Char) : Nat :=
  match cs with
  | '0' :: rest =>
    if rest.head?.any (fun c => c.isDigit && c != '0') then digitRun Char.isDigit rest + 1 else 1
  | _ => digitRun Char.isDigit cs

/-- How far a number with a point reaches. -/
def pointedLength (cs : List Char) : Nat :=
  let whole := wholeLength cs
  match cs.drop whole with
  | '.' :: after =>
    let places := digitRun Char.isDigit after
    if whole == 0 && places == 0 then 0
    else whole + 1 + places + exponentLength (after.drop places)
  | _ => 0

/-- How far a number without a point but with an exponent reaches. -/
def scaledLength (cs : List Char) : Nat :=
  let whole := wholeLength cs
  let power := exponentLength (cs.drop whole)
  if whole == 0 || power == 0 then 0 else whole + power

/-- How far a number reaches: the longest way to read one. -/
def numberLength (cs : List Char) : Nat :=
  let plain := withMark (digitRun Char.isDigit cs) cs
  [basedLength cs, pointedLength cs, scaledLength cs].foldl max plain

/-! ## Comments -/

/-- The characters that end a line, for a comment that reaches to the end of its line. -/
def isLineBreak (c : Char) : Bool := c == '\n' || c == '\r' || c == '\u2028' || c == '\u2029'

/-- How far a comment reaches behind its opening; zero when it is not closed. -/
def blockTail (star : Bool) (length : Nat) : List Char → Nat
  | [] => 0
  | c :: cs =>
    if star && c == '/' then length + 1 else blockTail (c == '*') (length + 1) cs

def commentLength (cs : List Char) : Nat :=
  match cs with
  | '/' :: '/' :: rest => countWhile (!isLineBreak ·) rest + 2
  | '/' :: '*' :: rest => blockTail false 2 rest
  | _ => 0

/-- How far a line reaches that names a program to run. -/
def runLineLength (cs : List Char) : Nat :=
  match cs with
  | '#' :: '!' :: rest => countWhile (· != '\n') rest + 2
  | _ => 0

/-! ## Strings -/

/-- How far the text of a string reaches that needs no escapes. -/
def fragmentLength (quote : Char) (cs : List Char) : Nat :=
  countWhile (fun c => c != quote && c != '\\' && c != '\r' && c != '\n') cs

def isOctal (c : Char) : Bool := isDigitOf 8 c

def escapeLength (cs : List Char) : Nat :=
  match cs with
  | '\\' :: 'x' :: rest => if (rest.take 2).length = 2 && (rest.take 2).all isHex then 4 else 0
  | '\\' :: 'u' :: _ => pointLength cs
  | '\\' :: c :: rest =>
    if isOctal c then countWhile isOctal ((c :: rest).take 3) + 1
    else if (c == '\r' || c == '?') &&
        rest.head?.any (fun d => d == '\n' || d == '\u2028' || d == '\u2029') then 3
    else 2
  | _ => 0

/-- How far the text of a template reaches, up to an escape, a substitution or its end. -/
def templateTail : List Char → Option Nat
  | [] => none
  | c :: cs =>
    if c == '\x60' || c == '\\' then some 0
    else if c == '\x00' then none
    else if c == '$' && cs.head? == some '\x7b' then some 0
    else (templateTail cs).map (· + 1)

/-! ## Regular expressions -/

/-- How far a class of characters reaches behind its opening bracket; zero when it is not closed on
its line. -/
def classTail (escaped : Bool) (length : Nat) : List Char → Nat
  | [] => 0
  | c :: cs =>
    if c == '\n' then 0
    else if escaped then classTail false (length + 1) cs
    else if c == '\\' then classTail true (length + 1) cs
    else if c == ']' then length + 1
    else classTail false (length + 1) cs

/-- How far one step of a regular expression reaches: a class, an escape or a character. -/
def regexStep (cs : List Char) : Nat :=
  match cs with
  | [] => 0
  | '[' :: rest => classTail false 1 rest
  | '\\' :: rest => if rest.head?.any (· != '\n') then 2 else 0
  | c :: _ => if c == '/' || c == '\n' then 0 else 1

/-- How far a regular expression reaches. The first `skip` characters belong to it. -/
def regexTail (skip : Nat) : List Char → Nat
  | [] => 0
  | c :: cs =>
    match skip with
    | skip + 1 => regexTail skip cs + 1
    | 0 =>
      match regexStep (c :: cs) with
      | 0 => 0
      | length + 1 => regexTail length cs + 1

/-! ## Markup -/

/-- Whether a character is a letter, a digit or one of the signs that names in markup may have. -/
def isMarkupPart (c : Char) : Bool := c.isAlphanum || c == '_' || c == '$'

/-- How far a name with a hyphen in it reaches. -/
def markupNameLength (cs : List Char) : Nat :=
  let first := countWhile isMarkupPart cs
  match cs.drop first with
  | '-' :: rest =>
    if first == 0 || cs.head?.any Char.isDigit then 0
    else first + 1 + countWhile (fun c => isMarkupPart c || c == '-') rest
  | _ => 0

/-- How far a reference to a character reaches, such as `&amp;`. -/
def entityLength (cs : List Char) : Nat :=
  let closed (lead limit : Nat) (p : Char → Bool) (body : List Char) : Nat :=
    let count := countWhile p body
    if 0 < count && count ≤ limit && (body.drop count).head? == some ';' then lead + count + 1
    else 0
  match cs with
  | '&' :: '#' :: 'x' :: rest => closed 3 6 isHex rest
  | '&' :: '#' :: 'X' :: rest => closed 3 6 isHex rest
  | '&' :: '#' :: rest => closed 2 5 Char.isDigit rest
  | '&' :: rest => closed 1 30 Char.isAlpha rest
  | _ => 0

/-- How far the text of an attribute reaches, up to its quote or a reference to a character. -/
def markupFragmentLength (quote : Char) : List Char → Nat
  | [] => 0
  | '&' :: c :: cs =>
    if c == '#' || c.isAlpha then 0 else markupFragmentLength quote cs + 2
  | c :: cs => if c == quote || c == '&' then 0 else markupFragmentLength quote cs + 1

/-- How far the text between tags reaches, and whether it is more than a line break with blanks. -/
def markupTextLength (cs : List Char) : Nat :=
  let text := cs.take (countWhile (!"<>\x7b\x7d&\x00".toList.contains ·) cs)
  let (_, counts) := text.foldl (fun (afterBreak, counts) c =>
    if c == '\n' then (true, counts)
    else
      let afterBreak := afterBreak && isBasicBlank c
      (afterBreak, counts || !afterBreak)) (false, false)
  if counts then text.length else 0

end DecoratedApi.Source
