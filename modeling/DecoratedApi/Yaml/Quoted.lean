import DecoratedApi.Yaml.Place

/-!
# Texts between quotes

Between single quotes a quote is written twice. Between double quotes a backslash starts an escape,
and at the end of a line it joins the lines without a blank. No mark between documents may stand at
the start of a line.
-/

namespace DecoratedApi.Yaml

/-- A character that an escape of one letter stands for. -/
def escapedChar? : Char → Option Char
  | '0' => some '\x00'
  | 'a' => some '\x07'
  | 'b' => some '\x08'
  | 't' => some '\t'
  | '\t' => some '\t'
  | 'n' => some '\n'
  | 'v' => some '\x0b'
  | 'f' => some '\x0c'
  | 'r' => some '\r'
  | 'e' => some '\x1b'
  | ' ' => some ' '
  | '"' => some '"'
  | '/' => some '/'
  | '\\' => some '\\'
  | 'N' => some '\u0085'
  | '_' => some '\u00a0'
  | 'L' => some '\u2028'
  | 'P' => some '\u2029'
  | _ => none

/-- How many digits follow an escape that gives a character by its number. -/
def escapeDigits? : Char → Option Nat
  | 'x' => some 2
  | 'u' => some 4
  | 'U' => some 8
  | _ => none

/-- The character with the number that the digits stand for. -/
def codePoint? (digits : List Char) : Option Char := do
  let n ← Text.readDigits? 16 digits
  if n < 0xD800 ∨ (0xDFFF < n ∧ n < 0x110000) then some (Char.ofNat n) else none

/-- The character that an escape stands for, and how many characters it takes behind the
backslash. -/
def readEscape? (cs : List Char) : Option (Char × Nat) :=
  match cs with
  | [] => none
  | c :: rest =>
    match escapeDigits? c with
    | some n => do
      guard ((rest.take n).length = n)
      return (← codePoint? (rest.take n), n + 1)
    | none => (escapedChar? c).map (·, 1)

/-- Where a scan stands between quotes: what is held back, whether it stands at the start of a
line, how many characters belong to an escape that is already read, and the text so far in reverse
order. -/
structure QuotedPart where
  held : Held
  atStart : Bool
  skip : Nat
  text : List Char

namespace QuotedPart

def start : QuotedPart := ⟨.blanks [], false, 0, []⟩

/-- Adds a character that stands for itself or comes from an escape. -/
def add (p : QuotedPart) (c : Char) (skip : Nat) : QuotedPart :=
  ⟨.blanks [], false, skip, c :: (p.held.release.reverse ++ p.text)⟩

def blank (p : QuotedPart) (c : Char) : QuotedPart :=
  { p with held := p.held.blank c, atStart := false }

def lineBreak (p : QuotedPart) (c : Char) : QuotedPart :=
  { p with held := p.held.lineBreak c, atStart := true }

/-- Passes the backslash of an escaped line break, which is still to come. -/
def joinLines (p : QuotedPart) : QuotedPart :=
  ⟨.breaks none [], true, 1, p.held.release.reverse ++ p.text⟩

def close (p : QuotedPart) : String := String.ofList (p.text.reverse ++ p.held.release)

end QuotedPart

/-- Reads up to the closing quote. Gives the text and what follows the quote. -/
def quotedTail (quote : Char) (p : QuotedPart) : List Char → Option (String × List Char)
  | [] => none
  | c :: cs =>
    if 0 < p.skip then quotedTail quote { p with skip := p.skip - 1 } cs
    else if isSpace c then quotedTail quote (p.blank c) cs
    else if endsLine c then quotedTail quote (p.lineBreak c) cs
    else if p.atStart && atMark (c :: cs) then none
    else if c == quote then
      if quote == '\x27' && cs.head? == some '\x27' then quotedTail quote (p.add c 1) cs
      else some (p.close, cs)
    else if quote == '"' && c == '\\' then
      if cs.head?.any endsLine then quotedTail quote p.joinLines cs
      else match readEscape? cs with
        | some (d, n) => quotedTail quote (p.add d n) cs
        | none => none
    else quotedTail quote (p.add c 0) cs

end DecoratedApi.Yaml
