import DecoratedApi.Json.Printer

/-!
# YAML scalars

How a text is written: plain when it reads back as the same text, else between single quotes, as a
literal block when it has line breaks, or between double quotes when it holds characters that have
to be escaped.
-/

namespace DecoratedApi.Yaml

/-! ## Which plain texts are no strings -/

/-- A sign, then a zero, then more digits: such a text is no number. -/
def hasLeadingZero (cs : List Char) : Bool :=
  let body := match cs with
    | '-' :: r | '+' :: r => r
    | r => r
  match body with
  | '0' :: r => !r.isEmpty && r.all Char.isDigit
  | _ => false

/-- A natural number in the given base, below the bound. -/
def isBounded (base bound : Nat) (cs : List Char) : Bool :=
  !cs.isEmpty && match Text.readDigits? base cs with
    | some n => n < bound
    | none => false

/-- The digits after a mark of base sixteen, eight or two. -/
def marked? : List Char → Option (Nat × List Char)
  | '0' :: 'x' :: r => some (16, r)
  | '0' :: 'o' :: r => some (8, r)
  | '0' :: 'b' :: r => some (2, r)
  | _ => none

/-- Whether a plain text reads as an integer of at most 128 bits. -/
def isInteger (cs : List Char) : Bool :=
  let unsigned := match cs with
    | '+' :: r => r
    | r => r
  let byMark := match marked? unsigned with
    | some (base, r) => isBounded base (Nat.pow 2 128) r
    | none => false
  let byNegativeMark := match cs with
    | '-' :: r =>
      match marked? r with
      | some (base, r) => isBounded base (Nat.pow 2 127 + 1) r
      | none => false
    | _ => false
  let decimal := !hasLeadingZero cs &&
    (isBounded 10 (Nat.pow 2 128) unsigned ||
      match cs with
      | '-' :: r => isBounded 10 (Nat.pow 2 127 + 1) r
      | _ => false)
  byMark || byNegativeMark || decimal

/-- Whether a plain text reads as a float. -/
def isFloat (s : String) : Bool :=
  if hasLeadingZero s.toList then false
  else
    let unsigned := match s.toList with
      | '+' :: r => String.ofList r
      | r => String.ofList r
    let twoSigns := match s.toList with
      | '+' :: '+' :: _ | '+' :: '-' :: _ => true
      | _ => false
    if twoSigns then false
    else if [".inf", ".Inf", ".INF"].contains unsigned then true
    else if ["-.inf", "-.Inf", "-.INF", ".nan", ".NaN", ".NAN"].contains s then true
    else match Binary64.read? unsigned with
      | some x => x.isFinite
      | none => false

/-- Whether a plain text would not read back as a string. -/
def readsAsOther (s : String) : Bool :=
  s.isEmpty || ["null", "Null", "NULL", "~"].contains s ||
    ["true", "True", "TRUE", "false", "False", "FALSE"].contains s ||
    isInteger s.toList || isFloat s

/-! ## Which styles a text allows -/

def isBreak (c : Char) : Bool :=
  c == '\n' || c == '\r' || c.toNat == 0x85 || c.toNat == 0x2028 || c.toNat == 0x2029

/-- Characters that may stand for themselves. -/
def isPrintable (c : Char) : Bool :=
  let n := c.toNat
  n == 0x0A || (0x20 ≤ n && n ≤ 0x7E) ||
    (0xA0 ≤ n && n ≤ 0xFFFD && !(0xD800 ≤ n && n ≤ 0xDFFF) && n != 0xFEFF) || 0x10000 ≤ n

def isBlankOrEnd : Option Char → Bool
  | none => true
  | some c => c == ' ' || c == '\t' || isBreak c || c.toNat == 0

/-- What a text holds that rules out some styles. -/
structure Traits where
  indicators : Bool := false
  breaks : Bool := false
  special : Bool := false
  edgeSpace : Bool := false
  edgeBreak : Bool := false
  trailingSpace : Bool := false
  breakSpace : Bool := false
  spaceBreak : Bool := false

/-- The characters that cannot start a plain text. -/
def leadingIndicators : List Char :=
  ['#', ',', '[', ']', '\x7b', '\x7d', '&', '*', '!', '|', '>', '\'', '"', '%', '@', '\x60']

/-- Whether a character acts as an indicator where it stands. -/
def isIndicator (previous : Option Char) (c : Char) (next : Option Char) : Bool :=
  match previous with
  | none =>
    leadingIndicators.contains c || ((c == '?' || c == ':' || c == '-') && isBlankOrEnd next)
  | some p => (c == ':' && isBlankOrEnd next) || (c == '#' && isBlankOrEnd (some p))

/-- Adds one character, with its neighbours, to the traits. -/
def Traits.add (t : Traits) (previous : Option Char) (c : Char) (next : Option Char) : Traits :=
  let atEdge := previous.isNone || next.isNone
  { indicators := t.indicators || isIndicator previous c next
    breaks := t.breaks || isBreak c
    special := t.special || !isPrintable c
    edgeSpace := t.edgeSpace || (c == ' ' && atEdge)
    edgeBreak := t.edgeBreak || (isBreak c && atEdge)
    trailingSpace := t.trailingSpace || (c == ' ' && next.isNone)
    breakSpace := t.breakSpace || (c == ' ' && (previous.map isBreak).getD false)
    spaceBreak := t.spaceBreak || (isBreak c && previous == some ' ') }

/-- The traits of a text, from what came before it. -/
def traitsFrom (t : Traits) (previous : Option Char) : List Char → Traits
  | [] => t
  | c :: cs => traitsFrom (t.add previous c cs.head?) (some c) cs

/-- The traits of a text. A text that starts like a document mark acts as an indicator. -/
def traitsOf (cs : List Char) : Traits :=
  let mark := ['-', '-', '-'].isPrefixOf cs || ['.', '.', '.'].isPrefixOf cs
  traitsFrom { indicators := mark } none cs

def Traits.allowsPlain (t : Traits) : Bool :=
  !(t.indicators || t.breaks || t.special || t.edgeSpace || t.edgeBreak || t.breakSpace ||
    t.spaceBreak)

def Traits.allowsSingle (t : Traits) : Bool := !(t.breakSpace || t.spaceBreak || t.special)

def Traits.allowsLiteral (t : Traits) : Bool := !(t.trailingSpace || t.spaceBreak || t.special)

/-! ## Writing -/

inductive Style
  | plain
  | single
  | double
  | literal
deriving DecidableEq, Repr

def styleOf (s : String) : Style :=
  let t := traitsOf s.toList
  if s.toList.contains '\n' then
    if t.allowsLiteral then .literal else .double
  else if !readsAsOther s && !hasLeadingZero s.toList && t.allowsPlain then .plain
  else if t.allowsSingle then .single
  else .double

/-- Blanks up to a column. -/
def spaces (n : Nat) : List Char := List.replicate n ' '

/-- The digits of a number in base sixteen, with capital letters. -/
def hexDigits (width n : Nat) : List Char :=
  let digits := (Nat.toDigits 16 n).map Char.toUpper
  List.replicate (width - digits.length) '0' ++ digits

/-- How a character is written between double quotes. -/
def escapeDouble (c : Char) : List Char :=
  let n := c.toNat
  if isPrintable c && !isBreak c && c != '"' && c != '\\' then [c]
  else '\\' ::
    (match n with
      | 0x00 => ['0']
      | 0x07 => ['a']
      | 0x08 => ['b']
      | 0x09 => ['t']
      | 0x0A => ['n']
      | 0x0B => ['v']
      | 0x0C => ['f']
      | 0x0D => ['r']
      | 0x1B => ['e']
      | 0x22 => ['"']
      | 0x5C => ['\\']
      | 0x85 => ['N']
      | 0xA0 => ['_']
      | 0x2028 => ['L']
      | 0x2029 => ['P']
      | _ =>
        if n ≤ 0xFF then 'x' :: hexDigits 2 n
        else if n ≤ 0xFFFF then 'u' :: hexDigits 4 n
        else 'U' :: hexDigits 8 n)

/-- The characters of a text on lines that start at a column. `atStart` says that the column has
still to be reached. -/
def indentLines (column : Nat) (write : Char → List Char) : (atStart : Bool) → List Char → List Char
  | _, [] => []
  | atStart, c :: cs =>
    if isBreak c then c :: indentLines column write true cs
    else (if atStart then spaces column else []) ++ write c ++ indentLines column write false cs

/-- The marks after the bar of a literal block: the indentation, when the text starts with a blank
or a break, and what becomes of the breaks at its end. -/
def blockHints (cs : List Char) : List Char :=
  let indentation := match cs.head? with
    | some c => if c == ' ' || isBreak c then ['2'] else []
    | none => []
  let ending := match cs.reverse with
    | [] => ['-']
    | [c] => if isBreak c then ['+'] else ['-']
    | c :: d :: _ => if !isBreak c then ['-'] else if isBreak d then ['+'] else []
  indentation ++ ending

/-- A text as a scalar whose further lines start at a column. -/
def scalar (column : Nat) (s : String) : List Char :=
  let cs := s.toList
  match styleOf s with
  | .plain => cs
  | .single =>
    let closing := if (cs.getLast?.map isBreak).getD false then spaces column else []
    '\'' :: indentLines column (fun c => if c = '\'' then ['\'', '\''] else [c]) false cs ++
      closing ++ ['\'']
  | .double => '"' :: cs.flatMap escapeDouble ++ ['"']
  | .literal => '|' :: blockHints cs ++ '\n' :: indentLines column (fun c => [c]) true cs

end DecoratedApi.Yaml
