import DecoratedApi.Text.Words

/-!
# Places in a text

A reader of YAML needs to know on which line and in which column it stands. Line breaks are made
alike before anything is read, so that a break is always one character.
-/

namespace DecoratedApi.Yaml

/-! ## Characters -/

/-- Whether a text may hold a character. -/
def isAllowed (c : Char) : Bool :=
  let n := c.toNat
  n == 9 || n == 10 || n == 13 || (0x20 ≤ n && n ≤ 0x7E) || n == 0x85 ||
    (0xA0 ≤ n && n ≤ 0xFFFD) || 0x10000 ≤ n

/-- Makes the line breaks alike that stand for no character of their own. -/
def unifyBreaks : List Char → List Char
  | '\r' :: '\n' :: cs => '\n' :: unifyBreaks cs
  | '\r' :: cs => '\n' :: unifyBreaks cs
  | '\u0085' :: cs => '\n' :: unifyBreaks cs
  | c :: cs => c :: unifyBreaks cs
  | [] => []

/-- A line break. The separators of lines and paragraphs stay what they are. -/
def endsLine (c : Char) : Bool := c == '\n' || c == '\u2028' || c == '\u2029'

/-- A blank inside a line. -/
def isSpace (c : Char) : Bool := c == ' ' || c == '\t'

/-- Whether a blank, a line break or the end comes first. -/
def endsWord (cs : List Char) : Bool :=
  match cs with
  | [] => true
  | c :: _ => isSpace c || endsLine c

/-- The characters of labels and of the names of directives. -/
def isLabelPart (c : Char) : Bool := c.isAlphanum || c == '-' || c == '_'

/-- Whether a mark between documents stands here. -/
def atMark (cs : List Char) : Bool :=
  match cs with
  | a :: b :: c :: rest => (a == '-' || a == '.') && b == a && c == a && endsWord rest
  | _ => false

/-! ## Places -/

/-- A place in a text: the characters from there on, how many stand before it, and its line and
column. -/
structure Place where
  rest : List Char
  index : Nat
  line : Nat
  column : Nat

namespace Place

/-- The place behind some characters. `rest` is what follows them. -/
def behind (passed rest : List Char) (p : Place) : Place :=
  passed.foldl (fun p c =>
    if endsLine c then { p with index := p.index + 1, line := p.line + 1, column := 0 }
    else { p with index := p.index + 1, column := p.column + 1 }) { p with rest }

/-- The place further on where only `rest` is left. -/
def goTo (p : Place) (rest : List Char) : Place :=
  p.behind (p.rest.take (p.rest.length - rest.length)) rest

/-- The place some characters further on. -/
def skip (p : Place) (n : Nat) : Place := p.behind (p.rest.take n) (p.rest.drop n)

end Place

/-! ## Lines that are joined -/

/-- What is held back in a text until it is known what follows: blanks inside a line, or line
breaks. The first break is none when it was escaped. All stand in reverse order. -/
inductive Held
  | blanks (cs : List Char)
  | breaks (first : Option Char) (more : List Char)

/-- What stands for that which was held back: a single break is a blank, and more are one less. -/
def Held.release : Held → List Char
  | blanks cs => cs.reverse
  | breaks none more => more.reverse
  | breaks (some c) more =>
    if c == '\n' then
      if more.isEmpty then [' '] else more.reverse
    else c :: more.reverse

/-- One more blank. Blanks beside a line break count for nothing. -/
def Held.blank (c : Char) : Held → Held
  | blanks cs => blanks (c :: cs)
  | breaks first more => breaks first more

/-- One more line break. Blanks before it count for nothing. -/
def Held.lineBreak (c : Char) : Held → Held
  | blanks _ => breaks (some c) []
  | breaks first more => breaks first (c :: more)

/-- Whether a line break is among it. -/
def Held.hasBreak : Held → Bool
  | blanks _ => false
  | breaks _ _ => true

end DecoratedApi.Yaml
