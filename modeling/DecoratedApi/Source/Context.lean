import DecoratedApi.Source.Lexeme

/-!
# Tokens that depend on what is around them

A statement may end at a line break, but only where what follows the break cannot go on with it. The
sign of a conditional expression is told apart from the mark of an optional part by what stands
behind it. Both look further ahead than the text of the token.
-/

namespace DecoratedApi.Source

/-! ## Gaps -/

/-- What a gap is passing through. -/
inductive GapPart
  | blank
  | slash
  | line
  | block (star : Bool)
deriving DecidableEq

structure GapEnd where
  /-- The characters behind the gap. -/
  rest : List Char
  /-- Whether a slash ended the gap that opens no comment. -/
  atSlash : Bool
  /-- Whether a comment to the end of its line is in the gap. -/
  lineComment : Bool

/-- Passes blanks and comments. -/
def passGap (part : GapPart) (lineComment : Bool) : List Char → GapEnd
  | [] => ⟨[], part == .slash, lineComment || part == .line⟩
  | c :: cs =>
    match part with
    | .blank =>
      if isBasicBlank c then passGap .blank lineComment cs
      else if c == '/' then passGap .slash lineComment cs
      else ⟨c :: cs, false, lineComment⟩
    | .slash =>
      if c == '/' then passGap .line lineComment cs
      else if c == '*' then passGap (.block false) lineComment cs
      else ⟨c :: cs, true, lineComment⟩
    | .line =>
      if c == '\n' then passGap .blank true cs
      else if c == '\u2028' || c == '\u2029' then ⟨c :: cs, false, true⟩
      else passGap .line lineComment cs
    | .block star =>
      if star && c == '/' then passGap .blank lineComment cs
      else passGap (.block (c == '*')) lineComment cs

/-! ## Line breaks -/

/-- What else the place of a line break allows: an operator of a condition, or the end of a
signature without a body. -/
structure BreakContext where
  allowsOperator : Bool
  allowsSignatureEnd : Bool

/-- Whether a line break ends a statement, and where the look ahead came to. -/
structure BreakVerdict where
  ends : Bool
  lineComment : Bool
  rest : List Char

/-- Whether the word `in` or `instanceof` stands there; it goes on with an expression. -/
def startsRelation (cs : List Char) : Bool :=
  match cs with
  | 'i' :: 'n' :: rest =>
    !rest.head?.any Char.isAlpha ||
      match Text.dropLead? "stanceof".toList rest with
      | some rest => !rest.head?.any Char.isAlpha
      | none => false
  | _ => false

/-- Whether what follows a line break cannot go on with the statement before it. -/
def startsStatement (context : BreakContext) (cs : List Char) : Bool :=
  match cs with
  | [] => true
  | c :: rest =>
    if "\x60,.;*%><=?^|&/:".toList.contains c then false
    else if c == '\x7b' then !context.allowsSignatureEnd
    else if c == '(' || c == '[' then !context.allowsOperator
    else if c == '+' || c == '-' then rest.head? == some c
    else if c == '!' then rest.head? != some '='
    else !startsRelation (c :: rest)

/-- Where the look ahead behind a line break comes to. -/
def behindStart (cs : List Char) : List Char :=
  match cs with
  | c :: rest =>
    if c == '+' || c == '-' || c == '!' then rest
    else if startsRelation cs then cs.dropWhile Char.isAlpha
    else cs
  | [] => []

/-- Whether a statement ends here: at the end of the text, before a closing brace, or at a line
break that what follows cannot go on from. A brace before a colon closes a pattern with a type. -/
def endsStatement (context : BreakContext) : List Char → BreakVerdict
  | [] => ⟨true, false, []⟩
  | c :: cs =>
    if c == '\x00' then ⟨true, false, cs⟩
    else if c == '\x7d' then
      let rest := cs.dropWhile isBasicBlank
      ⟨rest.head? != some ':' || context.allowsOperator, false, rest⟩
    else if !isBasicBlank c then ⟨false, false, c :: cs⟩
    else if c == '\n' then
      let gap := passGap .blank false cs
      if gap.atSlash then ⟨false, gap.lineComment, gap.rest⟩
      else ⟨startsStatement context gap.rest, gap.lineComment, behindStart gap.rest⟩
    else endsStatement context cs

/-! ## Conditions -/

/-- The sign of a conditional expression: how many blanks stand before it, and what follows it. -/
def conditionSign? (cs : List Char) : Option (Nat × List Char) :=
  let blanks := countWhile isBasicBlank cs
  match cs.drop blanks with
  | '?' :: rest =>
    if rest.head? == some '?' then none
    else match rest.dropWhile isBasicBlank with
      | ':' :: _ => none
      | ')' :: _ => none
      | ',' :: _ => none
      | '.' :: after => if after.head?.any Char.isDigit then some (blanks, rest) else none
      | _ => some (blanks, rest)
  | _ => none

/-! ## Comments of markup -/

/-- Whether a character ends the line of a comment of markup. -/
def endsMarkupComment (c : Char) : Bool :=
  c == '\n' || c == '\u2028' || c == '\u2029' || c == '\x00'

/-- A comment of markup to the end of its line: how many blanks stand before it, and its length. -/
def markupComment? (cs : List Char) : Option (Nat × Nat) :=
  let blanks := countWhile (fun c => isBasicBlank c || c == '\u2028' || c == '\u2029') cs
  let rest := cs.drop blanks
  if "<!--".toList.isPrefixOf rest || "-->".toList.isPrefixOf rest then
    some (blanks, countWhile (!endsMarkupComment ·) rest)
  else none

end DecoratedApi.Source
