import DecoratedApi.Yaml.Place

/-!
# Plain texts

A text without quotes ends before a colon with a blank behind it, before a comment, and between
brackets before a sign that parts their contents. It may go on over lines that are indented enough.
-/

namespace DecoratedApi.Yaml

/-- The signs that part what stands between brackets. -/
def isBracketSign (c : Char) : Bool := [',', '[', ']', '\x7b', '\x7d'].contains c

/-- The signs with which no plain text starts. -/
def isOpeningSign (c : Char) : Bool :=
  isBracketSign c ||
    ['-', '?', ':', '#', '&', '*', '!', '|', '>', '\x27', '"', '%', '@', '\x60'].contains c

/-- Whether a plain text starts here. A dash, a question mark or a colon may start one when no blank
follows it; between brackets only a dash may. -/
def startsPlain (bracketed : Bool) (cs : List Char) : Bool :=
  match cs with
  | [] => false
  | c :: rest =>
    !(isSpace c || endsLine c || isOpeningSign c) ||
      (c == '-' && !rest.head?.any isSpace) ||
      (!bracketed && (c == '?' || c == ':') && !endsWord rest)

/-- Whether a plain text ends before this character. -/
def endsPlain (bracketed : Bool) (c : Char) (rest : List Char) : Bool :=
  (c == ':' && endsWord rest) || (bracketed && isBracketSign c)

/-- Whether a colon stands here that no plain text between brackets may hold. -/
def isStrayColon (bracketed : Bool) (c : Char) (rest : List Char) : Bool :=
  bracketed && c == ':' && rest.head?.any fun d => d == '?' || isBracketSign d

/-- What a plain text is read as: the text, whether a line break follows it, and what follows the
blanks behind it. -/
structure PlainText where
  text : String
  broken : Bool
  rest : List Char

/-- Where a scan stands in a plain text. Its further lines have to be indented by `indent`. -/
structure PlainPart where
  bracketed : Bool
  indent : Nat
  held : Held
  column : Nat
  text : List Char

namespace PlainPart

def finish (p : PlainPart) (rest : List Char) : PlainText :=
  ⟨String.ofList p.text.reverse, p.held.hasBreak, rest⟩

/-- Whether the text cannot go on with what comes behind blanks or line breaks. -/
def stopsAt (p : PlainPart) (c : Char) (rest : List Char) : Bool :=
  match p.held with
  | .blanks [] => false
  | .blanks _ => c == '#'
  | .breaks _ _ =>
    (!p.bracketed && p.column < p.indent) || (p.column == 0 && atMark (c :: rest)) || c == '#'

end PlainPart

/-- Reads a plain text. None where a tab indents a line too little, or a colon stands that may
not. -/
def plainTail (p : PlainPart) : List Char → Option PlainText
  | [] => some (p.finish [])
  | c :: cs =>
    if isSpace c then
      if p.held.hasBreak && p.column < p.indent && c == '\t' then none
      else plainTail { p with held := p.held.blank c, column := p.column + 1 } cs
    else if endsLine c then plainTail { p with held := p.held.lineBreak c, column := 0 } cs
    else if p.stopsAt c cs then some (p.finish (c :: cs))
    else if isStrayColon p.bracketed c cs then none
    else if endsPlain p.bracketed c cs then some (p.finish (c :: cs))
    else
      let text := c :: (p.held.release.reverse ++ p.text)
      plainTail { p with held := .blanks [], column := p.column + 1, text } cs

end DecoratedApi.Yaml
