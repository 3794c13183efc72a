import DecoratedApi.Yaml.Place

/-!
# Blocks of lines

A block holds lines that are indented alike. Behind the sign that opens it there may be its
indentation and what becomes of the line breaks at its end. Breaks are kept, or folded so that lines
which are not indented further are joined by a blank.
-/

namespace DecoratedApi.Yaml

/-- What becomes of the line breaks at the end of a block. -/
inductive Chomp
  | clip
  | strip
  | keep
deriving DecidableEq

/-- The marks behind the sign of a block: its indentation, when it is given, and the chomping. -/
structure BlockHeader where
  indent : Option Nat
  chomp : Chomp

def chompMark (cs : List Char) : Chomp × List Char :=
  match cs with
  | '+' :: rest => (.keep, rest)
  | '-' :: rest => (.strip, rest)
  | _ => (.clip, cs)

/-- The mark for the indentation, if it stands there. It may not be zero. -/
def indentMark? (cs : List Char) : Option (Option Nat × List Char) :=
  match cs with
  | c :: rest =>
    if c == '0' then none
    else if c.isDigit then some (some (c.toNat - '0'.toNat), rest)
    else some (none, cs)
  | [] => some (none, [])

/-- The marks behind the sign of a block, in either order. -/
def blockHeader? (cs : List Char) : Option (BlockHeader × List Char) := do
  match chompMark cs with
  | (.clip, _) =>
    let (indent, rest) ← indentMark? cs
    let (chomp, rest) := if indent.isSome then chompMark rest else (.clip, rest)
    return (⟨indent, chomp⟩, rest)
  | (chomp, rest) =>
    let (indent, rest) ← indentMark? rest
    return (⟨indent, chomp⟩, rest)

/-- What follows a line that may hold blanks and a comment. -/
def restOfLine? (cs : List Char) : Option (List Char) :=
  let rest := cs.dropWhile isSpace
  let rest := if rest.head? == some '#' then rest.dropWhile (!endsLine ·) else rest
  match rest with
  | [] => some []
  | c :: behind => if endsLine c then some behind else none

/-! ## Lines -/

/-- A line and the break behind it; none at the end of the text. -/
structure Line where
  text : List Char
  ending : Option Char

def linesOf : List Char → List Line
  | [] => [⟨[], none⟩]
  | c :: cs =>
    if endsLine c then ⟨[], some c⟩ :: linesOf cs
    else match linesOf cs with
      | [] => [⟨[c], none⟩]
      | l :: rest => { l with text := c :: l.text } :: rest

def joinedLines (lines : List Line) : List Char :=
  lines.flatMap fun l => l.text ++ l.ending.toList

/-- The number of blanks at the start of a line. -/
def indentOf (line : List Char) : Nat := (line.takeWhile (· == ' ')).length

/-- The indentation that the first lines of a block give: the widest of them counts, up to the first
one that is not empty. None where a tab indents that one. -/
def foundIndent? (widest : Nat) : List Line → Option Nat
  | [] => some widest
  | l :: rest =>
    let indent := indentOf l.text
    let widest := max widest indent
    match l.text.drop indent, l.ending with
    | [], some _ => foundIndent? widest rest
    | [], none => some widest
    | c :: _, _ => if c == '\t' then none else some widest

/-- What has been read of a block: the text in reverse order, the break behind its last line, the
further breaks in reverse order, and whether the last line was indented further. -/
structure BlockPart where
  text : List Char
  last : Option Char
  more : List Char
  further : Bool

namespace BlockPart

/-- Adds a line. When folded, a single break before it becomes a blank unless one of the two lines
is indented further. -/
def add (literal : Bool) (p : BlockPart) (line : List Char) (ending : Option Char) : BlockPart :=
  let further := line.head?.any isSpace
  let lead : List Char :=
    if !literal && p.last == some '\n' && !p.further && !further then
      if p.more.isEmpty then [' '] else []
    else p.last.toList
  ⟨line.reverse ++ p.more ++ lead ++ p.text, ending, [], further⟩

def finish (chomp : Chomp) (p : BlockPart) : String :=
  String.ofList <| match chomp with
    | .strip => p.text.reverse
    | .clip => p.text.reverse ++ p.last.toList
    | .keep => p.text.reverse ++ p.last.toList ++ p.more.reverse

end BlockPart

/-- Reads the lines of a block, and gives the lines behind it. None where a tab stands in the
indentation. -/
def blockLines (literal : Bool) (indent : Nat) (p : BlockPart) :
    List Line → Option (BlockPart × List Line)
  | [] => some (p, [])
  | l :: rest =>
    let own := min indent (indentOf l.text)
    match l.text.drop own, l.ending with
    | [], some c => blockLines literal indent { p with more := c :: p.more } rest
    | [], none => some (p, [])
    | c :: cs, ending =>
      if own < indent then if c == '\t' then none else some (p, l :: rest)
      else blockLines literal indent (p.add literal (c :: cs) ending) rest

/-- Reads a block behind its sign, inside something that is indented by `outer`. Gives its text and
what follows it. -/
def blockText? (literal : Bool) (outer : Int) (cs : List Char) : Option (String × List Char) := do
  let (header, rest) ← blockHeader? cs
  let lines := linesOf (← restOfLine? rest)
  let indent ← match header.indent with
    | some n => some (max outer 0 + n).toNat
    | none => (foundIndent? 0 lines).map fun found => max (max found (outer + 1).toNat) 1
  let (p, behind) ← blockLines literal indent ⟨[], none, [], false⟩ lines
  return (p.finish header.chomp, joinedLines behind)

end DecoratedApi.Yaml
