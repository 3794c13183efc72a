import DecoratedApi.Yaml.BlockText
import DecoratedApi.Yaml.Plain
import DecoratedApi.Yaml.Quoted
import DecoratedApi.Yaml.Token

/-!
# Cutting a text into tokens

Outside of brackets the column of a token says to which list or mapping it belongs. That a text is a
key shows only at the colon behind it; so each place where a key may start is remembered, and the
tokens that open the key are put there when the colon comes.
-/

namespace DecoratedApi.Yaml

/-- A place where a key may start. It is required when nothing but a key can stand there. -/
structure KeyStart where
  required : Bool
  token : Nat
  index : Nat
  line : Nat
  column : Nat

/-- Whether a key that starts here can still end: it takes one line and at most 1024 characters. -/
def KeyStart.canEnd (p : Place) (k : KeyStart) : Bool :=
  k.line == p.line && p.index ≤ k.index + 1024

/-- The state of the cutting. `keys` has an entry for each pair of open brackets and one for what is
outside of them, the innermost first. `indent` is the column of the innermost list or mapping in
lines, `-1` outside of all, and `outer` are those around it. -/
structure Cutting where
  place : Place
  tokens : Array Token
  indent : Int
  outer : List Int
  keys : List (Option KeyStart)
  keyAllowed : Bool

namespace Cutting

def start (cs : List Char) : Cutting := ⟨⟨cs, 0, 0, 0⟩, #[], -1, [], [none], true⟩

/-- Whether brackets are open. -/
def bracketed (c : Cutting) : Bool := 1 < c.keys.length

def push (c : Cutting) (t : Token) : Cutting := { c with tokens := c.tokens.push t }

/-- Adds a token and goes on behind it. -/
def take (c : Cutting) (t : Token) (length : Nat) : Cutting :=
  { c.push t with place := c.place.skip length }

/-- Adds a token and goes on where only `rest` is left. -/
def takeTo (c : Cutting) (t : Token) (rest : List Char) : Cutting :=
  { c.push t with place := c.place.goTo rest }

/-! ## Blanks -/

/-- Passes the blanks of a line and a comment. A tab may stand only where no key can start. A mark
of the byte order may start a line. -/
def passLine (tabs : Bool) (p : Place) : Place :=
  let p := if p.column == 0 && p.rest.head? == some '\uFEFF' then p.skip 1 else p
  let p := p.goTo (p.rest.dropWhile fun c => c == ' ' || (tabs && c == '\t'))
  if p.rest.head? == some '#' then p.goTo (p.rest.dropWhile (!endsLine ·)) else p

/-- Passes blanks, comments and line breaks. Outside of brackets a key may start on a new line. -/
def passBlanks : (fuel : Nat) → Cutting → Cutting
  | 0, c => c
  | fuel + 1, c =>
    let p := passLine (c.bracketed || !c.keyAllowed) c.place
    if p.rest.head?.any endsLine then
      passBlanks fuel { c with place := p.skip 1, keyAllowed := c.keyAllowed || !c.bracketed }
    else { c with place := p }

/-! ## Keys -/

/-- Forgets the keys that can no longer end. None when one of them is required. -/
def forgetStale (c : Cutting) : Option Cutting := do
  let keys ← c.keys.mapM fun key =>
    match key with
    | none => some none
    | some k => if k.canEnd c.place then some (some k) else if k.required then none else some none
  return { c with keys }

/-- Forgets the key between the innermost brackets. None when it is required. -/
def forgetKey (c : Cutting) : Option Cutting :=
  match c.keys with
  | some k :: rest => if k.required then none else some { c with keys := none :: rest }
  | _ => some c

/-- Remembers that a key may start here. -/
def saveKey (c : Cutting) : Option Cutting :=
  if c.keyAllowed then do
    let c ← c.forgetKey
    let p := c.place
    let key : KeyStart := {
      required := !c.bracketed && c.indent == (p.column : Int)
      token := c.tokens.size, index := p.index, line := p.line, column := p.column }
    return { c with keys := some key :: c.keys.drop 1 }
  else some c

/-- Says whether a key may start next. -/
def allow (c : Cutting) (keyAllowed : Bool) : Cutting := { c with keyAllowed }

/-! ## Indentation -/

/-- Opens a list or a mapping in lines, unless one is open in this column. Its token stands at a
place among the tokens. -/
def indentTo (c : Cutting) (column : Nat) (place : Nat) (t : Token) : Cutting :=
  if !c.bracketed && c.indent < (column : Int) then
    { c with
      indent := column, outer := c.indent :: c.outer
      tokens := c.tokens.insertIdxIfInBounds place t }
  else c

/-- Closes the lists and mappings that stand further right. -/
def closeTo (column : Int) : (outer : List Int) → Cutting → Cutting
  | [], c => c
  | previous :: outer, c =>
    if column < c.indent then
      closeTo column outer { c.push .blockEnd with indent := previous, outer }
    else c

/-- Closes the lists and mappings that stand right of a column. Between brackets columns do not
count. -/
def unindent (c : Cutting) (column : Int) : Cutting :=
  if c.bracketed then c else closeTo column c.outer c

/-! ## Tokens of several kinds -/

/-- A directive or a mark between documents ends all lists and mappings. -/
def endAll (c : Cutting) : Option Cutting := do
  return (← (c.unindent (-1)).forgetKey).allow false

def takeDirective (c : Cutting) : Option Cutting := do
  let c ← c.endAll
  let (t, rest) ← directive? (c.place.rest.drop 1)
  return c.takeTo t (← restOfLine? rest)

def takeMark (c : Cutting) (t : Token) : Option Cutting := do
  return (← c.endAll).take t 3

/-- Takes an opening bracket, which may start a key. -/
def takeOpening (c : Cutting) (t : Token) : Option Cutting := do
  let c ← c.saveKey
  return ({ c with keys := none :: c.keys }.allow true).take t 1

def takeClosing (c : Cutting) (t : Token) : Option Cutting := do
  let c ← c.forgetKey
  let keys := if c.bracketed then c.keys.drop 1 else c.keys
  return ({ c with keys }.allow false).take t 1

def takeComma (c : Cutting) : Option Cutting := do
  return ((← c.forgetKey).allow true).take .comma 1

def takeDash (c : Cutting) : Option Cutting := do
  guard (c.bracketed || c.keyAllowed)
  let c ← (c.indentTo c.place.column c.tokens.size .listStart).forgetKey
  return (c.allow true).take .dash 1

/-- Takes the question mark before a key. -/
def takeKey (c : Cutting) : Option Cutting := do
  guard (c.bracketed || c.keyAllowed)
  let c ← (c.indentTo c.place.column c.tokens.size .mappingStart).forgetKey
  return (c.allow (!c.bracketed)).take .key 1

/-- Takes the colon before a value. A key that is remembered is opened where it starts. -/
def takeColon (c : Cutting) : Option Cutting :=
  match c.keys with
  | some k :: rest =>
    let c := { c with tokens := c.tokens.insertIdxIfInBounds k.token .key, keys := none :: rest }
    some (((c.indentTo k.column k.token .mappingStart).allow false).take .value 1)
  | _ => do
    guard (c.bracketed || c.keyAllowed)
    let c := c.indentTo c.place.column c.tokens.size .mappingStart
    return (c.allow (!c.bracketed)).take .value 1

/-- Takes a token that may start a key, given with what follows it. -/
def takeStarting (c : Cutting) (read : Option (Token × List Char)) : Option Cutting := do
  let c ← c.saveKey
  let (t, rest) ← read
  return (c.allow false).takeTo t rest

/-- Takes a plain text. Behind a line break a key may start. -/
def takePlain (c : Cutting) : Option Cutting := do
  let c ← c.saveKey
  let p ← plainTail ⟨c.bracketed, (c.indent + 1).toNat, .blanks [], c.place.column, []⟩ c.place.rest
  return (c.allow p.broken).takeTo (.text p.text true) p.rest

def takeBlock (c : Cutting) (literal : Bool) : Option Cutting := do
  let c ← c.forgetKey
  let (text, rest) ← blockText? literal c.indent (c.place.rest.drop 1)
  return (c.allow true).takeTo (.text text false) rest

/-! ## All tokens -/

/-- A label or the use of one. -/
def labelToken? (make : String → Token) (cs : List Char) : Option (Token × List Char) :=
  (labelName? cs).map fun (name, rest) => (make name, rest)

def quotedToken? (quote : Char) (cs : List Char) : Option (Token × List Char) :=
  (quotedTail quote .start cs).map fun (text, rest) => (.text text false, rest)

/-- Takes the token that starts with a character. -/
def takeToken (c : Cutting) (first : Char) (rest : List Char) : Option Cutting :=
  let bracketed := c.bracketed
  match first with
  | '[' => c.takeOpening .openBracket
  | '\x7b' => c.takeOpening .openBrace
  | ']' => c.takeClosing .closeBracket
  | '\x7d' => c.takeClosing .closeBrace
  | ',' => c.takeComma
  | '*' => c.takeStarting (labelToken? .use rest)
  | '&' => c.takeStarting (labelToken? .label rest)
  | '!' => c.takeStarting (readTag? bracketed (first :: rest))
  | '\x27' => c.takeStarting (quotedToken? first rest)
  | '"' => c.takeStarting (quotedToken? first rest)
  | _ =>
    if first == '-' && endsWord rest then c.takeDash
    else if first == '?' && (bracketed || endsWord rest) then c.takeKey
    else if first == ':' && (bracketed || endsWord rest) then c.takeColon
    else if first == '|' && !bracketed then c.takeBlock true
    else if first == '>' && !bracketed then c.takeBlock false
    else if startsPlain bracketed (first :: rest) then c.takePlain
    else none

/-- Takes the next token. At the start of a line it may be a directive or a mark between
documents. -/
def takeNext (c : Cutting) (first : Char) (rest : List Char) : Option Cutting :=
  if c.place.column == 0 && first == '%' then c.takeDirective
  else if c.place.column == 0 && atMark (first :: rest) then
    c.takeMark (if first == '-' then .documentStart else .documentEnd)
  else c.takeToken first rest

def takeAll : (fuel : Nat) → Cutting → Option (Array Token)
  | 0, _ => none
  | fuel + 1, c => do
    let c ← (c.passBlanks (c.place.rest.length + 1)).forgetStale
    let c := c.unindent c.place.column
    match c.place.rest with
    | [] => return (← c.endAll).tokens
    | first :: rest => takeAll fuel (← c.takeNext first rest)

end Cutting

/-- The tokens of a text; none when it cannot be cut. -/
def tokensOf? (text : String) : Option (List Token) := do
  guard (text.toList.all isAllowed)
  let cs := unifyBreaks text.toList
  let tokens ← (Cutting.start cs).takeAll (cs.length + 1)
  return tokens.toList

end DecoratedApi.Yaml
