import DecoratedApi.Grammar.Parse
import DecoratedApi.Source.Context
import DecoratedApi.Source.Token

/-!
# The next token

Which token comes next depends on the tokens that can come. Tokens that depend on what is around
them are tried first, then those that must follow without a blank. Of the others the longest one is
taken, and a word is a keyword only where that keyword can come.
-/

namespace DecoratedApi.Source

open Grammar

/-- The tokens of a grammar by their numbers, as the search for the next one needs them. -/
structure Lexicon where
  number : Token → Nat
  /-- The signs, the longer ones first. -/
  signs : List (List Char × Nat)
  words : Std.HashMap String Nat
  /-- The names and the keywords. -/
  wordSet : TokenSet

def Token.text? : Token → Option String
  | .literal text => some text
  | _ => none

def Lexicon.of (n : Numbers Token) : Lexicon :=
  let texts := n.tokens.toList.filterMap fun t => t.text?.map fun text => (text, n.token t)
  let isWord (text : String) : Bool := wordLength text.toList == text.length
  let words := texts.filter (isWord ·.1)
  { number := n.token
    signs := ((texts.filter (!isWord ·.1)).map fun (text, i) => (text.toList, i)).mergeSort
      fun a b => b.1.length ≤ a.1.length
    words := .ofList words
    wordSet := words.foldl (fun s w => s.union (.single w.2)) (.single 1) }

namespace Lexicon

/-- A token found behind some blanks. -/
def found (symbol position : Nat) (cs : List Char) (blanks length : Nat) : Lexeme :=
  ⟨symbol, position + blanks, position + blanks + length, cs.drop (blanks + length), false⟩

/-- The first token of a list that is allowed and starts right here. -/
def firstOf (l : Lexicon) (valid : TokenSet) (position : Nat) (cs : List Char) :
    List (Token × (List Char → Nat)) → Option Lexeme
  | [] => none
  | (token, length) :: rest =>
    if valid.has (l.number token) && length cs != 0 then
      some (found (l.number token) position cs 0 (length cs))
    else firstOf l valid position cs rest

/-! ## Contextual tokens -/

/-- The end of a statement or of a signature, or else the sign of a condition. -/
def lineEnd? (l : Lexicon) (valid : TokenSet) (position : Nat) (cs : List Char) : Option Lexeme :=
  let has (t : Token) : Bool := valid.has (l.number t)
  let verdict := endsStatement ⟨has (.literal "||"), has .signatureEnd⟩ cs
  if verdict.ends then
    some (found (l.number (if has .lineEnd then .lineEnd else .signatureEnd)) position cs 0 0)
  else if !verdict.lineComment && has .question then
    (conditionSign? verdict.rest).bind fun (blanks, _) =>
      if blanks == 0 then
        some (found (l.number .question) position cs (cs.length - verdict.rest.length) 1)
      else none
  else none

/-- A token that depends on what is around it. -/
def contextual? (l : Lexicon) (valid : TokenSet) (position : Nat) (cs : List Char) :
    Option Lexeme :=
  let has (t : Token) : Bool := valid.has (l.number t)
  if has .templateText then
    if has .lineEnd then none
    else match templateTail cs with
      | some (length + 1) => some (found (l.number .templateText) position cs 0 (length + 1))
      | _ => none
  else if has .markupText && markupTextLength cs != 0 then
    some (found (l.number .markupText) position cs 0 (markupTextLength cs))
  else if has .lineEnd || has .signatureEnd then l.lineEnd? valid position cs
  else if has .question then
    (conditionSign? cs).map fun (blanks, _) => found (l.number .question) position cs blanks 1
  else if has .markupComment && !has (.literal "||") && !has .escape && !has .regexBody then
    (markupComment? cs).map fun (blanks, length) =>
      found (l.number .markupComment) position cs blanks length
  else none

/-! ## Other tokens -/

/-- The tokens that no blank may stand before. -/
def immediate : List (Token × (List Char → Nat)) := [
  (.doubleFragment, fragmentLength '"'), (.singleFragment, fragmentLength '\x27'),
  (.doubleMarkupFragment, markupFragmentLength '"'),
  (.singleMarkupFragment, markupFragmentLength '\x27'),
  (.escape, escapeLength), (.regexBody, regexTail 0), (.regexEnd, textLength ['/'])]

/-- The classes of tokens that blanks may stand before. -/
def classes : List (Token × (List Char → Nat)) := [
  (.comment, commentLength), (.runLine, runLineLength), (.entity, entityLength),
  (.markupName, markupNameLength), (.number, numberLength), (.privateName, privateLength)]

/-- The longest of some tokens, and the first one of those as long. -/
def longest (found : List (Nat × Nat)) : Nat × Nat :=
  found.foldl (fun best t => if best.2 < t.2 then t else best) (0, 0)

/-- The word at the start of the characters: a keyword where that can come, and else a name. -/
def wordToken (l : Lexicon) (valid : TokenSet) (word : String) : Nat :=
  match l.words[word]? with
  | some k => if valid.has k then k else 1
  | none => 1

/-- The next token, blanks skipped. -/
def plain? (l : Lexicon) (valid : TokenSet) (position : Nat) (cs : List Char) : Option Lexeme :=
  let flags := if valid.has (l.number .regexFlags) then
    [(l.number .regexFlags, countWhile Char.isLower cs)] else []
  let blanks := countWhile isGapBlank cs
  let rest := cs.drop blanks
  if rest.isEmpty then some (found 0 position cs blanks 0)
  else
    let ofClass := classes.filterMap fun (token, length) =>
      if valid.has (l.number token) then some (l.number token, length rest) else none
    let signs := l.signs.filterMap fun (text, symbol) =>
      if valid.has symbol then some (symbol, textLength text rest) else none
    let best := longest (flags ++ ofClass ++ signs)
    let word := wordLength rest
    if best.2 < word && valid &&& l.wordSet != 0 then
      let text := String.ofList (rest.take word)
      some { found (l.wordToken valid text) position cs blanks word with isWord := true }
    else if best.2 == 0 then none
    else some (found best.1 position cs blanks best.2)

/-- The next token of those allowed. -/
def scan (l : Lexicon) : Scanner := fun valid position cs =>
  (l.contextual? valid position cs).orElse fun _ =>
    (l.firstOf valid position cs immediate).orElse fun _ => l.plain? valid position cs

end Lexicon
end DecoratedApi.Source
