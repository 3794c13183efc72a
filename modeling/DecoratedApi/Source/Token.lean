import DecoratedApi.Grammar.Rule

/-!
# Tokens of a source text

Most tokens are words and signs that stand for themselves. The others are classes of texts, such as
names and numbers, and marks that have no text of their own: the end of a statement at a line break
is a token too.
-/

namespace DecoratedApi.Source

inductive Token
  /-- The end of the text. -/
  | finish
  | name
  /-- A word or a sign that is written as it stands. -/
  | literal (text : String)
  /-- A first line that names a program to run. -/
  | runLine
  | comment
  | number
  | privateName
  | doubleFragment
  | singleFragment
  | escape
  | templateText
  | regexBody
  | regexEnd
  | regexFlags
  /-- A name in markup with a hyphen in it. -/
  | markupName
  | markupText
  | markupComment
  | entity
  | doubleMarkupFragment
  | singleMarkupFragment
  /-- A line break that ends a statement. -/
  | lineEnd
  /-- A line break that ends a signature without a body. -/
  | signatureEnd
  /-- The sign between the condition and the values of a conditional expression. -/
  | question
deriving DecidableEq, Hashable, Repr

namespace Token

/-- The words that are values or places of their own, and so show like a phrase. -/
def valueWords : List String := ["this", "super", "true", "false", "null", "undefined"]

/-- The kind of the node that a token shows as; none when it does not show. -/
def kind? : Token → Option String
  | finish => none
  | name => some "identifier"
  | literal text => some text
  | runLine => some "hash_bang_line"
  | comment => some "comment"
  | number => some "number"
  | privateName => some "private_property_identifier"
  | doubleFragment => some "string_fragment"
  | singleFragment => some "string_fragment"
  | escape => some "escape_sequence"
  | templateText => none
  | regexBody => some "regex_pattern"
  | regexEnd => some "/"
  | regexFlags => some "regex_flags"
  | markupName => some "identifier"
  | markupText => some "jsx_text"
  | markupComment => some "html_comment"
  | entity => some "html_character_reference"
  | doubleMarkupFragment => some "string_fragment"
  | singleMarkupFragment => some "string_fragment"
  | lineEnd => none
  | signatureEnd => none
  | question => some "?"

/-- Whether the node of a token counts as a part of its phrase, and not only as its punctuation. -/
def isNamed : Token → Bool
  | literal text => valueWords.contains text
  | regexEnd => false
  | question => false
  | _ => true

end Token

/-- A text stands for the token that is written so. -/
instance : Coe String (Grammar.Rule Token) := ⟨fun text => .token (.literal text)⟩

end DecoratedApi.Source
