/-!
# Rules of a grammar

A grammar names its phrases and says how each is put together from tokens and from other phrases.
Where two readings of a text compete, the rules say which one is preferred: a rule may hold its
parts at a level, lean to a side, and weigh a finished reading.

The type of tokens is a parameter. Nothing here knows how a text is cut into tokens.
-/

namespace DecoratedApi.Grammar

/-- How tightly a rule holds its parts: by a number, or by a level that the grammar orders. -/
inductive Level
  | number (n : Int)
  | named (name : String)
deriving DecidableEq, Hashable, Repr

instance : Inhabited Level := ⟨.number 0⟩

/-- The side to which a rule leans when it competes with one of the same level. -/
inductive Side
  | left
  | right
deriving DecidableEq, Hashable, Repr

/-- How a phrase is put together. -/
inductive Rule (τ : Type)
  | nothing
  | token (t : τ)
  | phrase (name : String)
  | seq (parts : List (Rule τ))
  | choice (parts : List (Rule τ))
  /-- One or more. -/
  | many (part : Rule τ)
  /-- The part has a role in the phrase. -/
  | field (name : String) (part : Rule τ)
  /-- The part is shown as a node of another kind. -/
  | called (kind : String) (part : Rule τ)
  | held (level : Level) (side : Option Side) (part : Rule τ)
  /-- A finished reading weighs as much as its parts and this number. -/
  | weighed (weight : Int) (part : Rule τ)

namespace Rule

variable {τ : Type}

/-- The part may be missing. -/
def opt (part : Rule τ) : Rule τ := choice [part, nothing]

/-- The part may come any number of times. -/
def some (part : Rule τ) : Rule τ := opt (many part)

/-- One or more parts with separators between them. -/
def separated (separator part : Rule τ) : Rule τ := seq [part, some (seq [separator, part])]

/-- The rule holds its parts at a named level. -/
def level (name : String) (part : Rule τ) : Rule τ := held (.named name) none part

/-- The rule leans to the left at a named level. -/
def leftAt (level : String) (part : Rule τ) : Rule τ := held (.named level) (Option.some .left) part

/-- The rule leans to the right at a named level. -/
def rightAt (level : String) (part : Rule τ) : Rule τ :=
  held (.named level) (Option.some .right) part

def left (part : Rule τ) : Rule τ := held (.number 0) (Option.some .left) part

def right (part : Rule τ) : Rule τ := held (.number 0) (Option.some .right) part

end Rule

/-- How a phrase shows in a tree: as a node of its own, or only through its parts. A phrase that is
inlined is replaced by its parts before anything is read. -/
inductive Visibility
  | shown
  | hidden
  | inlined
deriving DecidableEq, Repr

/-- A phrase and how it is put together. The name of a shown phrase is the kind of its nodes. -/
structure Phrase (τ : Type) where
  name : String
  visibility : Visibility
  rule : Rule τ

namespace Phrase

variable {τ : Type}

def shown (name : String) (rule : Rule τ) : Phrase τ := ⟨name, .shown, rule⟩

def hidden (name : String) (rule : Rule τ) : Phrase τ := ⟨name, .hidden, rule⟩

def inlined (name : String) (rule : Rule τ) : Phrase τ := ⟨name, .inlined, rule⟩

end Phrase

/-- A member of an order of preference: all that is held at a level, or a phrase. -/
inductive Rank (π : Type)
  | level (name : String)
  | phrase (p : π)
deriving Repr

end Grammar

/-- A grammar. The first phrase is what a whole text is read as. Extra tokens may stand anywhere.
Tokens that depend on what is around them come last in the order of tokens. Each of the orders lists
what is preferred before what is not. -/
structure Grammar (τ : Type) where
  phrases : List (Grammar.Phrase τ)
  finish : τ
  word : τ
  extras : List τ
  contextual : List τ
  orders : List (List (Grammar.Rank String))

end DecoratedApi
