import DecoratedApi.Grammar.Production

/-!
# Parse trees

A tree has a leaf for each token and a branch for each phrase, hidden ones included. Extra tokens
are leaves too, at the place where they were found. A branch keeps how its children show and what it
weighs with them.
-/

namespace DecoratedApi.Grammar

/-- A parse tree over a part of a text. -/
inductive Tree
  | leaf (symbol start stop : Nat) (extra : Bool)
  | branch (symbol : Nat) (guises : List Guise) (children : List Tree) (start stop : Nat)
      (weight : Int)
deriving Inhabited

namespace Tree

def symbol : Tree → Nat
  | leaf s _ _ _ => s
  | branch s _ _ _ _ _ => s

def start : Tree → Nat
  | leaf _ start _ _ => start
  | branch _ _ _ start _ _ => start

def stop : Tree → Nat
  | leaf _ _ stop _ => stop
  | branch _ _ _ _ stop _ => stop

def isExtra : Tree → Bool
  | leaf _ _ _ extra => extra
  | branch .. => false

def weight : Tree → Int
  | leaf .. => 0
  | branch _ _ _ _ _ weight => weight

def children : Tree → List Tree
  | leaf .. => []
  | branch _ _ children _ _ _ => children

/-- The branch over the given children. One without children stands at `place`. -/
def join (symbol : Nat) (guises : List Guise) (place : Nat) (weight : Int) (children : List Tree) :
    Tree :=
  branch symbol guises children ((children.head?.map start).getD place)
    ((children.getLast?.map stop).getD place) (children.foldl (fun w c => w + c.weight) weight)

/-- Whether two trees are taken for the same one from outside: they read the same part of the text
as the same symbol, with as many children. -/
def alike (a b : Tree) : Bool :=
  a.symbol == b.symbol && a.start == b.start && a.stop == b.stop && a.isExtra == b.isExtra &&
    a.children.length == b.children.length

mutual

/-- The order of trees: by symbol, then by the number of children, then by the children in turn. -/
def order : Tree → Tree → Ordering
  | leaf s _ _ _, t => (compare s t.symbol).then (compare 0 t.children.length)
  | branch s _ cs _ _ _, t =>
    ((compare s t.symbol).then (compare cs.length t.children.length)).then (orderAll cs t.children)

/-- The order of lists of trees of one length. -/
def orderAll : List Tree → List Tree → Ordering
  | c :: cs, d :: ds => (order c d).then (orderAll cs ds)
  | _, _ => .eq

end

/-- Whether the second of two readings of the same text is the better one: it is heavier, or weighs
the same and comes first in order. -/
def yields (a b : Tree) : Bool :=
  a.weight < b.weight || (a.weight == b.weight && a.order b == .gt)

end Tree
end DecoratedApi.Grammar
