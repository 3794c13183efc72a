import DecoratedApi.Grammar.Production

/-!
# Items

An item is a production with a place in it: some steps are passed, the others are to come. Two items
that differ only in which symbols were passed lead to the same readings, so they are one item.

The table of a grammar holds its items, the tokens with which each symbol can start, and which
phrases can stand at the start of which.
-/

namespace DecoratedApi.Grammar

variable {τ : Type}

/-! ## Sets of tokens -/

/-- A set of tokens, by their numbers. -/
abbrev TokenSet := Nat

namespace TokenSet

def single (t : Nat) : TokenSet := 1 <<< t

def has (s : TokenSet) (t : Nat) : Bool := s.testBit t

def union (s t : TokenSet) : TokenSet := s ||| t

end TokenSet

/-! ## Items -/

/-- A place in a production. `next` is the symbol to come and `following` the one behind it; `after`
is the item once `next` is passed. Level and side are those of the last step passed. -/
structure Item where
  phrase : Nat
  taken : Nat
  weight : Int
  level : Level
  side : Option Side
  guises : List Guise
  next : Option Nat
  following : Option Nat
  after : Nat
deriving Inhabited

/-- What tells items apart. -/
structure ItemKey where
  phrase : Nat
  weight : Int
  level : Level
  side : Option Side
  guises : List Guise
  coming : List Step
deriving BEq, Hashable

/-- The items found so far. -/
structure Items where
  all : Array Item
  known : Std.HashMap ItemKey Nat

/-- The number of an item, which is added if it is new. `passed` holds the guises of the steps
passed, the last one first. -/
def Items.add (phrase : Nat) (weight : Int) (last : Step) (passed : List Guise) (coming : List Step)
    (items : Items) : Nat × Items :=
  let key : ItemKey := ⟨phrase, weight, last.level, last.side, passed, coming⟩
  match items.known[key]? with
  | some i => (i, items)
  | none =>
    let item : Item := {
      phrase, weight, level := last.level, side := last.side, guises := passed.reverse
      taken := passed.length, next := none, following := none, after := 0 }
    match coming with
    | [] =>
      let i := items.all.size
      (i, ⟨items.all.push item, items.known.insert key i⟩)
    | step :: rest =>
      let (after, items) := items.add phrase weight step (step.guise :: passed) rest
      let item := { item with
        next := some step.symbol, following := rest.head?.map (·.symbol), after }
      let i := items.all.size
      (i, ⟨items.all.push item, items.known.insert key i⟩)

/-! ## What a phrase can start with -/

/-- The first symbols of productions and the symbols behind them. -/
def firstPairs (ps : List Production) : List (Nat × Option Nat) :=
  ps.filterMap fun p =>
    match p.steps with
    | [] => none
    | [s] => some (s.symbol, none)
    | s :: t :: _ => some (s.symbol, some t.symbol)

/-- The tokens that can start each symbol, improved once: those of a phrase are the ones of the
first symbols of its productions. -/
def improveFirst (tokens : Nat) (pairs : Array (List (Nat × Option Nat))) (first : Array TokenSet) :
    Array TokenSet :=
  (pairs.foldl (fun (place, first) ps =>
    (place + 1, first.modify (tokens + place) fun own =>
      ps.foldl (fun s p => s.union (first.getD p.1 0)) own)) (0, first)).2

def untilStable {α : Type} [BEq α] (step : α → α) : (fuel : Nat) → α → α
  | 0, a => a
  | fuel + 1, a =>
    let b := step a
    if a == b then a else untilStable step fuel b

/-- The tokens that can start each symbol. -/
def firstSets (tokens : Nat) (pairs : Array (List (Nat × Option Nat))) : Array TokenSet :=
  let start := (Array.range tokens).map TokenSet.single ++ Array.replicate pairs.size 0
  untilStable (improveFirst tokens pairs) (pairs.size + 1) start

/-- How a phrase stands at the start of another one: the tokens that can follow it there, and
whether it can reach to the end, so that what follows the outer phrase can follow it too. -/
structure Opening where
  ahead : TokenSet
  toEnd : Bool
deriving BEq, Inhabited

/-- Both ways to stand at a start. -/
def Opening.or (a b : Opening) : Opening := ⟨a.ahead.union b.ahead, a.toEnd || b.toEnd⟩

/-- For each phrase, the phrases with which one of its productions starts. -/
def directOpenings (tokens : Nat) (first : Array TokenSet) (pairs : List (Nat × Option Nat)) :
    List (Nat × Opening) :=
  pairs.foldl (fun known (symbol, behind) =>
    if symbol < tokens then known
    else
      let here : Opening := match behind with
        | none => ⟨0, true⟩
        | some b => ⟨first.getD b 0, false⟩
      let phrase := symbol - tokens
      match known.lookup phrase with
      | none => (phrase, here) :: known
      | some o => (phrase, o.or here) :: known.filter (·.1 != phrase)) []

/-- One step deeper: what stands at the start of a phrase that stands at the start. -/
def Opening.through (outer inner : Opening) : Opening :=
  if inner.toEnd then ⟨inner.ahead.union outer.ahead, outer.toEnd⟩ else inner

/-- All phrases that can stand at the start of one, starting from those known. `pending` are the
phrases whose own openings are to be followed. -/
def gatherOpenings (direct : Array (List (Nat × Opening))) :
    (fuel : Nat) → (pending : List Nat) → Array (Option Opening) → Array (Option Opening)
  | 0, _, found => found
  | _, [], found => found
  | fuel + 1, phrase :: pending, found =>
    match found.getD phrase none with
    | none => gatherOpenings direct fuel pending found
    | some outer =>
      let (pending, found) := (direct.getD phrase []).foldl (fun (pending, found) (inner, o) =>
        let here := outer.through o
        match found.getD inner none with
        | none => (inner :: pending, found.set! inner (some here))
        | some old =>
          let both := old.or here
          if both == old then (pending, found)
          else (inner :: pending, found.set! inner (some both)))
        (pending, found)
      gatherOpenings direct fuel pending found

/-! ## The table -/

/-- All that reading by a grammar needs to know. `starts` gives, for each symbol, the phrases that
have productions which start with it, with the items behind that symbol. `openings` gives, for each
phrase, the phrases that can stand at its start. -/
structure Table where
  tokens : Nat
  phrases : Array String
  visibility : Array Visibility
  items : Array Item
  first : Array TokenSet
  starts : Array (List (Nat × List Nat))
  openings : Array (Array (Option Opening))
  empties : List Nat
  extras : List Nat
  orders : List (List (Rank Nat))

/-- Adds a phrase's item to those behind one symbol. -/
def addStart (phrase item : Nat) : List (Nat × List Nat) → List (Nat × List Nat)
  | [] => [(phrase, [item])]
  | (p, items) :: rest =>
    if p = phrase then (p, if items.contains item then items else item :: items) :: rest
    else (p, items) :: addStart phrase item rest

/-- The item at the start of a whole text, behind which the text ends. -/
def Table.startItem (t : Table) : Nat := t.items.size - 1

def Table.of [BEq τ] [Hashable τ] (g : Grammar τ) : Table :=
  let n := Numbers.of g
  let tokens := n.tokens.size
  let productions := productionsOf g n
  let pairs := productions.map firstPairs
  let first := firstSets tokens pairs
  let symbols := tokens + productions.size
  let step (acc : Items × Array (List (Nat × List Nat))) (phrase : Nat) (p : Production) :
      Items × Array (List (Nat × List Nat)) :=
    match p.steps with
    | [] => acc
    | s :: rest =>
      let (item, items) := acc.1.add phrase p.weight s [s.guise] rest
      (items, acc.2.modify s.symbol (addStart phrase item))
  let (_, items, starts) := productions.foldl (fun (phrase, acc) ps =>
    (phrase + 1, ps.foldl (step · phrase) acc)) (0, ⟨#[], {}⟩, Array.replicate symbols [])
  let direct := pairs.map (directOpenings tokens first)
  let openings := (Array.range productions.size).map fun phrase =>
    gatherOpenings direct (productions.size * productions.size) [phrase]
      ((Array.replicate productions.size none).set! phrase (some ⟨0, true⟩))
  let whole : Step := { Step.outer with symbol := tokens }
  let (_, items) := items.add productions.size 0 .outer [] [whole]
  { tokens
    phrases := (g.phrases.map (·.name)).toArray
    visibility := (g.phrases.map (·.visibility)).toArray
    items := items.all
    first
    starts
    openings
    empties := (List.range productions.size).filter fun phrase =>
      (productions.getD phrase []).any (·.steps.isEmpty)
    extras := g.extras.map n.token
    orders := g.orders.map (·.map fun
      | .level name => .level name
      | .phrase name => .phrase (n.phrase name - tokens)) }

end DecoratedApi.Grammar
