import DecoratedApi.Grammar.Stack

/-!
# Reading a text

A text is read token by token. Where more than one action is possible the reading splits into heads,
each with a stack. Heads that come to the same state at the same place are joined again, and of two
trees for the same text the better one is kept. A head at which no action is possible is dropped as
soon as another one can go on.

The scanner is asked for the next token with the set of tokens that the state allows.
-/

namespace DecoratedApi.Grammar

/-- A token in the text. `rest` is the text behind it. A word that could be a plain name is
marked. -/
structure Lexeme where
  symbol : Nat
  start : Nat
  stop : Nat
  rest : List Char
  isWord : Bool

/-- Finds the next token of a text, of those allowed. The number is the place of the text. -/
abbrev Scanner := TokenSet → Nat → List Char → Option Lexeme

/-- Whether a head can go on. -/
inductive Status
  | active
  | stuck
  | done
deriving DecidableEq

/-- A branch of the reading: the top of its stack, and the text that is left. -/
structure Head where
  frame : Nat
  rest : List Char
  status : Status

/-- The state of a reading. -/
structure Run where
  stack : Stack
  heads : Array Head
  result : Option Tree

namespace Run

/-- So many heads are kept from one token to the next. -/
def headLimit : Nat := 6

/-- So many more may come up in between. -/
def headReserve : Nat := 4

def top? (run : Run) (head : Nat) : Option Frame :=
  match run.heads[head]? with
  | none => none
  | some h => run.stack[h.frame]?

def canJoin (run : Run) (a b : Head) : Bool :=
  a.status == .active && b.status == .active && run.stack.canJoin a.frame b.frame

def setStatus (run : Run) (head : Nat) (status : Status) : Run :=
  { run with heads := run.heads.modify head ({ · with status }) }

/-- Puts a token on a head. -/
def shift (run : Run) (head : Nat) (look : Lexeme) (extra : Bool) (state : State) : Run :=
  match run.heads[head]? with
  | none => run
  | some h =>
    let (frame, stack) :=
      run.stack.push h.frame (.leaf look.symbol look.start look.stop extra) state
    { run with stack, heads := run.heads.set! head { h with frame, rest := look.rest } }

/-! ## Finishing a phrase -/

/-- Parts off the stack, and the extra tokens behind the last of them. -/
def splitExtras (trees : List Tree) : List Tree × List Tree :=
  let extras := (trees.reverse.takeWhile (·.isExtra)).reverse
  (trees.take (trees.length - extras.length), extras)

/-- The best tree of a phrase over one of the given lists of parts, and the extra tokens behind
it. -/
def bestOf (t : Table) (r : Reduction) (place : Nat) (ways : List (List Tree)) :
    Option (Tree × List Tree) :=
  ways.foldl (fun best trees =>
    let (parts, extras) := splitExtras trees
    let tree := Tree.join (t.tokens + r.phrase) r.guises place r.weight parts
    match best with
    | none => some (tree, extras)
    | some (old, _) => if old.yields tree then some (tree, extras) else best) none

/-- The first head that can be joined with the given one, the head itself apart. -/
def partner? (run : Run) (apart : Nat) (h : Head) : Option Nat :=
  (List.range run.heads.size).find? fun j =>
    j != apart && (run.heads[j]?.any (run.canJoin · h))

/-- Adds a head that comes out of another one, or joins it with one that is there. -/
def addHead (run : Run) (apart : Nat) (h : Head) : Run :=
  match run.partner? apart h with
  | some j =>
    match run.heads[j]? with
    | some other => { run with stack := run.stack.join other.frame h.frame }
    | none => run
  | none => { run with heads := run.heads.push h }

/-- Finishes a phrase at a head. Each way down the stack gives a new head, which is joined with one
that is there or added behind them. Gives the first head that was added. -/
def reduce (t : Table) (run : Run) (head : Nat) (r : Reduction) : Run × Option Nat :=
  match run.heads[head]? with
  | none => (run, none)
  | some h =>
    let groups := Stack.groupByFrame (run.stack.waysDown h.frame r.taken)
    let after := groups.foldl (fun run (base, ways) =>
      if headLimit + headReserve < run.heads.size then run
      else match run.stack[base]? with
        | none => run
        | some f =>
          match bestOf t r f.position ways, t.next f.state (t.tokens + r.phrase) with
          | some (tree, extras), some state =>
            let (frame, stack) := run.stack.push base tree state
            let (frame, stack) := extras.foldl (fun (frame, stack) extra =>
              Stack.push stack frame extra state) (frame, stack)
            { run with stack }.addHead head ⟨frame, h.rest, .active⟩
          | _, _ => run) run
    (after, if run.heads.size < after.heads.size then some run.heads.size else none)

/-! ## One token at one head -/

/-- A tree for the whole text: the extra tokens around a phrase become children of it. -/
def wholeTree (trees : List Tree) : Option Tree :=
  let (parts, behind) := splitExtras trees
  match parts.getLast? with
  | some (.branch symbol guises children _ _ weight) =>
    some (.join symbol guises 0 (weight - (children.foldl (fun w c => w + c.weight) 0))
      (parts.dropLast ++ children ++ behind))
  | _ => none

/-- Ends a head at the end of the text. The best tree so far is kept. -/
def accept (run : Run) (head : Nat) : Run :=
  match run.heads[head]? with
  | none => run
  | some h =>
    let trees := (run.stack.waysToBottom h.frame).filterMap (wholeTree ·.trees)
    let result := trees.foldl (fun best tree =>
      match best with
      | none => some tree
      | some old => if Tree.yields old tree then some tree else best) run.result
    { run with result }.setStatus head .done

/-- What came of some actions: the token was passed, or the last finished phrase gave a new head. -/
inductive Outcome
  | passed
  | finished (head : Option Nat)

def takeActions (t : Table) (head : Nat) (look : Lexeme) :
    List Action → Run → Option Nat → Run × Outcome
  | [], run, last => (run, .finished last)
  | .accept :: _, run, _ => (run.accept head, .passed)
  | .shift state :: _, run, _ => (run.shift head look false state, .passed)
  | .skip :: _, run, _ =>
    match run.top? head with
    | some f => (run.shift head look true f.state, .passed)
    | none => (run, .passed)
  | .reduce r :: rest, run, last =>
    let (run, new) := run.reduce t head r
    takeActions t head look rest run (new.or last)

/-- Puts a later head in the place of an earlier one. -/
def moveHead (run : Run) (place later : Nat) : Run :=
  match run.heads[later]? with
  | none => run
  | some h => { run with heads := (run.heads.set! place h).eraseIdxIfInBounds later }

/-- Finishes phrases at a head until the token is passed. A keyword that cannot come there is read
as a plain word where that can. -/
def passToken (t : Table) (head : Nat) : (fuel : Nat) → Lexeme → Run → Run
  | 0, _, run => run.setStatus head .stuck
  | fuel + 1, look, run =>
    match run.top? head with
    | none => run
    | some f =>
      match takeActions t head look (t.actions f.state look.symbol) run none with
      | (run, .passed) => run
      | (run, .finished (some new)) => passToken t head fuel look (run.moveHead head new)
      | (run, .finished none) =>
        if look.isWord && look.symbol != 1 && !(t.actions f.state 1).isEmpty then
          passToken t head fuel { look with symbol := 1 } run
        else run.setStatus head .stuck

/-- Reads the next token at a head. -/
def advance (t : Table) (scan : Scanner) (run : Run) (head : Nat) : Run :=
  match run.heads[head]?, run.top? head with
  | some h, some f =>
    match scan (t.validTokens f.state) f.position h.rest with
    | none => run.setStatus head .stuck
    | some look => passToken t head (20 * run.stack.size + 1000) look run
  | _, _ => run

/-! ## All heads -/

def isActive (run : Run) (head : Nat) : Bool := run.heads[head]?.any (·.status == .active)

/-- Reads on at a head until it is further than all before it, or as far when others came first. -/
def advanceHead (t : Table) (scan : Scanner) (head : Nat) :
    (fuel : Nat) → (furthest : Nat) → Run → Run × Nat
  | 0, furthest, run => (run, furthest)
  | fuel + 1, furthest, run =>
    if run.isActive head then
      let run := run.advance t scan head
      let position := ((run.top? head).map (·.position)).getD 0
      if furthest < position || (0 < head && position == furthest) then (run, position)
      else advanceHead t scan head fuel furthest run
    else (run, furthest)

/-- Reads on at each head in turn, those that come up on the way included. No head takes more than
`steps` tokens. -/
def advanceAll (t : Table) (scan : Scanner) (steps : Nat) :
    (fuel : Nat) → (head : Nat) → (furthest : Nat) → Run → Run × Nat
  | 0, _, furthest, run => (run, furthest)
  | fuel + 1, head, furthest, run =>
    if head < run.heads.size then
      let (run, furthest) := advanceHead t scan head steps furthest run
      advanceAll t scan steps fuel (head + 1) furthest run
    else (run, furthest)

def weightOf (run : Run) (h : Head) : Int := (run.stack[h.frame]?.map (·.weight)).getD 0

/-- Puts a head behind the better ones, which stand at the given places. An active head drops a
stuck one, and two that can be one are joined. -/
def settle : (places : List Nat) → Head → Run → Run
  | [], h, run => { run with heads := run.heads.push h }
  | j :: places, h, run =>
    match run.heads[j]? with
    | none => settle places h run
    | some other =>
      if other.status == .active && h.status == .stuck then run
      else if other.status == .stuck && h.status == .active then
        settle places h run
      else if run.canJoin other h then
        { run with stack := run.stack.join other.frame h.frame }
      else if run.weightOf other < run.weightOf h then
        settle places other { run with heads := run.heads.set! j h }
      else settle places h run

/-- Joins the heads that can be one, puts the heavier ones first and drops what is stuck or too
many. -/
def condense (run : Run) : Run :=
  let waiting := run.heads.toList.filter (·.status != .done)
  let waiting := if waiting.any (·.status == .active) then waiting.filter (·.status == .active)
    else waiting
  let settled := waiting.foldl (fun run h =>
    settle (List.range run.heads.size) h run) { run with heads := #[] }
  { settled with heads := settled.heads.take headLimit }

/-- Reads until no head can go on. -/
def readOn (t : Table) (scan : Scanner) : (fuel : Nat) → (furthest : Nat) → Run → Option Tree
  | 0, _, run => run.result
  | fuel + 1, furthest, run =>
    let (run, furthest) := advanceAll t scan fuel 64 0 furthest run
    let run := run.condense
    if run.heads.any (·.status == .active) then readOn t scan fuel furthest run
    else run.result

end Run

/-- The tree of a text; none when the text does not follow the grammar. -/
def Table.parse (t : Table) (scan : Scanner) (text : List Char) : Option Tree :=
  Run.readOn t scan (2 * text.length + 64) 0
    ⟨#[⟨t.start, 0, [], 0⟩], #[⟨0, text, .active⟩], none⟩

end DecoratedApi.Grammar
