import DecoratedApi.Grammar.Table

/-!
# States of a reading

A state holds the items that a reading may be in, each with the tokens that may come when it is
finished. `Table.next` passes a symbol, and `Table.actions` says what to do when a token comes.

Often a token could both finish one phrase and go on with another. Then the levels decide, and
between equal levels the side to which the finished rule leans. Where neither decides, all actions
are kept and the reading splits.
-/

namespace DecoratedApi.Grammar

/-- An item and the tokens that may come when it is finished. -/
structure Entry where
  item : Nat
  ahead : TokenSet
deriving DecidableEq, Hashable, Repr

/-- The items that a reading may be in, in the order of their numbers and each once. -/
structure State where
  entries : List Entry
deriving DecidableEq, Hashable, Repr

/-- Joins neighbours that hold the same item. -/
def joinEntries : List Entry → List Entry
  | [] => []
  | e :: rest =>
    match joinEntries rest with
    | [] => [e]
    | f :: more =>
      if e.item = f.item then ⟨e.item, e.ahead.union f.ahead⟩ :: more else e :: f :: more

def State.of (entries : List Entry) : State :=
  ⟨joinEntries (entries.mergeSort fun a b => a.item ≤ b.item)⟩

namespace Table

def start (t : Table) : State := ⟨[⟨t.startItem, .single 0⟩]⟩

def item (t : Table) (i : Nat) : Item := t.items.getD i default

/-- Whether a phrase only helps to repeat something. -/
def isHelping (t : Table) (phrase : Nat) : Bool :=
  t.phrases.size ≤ phrase && phrase < t.openings.size

/-! ## Passing a symbol -/

/-- Adds the tokens that may follow a phrase. -/
def addFollowing (phrase : Nat) (ahead : TokenSet) : List (Nat × TokenSet) → List (Nat × TokenSet)
  | [] => [(phrase, ahead)]
  | (p, s) :: rest =>
    if p = phrase then (p, s.union ahead) :: rest else (p, s) :: addFollowing phrase ahead rest

/-- The phrases that may come next, each with the tokens that may follow it. -/
def expected (t : Table) (s : State) : List (Nat × TokenSet) :=
  s.entries.foldl (fun known e =>
    let i := t.item e.item
    match i.next with
    | none => known
    | some symbol =>
      if symbol < t.tokens then known
      else
        let ahead := match i.following with
          | none => e.ahead
          | some f => t.first.getD f 0
        addFollowing (symbol - t.tokens) ahead known) []

/-- The tokens that may follow a phrase that stands at the start of what is expected. -/
def aheadOf (t : Table) (expected : List (Nat × TokenSet)) (phrase : Nat) : Option TokenSet :=
  expected.foldl (fun found (outer, following) =>
    match (t.openings.getD outer #[]).getD phrase none with
    | none => found
    | some o =>
      let here := if o.toEnd then o.ahead.union following else o.ahead
      some ((found.getD 0).union here)) none

/-- The state behind a symbol; none when the symbol cannot come. -/
def next (t : Table) (s : State) (symbol : Nat) : Option State :=
  let moved := s.entries.filterMap fun e =>
    let i := t.item e.item
    if i.next = some symbol then some (⟨i.after, e.ahead⟩ : Entry) else none
  let expected := t.expected s
  let begun := (t.starts.getD symbol []).flatMap fun (phrase, items) =>
    match t.aheadOf expected phrase with
    | none => []
    | some ahead => items.map fun i => (⟨i, ahead⟩ : Entry)
  match moved ++ begun with
  | [] => none
  | entries => some (.of entries)

/-- The tokens that can come, or that may stand anywhere. -/
def validTokens (t : Table) (s : State) : TokenSet :=
  let here := s.entries.foldl (fun all e =>
    match (t.item e.item).next with
    | none => all.union e.ahead
    | some symbol => all.union (t.first.getD symbol 0)) 0
  let empties := t.empties.foldl (fun all phrase =>
    all.union ((t.aheadOf (t.expected s) phrase).getD 0)) here
  t.extras.foldl (fun all extra => all.union (.single extra)) empties

/-! ## Preferences -/

end Table

/-- Whether a member of an order speaks of a rule held at a level, for one of the phrases. -/
def Rank.speaksOf (level : Level) (phrases : List Nat) : Rank Nat → Bool
  | .level name => level == .named name
  | .phrase p => phrases.contains p

/-- What an order says of two rules: which one it lists first. -/
def compareIn (level₁ : Level) (phrases₁ : List Nat) (level₂ : Level) (phrases₂ : List Nat) :
    (saw₁ saw₂ : Bool) → List (Rank Nat) → Option Ordering
  | _, _, [] => none
  | saw₁, saw₂, r :: rest =>
    let here₁ := r.speaksOf level₁ phrases₁
    let here₂ := r.speaksOf level₂ phrases₂
    if here₁ && !here₂ && saw₂ then some .lt
    else if here₂ && !here₁ && saw₁ then some .gt
    else compareIn level₁ phrases₁ level₂ phrases₂ (saw₁ || here₁) (saw₂ || here₂) rest

namespace Table

/-- Which of two rules holds more tightly. Numbers are compared as numbers; all else is decided by
the first order that lists both. -/
def compareRules (t : Table) (level₁ : Level) (phrases₁ : List Nat) (level₂ : Level)
    (phrases₂ : List Nat) : Ordering :=
  let byOrder :=
    (t.orders.findSome? (compareIn level₁ phrases₁ level₂ phrases₂ false false)).getD .eq
  match level₁, level₂ with
  | .number a, .number b => if a = 0 ∧ b = 0 then byOrder else compare a b
  | _, _ => byOrder

end Table

/-! ## Actions -/

/-- A phrase is finished: so many of the parts passed belong to it, and show in it as the guises
say. -/
structure Reduction where
  phrase : Nat
  taken : Nat
  weight : Int
  guises : List Guise
deriving Inhabited

/-- What to do when a token comes. -/
inductive Action
  | shift (state : State)
  | reduce (r : Reduction)
  | skip
  | accept

/-- The finished items that were not beaten, the last one first, with the level, phrases and sides
that speak for them. -/
structure Contest where
  winners : List Item
  level : Level
  phrases : List Nat
  left : Bool
  right : Bool
  neither : Bool

namespace Contest

def empty : Contest := ⟨[], .number 0, [], false, false, false⟩

/-- One more finished item joins those that were not beaten. -/
def join (c : Contest) (i : Item) : Contest :=
  { winners := i :: c.winners
    level := i.level
    phrases := if c.phrases.contains i.phrase then c.phrases else i.phrase :: c.phrases
    left := c.left || i.side == some .left
    right := c.right || i.side == some .right
    neither := c.neither || i.side == none }

/-- One more finished item enters. -/
def enter (t : Table) (c : Contest) (i : Item) : Contest :=
  if c.winners.isEmpty then c.join i
  else match t.compareRules i.level [i.phrase] c.level c.phrases with
    | .gt => empty.join i
    | .eq => c.join i
    | .lt => c

end Contest

/-- Which actions are kept when a token can both finish items and be passed. -/
inductive Verdict
  | passes
  | finishes
  | both
deriving DecidableEq

/-- The verdict between the finished items and those that the token goes on with. A repetition is
never passed over: it is finished first and joined then. -/
def Contest.verdict (t : Table) (c : Contest) (finished going : List Item) : Verdict :=
  match finished with
  | [] => .passes
  | f :: _ =>
    if t.isHelping f.phrase && (finished ++ going).all (·.phrase == f.phrase) then .finishes
    else
      let results := going.map fun i => t.compareRules i.level [i.phrase] c.level c.phrases
      match results.contains .gt, results.contains .lt with
      | true, false => .passes
      | false, true => .finishes
      | true, true => .both
      | false, false =>
        if c.left && !c.right && !c.neither then .finishes
        else if c.right && !c.left && !c.neither then .passes
        else .both

namespace Table

/-- The order in which finished items are considered. -/
def comesBefore (a b : Item) : Bool :=
  a.taken < b.taken || (a.taken == b.taken &&
    (a.phrase < b.phrase || (a.phrase == b.phrase && a.weight ≤ b.weight)))

/-- The items that are finished when a token comes. -/
def finishedBy (t : Table) (s : State) (token : Nat) : List Item :=
  let own := s.entries.filterMap fun e =>
    let i := t.item e.item
    if i.next.isNone && e.ahead.has token then some i else none
  let empties := t.empties.filterMap fun phrase =>
    if ((t.aheadOf (t.expected s) phrase).getD 0).has token then
      some { (default : Item) with phrase }
    else none
  (own ++ empties).mergeSort comesBefore

/-- The action of a finished item. At the end of a whole text it is accepted. -/
def finish (t : Table) (i : Item) : Action :=
  if i.phrase = t.openings.size then .accept
  else .reduce ⟨i.phrase, i.taken, i.weight, i.guises⟩

/-- What to do in a state when a token comes; nothing when it cannot. -/
def actions (t : Table) (s : State) (token : Nat) : List Action :=
  let finished := t.finishedBy s token
  let contest := finished.foldl (Contest.enter t) .empty
  let going := s.entries.filterMap fun e =>
    let i := t.item e.item
    match i.next with
    | none => none
    | some symbol => if (t.first.getD symbol 0).has token then some i else none
  let finishes := contest.winners.reverse.map t.finish
  let passes := ((t.next s token).map Action.shift).toList
  match finishes, going with
  | [], [] => if t.extras.contains token then [.skip] else []
  | _, [] => finishes
  | _, _ =>
    match contest.verdict t finished (going.filter (0 < ·.taken)) with
    | .passes => passes
    | .finishes => finishes
    | .both => finishes ++ passes

end Table
end DecoratedApi.Grammar
