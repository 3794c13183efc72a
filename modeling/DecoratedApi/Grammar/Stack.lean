import DecoratedApi.Grammar.State
import DecoratedApi.Grammar.Tree

/-!
# Stacks that share their frames

While a reading is split, each of its branches has a stack of its own. The stacks share the frames
that they have in common: a frame links to the frames below it, one for each way in which it was
reached. Frames are numbered in the order in which they were made, so a link always leads to a
smaller number and every walk down ends.
-/

namespace DecoratedApi.Grammar

/-- A step down the stack, and the tree that lies on it. -/
structure Link where
  below : Nat
  tree : Tree

/-- A state, the place in the text where it was reached, and the ways by which it was. -/
structure Frame where
  state : State
  position : Nat
  links : List Link
  weight : Int

abbrev Stack := Array Frame

namespace Stack

/-- At most so many links lead down from a frame. -/
def linkLimit : Nat := 8

/-- At most so many walks go down at once. -/
def walkLimit : Nat := 64

/-- Puts a tree on a frame. -/
def push (s : Stack) (below : Nat) (tree : Tree) (state : State) : Nat × Stack :=
  let weight := ((s[below]?.map (·.weight)).getD 0) + tree.weight
  (s.size, Array.push s ⟨state, tree.stop, [⟨below, tree⟩], weight⟩)

/-- What a way down over a link weighs. -/
def linkWeight (s : Stack) (l : Link) : Int := ((s[l.below]?.map (·.weight)).getD 0) + l.tree.weight

/-- Whether two frames can be one: they are in the same state at the same place. -/
def canJoin (s : Stack) (a b : Nat) : Bool :=
  match s[a]?, s[b]? with
  | some f, some g => f.position == g.position && f.state == g.state
  | _, _ => false

/-- Whether a new link adds nothing to an old one but, perhaps, further ways below it. -/
def covers (s : Stack) (old new : Link) : Bool :=
  old.tree.alike new.tree && (old.below == new.below || s.canJoin old.below new.below)

/-- Adds a link to a frame. A link that an old one covers is merged with it: of two trees between
the same frames the heavier stays, and of two frames the ways down are brought together. -/
def addLink : (depth : Nat) → Stack → (frame : Nat) → Link → Stack
  | 0, s, _, _ => s
  | depth + 1, s, frame, l =>
    if l.below = frame then s
    else match s[frame]? with
      | none => s
      | some f =>
        let here := s.linkWeight l
        match f.links.findIdx? (s.covers · l) with
        | none =>
          if f.links.length < linkLimit then
            s.set! frame { f with links := f.links ++ [l], weight := max f.weight here }
          else s
        | some place =>
          match f.links[place]? with
          | none => s
          | some old =>
            if old.below = l.below then
              if old.tree.weight < l.tree.weight then
                s.set! frame { f with links := f.links.set place l, weight := here }
              else s
            else
              let ways := (s[l.below]?.map (·.links)).getD []
              let s := ways.foldl (fun s way => addLink depth s old.below way) s
              s.modify frame fun f => { f with weight := max f.weight here }

/-- Brings the ways down from one frame to another, which is in the same state. -/
def join (s : Stack) (into other : Nat) : Stack :=
  ((s[other]?.map (·.links)).getD []).foldl (fun s l => addLink s.size s into l) s

/-! ## Walking down -/

/-- A walk down: where it is, the trees that it passed, the lowest first, and how many of them are
not extra. -/
structure Walk where
  frame : Nat
  trees : List Tree
  count : Nat

def Walk.over (w : Walk) (l : Link) : Walk :=
  ⟨l.below, l.tree :: w.trees, if l.tree.isExtra then w.count else w.count + 1⟩

/-- One step of all walks. A walk that satisfies `isDone` ends. The others go down over their first
links, and behind them come walks over the other links. -/
def stepWalks (s : Stack) (isDone : Walk → Frame → Bool) :
    List Walk → (ended going extra : List Walk) → List Walk × List Walk
  | [], ended, going, extra => (ended.reverse, going.reverse ++ extra)
  | w :: rest, ended, going, extra =>
    match s[w.frame]? with
    | none => stepWalks s isDone rest ended going extra
    | some f =>
      if isDone w f then stepWalks s isDone rest (w :: ended) going extra
      else match f.links with
        | [] => stepWalks s isDone rest ended going extra
        | first :: others =>
          let room := walkLimit - (rest.length + going.length + extra.length + 1)
          stepWalks s isDone rest ended (w.over first :: going)
            (extra ++ (others.take room).map w.over)

/-- All walks to their ends, in the order in which they end. -/
def walks (s : Stack) (isDone : Walk → Frame → Bool) : (fuel : Nat) → List Walk → List Walk
  | 0, _ => []
  | _, [] => []
  | fuel + 1, ws =>
    let (ended, going) := stepWalks s isDone ws [] [] []
    ended ++ walks s isDone fuel going

/-- The ways to take a number of trees off a frame. -/
def waysDown (s : Stack) (frame count : Nat) : List Walk :=
  s.walks (fun w _ => w.count == count) (s.size + 1) [⟨frame, [], 0⟩]

/-- The ways to take everything off a frame. -/
def waysToBottom (s : Stack) (frame : Nat) : List Walk :=
  s.walks (fun _ f => f.links.isEmpty) (s.size + 1) [⟨frame, [], 0⟩]

/-- The walks by the frame at which they end, in the order in which the frames come up. -/
def groupByFrame (ws : List Walk) : List (Nat × List (List Tree)) :=
  ws.foldl (fun groups w => add w groups) []
where
  /-- Adds a walk to its group. -/
  add (w : Walk) : List (Nat × List (List Tree)) → List (Nat × List (List Tree))
    | [] => [(w.frame, [w.trees])]
    | (frame, all) :: rest =>
      if frame = w.frame then (frame, all ++ [w.trees]) :: rest else (frame, all) :: add w rest

end Stack
end DecoratedApi.Grammar
