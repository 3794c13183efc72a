import DecoratedApi.Grammar.Rule
import Std.Data.HashMap

/-!
# Productions

A rule with choices stands for a list of productions, each a sequence of steps. Symbols are numbers:
first the tokens in the order in which the rules name them, then the phrases, then one helping
phrase for each repetition. Equal repetitions share their helping phrase, so that a text which both
could start is read once.
-/

namespace DecoratedApi.Grammar

variable {τ : Type}

/-- How the part at a step shows in the tree: under which kind, and in which role. -/
structure Guise where
  kind : Option String
  field : Option String
deriving DecidableEq, Hashable, Repr, Inhabited

/-- One step of a production, with the level and side that hold once it is passed. -/
structure Step where
  symbol : Nat
  level : Level
  side : Option Side
  guise : Guise
deriving DecidableEq, Hashable, Repr, Inhabited

/-- One way to put a phrase together. -/
structure Production where
  steps : List Step
  weight : Int
deriving DecidableEq, Hashable, Repr, Inhabited

namespace Production

def empty : Production := ⟨[], 0⟩

/-- The weight that counts of two: the one further from zero, and the first of two as far. -/
def heavier (a b : Int) : Int := if a.natAbs < b.natAbs then b else a

/-- One production behind another. -/
def append (p q : Production) : Production := ⟨p.steps ++ q.steps, heavier p.weight q.weight⟩

/-- Every way to go through two lists of productions one after the other. -/
def product (ps qs : List Production) : List Production :=
  ps.flatMap fun p => qs.map (append p)

def mapLast (f : Step → Step) : List Step → List Step
  | [] => []
  | [s] => [f s]
  | s :: rest => s :: mapLast f rest

end Production

/-! ## Numbering -/

mutual

def Rule.tokens : Rule τ → List τ
  | .nothing => []
  | .token t => [t]
  | .phrase _ => []
  | .seq parts => tokensOf parts
  | .choice parts => tokensOf parts
  | .many part => part.tokens
  | .field _ part => part.tokens
  | .called _ part => part.tokens
  | .held _ _ part => part.tokens
  | .weighed _ part => part.tokens

def tokensOf : List (Rule τ) → List τ
  | [] => []
  | part :: rest => part.tokens ++ tokensOf rest

end

structure Numbers (τ : Type) [BEq τ] [Hashable τ] where
  tokens : Array τ
  tokenNumber : Std.HashMap τ Nat
  phraseNumber : Std.HashMap String Nat

variable [BEq τ] [Hashable τ]

/-- Each item of a list once, with its place. -/
def numbered {α : Type} [BEq α] [Hashable α] (items : List α) : Array α × Std.HashMap α Nat :=
  items.foldl (fun (all, known) a =>
    if known.contains a then (all, known) else (all.push a, known.insert a all.size)) (#[], {})

/-- The numbers of a grammar. The end of the text is token zero and a plain word is token one; the
tokens that depend on what is around them come last. -/
def Numbers.of (g : Grammar τ) : Numbers τ :=
  let named := g.phrases.flatMap (·.rule.tokens) ++ g.extras
  let (tokens, tokenNumber) :=
    numbered (g.finish :: g.word :: named.filter (!g.contextual.contains ·) ++ g.contextual)
  let names := numbered (g.phrases.map (·.name))
  ⟨tokens, tokenNumber, names.2⟩

namespace Numbers

def token (n : Numbers τ) (t : τ) : Nat := n.tokenNumber.getD t 0

def phrase (n : Numbers τ) (name : String) : Nat :=
  n.tokens.size + n.phraseNumber.getD name 0

end Numbers

/-! ## Expanding rules -/

/-- The helping phrases so far: what each repeats, and its symbol. -/
structure Repeats where
  next : Nat
  known : Std.HashMap (List Production) Nat
  contents : Array (List Production)

/-- The symbol of the phrase that repeats the given productions. -/
def Repeats.symbolOf (contents : List Production) : StateM Repeats Nat := do
  let r ← get
  match r.known[contents]? with
  | some symbol => return symbol
  | none =>
    set (⟨r.next + 1, r.known.insert contents r.next, r.contents.push contents⟩ : Repeats)
    return r.next

/-- What surrounds a part of a rule: the step that a symbol there becomes. -/
def Step.outer : Step := ⟨0, default, none, default⟩

mutual

/-- The productions of a rule. `around` is what surrounds it. A level that ends before the rule does
leaves its last step to the level around it. -/
def Rule.expand (n : Numbers τ) (atEnd : Bool) (around : Step) :
    Rule τ → StateM Repeats (List Production)
  | .nothing => return [.empty]
  | .token t => return [⟨[{ around with symbol := n.token t }], 0⟩]
  | .phrase name => return [⟨[{ around with symbol := n.phrase name }], 0⟩]
  | .seq parts => expandSeq n atEnd around parts
  | .choice parts => expandChoice n atEnd around parts
  | .many part => do
    let contents ← part.expand n true .outer
    let symbol ← Repeats.symbolOf contents
    return [⟨[{ around with symbol }], 0⟩]
  | .field name part =>
    part.expand n atEnd { around with guise := { around.guise with field := some name } }
  | .called kind part =>
    part.expand n atEnd { around with guise := { around.guise with kind := some kind } }
  | .held level side part => do
    let ps ← part.expand n atEnd
      { around with level, side := side.or around.side }
    if atEnd then return ps
    else
      let leave (s : Step) : Step :=
        { s with level := around.level, side := if side.isSome then around.side else s.side }
      return ps.map fun p => { p with steps := Production.mapLast leave p.steps }
  | .weighed weight part => do
    return (← part.expand n atEnd around).map fun p =>
      { p with weight := Production.heavier weight p.weight }

def expandSeq (n : Numbers τ) (atEnd : Bool) (around : Step) :
    List (Rule τ) → StateM Repeats (List Production)
  | [] => return [.empty]
  | [part] => part.expand n atEnd around
  | part :: rest => do
    let ps ← part.expand n false around
    return Production.product ps (← expandSeq n atEnd around rest)

def expandChoice (n : Numbers τ) (atEnd : Bool) (around : Step) :
    List (Rule τ) → StateM Repeats (List Production)
  | [] => return []
  | part :: rest => do
    let ps ← part.expand n atEnd around
    return ps ++ (← expandChoice n atEnd around rest)

end

/-- The productions of a helping phrase: itself twice, or what it repeats. -/
def repeatProductions (symbol : Nat) (contents : List Production) : List Production :=
  let step : Step := { Step.outer with symbol }
  ⟨[step, step], 0⟩ :: contents

/-! ## Inlining -/

/-- A step's place taken by the steps of a production: they show as the step did, and the last of
them holds as the step did unless it holds in its own way. -/
def Step.fill (s : Step) (inner : List Step) : List Step :=
  let shown := inner.map fun i =>
    { i with guise := ⟨s.guise.kind.or i.guise.kind, s.guise.field.or i.guise.field⟩ }
  Production.mapLast (fun i =>
    { i with
      level := if i.level = .number 0 then s.level else i.level
      side := i.side.or s.side }) shown

/-- The productions of steps in which no inlined phrase is left. `inlined` gives the productions of
an inlined phrase. -/
def inlineSteps (inlined : Nat → Option (List Production)) :
    (depth : Nat) → List Step → List Production
  | 0, steps => [⟨steps, 0⟩]
  | _ + 1, [] => [.empty]
  | depth + 1, steps =>
    steps.foldl (fun (before : List Production) s =>
      let here : List Production :=
        match inlined s.symbol with
        | none => [⟨[s], 0⟩]
        | some ps => ps.flatMap fun p =>
          (inlineSteps inlined depth p.steps).map fun q =>
            ⟨s.fill q.steps, Production.heavier p.weight q.weight⟩
      Production.product before here) [.empty]

/-- Inlined phrases contain each other at most this deep. -/
def inlineDepth : Nat := 8

/-- The productions of a grammar by phrase: first those of its own phrases, then those of the
helping ones. -/
def productionsOf (g : Grammar τ) (n : Numbers τ) : Array (List Production) :=
  let first := n.tokens.size + g.phrases.length
  let expand (p : Phrase τ) : StateM Repeats (List Production) := p.rule.expand n true .outer
  let (own, repeats) := (g.phrases.mapM expand).run ⟨first, {}, #[]⟩
  let helping := repeats.contents.toList.zipIdx.map fun (contents, i) =>
    repeatProductions (first + i) contents
  let all := (own ++ helping).toArray
  let isInlined := g.phrases.toArray.map (·.visibility == .inlined)
  let inlined (symbol : Nat) : Option (List Production) :=
    let place := symbol - n.tokens.size
    if n.tokens.size ≤ symbol && isInlined.getD place false then all[place]? else none
  all.map fun ps => ps.flatMap fun p =>
    (inlineSteps inlined inlineDepth p.steps).map fun q =>
      { q with weight := Production.heavier p.weight q.weight }

end DecoratedApi.Grammar
