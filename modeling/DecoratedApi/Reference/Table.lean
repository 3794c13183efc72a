import DecoratedApi.Error
import DecoratedApi.OrderedMap
import DecoratedApi.Schema.Definition

/-!
# The table of definitions

A named object type is reserved as a placeholder before its properties are known, so that types may
mention themselves and one another. Work that needs an entry which is not complete yet is deferred,
and done in order once all types have been met.
-/

namespace DecoratedApi

inductive Slot
  | pending
  | ready (d : Definition)

/-- The entries in the order in which their names were first met, and for each name that still
waits for bases how many it waits for. -/
structure ReferenceTable where
  entries : OrderedMap Slot := []
  inheriting : OrderedMap Nat := []

namespace ReferenceTable

/-- Whether there is an entry, a placeholder or not. -/
def contains (t : ReferenceTable) (name : String) : Bool :=
  (OrderedMap.find? name t.entries).isSome

/-- The definition under a name, if it is ready. -/
def get? (t : ReferenceTable) (name : String) : Option Definition :=
  match OrderedMap.find? name t.entries with
  | some (.ready d) => some d
  | _ => none

/-- Whether the entry is a placeholder. -/
def isPending (t : ReferenceTable) (name : String) : Bool :=
  match OrderedMap.find? name t.entries with
  | some .pending => true
  | _ => false

/-- Whether the entry waits for the properties of a base. -/
def isInheriting (t : ReferenceTable) (name : String) : Bool :=
  (OrderedMap.find? name t.inheriting).isSome

/-- Whether the entry is ready and waits for nothing. -/
def isComplete (t : ReferenceTable) (name : String) : Bool :=
  (t.get? name).isSome && !t.isInheriting name

def object? (t : ReferenceTable) (name : String) : Option ObjectDefinition :=
  (t.get? name).bind (·.object?)

/-- Makes a placeholder, unless there is an entry. -/
def reserve (t : ReferenceTable) (name : String) : ReferenceTable :=
  if t.contains name then t else { t with entries := t.entries ++ [(name, .pending)] }

def fill (t : ReferenceTable) (d : Definition) : ReferenceTable :=
  { t with entries := OrderedMap.set d.name (.ready d) t.entries }

/-- One more base whose properties come later. -/
def awaitBase (t : ReferenceTable) (name : String) : ReferenceTable :=
  let count := (OrderedMap.find? name t.inheriting).getD 0
  { t with inheriting := OrderedMap.set name (count + 1) t.inheriting }

/-- The properties of one base have come. -/
def baseArrived (t : ReferenceTable) (name : String) : ReferenceTable :=
  match OrderedMap.find? name t.inheriting with
  | none => t
  | some count =>
    if count ≤ 1 then { t with inheriting := OrderedMap.erase name t.inheriting }
    else { t with inheriting := OrderedMap.set name (count - 1) t.inheriting }

/-- The definitions of the entries. A placeholder has none. -/
def definitionsOf : List (String × Slot) → Outcome (OrderedMap Definition)
  | [] => .ok []
  | (name, .ready d) :: rest => do
    let definitions ← definitionsOf rest
    .ok ((name, d) :: definitions)
  | (name, .pending) :: _ => .error (.neverResolved name)

/-- All definitions, in order. It fails while a placeholder is left. -/
def definitions (t : ReferenceTable) : Outcome (OrderedMap Definition) := definitionsOf t.entries

end ReferenceTable

/-- Work that waits for an entry to be complete. -/
inductive Deferred
  /-- `referrer` mentions `name`, which was a placeholder: it has to be ready in the end. -/
  | link (name referrer : String)
  /-- `target` takes over the properties of `base`. -/
  | inherit (target base : String)
deriving DecidableEq, Repr

namespace Deferred

def run (t : ReferenceTable) : Deferred → Outcome ReferenceTable
  | link name referrer =>
    if (t.get? name).isSome then .ok t else .error (.brokenLink name referrer)
  | inherit target base =>
    match t.object? base with
    | none => .error (.brokenBase base target)
    | some b =>
      match t.object? target with
      | none => .error (.brokenTarget target)
      | some d =>
        .ok (ReferenceTable.baseArrived
          { t with entries := OrderedMap.set target (.ready (.object (d.inherit b))) t.entries }
          target)

def runAll (t : ReferenceTable) : List Deferred → Outcome ReferenceTable
  | [] => .ok t
  | d :: rest => do
    let t ← d.run t
    runAll t rest

end Deferred
end DecoratedApi
