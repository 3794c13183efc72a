import DecoratedApi.Document.Emission

/-!
# Arguments of the command line

Options stand before or behind the entry. A long one is written `--title Pets` or `--title=Pets`, a
short one `-f json`, `-fjson` or `-f=json`, and short flags may share a dash. A value is taken in
when the next argument is looked at, so an unknown argument is reported before a bad value that
stands right before it.
-/

namespace DecoratedApi.CommandLine

/-- Why a command line is not run. -/
inductive UsageError
  | unknownArgument
  | invalidValue
  | repeated
  | unexpectedValue
  | helpWanted
  | versionWanted
deriving DecidableEq, Repr

structure Arguments where
  entry : Option String := none
  config : Option String := none
  ignore : List String := []
  emit : Option DocumentKind := none
  format : Option DocumentFormat := none
  output : Option String := none
  title : Option String := none
  version : Option String := none
  verbose : Bool := false

/-- The parts of a command line that take a value. -/
inductive Slot
  | entry
  | config
  | ignore
  | emit
  | format
  | output
  | title
  | version
deriving DecidableEq

/-- What an option asks for. -/
inductive Request
  | value (slot : Slot)
  | verbose
  | help
  | version

def longOption? : String → Option Request
  | "config" => some (.value .config)
  | "ignore" => some (.value .ignore)
  | "emit" => some (.value .emit)
  | "format" => some (.value .format)
  | "output" => some (.value .output)
  | "title" => some (.value .title)
  | "api-version" => some (.value .version)
  | "verbose" => some .verbose
  | "help" => some .help
  | "version" => some .version
  | _ => none

def shortOption? : Char → Option Request
  | 'c' => some (.value .config)
  | 'i' => some (.value .ignore)
  | 'e' => some (.value .emit)
  | 'f' => some (.value .format)
  | 'o' => some (.value .output)
  | 'v' => some .verbose
  | 'h' => some .help
  | 'V' => some .version
  | _ => none

/-! ## Values -/

/-- A value that is given once. -/
def once {α : Type} (old : Option α) (new : Option α) : Except UsageError (Option α) :=
  match old, new with
  | some _, _ => .error .repeated
  | none, some a => .ok (some a)
  | none, none => .error .invalidValue

/-- A path, which is not empty. -/
def path? (text : String) : Option String := if text.isEmpty then none else some text

def Arguments.give (a : Arguments) (slot : Slot) (text : String) : Except UsageError Arguments := do
  match slot with
  | .entry => return { a with entry := ← once a.entry (path? text) }
  | .config => return { a with config := ← once a.config (path? text) }
  | .ignore => return { a with ignore := a.ignore ++ [text] }
  | .emit => return { a with emit := ← once a.emit (DocumentKind.ofText? text) }
  | .format => return { a with format := ← once a.format (DocumentFormat.ofText? text) }
  | .output => return { a with output := ← once a.output (path? text) }
  | .title => return { a with title := ← once a.title (some text) }
  | .version => return { a with version := ← once a.version (some text) }

/-! ## Reading -/

/-- How far a command line has been read: what it gives so far, the option whose value is not taken
in yet, whether the entry has been seen, and whether only an entry may follow. -/
structure State where
  given : Arguments := {}
  pending : Option (Slot × Option String) := none
  entrySeen : Bool := false
  closed : Bool := false

/-- Takes in the pending value. -/
def State.settle (s : State) : Except UsageError State :=
  match s.pending with
  | none => .ok s
  | some (_, none) => .error .invalidValue
  | some (slot, some text) => do
    return { s with given := ← s.given.give slot text, pending := none }

/-- Does what an option without a value asks for. -/
def State.raise (s : State) : Request → Except UsageError State
  | .value slot => do
    let s ← s.settle
    return { s with pending := some (slot, none) }
  | .verbose => do
    let s ← s.settle
    if s.given.verbose then throw .repeated
    return { s with given := { s.given with verbose := true } }
  | .help => do
    let _ ← s.settle
    throw .helpWanted
  | .version => do
    let _ ← s.settle
    throw .versionWanted

/-- Gives a value to an option that it is written together with. -/
def State.attach (s : State) (slot : Slot) (text : List Char) : Except UsageError State := do
  let s ← s.settle
  return { s with given := ← s.given.give slot (String.ofList text) }

/-- Reads an argument behind two dashes. -/
def State.long (s : State) (cs : List Char) : Except UsageError State :=
  let (name, rest) := cs.span (· != '=')
  match longOption? (String.ofList name), rest with
  | none, _ => .error .unknownArgument
  | some request, [] => s.raise request
  | some (.value slot), _ :: text => s.attach slot text
  | some _, _ :: _ => .error .unexpectedValue

/-- Reads an argument behind one dash. -/
def State.short (s : State) : List Char → Except UsageError State
  | [] => .ok s
  | c :: cs =>
    match shortOption? c with
    | none => .error .unknownArgument
    | some (.value slot) =>
      match cs with
      | [] => s.raise (.value slot)
      | '=' :: text => s.attach slot text
      | text => s.attach slot text
    | some request => do
      let s ← s.raise request
      s.short cs

/-- Reads an argument that is the entry. There is only one. -/
def State.enter (s : State) (text : String) : Except UsageError State :=
  if s.entrySeen then .error .unknownArgument
  else do
    let s ← s.settle
    return { s with pending := some (.entry, some text), entrySeen := true }

def State.step (s : State) (argument : String) : Except UsageError State :=
  if s.closed then s.enter argument
  else
    match argument.toList with
    | ['-', '-'] => .ok { s with closed := true }
    | '-' :: '-' :: cs => s.long cs
    | '-' :: c :: cs => s.short (c :: cs)
    | _ =>
      match s.pending with
      | some (slot, none) => .ok { s with pending := some (slot, some argument) }
      | _ => s.enter argument

def Arguments.read (arguments : List String) : Except UsageError Arguments := do
  let s ← arguments.foldlM State.step {}
  return (← s.settle).given

end DecoratedApi.CommandLine
