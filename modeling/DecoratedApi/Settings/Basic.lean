import DecoratedApi.Document.Emission
import DecoratedApi.Yaml.Node

/-!
# Settings

What a settings file says about a run. The file is a mapping in YAML. Every setting may be left out,
none may be repeated, and no other name may occur.
-/

namespace DecoratedApi

structure Settings where
  entryFile : Option String := none
  ignore : List String := []
  outputFile : Option String := none
  emit : Option DocumentKind := none
  format : Option DocumentFormat := none
  title : Option String := none
  version : Option String := none

namespace Settings

/-! ## Values -/

/-- Whether a word says that there is no value. -/
def isNullWord (word : String) : Bool := ["null", "Null", "NULL", "~"].contains word

/-- The tag of a text that says that there is no value. -/
def nullTag : String := "tag:yaml.org,2002:null"

/-- The text of a setting, when it has one: nothing, or a plain word for it, says that there is
none. None where a tag says so and the word does not. -/
def given? (s : Yaml.Scalar) : Option (Option Yaml.Scalar) :=
  if !s.plain then some (some s)
  else match s.tag with
    | some tag =>
      if tag == nullTag then if isNullWord s.text then some none else none
      else some (some s)
    | none => if s.text.isEmpty || isNullWord s.text then some none else some (some s)

def optionalText? (d : Yaml.Document) (n : Yaml.Node) : Option (Option String) := do
  let s ← d.scalar? n
  return (← given? s).map (·.text)

/-- The word of a choice: the text, or the name of its own tag when no text stands there. -/
def word? (s : Yaml.Scalar) : Option String :=
  match s.tag.map String.toList with
  | some ('!' :: name) =>
    if s.plain && (s.text.isEmpty || isNullWord s.text) then some (String.ofList name) else none
  | _ => some s.text

def optionalWord? {α : Type} (ofText? : String → Option α) (d : Yaml.Document) (n : Yaml.Node) :
    Option (Option α) := do
  let s ← d.scalar? n
  match ← given? s with
  | none => return none
  | some s => return some (← ofText? (← word? s))

/-- Whether a text says nothing at all. -/
def isNothing (s : Yaml.Scalar) : Bool := s.plain && s.text.isEmpty

/-- A list of texts. Nothing at all is the empty one. -/
def list? (d : Yaml.Document) : Yaml.Node → Option (List String)
  | .list items => items.mapM fun item => (d.scalar? item).map (·.text)
  | n => do
    let s ← d.scalar? n
    if isNothing s then some [] else none

/-! ## Entries -/

/-- Adds an entry; none when there is no such setting or its value does not fit. -/
def add? (d : Yaml.Document) (s : Settings) (name : String) (value : Yaml.Node) : Option Settings :=
  match name with
  | "entryFile" => do return { s with entryFile := ← optionalText? d value }
  | "ignore" => do return { s with ignore := ← list? d value }
  | "outputFile" => do return { s with outputFile := ← optionalText? d value }
  | "emit" => do return { s with emit := ← optionalWord? DocumentKind.ofText? d value }
  | "format" => do return { s with format := ← optionalWord? DocumentFormat.ofText? d value }
  | "title" => do return { s with title := ← optionalText? d value }
  | "version" => do return { s with version := ← optionalText? d value }
  | _ => none

def hasRepeated : List String → Bool
  | [] => false
  | name :: rest => rest.contains name || hasRepeated rest

def ofEntries? (d : Yaml.Document) (entries : List (Yaml.Node × Yaml.Node)) : Option Settings := do
  let named ← entries.mapM fun (key, value) => (d.scalar? key).map fun s => (s.text, value)
  guard !(hasRepeated (named.map Prod.fst))
  named.foldlM (fun s (name, value) => add? d s name value) {}

/-- The settings in a document. Nothing at all leaves out every setting. -/
def ofDocument? (d : Yaml.Document) : Option Settings :=
  match d.root with
  | .mapping entries => ofEntries? d entries
  | .scalar s => if isNothing s then some {} else none
  | _ => none

/-- Reads a settings file. A blank one leaves out every setting. -/
def read? (content : String) : Option Settings :=
  if (Text.trim content).isEmpty then some {}
  else (Yaml.Document.read? content).bind ofDocument?

end Settings
end DecoratedApi
