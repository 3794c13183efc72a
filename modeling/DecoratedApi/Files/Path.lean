import DecoratedApi.Text.Words

/-!
# Paths as they are written

A path is a text with slashes between its steps. An empty step and a single dot lead nowhere,
except a dot at the very start, which is a step of its own.
-/

namespace DecoratedApi.Files

/-- The pieces of a path between its slashes. -/
def pieces (path : String) : List (List Char) := Text.splitAt '/' path.toList

def isAbsolute (path : String) : Bool := path.toList.head? == some '/'

/-- A path that is taken relative to another one. -/
def join (base path : String) : String :=
  if isAbsolute path || base.isEmpty then path
  else if base.toList.getLast? == some '/' then base ++ path
  else base ++ "/" ++ path

/-- Takes the pieces that lead nowhere off the end. The pieces stand in reverse order. -/
def trimPieces : List (List Char) → List (List Char)
  | [] => []
  | piece :: rest =>
    if piece.isEmpty || (piece == ['.'] && !rest.isEmpty) then trimPieces rest else piece :: rest

def joinPieces : List (List Char) → List Char
  | [] => []
  | [piece] => piece
  | piece :: rest => piece ++ '/' :: joinPieces rest

/-- The path without its last step; none when it has no step. -/
def parent? (path : String) : Option String :=
  match trimPieces (pieces path).reverse with
  | [] => none
  | _ :: rest =>
    match trimPieces rest with
    | [] => some (if isAbsolute path then "/" else "")
    | kept => some (String.ofList (joinPieces kept.reverse))

def fileName? (path : String) : Option (List Char) :=
  match trimPieces (pieces path).reverse with
  | [] => none
  | last :: _ => if last == ['.'] || last == ['.', '.'] then none else some last

/-- What follows the last dot of a name. A dot at the very start does not count. -/
def extension? (name : List Char) : Option (List Char) :=
  let after := name.reverse.takeWhile (· != '.')
  if after.length + 1 < name.length then some after.reverse else none

def extensionOf? (path : String) : Option String :=
  ((fileName? path).bind extension?).map String.ofList

/-- Whether a file holds markup besides code. -/
def isMarkup (path : String) : Bool := extensionOf? path == some "tsx"

def isSource (path : String) : Bool := extensionOf? path == some "ts" || isMarkup path

end DecoratedApi.Files
