import DecoratedApi.Files.Path

/-!
# A tree of files

What the program sees of a file system: which places exist, whether each is a file or a directory,
and the texts of the files. A place is the names on the way to it from the root.
-/

namespace DecoratedApi.Files

/-- The names on the way from the root. -/
abbrev Place := List String

/-- The path of a place from the root on. -/
def Place.path (p : Place) : String := "/" ++ "/".intercalate p

/-- What a file holds. Only text can be read. -/
inductive Content
  | text (s : String)
  | binary

inductive Entry
  | file (content : Content)
  | directory

/-- A tree of files, and the directory that relative paths start from. -/
structure FileTree where
  entries : List (Place × Entry)
  current : Place

namespace FileTree

/-- What stands at a place. The root is always a directory. -/
def find? (t : FileTree) (p : Place) : Option Entry :=
  if p.isEmpty then some .directory else t.entries.lookup p

def hasDirectory (t : FileTree) (p : Place) : Bool :=
  match t.find? p with
  | some .directory => true
  | _ => false

def hasFile (t : FileTree) (p : Place) : Bool :=
  match t.find? p with
  | some (.file _) => true
  | _ => false

/-! ## Following paths -/

/-- Follows the pieces of a path. Each step starts from a directory. -/
def follow? (t : FileTree) (here : Place) : List String → Option Place
  | [] => some here
  | piece :: rest =>
    if !t.hasDirectory here then none
    else if piece == "" || piece == "." then t.follow? here rest
    else if piece == ".." then t.follow? here.dropLast rest
    else if (t.find? (here ++ [piece])).isSome then t.follow? (here ++ [piece]) rest
    else none

def start (t : FileTree) (path : String) : Place := if isAbsolute path then [] else t.current

/-- The place that a path leads to; none when nothing is there. -/
def locate? (t : FileTree) (path : String) : Option Place :=
  if path.isEmpty then none
  else t.follow? (t.start path) ((pieces path).map String.ofList)

def isFile (t : FileTree) (path : String) : Bool := (t.locate? path).any t.hasFile

def isDirectory (t : FileTree) (path : String) : Bool := (t.locate? path).any t.hasDirectory

/-- The text of the file at a place; none when there is no file or it is not text. -/
def textAt? (t : FileTree) (p : Place) : Option String :=
  match t.find? p with
  | some (.file (.text s)) => some s
  | _ => none

def text? (t : FileTree) (path : String) : Option String := (t.locate? path).bind t.textAt?

/-! ## Changing the tree -/

/-- Puts an entry at a place, instead of what stood there. -/
def put (t : FileTree) (p : Place) (e : Entry) : FileTree :=
  { t with entries := (t.entries.filter (·.1 != p)) ++ [(p, e)] }

/-- Follows the pieces of a path and makes the directories that are missing; none when a file is in
the way. Gives the place and the tree. -/
def makeSteps? (t : FileTree) (here : Place) : List String → Option (Place × FileTree)
  | [] => if t.hasDirectory here then some (here, t) else none
  | piece :: rest =>
    if !t.hasDirectory here then none
    else if piece == "" || piece == "." then t.makeSteps? here rest
    else if piece == ".." then t.makeSteps? here.dropLast rest
    else
      let next := here ++ [piece]
      if (t.find? next).isSome then t.makeSteps? next rest
      else (t.put next .directory).makeSteps? next rest

/-- Makes the directories of a path that are missing; none when a file is in the way. -/
def makeDirectories? (t : FileTree) (path : String) : Option FileTree :=
  (t.makeSteps? (t.start path) ((pieces path).map String.ofList)).map Prod.snd

/-- Writes a text to a file, whose directory must exist; none when that is not possible. -/
def writeText? (t : FileTree) (path text : String) : Option FileTree :=
  match ((pieces path).map String.ofList).reverse with
  | [] => none
  | name :: before =>
    if name == "" || name == "." || name == ".." then none
    else do
      let directory ← t.follow? (t.start path) before.reverse
      let place := directory ++ [name]
      if t.hasDirectory directory && !t.hasDirectory place then
        some (t.put place (.file (.text text)))
      else none

/-- A tree with nothing but the directory that relative paths start from. -/
def empty (current : Place) : FileTree :=
  let bare : FileTree := ⟨[], current⟩
  match bare.makeSteps? [] current with
  | some (_, t) => t
  | none => bare

/-- Puts an entry where a path leads to, and makes the directories above it; none when a file is in
the way. -/
def add? (t : FileTree) (path : String) (e : Entry) : Option FileTree := do
  let (directory, t) ← t.makeSteps? (t.start path) ((pieces path).map String.ofList).dropLast
  let name ← fileName? path
  return t.put (directory ++ [String.ofList name]) e

end FileTree
end DecoratedApi.Files
