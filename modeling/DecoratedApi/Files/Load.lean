import DecoratedApi.Files.Glob
import DecoratedApi.Files.Tree
import DecoratedApi.Source.Unit

/-!
# Loading a program

A program starts from a file, whose imports are followed breadth first, or is all the sources under
a directory. Patterns leave units out; the imports of such a unit are followed all the same.
-/

namespace DecoratedApi.Files

/-- Why a file could not be used. -/
inductive LoadError
  | malformed (path : String)
  | unreadable (path : String)
  | noEntry (path : String)
  | noDirectory (path : String)
  | badPattern (pattern : String)
  | cannotMake (path : String)
  | cannotWrite (path : String)
  | nothingToLoad
  | settingsUnreadable (path : String)
  | settingsMalformed (path : String)
deriving DecidableEq, Repr

def LoadError.message : LoadError → String
  | malformed path => "Failed to parse TypeScript syntax in file: " ++ path
  | unreadable path => "Failed to read file: " ++ path
  | noEntry path => "Entry point does not exist: " ++ path
  | noDirectory path => "Failed to access directory: " ++ path
  | badPattern pattern => "Invalid ignore pattern: " ++ pattern
  | cannotMake path => "Failed to create directory: " ++ path
  | cannotWrite path => "Failed to write to file: " ++ path
  | nothingToLoad => "No entry point given; pass ENTRY or set entryFile in the config file"
  | settingsUnreadable path => "Failed to read config file: " ++ path
  | settingsMalformed path => "Invalid config file: " ++ path

/-! ## Scanning a directory -/

/-- Whether a scan looks at a name: hidden names and installed packages are passed over. -/
def isScanned (name : String) : Bool := name.toList.head? != some '.' && name != "node_modules"

/-- What remains of a place below another one. -/
def Place.below? : Place → Place → Option Place
  | [], p => some p
  | _ :: _, [] => none
  | a :: root, b :: p => if a = b then Place.below? root p else none

/-- Whether one place comes before another one, or is the same. -/
def Place.le (a b : Place) : Bool := !(decide (b < a))

namespace FileTree

/-- The places of the sources below a directory, relative to it and in order. -/
def sourcesBelow (t : FileTree) (root : Place) : List Place :=
  let found := t.entries.filterMap fun (place, entry) =>
    match entry, root.below? place with
    | .file _, some rest =>
      if rest.all isScanned && rest.getLast?.any isSource then some rest else none
    | _, _ => none
  found.mergeSort Place.le

/-- The paths of the sources under a path, in order. -/
def scan (t : FileTree) (path : String) : Except LoadError (List String) :=
  match t.locate? path with
  | none => .error (.noDirectory path)
  | some place =>
    if t.hasFile place then .ok (if isSource path then [path] else [])
    else .ok ((t.sourcesBelow place).map fun rest => join path ("/".intercalate rest))

/-! ## Following imports -/

/-- The paths that an import may mean, the best one first. -/
def importCandidates (base specifier : String) : List String :=
  let target := join base specifier
  let same := if isSource target then [target] else []
  let compiled := match Text.dropTail? ".js".toList specifier.toList with
    | some stem =>
      let stem := String.ofList stem
      [join base (stem ++ ".ts"), join base (stem ++ ".tsx")]
    | none => []
  same ++ compiled ++ ["ts", "tsx", "d.ts"].map (target ++ "." ++ ·) ++
    ["index.ts", "index.tsx", "index.d.ts"].map (join target)

/-- The file that an import of the unit at a place means. -/
def importOf? (t : FileTree) (place : Place) (specifier : String) : Option Place := do
  let path ← (importCandidates (Place.path place.dropLast) specifier).find? t.isFile
  t.locate? path

def unitAt (t : FileTree) (place : Place) : Except LoadError SourceUnit :=
  match t.textAt? place with
  | none => .error (.unreadable place.path)
  | some text =>
    match Source.readUnit? place.path text with
    | none => .error (.malformed place.path)
    | some unit => .ok unit

/-- The places that have not been seen, each once. -/
def fresh (seen : List Place) : List Place → List Place
  | [] => []
  | place :: rest =>
    if seen.contains place then fresh seen rest else place :: fresh (seen ++ [place]) rest

/-- Reads the units in the queue and, behind them, those that they import. The fuel bounds their
number. -/
def walk (t : FileTree) : (fuel : Nat) → (queue seen : List Place) →
    Except LoadError (List SourceUnit)
  | _, [], _ => .ok []
  | 0, _ :: _, _ => .ok []
  | fuel + 1, place :: queue, seen => do
    let unit ← t.unitAt place
    let found := fresh seen (unit.imports.filterMap (t.importOf? place))
    let rest ← t.walk fuel (queue ++ found) (seen ++ found)
    return unit :: rest

/-- Reads the unit at a place and all that it imports, breadth first. Each place is read once, so
there are at most as many units as entries. -/
def reachable (t : FileTree) (place : Place) : Except LoadError (List SourceUnit) :=
  t.walk (t.entries.length + 1) [place] [place]

/-! ## Programs -/

/-- The place that patterns are relative to; none when the entry has no directory part. -/
def patternRoot? (t : FileTree) (entry : String) : Option Place :=
  if t.isDirectory entry then t.locate? entry else (parent? entry).bind t.locate?

/-- Whether a pattern describes a path, or what remains of it below the root. -/
def isIgnored (root : Option Place) (globs : List Glob) (path : String) : Bool :=
  let place : Place := ((pieces path).map String.ofList).drop 1
  let relative := (root.bind (·.below? place)).map ("/".intercalate ·)
  globs.any fun glob => glob.describes path || relative.any glob.describes

def readGlobs : List String → Except LoadError (List Glob)
  | [] => .ok []
  | pattern :: rest =>
    match Glob.read? pattern with
    | none => .error (.badPattern pattern)
    | some glob => do return glob :: (← readGlobs rest)

/-- Reads the units of a program, before any is left out. -/
def unitsFrom (t : FileTree) (entry : String) : Except LoadError (List SourceUnit) :=
  match t.locate? entry with
  | none => .error (.noEntry entry)
  | some place =>
    if t.hasDirectory place then (t.sourcesBelow place).mapM fun rest => t.unitAt (place ++ rest)
    else t.reachable place

/-- Loads the program that starts from a file or a directory, without the units that a pattern
describes. -/
def load (t : FileTree) (entry : String) (ignore : List String) : Except LoadError Program := do
  let globs ← readGlobs ignore
  let units ← t.unitsFrom entry
  return ⟨units.filter fun unit => !isIgnored (t.patternRoot? entry) globs unit.path⟩

/-! ## Writing -/

/-- Writes a text to a file, and makes the directories above it. -/
def write (t : FileTree) (path text : String) : Except LoadError FileTree := do
  let t ← match parent? path with
    | none => pure t
    | some "" => pure t
    | some above =>
      match t.makeDirectories? above with
      | some t => pure t
      | none => throw (.cannotMake above)
  match t.writeText? path text with
  | some t => return t
  | none => throw (.cannotWrite path)

end FileTree
end DecoratedApi.Files
