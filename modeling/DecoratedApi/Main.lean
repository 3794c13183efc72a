import DecoratedApi.CommandLine.Options

/-!
# The program

Takes a picture of the files, runs on it, and writes what the run leaves. Nothing is decided here.
-/

namespace DecoratedApi.CommandLine

open Files

def helpText : String :=
  "Generate API metadata (or an OpenAPI document) from decorated TypeScript controllers\n\n" ++
  "Usage: [OPTIONS] [ENTRY]\n\n" ++
  "Options:\n" ++
  "  -c, --config <FILE>          Configuration file (YAML or JSON)\n" ++
  "  -i, --ignore <GLOB>          Glob pattern of source files to ignore (repeatable)\n" ++
  "  -e, --emit <EMIT>            Document to emit (metadata or openapi)\n" ++
  "  -f, --format <FORMAT>        Output format (yaml or json)\n" ++
  "  -o, --output <FILE>          Output file path (stdout if not specified)\n" ++
  "      --title <TITLE>          OpenAPI document title\n" ++
  "      --api-version <VERSION>  OpenAPI document version\n" ++
  "  -v, --verbose                Enable verbose output\n" ++
  "  -h, --help                   Print help\n" ++
  "  -V, --version                Print version"

def usageMessage : UsageError → String
  | .unknownArgument => "unexpected argument found"
  | .invalidValue => "a value is missing or invalid"
  | .repeated => "an argument cannot be used multiple times"
  | .unexpectedValue => "a flag does not take a value"
  | .helpWanted => helpText
  | .versionWanted => "0.1.0"

def placeOf (path : String) : Place :=
  ((pieces path).map String.ofList).filter fun piece => piece != "" && piece != "."

/-- Reads a file, if it is text. -/
def contentAt (path : String) : IO Content := do
  try return .text (← IO.FS.readFile path)
  catch _ => return .binary

/-- Adds the files below a directory, hidden ones and installed packages apart. -/
partial def addBelow (t : FileTree) (directory : IO.FS.DirEntry) : IO FileTree := do
  let path := directory.path.toString
  if ← directory.path.isDir then
    let mut t := t.put (placeOf path) .directory
    for next in ← directory.path.readDir do
      if isScanned next.fileName then t ← addBelow t next
    return t
  else return t.put (placeOf path) (.file (← contentAt path))

/-- A picture of the working directory and of the directories that the arguments name. -/
def picture (arguments : List String) : IO FileTree := do
  let here ← IO.currentDir
  let mut t := FileTree.empty (placeOf here.toString)
  for next in ← here.readDir do
    if isScanned next.fileName then t ← addBelow t next
  for argument in arguments do
    let above := if isAbsolute argument || (placeOf argument).contains ".." then parent? argument
      else none
    match above with
    | none => pure ()
    | some directory =>
      try
        let full ← IO.FS.realPath directory
        t := (t.makeDirectories? full.toString).getD t
        for next in ← full.readDir do
          if isScanned next.fileName then t ← addBelow t next
      catch _ => pure ()
  return t

def writeOutput (path text : String) : IO Unit := do
  match parent? path with
  | none => pure ()
  | some "" => pure ()
  | some above => IO.FS.createDirAll above
  IO.FS.writeFile path text

/-- Reports why nothing was written. -/
def fail (message : String) : IO UInt32 := do
  IO.eprintln ("Error: " ++ message)
  return 1

def run (given : Arguments) (files : FileTree) : IO UInt32 := do
  match given.options files with
  | .error cause => fail cause.message
  | .ok options =>
    match options.run files with
    | .error cause => fail cause.message
    | .ok report =>
      match options.output with
      | none => IO.print report.printed
      | some path =>
        match report.files.text? path with
        | some text => writeOutput path text
        | none => pure ()
      return 0

end DecoratedApi.CommandLine

open DecoratedApi.CommandLine in
/-- Runs the program with the arguments of the command line. -/
def main (arguments : List String) : IO UInt32 := do
  match Arguments.read arguments with
  | .error .helpWanted =>
    IO.println (usageMessage .helpWanted)
    return 0
  | .error .versionWanted =>
    IO.println (usageMessage .versionWanted)
    return 0
  | .error cause =>
    IO.eprintln ("error: " ++ usageMessage cause)
    return 2
  | .ok given => run given (← picture arguments)
