import DecoratedApi.CommandLine.Arguments
import DecoratedApi.Files.Load
import DecoratedApi.Route.ControllerOf
import DecoratedApi.Settings.Basic

/-!
# A run

What a run does: it loads the program, generates the metadata and writes a document. The command
line wins over the settings file, and the patterns of both count.
-/

namespace DecoratedApi.CommandLine

open Files

structure Options where
  entry : String
  ignore : List String
  emit : DocumentKind
  format : DocumentFormat
  output : Option String
  title : Option String
  version : Option String

/-- Reads the settings file at a path. The paths in it are relative to its directory. -/
def settingsAt (t : FileTree) (path : String) : Except LoadError Settings :=
  match t.text? path with
  | none => .error (.settingsUnreadable path)
  | some content =>
    match Settings.read? content with
    | none => .error (.settingsMalformed path)
    | some s =>
      let base := (parent? path).getD ""
      .ok { s with
        entryFile := s.entryFile.map (join base)
        outputFile := s.outputFile.map (join base) }

/-- Lays the command line over the settings. -/
def Arguments.over (a : Arguments) (s : Settings) : Except LoadError Options :=
  match a.entry <|> s.entryFile with
  | none => .error .nothingToLoad
  | some entry => .ok {
      entry
      ignore := s.ignore ++ a.ignore
      emit := (a.emit <|> s.emit).getD .metadata
      format := (a.format <|> s.format).getD .yaml
      output := a.output <|> s.outputFile
      title := a.title <|> s.title
      version := a.version <|> s.version }

/-- The options of a run. The entry must exist. -/
def Arguments.options (a : Arguments) (t : FileTree) : Except LoadError Options := do
  let settings ← match a.config with
    | some path => settingsAt t path
    | none => pure {}
  let options ← a.over settings
  if (t.locate? options.entry).isNone then throw (.noEntry options.entry)
  return options

/-- What an API description says about itself. -/
def Options.info (o : Options) : OpenApi.Info :=
  let standard : OpenApi.Info := {}
  { standard with
    title := o.title.getD standard.title
    version := o.version.getD standard.version }

inductive RunError
  | load (cause : LoadError)
  | generate (cause : GenerateError)
  | endless

def RunError.message : RunError → String
  | load cause => cause.message
  | generate cause => cause.message
  | endless => "Types nest without end"

def Options.document (o : Options) (t : FileTree) : Except RunError String := do
  let program ← (t.load o.entry o.ignore).mapError .load
  match program.metadata with
  | none => throw .endless
  | some (.error cause) => throw (.generate cause)
  | some (.ok metadata) => return o.format.write (metadata.document o.info o.emit)

/-- What a run leaves: the files, and what it prints. -/
structure Report where
  files : FileTree
  printed : String

/-- Runs. The document goes to the output file, or is printed when there is none. -/
def Options.run (o : Options) (t : FileTree) : Except RunError Report := do
  let text ← o.document t
  match o.output with
  | none => return ⟨t, text ++ "\n"⟩
  | some path => return ⟨← (t.write path text).mapError .load, ""⟩

end DecoratedApi.CommandLine
