import DecoratedApi.Document.MetadataJson
import DecoratedApi.OpenApi.Document
import DecoratedApi.Yaml.Printer

/-!
# The document as text

Which document is written, and in which format.
-/

namespace DecoratedApi

inductive DocumentKind
  | metadata
  | openapi
deriving DecidableEq, Repr

def DocumentKind.text : DocumentKind → String
  | metadata => "metadata"
  | openapi => "openapi"

def DocumentKind.ofText? (word : String) : Option DocumentKind :=
  [metadata, openapi].find? (·.text == word)

inductive DocumentFormat
  | yaml
  | json
deriving DecidableEq, Repr

def DocumentFormat.text : DocumentFormat → String
  | yaml => "yaml"
  | json => "json"

def DocumentFormat.ofText? (word : String) : Option DocumentFormat :=
  [yaml, json].find? (·.text == word)

def DocumentFormat.write (format : DocumentFormat) (document : Json) : String :=
  match format with
  | yaml => Yaml.document document
  | json => document.pretty

/-- The document of a kind. Only an API description has a title and a version. -/
def Metadata.document (m : Metadata) (info : OpenApi.Info) : DocumentKind → Json
  | .metadata => m.toJson
  | .openapi => (OpenApi.Document.addMetadata { info } m).toJson

end DecoratedApi
