import DecoratedApi.Calendar.Date
import DecoratedApi.Calendar.Timestamp
import DecoratedApi.CommandLine.Arguments
import DecoratedApi.CommandLine.Options
import DecoratedApi.Declaration.Decl
import DecoratedApi.Declaration.Expr
import DecoratedApi.Declaration.TypeNode
import DecoratedApi.Doc.Comment
import DecoratedApi.Document.Emission
import DecoratedApi.Document.Fields
import DecoratedApi.Document.MetadataJson
import DecoratedApi.Error
import DecoratedApi.Files.Glob
import DecoratedApi.Files.Load
import DecoratedApi.Files.Path
import DecoratedApi.Files.Tree
import DecoratedApi.Grammar.Parse
import DecoratedApi.Grammar.Production
import DecoratedApi.Grammar.Rule
import DecoratedApi.Grammar.Stack
import DecoratedApi.Grammar.State
import DecoratedApi.Grammar.Table
import DecoratedApi.Grammar.Tree
import DecoratedApi.Json.Printer
import DecoratedApi.Json.Reader
import DecoratedApi.Json.Value
import DecoratedApi.Literal.Shape
import DecoratedApi.Literal.Value
import DecoratedApi.Main
import DecoratedApi.Number.Binary64
import DecoratedApi.Number.Decimal
import DecoratedApi.OpenApi.Document
import DecoratedApi.OpenApi.Schema
import DecoratedApi.OrderedMap
import DecoratedApi.Reference.Generic
import DecoratedApi.Reference.Resolver
import DecoratedApi.Reference.Table
import DecoratedApi.Route.ControllerOf
import DecoratedApi.Route.Metadata
import DecoratedApi.Route.MethodOf
import DecoratedApi.Route.ParameterOf
import DecoratedApi.Route.Vocabulary
import DecoratedApi.Schema.ApiType
import DecoratedApi.Schema.Definition
import DecoratedApi.Schema.Format
import DecoratedApi.Schema.Validation
import DecoratedApi.Settings.Basic
import DecoratedApi.Source.ClassOf
import DecoratedApi.Source.Context
import DecoratedApi.Source.ExprOf
import DecoratedApi.Source.Language
import DecoratedApi.Source.Lexeme
import DecoratedApi.Source.Lexicon
import DecoratedApi.Source.Literal
import DecoratedApi.Source.Node
import DecoratedApi.Source.Preference
import DecoratedApi.Source.Reading
import DecoratedApi.Source.Rules.Annotated
import DecoratedApi.Source.Rules.Declarations
import DecoratedApi.Source.Rules.Expressions
import DecoratedApi.Source.Rules.Functions
import DecoratedApi.Source.Rules.Literals
import DecoratedApi.Source.Rules.Markup
import DecoratedApi.Source.Rules.Members
import DecoratedApi.Source.Rules.Modules
import DecoratedApi.Source.Rules.Operations
import DecoratedApi.Source.Rules.Parameters
import DecoratedApi.Source.Rules.Statements
import DecoratedApi.Source.Rules.Types
import DecoratedApi.Source.Token
import DecoratedApi.Source.TypeOf
import DecoratedApi.Source.Unit
import DecoratedApi.Text.Blank
import DecoratedApi.Text.Words
import DecoratedApi.Yaml.BlockText
import DecoratedApi.Yaml.Node
import DecoratedApi.Yaml.Place
import DecoratedApi.Yaml.Plain
import DecoratedApi.Yaml.Printer
import DecoratedApi.Yaml.Quoted
import DecoratedApi.Yaml.Scalar
import DecoratedApi.Yaml.Token
import DecoratedApi.Yaml.Tokens
import DecoratedApi.Proofs.Lookup
import DecoratedApi.Proofs.Plan
import DecoratedApi.Proofs.Steps
import DecoratedApi.Proofs.Growth
import DecoratedApi.Proofs.WellFormed
import DecoratedApi.Proofs.Advance
import DecoratedApi.Proofs.Finish
import DecoratedApi.Proofs.Walk
import DecoratedApi.Proofs.Names
import DecoratedApi.Proofs.Arrivals
import DecoratedApi.Proofs.Depth
import DecoratedApi.Proofs.Calls
import DecoratedApi.Proofs.Inheritance
import DecoratedApi.Proofs.Referent
import DecoratedApi.Proofs.Keys
import DecoratedApi.Proofs.Methods
import DecoratedApi.Proofs.Operations
import DecoratedApi.Proofs.Components
import DecoratedApi.Proofs.Declared
import DecoratedApi.Proofs.Origin
import DecoratedApi.Proofs.Reach
import DecoratedApi.Proofs.VisitingOrder
import DecoratedApi.Proofs.Location
import DecoratedApi.Proofs.Relevance
import DecoratedApi.Proofs.RoundTrip
import DecoratedApi.Proofs.Placement
import DecoratedApi.Proofs.Trace
import DecoratedApi.Proofs.Permanence
import DecoratedApi.Proofs.Flattening
import DecoratedApi.Proofs.Imports
import DecoratedApi.Proofs.Parts
import DecoratedApi.Proofs.Dependence
import DecoratedApi.Proofs.Termination
import DecoratedApi.Proofs.Instances
import DecoratedApi.Proofs.RouteTable
import DecoratedApi.Proofs.Unions
import DecoratedApi.Proofs.Returns
import DecoratedApi.Proofs.Listed
import DecoratedApi.Proofs.OwnNames
import DecoratedApi.Proofs.WholeNumbers
import DecoratedApi.Proofs.Moments
import DecoratedApi.Proofs.Coercion
import DecoratedApi.Proofs.Evaluation
import DecoratedApi.Proofs.Trimming
import DecoratedApi.Proofs.DocLayout
import DecoratedApi.Proofs.ParameterDocs
import DecoratedApi.Proofs.Escapes
import DecoratedApi.Proofs.Outstanding
import DecoratedApi.Proofs.LeftBiased
import DecoratedApi.Proofs.Substitution
import DecoratedApi.Proofs.Paths
