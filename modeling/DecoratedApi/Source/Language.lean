import DecoratedApi.Source.Preference
import DecoratedApi.Source.Rules.Annotated
import DecoratedApi.Source.Rules.Declarations
import DecoratedApi.Source.Rules.Expressions
import DecoratedApi.Source.Rules.Functions
import DecoratedApi.Source.Rules.Literals
import DecoratedApi.Source.Rules.Markup
import DecoratedApi.Source.Rules.Members
import DecoratedApi.Source.Rules.Modules
import DecoratedApi.Source.Rules.Operations
import DecoratedApi.Source.Rules.Parameters
import DecoratedApi.Source.Rules.Statements
import DecoratedApi.Source.Rules.Types

/-!
# The language of source texts

The grammar of source texts, with markup and without. The order of the phrases counts: of two
readings that weigh the same, the one whose phrases come first is kept.
-/

namespace DecoratedApi.Source

/-- The grammar of source texts. -/
def language (markup : Bool) : Grammar Token where
  phrases :=
    modulePhrases ++ statementPhrases ++ expressionPhrases markup ++ markupPhrases ++
      functionPhrases ++ operationPhrases ++ literalPhrases ++ memberPhrases ++ annotatedPhrases ++
      declarationPhrases ++ parameterPhrases ++ typePhrases
  finish := .finish
  word := .name
  extras := [.comment, .markupComment]
  contextual := [.lineEnd, .templateText, .question, .markupComment, .markupText, .signatureEnd]
  orders := preferences

end DecoratedApi.Source
