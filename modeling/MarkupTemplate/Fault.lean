import MarkupTemplate.Atom.Literal
import MarkupTemplate.Failure
import MarkupTemplate.Token

/-!
# Faults of a template text

The ways in which a template text can be malformed, each with its wording.

* `FaultCause.message`: the wording of a cause.
* `Fault.toFailure`: the failure it leads to; a template error points into the source.
-/

namespace MarkupTemplate

/-- What can be wrong with a template text. -/
inductive FaultCause where
  | scan (cause : ScanCause)
  | expectedGroup
  | expectedKind (kind : String) (found : Token)
  | expectedValue (value : String) (found : Token)
  | expectedBefore (what : String)
  | expectedName (found : Token)
  | selfClosingCloseTag
  | expectedCloseTagEnd (found : Token)
  | expectedBraces
  | emptyExpression
  | badAttributeValue (found : Token)
  | expectedListLiteral
  | missingCondition (value : String)
  | expectedGroupPart
  | emptyClosure
  | unterminatedElement
  | unterminatedTag (name : String)
  | unterminatedComment
  | expectedPayloadPart (context : String)
  | emptyDeclaration
  | missingHead (what : String)
  | missingPattern
  | missingValue
  | orphanElse
  | bareWord (word : String)
  | unexpectedToken (value : String)
  | custom (message : String)

/-- The wording of a cause. -/
def FaultCause.message : FaultCause → String
  | scan cause => cause.message
  | expectedGroup => "Expected a bracket group"
  | expectedKind kind found => "Expected " ++ kind ++ ", found " ++ found.describe
  | expectedValue value found => "Expected " ++ Text.quote value ++ ", found " ++ found.describe
  | expectedBefore what => "Expected " ++ what
  | expectedName found => "Expected a name, found " ++ found.describe
  | selfClosingCloseTag => "Closing tag may not be self-closing"
  | expectedCloseTagEnd found => "Expected '>' after closing tag name, found " ++ found.describe
  | expectedBraces => "Expected an expression in braces"
  | emptyExpression => "Empty expression"
  | badAttributeValue found =>
    "Unrecognized attribute value starting with "
      ++ Text.quote (if found.value = "" then "end of input" else found.value)
  | expectedListLiteral => "Expected a literal in conditional list"
  | missingCondition value => "Missing condition for " ++ Text.quote value
  | expectedGroupPart => "Expected a literal or \x7bexpression\x7d in attribute group"
  | emptyClosure => "Empty closure body"
  | unterminatedElement => "Unterminated element, missing closing tag"
  | unterminatedTag name => "Unterminated tag <" ++ name
  | unterminatedComment => "Unterminated comment, missing '-->'"
  | expectedPayloadPart context => "Expected a literal or \x7bexpression\x7d in " ++ context
  | emptyDeclaration => "Empty declaration"
  | missingHead what => "Missing " ++ what ++ " expression"
  | missingPattern => "Missing pattern"
  | missingValue => "Missing value in let"
  | orphanElse => "'else' without a preceding 'if'"
  | bareWord word => "Unexpected bare word " ++ Text.quote word ++ ", text must be quoted"
  | unexpectedToken value => "Unexpected token " ++ Text.quote value
  | custom message => message

/-- A cause and the offset at which it is reported. -/
structure Fault where
  cause : FaultCause
  pos : Nat

namespace Fault

/-- The fault of a text that cannot be scanned. -/
def ofScan (f : ScanFault) : Fault := ⟨.scan f.cause, f.pos⟩

/-- The template error about a fault in the given source. -/
def toError (source : List Char) (f : Fault) : TemplateError :=
  .located .malformed f.cause.message f.pos (some source)

/-- The failure of a faulty source. A character code beyond the machine's integers is an error of
the host, every other fault a template error. -/
def toFailure (source : List Char) (f : Fault) : Failure :=
  match f.cause with
  | .scan .codeOverflow => .raised .overflow f.cause.message
  | _ => .template (f.toError source)

end Fault

end MarkupTemplate
