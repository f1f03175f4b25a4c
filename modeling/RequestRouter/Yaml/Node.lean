import RequestRouter.Text

/-
  The nodes of YAML documents, and why a text is not one.

  Key definitions include:
    * `Yaml.Node`
    * `Yaml.Fault`
    * `Yaml.Fault.message`
-/

------------------------------------------------------------
-- Nodes
------------------------------------------------------------

namespace RequestRouter

namespace Yaml

/-
  A node. Plain scalars are those without quotes that are
  not block scalars; an absent node is an empty plain one.
-/
inductive Node where
  | scalar (plain : Bool) (text : Text)
  | sequence (items : List Node)
  | mapping (entries : List (Node × Node))
  deriving Inhabited, Repr

namespace Node

/- The node where nothing is written. -/
def absent : Node :=
  .scalar true []

/- Whether a node is the absent one. -/
def isAbsent : Node → Bool
  | .scalar true [] => true
  | _ => false

end Node

end Yaml

end RequestRouter

------------------------------------------------------------
-- Faults
------------------------------------------------------------

namespace RequestRouter

namespace Yaml

/- Why a text is not a single YAML document. -/
inductive Fault where
  | controlCharacter
  | directive
  | severalDocuments
  | unexpectedCharacter
  | tabIndentation
  | indentation
  | mappingNotAllowed
  | sequenceNotAllowed
  | missingColon
  | missingComma
  | anchorName
  | unknownAlias
  | escape
  | unclosedQuote
  | blockHeader
  | unclosedFlow
  | nesting
  deriving DecidableEq, Repr

namespace Fault

/- The report of a fault. -/
def message : Fault → String
  | .controlCharacter =>
      "control characters are not allowed"
  | .directive => "found an unknown directive"
  | .severalDocuments =>
      "more than one document is not supported"
  | .unexpectedCharacter =>
      "found a character that cannot start any token"
  | .tabIndentation =>
      "found a tab character that violates indentation"
  | .indentation => "found wrong indentation"
  | .mappingNotAllowed =>
      "mapping values are not allowed in this context"
  | .sequenceNotAllowed =>
      "sequence entries are not allowed in this context"
  | .missingColon => "could not find an expected ':'"
  | .missingComma =>
      "did not find an expected comma or closing bracket"
  | .anchorName => "found an anchor or alias without a name"
  | .unknownAlias => "found an unknown anchor"
  | .escape => "found an unknown escape character"
  | .unclosedQuote => "found an unclosed quoted scalar"
  | .blockHeader => "found a wrong block scalar header"
  | .unclosedFlow => "found an unclosed flow collection"
  | .nesting => "the document is nested too deeply"

end Fault

end Yaml

end RequestRouter
