import RequestRouter.RouteTable.Basic
import RequestRouter.Yaml.Document

/-
  Reading route tables from YAML.

  An absent node stands for an empty mapping or sequence.
  Names and texts may be any scalar; flags must be plain.
  Tables and routes have no other keys than theirs, and
  routes have all of them; settings may have more and less.

  Key definitions include:
    * `DecodeError`
    * `RouterConfig.ofNode`
    * `RouteTable.ofNode`
    * `RouteTable.parse`
-/

------------------------------------------------------------
-- Errors
------------------------------------------------------------

namespace RequestRouter

/- Why a text has no route table. -/
inductive DecodeError where
  | yaml (fault : Yaml.Fault)
  | expected (what : String)
  | unknownKey (key : Text)
  | repeatedKey (key : String)
  | missingKey (key : String)
  | unknownStrategy (name : String)
  deriving DecidableEq, Repr

namespace DecodeError

/- The report of an error. -/
def message : DecodeError → String
  | .yaml fault => fault.message
  | .expected what => "invalid type: expected " ++ what
  | .unknownKey key =>
      "unknown field `" ++ String.ofList key ++ "`"
  | .repeatedKey key => "duplicate field `" ++ key ++ "`"
  | .missingKey key => "missing field `" ++ key ++ "`"
  | .unknownStrategy name =>
      "unknown variant `" ++ name ++ "`"

end DecodeError

end RequestRouter

------------------------------------------------------------
-- Nodes
------------------------------------------------------------

namespace RequestRouter

namespace Yaml

namespace Node

/- The text of a scalar. -/
def text : Node → Except DecodeError Text
  | .scalar _ value => .ok value
  | _ => .error (.expected "a string")

/- The flag of a plain scalar. -/
def flag : Node → Except DecodeError Bool
  | .scalar true value =>
      if ["true", "True", "TRUE"].contains
          (String.ofList value) then .ok true
      else if ["false", "False", "FALSE"].contains
          (String.ofList value) then .ok false
      else .error (.expected "a boolean")
  | _ => .error (.expected "a boolean")

/- The items of a sequence, read in order. -/
def list
    {α : Type}
    (item : Node → Except DecodeError α) :
    Node → Except DecodeError (List α)
  | .sequence items => items.mapM item
  | node =>
      if node.isAbsent then .ok []
      else .error (.expected "a sequence")

/- The entries of a mapping, whose keys are scalars. -/
def fields :
    Node → Except DecodeError (List (Text × Node))
  | .mapping entries =>
      entries.mapM fun (key, value) => do
        let name ← key.text
        .ok (name, value)
  | node =>
      if node.isAbsent then .ok []
      else .error (.expected "a mapping")

end Node

end Yaml

/- Fields have no other names than the given ones. -/
def checkKeys
    (known : List String)
    (fields : List (Text × Yaml.Node)) :
    Except DecodeError Unit :=
  match fields.find? fun (key, _) =>
      !known.contains (String.ofList key) with
  | some (key, _) => .error (.unknownKey key)
  | none => .ok ()

/- The field of a name, which may be there once, read. -/
def field?
    {α : Type}
    (read : Yaml.Node → Except DecodeError α)
    (fields : List (Text × Yaml.Node))
    (name : String) : Except DecodeError (Option α) :=
  match fields.filter (·.1 == name.toList) with
  | [] => .ok none
  | [(_, node)] => some <$> read node
  | _ => .error (.repeatedKey name)

/- The field of a name, which must be there once, read. -/
def field
    {α : Type}
    (read : Yaml.Node → Except DecodeError α)
    (fields : List (Text × Yaml.Node))
    (name : String) : Except DecodeError α := do
  match ← field? read fields name with
  | some value => .ok value
  | none => .error (.missingKey name)

end RequestRouter

------------------------------------------------------------
-- Settings and Tables
------------------------------------------------------------

namespace RequestRouter

namespace Strategy

/- The strategy that a scalar names. -/
def ofNode
    (node : Yaml.Node) : Except DecodeError Strategy := do
  let name := String.ofList (← node.text)
  match ofName? name with
  | some strategy => .ok strategy
  | none => .error (.unknownStrategy name)

end Strategy

namespace RouterConfig

/- The settings that a mapping holds. -/
def ofNode
    (node : Yaml.Node) :
    Except DecodeError RouterConfig := do
  let fields ← node.fields
  let strict ← field? Yaml.Node.flag fields "strict"
  let strategies ←
    field? (Yaml.Node.list Strategy.ofNode) fields
      "strategies"
  let initial : RouterConfig := {}
  .ok { strict := strict.getD initial.strict
        strategies := strategies.getD initial.strategies }

/- Read settings from YAML. -/
def parse
    (text : Text) : Except DecodeError RouterConfig := do
  let node ← (Yaml.parse text).mapError .yaml
  ofNode node

end RouterConfig

namespace RouteSpec

/- The route that a mapping holds. -/
def ofNode
    (node : Yaml.Node) :
    Except DecodeError RouteSpec := do
  let fields ← node.fields
  checkKeys ["method", "path", "handler"] fields
  let method ← field Yaml.Node.text fields "method"
  let path ← field Yaml.Node.text fields "path"
  let handler ← field Yaml.Node.text fields "handler"
  .ok { method, path, handler }

end RouteSpec

namespace RouteTable

/- The table that a mapping holds. -/
def ofNode
    (node : Yaml.Node) :
    Except DecodeError RouteTable := do
  let fields ← node.fields
  checkKeys ["router", "routes"] fields
  let config ← field? RouterConfig.ofNode fields "router"
  let routes ←
    field? (Yaml.Node.list RouteSpec.ofNode) fields "routes"
  .ok { config := config.getD {}
        routes := routes.getD [] }

/- Read a table from YAML. -/
def parse
    (text : Text) : Except DecodeError RouteTable := do
  let node ← (Yaml.parse text).mapError .yaml
  ofNode node

end RouteTable

end RequestRouter
