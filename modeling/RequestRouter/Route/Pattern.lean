import RequestRouter.Path.Split
import RequestRouter.Regex.Engine
import RequestRouter.Route.Error

/-
  The patterns that the segments of a route stand for.

  A segment is `*`, a parameter `:name`, a constrained
  parameter `:name{regex}`, or literal text. Text that only
  resembles a parameter is literal.

  Key definitions include:
    * `SegmentShape`
    * `SegmentShape.ofText`
    * `Constraint`
    * `Pattern`
    * `Pattern.label`
    * `Pattern.segmentSource`
    * `Pattern.parse`
    * `Pattern.parsePath`
-/

------------------------------------------------------------
-- Shapes
------------------------------------------------------------

namespace RequestRouter

/- The form of a segment, before its constraint is compiled. -/
inductive SegmentShape where
  | literal
  | wildcard
  | param (name : Text)
  | constrained (name source : Text)
  deriving DecidableEq, Repr

namespace SegmentShape

/-
  The form of what stands behind a colon: a name without
  braces, and perhaps a nonempty constraint in braces.
-/
def ofBody
    (body : Text) : SegmentShape :=
  let name := body.takeWhile (· != '{')
  if name.isEmpty || name.contains '}' then .literal
  else
    match body.dropWhile (· != '{') with
    | [] => .param name
    | _ :: inner =>
        match Text.stripSuffix? '}' inner with
        | some (c :: source) =>
            .constrained name (c :: source)
        | _ => .literal

/- The form of a raw segment. -/
def ofText : Text → SegmentShape
  | ['*'] => .wildcard
  | ':' :: body => ofBody body
  | _ => .literal

end SegmentShape

end RequestRouter

------------------------------------------------------------
-- Patterns
------------------------------------------------------------

namespace RequestRouter

variable (E : Regex.Engine)

/- A constraint as written, with its anchored program. -/
structure Constraint where
  source : Text
  program : E.Program

/- What a segment matches, and the name that it binds. -/
inductive Pattern where
  | literal (text : Text)
  | param (name : Text)
  | constrained (name : Text) (constraint : Constraint E)
  | wildcard

variable {E}

namespace Constraint

/- The pattern that ties a constraint to both ends. -/
def anchored
    (source : Text) : Text :=
  "^(?:".toList ++ source ++ ")$".toList

/- Compile a constraint. -/
def compile
    (source : Text) :
    Except Regex.Fault (Constraint E) := do
  let program ← E.compile (anchored source)
  .ok ⟨source, program⟩

/- Whether a text satisfies a constraint. -/
def isMatch
    (constraint : Constraint E)
    (text : Text) : Bool :=
  E.isMatch constraint.program text

/- The number of groups inside a constraint. -/
def groups
    (constraint : Constraint E) : Nat :=
  E.groups constraint.program

end Constraint

namespace Pattern

/- The parameter that a pattern binds. -/
def name? : Pattern E → Option Text
  | .param name | .constrained name _ => some name
  | .literal _ | .wildcard => none

/- Whether a pattern matches more than its own text. -/
def isDynamic : Pattern E → Bool
  | .literal _ => false
  | _ => true

/- The regular expression of any nonempty segment. -/
def segmentSource : Text :=
  ['[', '^', '/', ']', '+']

/- The segment as written. -/
def label : Pattern E → Text
  | .literal text => text
  | .param name => ':' :: name
  | .constrained name constraint =>
      ':' :: name ++ '{' :: constraint.source ++ ['}']
  | .wildcard => ['*']

end Pattern

end RequestRouter

------------------------------------------------------------
-- Reading Patterns
------------------------------------------------------------

namespace RequestRouter

variable {E : Regex.Engine}

namespace Pattern

/- The pattern of a raw segment. -/
def parse
    (raw : Text) :
    Except RouteError (Pattern E) :=
  match SegmentShape.ofText raw with
  | .literal => .ok (.literal raw)
  | .wildcard => .ok .wildcard
  | .param name => .ok (.param name)
  | .constrained name source =>
      match Constraint.compile source with
      | .ok constraint => .ok (.constrained name constraint)
      | .error reason => .error (.invalidConstraint raw reason)

/- The first name that also stands earlier in the list. -/
def firstRepeated
    (seen : List Text) :
    List Text → Option Text
  | [] => none
  | name :: rest =>
      if seen.contains name then some name
      else firstRepeated (name :: seen) rest

/-
  The patterns of a registered path. No parameter may be
  bound twice in it.
-/
def parsePath
    (path : Text) :
    Except RouteError (List (Pattern E)) := do
  let patterns ← (Path.split path).mapM parse
  match firstRepeated [] (patterns.filterMap name?) with
  | some name => .error (.duplicateParam name path)
  | none => .ok patterns

/- Whether some segment of a path is not literal. -/
def anyDynamic
    (patterns : List (Pattern E)) : Bool :=
  patterns.any isDynamic

end Pattern

end RequestRouter
