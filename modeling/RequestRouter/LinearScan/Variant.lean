import RequestRouter.Event
import RequestRouter.Route.Pattern

/-
  One regular expression for one concrete path.

  Key definitions include:
    * `ScanSource`
    * `ScanSource.ofPatterns`
    * `ScanVariant`
    * `ScanVariant.compile`
    * `ScanVariant.bindings?`
-/

------------------------------------------------------------
-- Sources
------------------------------------------------------------

namespace RequestRouter

/-
  The source of a path's regular expression, with the group
  of each parameter in path order.
-/
structure ScanSource where
  source : Text
  params : List (Text × Nat)
  deriving DecidableEq, Repr

namespace ScanSource

variable {E : Regex.Engine}

/- Put text in front of a source. -/
def after
    (front : Text)
    (later : ScanSource) : ScanSource :=
  { later with source := front ++ later.source }

/- Put the group of a parameter in front of a source. -/
def afterGroup
    (front name inner : Text)
    (group : Nat)
    (later : ScanSource) : ScanSource :=
  ⟨front ++ '(' :: inner ++ ')' :: later.source,
    (name, group) :: later.params⟩

/-
  The source of the patterns behind a text `front` that ties
  them to what is before; `group` is the next group. A last
  wildcard also takes the slash in front of it.
-/
def ofPatternsFrom
    (first : Bool)
    (group : Nat) :
    List (Pattern E) → ScanSource
  | [] => ⟨['$'], []⟩
  | pattern :: rest =>
      let front : Text := if first then [] else ['/']
      match pattern with
      | .literal text =>
          (ofPatternsFrom false group rest).after
            (front ++ Regex.escape text)
      | .param name =>
          (ofPatternsFrom false (group + 1) rest).afterGroup
            front name Pattern.segmentSource group
      | .constrained name constraint =>
          (ofPatternsFrom false
            (group + 1 + constraint.groups) rest).afterGroup
              front name constraint.source group
      | .wildcard =>
          (ofPatternsFrom false group rest).after <|
            if !rest.isEmpty then
              front ++ Pattern.segmentSource
            else if first then ['.', '*']
            else "(?:/.*)?".toList

/- The anchored source of a path's patterns. -/
def ofPatterns
    (patterns : List (Pattern E)) : ScanSource :=
  (ofPatternsFrom true 1 patterns).after ['^']

end ScanSource

end RequestRouter

------------------------------------------------------------
-- Variants
------------------------------------------------------------

namespace RequestRouter

/- Why a path gets no regular expression. -/
inductive ScanFault where
  | route (error : RouteError)
  | rejected (path : Text) (reason : Regex.Fault)
  deriving DecidableEq, Repr

namespace ScanFault

/- The error that a registration ends with. -/
def error : ScanFault → RouteError
  | .route error => error
  | .rejected path _ => .unsupportedPath path

/- The events that report a fault. -/
def events : ScanFault → List Event
  | .route _ => []
  | .rejected path reason =>
      [⟨.debug, "switchyard_router::linear",
        some "route regex rejected",
        [("path", .text (String.ofList path)),
          ("error", .text reason.message)]⟩]

end ScanFault

variable (E : Regex.Engine)

/- A compiled path, with the group of each parameter. -/
structure ScanVariant where
  program : E.Program
  params : List (Text × Nat)

variable {E}

namespace ScanVariant

/- Compile one concrete path. -/
def compile
    (path : Text) :
    Except ScanFault (ScanVariant E) :=
  match Pattern.parsePath path with
  | .error error => .error (.route error)
  | .ok patterns =>
      let source := ScanSource.ofPatterns (E := E) patterns
      match E.compile source.source with
      | .error reason => .error (.rejected path reason)
      | .ok program => .ok ⟨program, source.params⟩

/- What a path binds, if it matches. -/
def bindings?
    (variant : ScanVariant E)
    (path : Text) : Option (List (Text × Text)) :=
  (E.find variant.program path).map fun captures =>
    variant.params.filterMap fun (name, group) =>
      (captures.group? group).map (name, ·)

end ScanVariant

end RequestRouter
