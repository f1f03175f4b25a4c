import RequestRouter.Route.Pattern

/-
  The edges of the segment tree.

  A path becomes a list of steps, each with the edge that
  its segment follows and the name that it binds.

  Key definitions include:
    * `Edge`
    * `Edge.spans`
    * `Step`
    * `Step.ofPatterns`
    * `Step.covers`
-/

------------------------------------------------------------
-- Edges
------------------------------------------------------------

namespace RequestRouter

/-
  How a segment is matched in a combined expression. A
  capture knows the number of groups inside its source. The
  tail takes any rest of a path, and `any` the whole path.
-/
inductive Edge where
  | literal (text : Text)
  | capture (source : Text) (groups : Nat)
  | tail
  | any
  deriving DecidableEq, Repr

namespace Edge

/- The capture of one nonempty segment. -/
def segment : Edge :=
  .capture Pattern.segmentSource 0

/- Whether an edge is a literal. -/
def isLiteral : Edge → Bool
  | .literal _ => true
  | _ => false

/- Whether an edge is a capture. -/
def isCapture : Edge → Bool
  | .capture _ _ => true
  | _ => false

/- Whether an edge takes any rest. -/
def isOpenEnded : Edge → Bool
  | .tail | .any => true
  | _ => false

/-
  Whether an edge may take more than one segment. Any
  constraint of a route's author may admit a slash.
-/
def spans : Edge → Bool
  | .capture source _ => source != Pattern.segmentSource
  | _ => false

/- The place of an edge among its siblings, by kind. -/
def rank : Edge → Nat
  | .literal _ => 0
  | .capture _ _ => 1
  | .tail => 2
  | .any => 3

/-
  The order of siblings: by kind, and literals by the code
  points of their text.
-/
def precedes
    (a b : Edge) : Bool :=
  match a, b with
  | .literal x, .literal y => !List.lex y x (· < ·)
  | _, _ => a.rank ≤ b.rank

end Edge

end RequestRouter

------------------------------------------------------------
-- Steps
------------------------------------------------------------

namespace RequestRouter

/- One segment of a route on its way into the tree. -/
structure Step where
  edge : Edge
  name : Option Text
  deriving DecidableEq, Repr

namespace Step

variable {E : Regex.Engine}

/- The edge of a wildcard, by its place in the path. -/
def wildcardEdge
    (first last : Bool) : Edge :=
  if !last then .segment
  else if first then .any
  else .tail

/-
  The steps of the patterns of a path. A constraint `.*` is
  unsupported: flattened, it looks like a trailing wildcard.
-/
def ofPatternsFrom
    (path : Text)
    (first : Bool) :
    List (Pattern E) → Except RouteError (List Step)
  | [] => .ok []
  | pattern :: rest => do
      let edge ←
        match pattern with
        | .literal text => .ok (Edge.literal text)
        | .param _ => .ok Edge.segment
        | .constrained _ constraint =>
            if constraint.source = ['.', '*'] then
              .error (.unsupportedPath path)
            else
              .ok (Edge.capture constraint.source
                constraint.groups)
        | .wildcard => .ok (wildcardEdge first rest.isEmpty)
      let steps ← ofPatternsFrom path false rest
      .ok (⟨edge, pattern.name?⟩ :: steps)

/- The steps of a path. -/
def ofPatterns
    (path : Text)
    (patterns : List (Pattern E)) :
    Except RouteError (List Step) :=
  ofPatternsFrom path true patterns

/- Whether every step is literal. -/
def allLiteral
    (steps : List Step) : Bool :=
  steps.all (·.edge.isLiteral)

/-
  Whether a route that ends in a wildcard matches all that
  another matches: what stands in front of its wildcard
  starts the other, edge by edge.
-/
def covers
    (wildcard leaf : List Step) : Bool :=
  wildcard.getLast?.any (·.edge.isOpenEnded) &&
    (wildcard.dropLast.map (·.edge)).isPrefixOf
      (leaf.map (·.edge))

end Step

end RequestRouter
