import RequestRouter.Method
import RequestRouter.Path.Optional
import RequestRouter.Route.Match
import RequestRouter.SegmentTree.Flatten

/-
  Planning the combined expression of one method.

  Each distinct path of the method's routes is a leaf. A
  leaf is owned by the routes that have the same path or a
  wildcard path that covers it, so that one leaf answers for
  all routes that match. Literal leaves are kept in a table,
  the others in a segment tree.

  Key definitions include:
    * `ParsedRoute`
    * `PlannedRoute`
    * `Leaf`
    * `Plan`
    * `Plan.ofRoutes`
-/

------------------------------------------------------------
-- Routes
------------------------------------------------------------

namespace RequestRouter

variable (E : Regex.Engine)
variable (H : Type)

/- A registration with the patterns of its variants. -/
structure ParsedRoute where
  method : Text
  handler : H
  variants : List (Text × List (Pattern E))

variable {E}

/- A path with its steps. -/
structure PlannedVariant where
  path : Text
  steps : List Step
  deriving DecidableEq, Repr

/- A registration with the steps of its variants. -/
structure PlannedRoute where
  handler : H
  variants : List PlannedVariant

variable {H}

namespace ParsedRoute

/- Parse a registration; any variant may be refused. -/
def ofRegistration
    (registration : Registration H) :
    Except RouteError (ParsedRoute E H) := do
  let variants ←
    (Path.variants registration.path).mapM fun path => do
      let patterns ← Pattern.parsePath path
      .ok (path, patterns)
  .ok ⟨registration.method, registration.handler, variants⟩

/- The steps of a registration's variants. -/
def plan
    (route : ParsedRoute E H) :
    Except RouteError (PlannedRoute H) := do
  let variants ←
    route.variants.mapM fun (path, patterns) => do
      let steps ← Step.ofPatterns path patterns
      .ok (⟨path, steps⟩ : PlannedVariant)
  .ok ⟨route.handler, variants⟩

end ParsedRoute

end RequestRouter

------------------------------------------------------------
-- Leaves
------------------------------------------------------------

namespace RequestRouter

variable (H : Type)

/- A route that matches a leaf, by the variants that do. -/
structure Owner where
  handler : H
  variants : List (List Step)

/- A distinct path with its owners in registration order. -/
structure Leaf where
  path : Text
  steps : List Step
  owners : List (Owner H)

variable {H}

namespace Leaf

/- Whether a leaf matches a literal path only. -/
def isStatic
    (leaf : Leaf H) : Bool :=
  Step.allLiteral leaf.steps

/- One handler for each owner. -/
def handlers
    (leaf : Leaf H) : List H :=
  leaf.owners.map (·.handler)

/- Whether a variant matches all that a leaf matches. -/
def isOwnedBy
    (leaf variant : PlannedVariant) : Bool :=
  variant.path == leaf.path ||
    Step.covers variant.steps leaf.steps

/- The part of a route that owns a leaf, if any does. -/
def owner?
    (leaf : PlannedVariant)
    (route : PlannedRoute H) : Option (Owner H) :=
  match route.variants.filter (isOwnedBy leaf) with
  | [] => none
  | owning => some ⟨route.handler, owning.map (·.steps)⟩

/- The first variant of each distinct path. -/
def distinct
    (variants : List PlannedVariant) :
    List PlannedVariant :=
  variants.foldl
    (fun kept variant =>
      if kept.any (·.path == variant.path) then kept
      else kept ++ [variant])
    []

/- The leaves of routes, in the order of their paths. -/
def ofRoutes
    (routes : List (PlannedRoute H)) : List (Leaf H) :=
  (distinct (routes.flatMap (·.variants))).map fun variant =>
    ⟨variant.path, variant.steps,
      routes.filterMap (owner? variant)⟩

/-
  The groups of a leaf's parameters: the steps of each
  owner's variants against the nodes of the leaf, the first
  binding of a name counting.
-/
def paramGroups
    (captureGroups : List (Nat × Nat))
    (trail : List Nat)
    (leaf : Leaf H) : List (Text × Nat) :=
  let pairs :=
    (leaf.owners.flatMap (·.variants)).flatMap fun steps =>
      (steps.zip trail).filterMap fun (step, node) => do
        let name ← step.name
        let group ← captureGroups.lookup node
        some (name, group)
  pairs.foldl
    (fun kept pair =>
      if kept.any (·.1 == pair.1) then kept
      else kept ++ [pair])
    []

end Leaf

end RequestRouter

------------------------------------------------------------
-- Plans
------------------------------------------------------------

namespace RequestRouter

/- The tables and the tree of one method. -/
structure Plan (H : Type) where
  statics : List (Leaf H)
  dynamics : List (Leaf H × List Nat)
  tree : SegmentTree

namespace Plan

variable {E : Regex.Engine}
variable {H : Type}

/- Insert leaves under successive numbers. -/
def insertLeaves
    (tree : SegmentTree)
    (number : Nat) :
    List (Leaf H) →
      Except RouteError
        (SegmentTree × List (Leaf H × List Nat))
  | [] => .ok (tree, [])
  | leaf :: rest =>
      match tree.insert leaf.steps number with
      | (_, none) => .error (.unsupportedPath leaf.path)
      | (tree, some trail) => do
          let (tree, others) ←
            insertLeaves tree (number + 1) rest
          .ok (tree, (leaf, trail) :: others)

/- Plan the leaves of a method. -/
def ofLeaves
    (leaves : List (Leaf H)) :
    Except RouteError (Plan H) := do
  let statics := leaves.filter (·.isStatic)
  let (tree, dynamics) ←
    insertLeaves .empty 0 (leaves.filter (!·.isStatic))
  match statics.find? (!tree.admits ·.steps) with
  | some leaf => .error (.unsupportedPath leaf.path)
  | none => .ok ⟨statics, dynamics, tree⟩

/- Plan the routes that serve a method. -/
def ofRoutes
    (routes : List (ParsedRoute E H))
    (method : Text) :
    Except RouteError (Plan H) := do
  let planned ←
    (routes.filter (Method.serves ·.method method)).mapM
      ParsedRoute.plan
  ofLeaves (Leaf.ofRoutes planned)

end Plan

end RequestRouter
