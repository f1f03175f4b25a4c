import RequestRouter.LinearScan.Variant
import RequestRouter.Method
import RequestRouter.Path.Optional
import RequestRouter.Route.Match

/-
  The linear strategy: the registrations are tried one after
  the other, each with its own regular expressions.

  Key definitions include:
    * `LinearScan`
    * `LinearScan.add`
    * `LinearScan.lookup`
-/

------------------------------------------------------------
-- Routes
------------------------------------------------------------

namespace RequestRouter

variable (E : Regex.Engine)
variable (H : Type)

/- A registration with its compiled variants. -/
structure ScanRoute where
  method : Text
  handler : H
  variants : List (ScanVariant E)

/- Registrations in order. -/
structure LinearScan where
  routes : List (ScanRoute E H)

variable {E H}

namespace ScanRoute

/-
  What a registration binds for a path, if some variant
  matches; every variant that matches binds.
-/
def bindings?
    (route : ScanRoute E H)
    (path : Text) : Option (List (Text × Text)) :=
  match route.variants.filterMap (·.bindings? path) with
  | [] => none
  | found => some found.flatten

end ScanRoute

end RequestRouter

------------------------------------------------------------
-- Scanning
------------------------------------------------------------

namespace RequestRouter

variable {E : Regex.Engine}
variable {H : Type}

namespace LinearScan

/- A scan over no routes. -/
def empty : LinearScan E H :=
  ⟨[]⟩

/- Register a handler for every variant of its path. -/
def add
    (scan : LinearScan E H)
    (registration : Registration H) :
    Except ScanFault (LinearScan E H) := do
  let variants ←
    (Path.variants registration.path).mapM
      ScanVariant.compile
  .ok
    ⟨scan.routes ++
      [⟨registration.method, registration.handler,
        variants⟩]⟩

/- The routes that match a request, with what they bind. -/
def found
    (scan : LinearScan E H)
    (method path : Text) :
    List (H × List (Text × Text)) :=
  scan.routes.filterMap fun route =>
    if Method.serves route.method method then
      (route.bindings? path).map (route.handler, ·)
    else none

/- Find all routes that match a request. -/
def lookup
    (scan : LinearScan E H)
    (method path : Text) : Option (Match H) :=
  let found := scan.found method path
  Match.ofHandlers? (found.map Prod.fst)
    (.ofList (found.flatMap Prod.snd))

end LinearScan

end RequestRouter
