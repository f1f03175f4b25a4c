import RequestRouter.Router

/-
  Route tables and the routers they describe.

  The handlers of a table's router are positions in the
  table, so a match tells the registrations it comes from.

  Key definitions include:
    * `RouteTable`
    * `RouteTable.handlerName`
    * `RouteTable.buildRouter`
-/

------------------------------------------------------------
-- Route Tables
------------------------------------------------------------

namespace RequestRouter

/- A registration as it is written in a table. -/
structure RouteSpec where
  method : Text
  path : Text
  handler : Text
  deriving DecidableEq, Repr

/- The settings of a router with its registrations. -/
structure RouteTable where
  config : RouterConfig := {}
  routes : List RouteSpec := []
  deriving DecidableEq, Repr

namespace RouteTable

/- The name of the handler at a position of a table. -/
def handlerName
    (table : RouteTable)
    (index : Nat) : Text :=
  match table.routes[index]? with
  | some route => route.handler
  | none => "<unknown>".toList

end RouteTable

/- Why a table has no router. -/
inductive BuildError where
  | config (error : ConfigError)
  | route (index : Nat) (spec : RouteSpec)
      (error : RouteError)
  deriving DecidableEq, Repr

namespace BuildError

/- The report of the error that is behind this one. -/
def cause : BuildError → String
  | .config error => error.message
  | .route _ _ error => error.message

/- The report of an error. -/
def message : BuildError → String
  | .config error =>
      "invalid router config: " ++ error.message
  | .route index spec error =>
      "route #" ++ toString index ++ " (" ++
        String.ofList spec.method ++ " " ++
        String.ofList spec.path ++ "): " ++ error.message

end BuildError

end RequestRouter

------------------------------------------------------------
-- Building Routers
------------------------------------------------------------

namespace RequestRouter

variable {E : Regex.Engine}

namespace RouteTable

/- The event of a route that the router refuses. -/
def routeRejected
    (index : Nat)
    (spec : RouteSpec)
    (error : RouteError) : Event :=
  { level := .error
    target := "switchyard::manifest"
    message := none
    fields := [
      ("event", .text "route_rejected"),
      ("index", .count index),
      ("method", .text (String.ofList spec.method)),
      ("path", .text (String.ofList spec.path)),
      ("error", .text error.message)] }

/-
  Register routes in order, the first under the given
  position, up to one that is refused.
-/
def addRoutes
    (router : Router E Nat)
    (index : Nat) :
    List RouteSpec →
      Traced (Except BuildError (Router E Nat))
  | [] => Traced.silent (.ok router)
  | spec :: rest => do
      match ← router.add
          ⟨spec.method, spec.path, index⟩ with
      | .ok router => addRoutes router (index + 1) rest
      | .error error =>
          Traced.emit (routeRejected index spec error)
          return .error (.route index spec error)

/- The router of a table. -/
def buildRouter
    (table : RouteTable) :
    Traced (Except BuildError (Router E Nat)) :=
  match Router.ofConfig table.config with
  | .error error => Traced.silent (.error (.config error))
  | .ok router => addRoutes router 0 table.routes

end RouteTable

end RequestRouter
