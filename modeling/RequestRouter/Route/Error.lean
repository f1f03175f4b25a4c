import RequestRouter.Regex.Fault
import RequestRouter.Text

/-
  What can go wrong when routes are registered or looked up.

  Key definitions include:
    * `RouteError`
    * `RouteError.isUnsupported`
    * `RouteError.message`

  Main statement:
    * `RouteError.isUnsupported_iff`
-/

------------------------------------------------------------
-- Route Errors
------------------------------------------------------------

namespace RequestRouter

/-
  The errors of the matchers. An unsupported path only says
  that one strategy cannot serve a route set.
-/
inductive RouteError where
  | unsupportedPath (path : Text)
  | noStrategy (path : Text)
  | duplicateParam (name path : Text)
  | invalidConstraint (segment : Text) (reason : Regex.Fault)
  | alreadyBuilt
  deriving DecidableEq, Repr

namespace RouteError

/- Whether another strategy may still serve the route set. -/
def isUnsupported : RouteError → Bool
  | .unsupportedPath _ => true
  | _ => false

/- The report of an error. -/
def message : RouteError → String
  | .unsupportedPath path =>
      "unsupported path: " ++ String.ofList path
  | .noStrategy path =>
      "no routing strategy can handle the route set (last " ++
        "rejected path: " ++ String.ofList path ++ ")"
  | .duplicateParam name path =>
      "duplicate param name '" ++ String.ofList name ++
        "' in " ++ String.ofList path
  | .invalidConstraint segment reason =>
      "invalid constraint in segment '" ++
        String.ofList segment ++ "': " ++ reason.message
  | .alreadyBuilt =>
      "can not add a route since the matcher is already built"

/- Only unsupported paths leave room for another strategy. -/
theorem isUnsupported_iff
    (error : RouteError) :
    error.isUnsupported = true ↔
      ∃ path, error = .unsupportedPath path := by
  cases error <;> simp [isUnsupported]

end RouteError

end RequestRouter
