import RequestRouter.Method
import RequestRouter.Route.Match
import RequestRouter.Route.Pattern

/-
  The static strategy: literal paths only, compared as they
  are written.

  Key definitions include:
    * `LiteralTable`
    * `LiteralTable.add`
    * `LiteralTable.lookup`
-/

------------------------------------------------------------
-- Literal Tables
------------------------------------------------------------

namespace RequestRouter

/- Registrations of literal paths, in order. -/
structure LiteralTable (H : Type) where
  entries : List (Registration H)

namespace LiteralTable

variable {H : Type}

/- A table without routes. -/
def empty : LiteralTable H :=
  ⟨[]⟩

/-
  Register a literal path. A path that is well formed but
  not literal is unsupported.
-/
def add
    (E : Regex.Engine)
    (table : LiteralTable H)
    (registration : Registration H) :
    Except RouteError (LiteralTable H) := do
  let patterns : List (Pattern E) ←
    Pattern.parsePath registration.path
  if Pattern.anyDynamic patterns then
    .error (.unsupportedPath registration.path)
  else
    .ok ⟨table.entries ++ [registration]⟩

/- Whether an entry answers a request. -/
def answers
    (method path : Text)
    (entry : Registration H) : Bool :=
  entry.path == path && Method.serves entry.method method

/- Find all routes that match a request. -/
def lookup
    (table : LiteralTable H)
    (method path : Text) : Option (Match H) :=
  Match.ofHandlers?
    ((table.entries.filter (answers method path)).map
      (·.handler))
    .empty

end LiteralTable

end RequestRouter
