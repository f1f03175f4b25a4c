import RequestRouter.Compiled.MethodProgram

/-
  The compiled strategy: one regular expression for each
  method, built at the first lookup. A matcher that has been
  built takes no more routes; a build that fails is tried
  again by the next lookup.

  Key definitions include:
    * `Compiled`
    * `Compiled.add`
    * `Compiled.build`
    * `Compiled.lookup`
-/

------------------------------------------------------------
-- The Compiled Matcher
------------------------------------------------------------

namespace RequestRouter

variable (E : Regex.Engine)
variable (H : Type)

/- Programs by method. -/
abbrev Programs :=
  List (Text × MethodProgram E H)

/- Routes in order, and the programs once they are built. -/
structure Compiled where
  routes : List (ParsedRoute E H)
  built : Option (Programs E H)

variable {E H}

namespace Compiled

/- A matcher without routes. -/
def empty : Compiled E H :=
  ⟨[], none⟩

/- Record a registration. -/
def add
    (matcher : Compiled E H)
    (registration : Registration H) :
    Except RouteError (Compiled E H) :=
  if matcher.built.isSome then .error .alreadyBuilt
  else do
    let route ← ParsedRoute.ofRegistration registration
    .ok { matcher with routes := matcher.routes ++ [route] }

/- The methods of routes, behind the one for all methods. -/
def methods
    (routes : List (ParsedRoute E H)) : List Text :=
  (Method.all :: routes.map (·.method)).eraseDups

/- Build programs for methods, up to a first failure. -/
def buildAll
    (routes : List (ParsedRoute E H)) :
    List Text → Traced (Except RouteError (Programs E H))
  | [] => .silent (.ok [])
  | method :: rest => do
      match ← MethodProgram.build routes method with
      | .error error => return .error error
      | .ok program =>
          match ← buildAll routes rest with
          | .error error => return .error error
          | .ok others =>
              return .ok ((method, program) :: others)

/- The programs of a matcher. -/
def programs
    (matcher : Compiled E H) :
    Traced (Except RouteError (Programs E H)) :=
  match matcher.built with
  | some built => .silent (.ok built)
  | none =>
      buildAll matcher.routes (methods matcher.routes)

/- Answer a request from programs. -/
def find
    (programs : Programs E H)
    (method path : Text) : Option (Match H) :=
  ((programs.lookup method).or
    (programs.lookup Method.all)).bind (·.find path)

/- Find all routes that match a request. -/
def lookup
    (matcher : Compiled E H)
    (method path : Text) :
    Traced
      (Except RouteError (Option (Match H)) ×
        Compiled E H) := do
  match ← matcher.programs with
  | .error error => return (.error error, matcher)
  | .ok programs =>
      return (.ok (find programs method path),
        { matcher with built := some programs })

end Compiled

end RequestRouter
