import RequestRouter.Path.Split

/-
  Normal forms of request paths and of route paths.

  A request path loses repeated slashes and one trailing
  slash; the root stays `/`. A route path loses its empty
  segments behind the first, which leaves slashes inside
  constraint braces alone.

  Key definitions include:
    * `Path.segments`
    * `Path.joinSegments`
    * `Path.normalize`
    * `Path.normalizeRoute`
-/

------------------------------------------------------------
-- Request Paths
------------------------------------------------------------

namespace RequestRouter

namespace Path

/- Whether two slashes follow each other somewhere. -/
def hasDoubleSlash : Text → Bool
  | '/' :: '/' :: _ => true
  | [] => false
  | _ :: rest => hasDoubleSlash rest

/- Whether a longer path than the root ends in a slash. -/
def hasTrailingSlash
    (path : Text) : Bool :=
  1 < path.length && path.endsWith '/'

/- Whether a request path is in normal form already. -/
def isNormal
    (path : Text) : Bool :=
  !path.isEmpty && !hasTrailingSlash path &&
    !hasDoubleSlash path

/-
  Keep the first slash of every run of slashes. The flag
  tells whether the character before was a slash.
-/
def collapseFrom
    (afterSlash : Bool) :
    Text → Text
  | [] => []
  | c :: rest =>
      if c = '/' then
        if afterSlash then collapseFrom true rest
        else '/' :: collapseFrom true rest
      else c :: collapseFrom false rest

/- Remove the trailing slash of a path other than the root. -/
def dropTrailingSlash
    (path : Text) : Text :=
  if hasTrailingSlash path then path.dropLast else path

/- The root path in place of an empty one. -/
def orRoot
    (path : Text) : Text :=
  if path.isEmpty then ['/'] else path

/- Only the empty path is replaced. -/
theorem orRoot_of_ne_nil
    {path : Text}
    (hSome : path ≠ []) :
    orRoot path = path := by
  simp [orRoot, hSome]

/- The normal form of a path, computed character by character. -/
def rebuild
    (path : Text) : Text :=
  orRoot (dropTrailingSlash (collapseFrom false path))

/- The normal form of a request path. -/
def normalize
    (path : Text) : Text :=
  if isNormal path then path else rebuild path

end Path

end RequestRouter

------------------------------------------------------------
-- Route Paths
------------------------------------------------------------

namespace RequestRouter

namespace Path

/- The segments of a route without the empty inner ones. -/
def segments
    (path : Text) : List Text :=
  match split path with
  | [] => []
  | first :: rest => first :: rest.filter (!·.isEmpty)

/- Join segments by slashes; an empty result is the root. -/
def joinSegments
    (parts : List Text) : Text :=
  orRoot (['/'].intercalate parts)

/- The normal form of a route path. -/
def normalizeRoute
    (path : Text) : Text :=
  joinSegments (segments path)

end Path

end RequestRouter
