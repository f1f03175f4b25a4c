import RequestRouter.Path.Normal

/-
  Optional parameters.

  A segment such as `:type?` may be absent. A route that ends
  in a question mark stands for its concrete variants: for
  each optional segment, the route that stops before it and
  the route that stops behind it.

  Key definitions include:
    * `Path.optional?`
    * `Path.expandOptional`
    * `Path.variants`
-/

------------------------------------------------------------
-- Optional Segments
------------------------------------------------------------

namespace RequestRouter

namespace Path

/- The required form of an optional parameter segment. -/
def optional?
    (segment : Text) : Option Text :=
  if segment.startsWith ':' then segment.stripSuffix? '?'
  else none

/-
  The variants that stop at an optional segment of the given
  list, when the segments in `base` stand in front of it.
-/
def variantsFrom
    (base : List Text) :
    List Text → List Text
  | [] => []
  | segment :: rest =>
      match optional? segment with
      | some required =>
          joinSegments base ::
            joinSegments (base ++ [required]) ::
              variantsFrom (base ++ [required]) rest
      | none => variantsFrom (base ++ [segment]) rest

/-
  The concrete variants of a route that ends in an optional
  parameter, shortest first and without repetition.
-/
def expandOptional
    (path : Text) : Option (List Text) :=
  if path.endsWith '?' && path.contains ':' then
    some (variantsFrom [] (segments path)).eraseDups
  else
    none

/- The paths that a registered path stands for. -/
def variants
    (path : Text) : List Text :=
  (expandOptional path).getD [path]

end Path

end RequestRouter
