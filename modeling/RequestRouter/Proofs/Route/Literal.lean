import RequestRouter.Proofs.Route.Plain

/-
  Literal routes.

  A literal path stands for itself alone, and each of its
  segments is text. Its patterns take the parts of a request
  if these are its segments. A request is cut at every slash
  and a route only outside of braces, so that this is the
  same path, unless one of its segments holds a slash.

  Key definition:
    * `Path.IsLiteral`

  Main statements:
    * `Path.split_eq_splitOn_iff`
    * `Path.IsLiteral.parsePath_eq`
    * `Registration.answers_literal_iff`
-/

------------------------------------------------------------
-- Segments That Hold a Slash
------------------------------------------------------------

namespace RequestRouter

namespace Path

/-
  A path is cut as a route as it is cut as a request if no
  slash is left in a segment.
-/
theorem split_eq_splitOn_iff
    (path : Text) :
    split path = path.splitOn '/' ↔
      ∀ segment ∈ split path, '/' ∉ segment := by
  constructor
  · intro hSame segment hSegment
    rw [hSame] at hSegment
    exact slash_not_mem hSegment
  · intro hSlashes
    have hJoin :=
      List.splitOn_intercalate '/' hSlashes
        (split_ne_nil path)
    rw [intercalate_split] at hJoin
    exact hJoin.symm

/-
  A route is cut into the parts of a request if both are one
  path without a slash in its segments.
-/
theorem split_eq_splitOn_request_iff
    (path request : Text) :
    split path = request.splitOn '/' ↔
      path = request ∧
        ∀ segment ∈ split request, '/' ∉ segment := by
  constructor
  · intro hSame
    have hPath : path = request := by
      rw [← intercalate_split path, hSame,
        List.intercalate_splitOn]
    subst hPath
    exact ⟨rfl, (split_eq_splitOn_iff path).mp hSame⟩
  · rintro ⟨rfl, hSlashes⟩
    exact (split_eq_splitOn_iff path).mpr hSlashes

end Path

end RequestRouter

------------------------------------------------------------
-- Literal Paths
------------------------------------------------------------

namespace RequestRouter

variable {E : Regex.Engine}

namespace Pattern

/- Literal patterns of texts. -/
def literals
    (texts : List Text) : List (Pattern E) :=
  texts.map .literal

/- Patterns that are not dynamic are literals of their labels. -/
theorem eq_literals_of_not_anyDynamic
    {patterns : List (Pattern E)}
    (hStatic : anyDynamic patterns = false) :
    patterns = literals (patterns.map label) := by
  induction patterns with
  | nil => rfl
  | cons pattern rest ih =>
      simp only [anyDynamic, List.any_cons,
        Bool.or_eq_false_iff] at hStatic
      rcases hStatic with ⟨hFirst, hRest⟩
      cases pattern with
      | literal text =>
          exact congrArg (List.cons _) (ih hRest)
      | param | constrained | wildcard => cases hFirst

/- Literals take the parts that they are, and bind nothing. -/
theorem takes_literals_iff
    (texts parts : List Text)
    (bindings : List (Text × Text)) :
    Takes (literals (E := E) texts) parts bindings ↔
      texts = parts ∧ bindings = [] := by
  induction texts generalizing parts with
  | nil =>
      rw [literals, List.map_nil, takes_nil_iff, eq_comm]
  | cons text rest ih =>
      cases parts with
      | nil => simp [literals]
      | cons part parts =>
          rw [literals, List.map_cons, takes_literal_cons_iff]
          rw [← literals, ih, List.cons.injEq, and_assoc]

end Pattern

namespace Path

variable (E) in
/-
  Whether a path is literal: it has no optional expansion,
  and is read as patterns that are not dynamic.
-/
structure IsLiteral
    (path : Text) : Prop where
  alone : expandOptional path = none
  static :
    ∃ patterns : List (Pattern E),
      Pattern.parsePath path = .ok patterns ∧
        Pattern.anyDynamic patterns = false

instance
    (path : Text) :
    Decidable (IsLiteral E path) :=
  match hRead : Pattern.parsePath (E := E) path with
  | .ok patterns =>
      decidable_of_iff
        (expandOptional path = none ∧
          Pattern.anyDynamic patterns = false)
        ⟨fun hBoth => ⟨hBoth.1, patterns, hRead, hBoth.2⟩,
          fun hPath => ⟨hPath.alone, by
            simpa [hRead] using hPath.static⟩⟩
  | .error _ =>
      .isFalse fun hPath => by
        simpa [hRead] using hPath.static

namespace IsLiteral

variable {path : Text}

/- A literal path is its only variant. -/
theorem variants_eq
    (hPath : IsLiteral E path) :
    variants path = [path] := by
  rw [variants, hPath.alone, Option.getD_none]

/- A literal path is read as the literals of its segments. -/
theorem parsePath_eq
    (hPath : IsLiteral E path) :
    Pattern.parsePath path =
      .ok (Pattern.literals (E := E) (split path)) := by
  rcases hPath.static with ⟨patterns, hParse, hStatic⟩
  have hPatterns :=
    Pattern.eq_literals_of_not_anyDynamic hStatic
  rw [Pattern.map_label_of_parsePath hParse] at hPatterns
  rw [hParse, hPatterns]

end IsLiteral

end Path

end RequestRouter

------------------------------------------------------------
-- Literal Registrations
------------------------------------------------------------

namespace RequestRouter

variable {E : Regex.Engine}
variable {H : Type}

namespace Registration

/-
  A literal registration answers the requests for its own
  path, if no segment of it holds a slash.
-/
theorem answers_literal_iff
    {registration : Registration H}
    (hLiteral : Path.IsLiteral E registration.path)
    (method path : Text) :
    registration.Answers E method path ↔
      (Method.serves registration.method method = true ∧
          registration.path = path) ∧
        ∀ segment ∈ Path.split path, '/' ∉ segment := by
  have hAccepts :
      Pattern.PathAccepts E registration.path
          (path.splitOn '/') ↔
        Path.split registration.path =
          path.splitOn '/' := by
    simp [Pattern.PathAccepts, Pattern.Accepts,
      hLiteral.parsePath_eq, Pattern.takes_literals_iff]
  rw [Answers, hLiteral.variants_eq, and_assoc,
    ← Path.split_eq_splitOn_request_iff, ← hAccepts]
  simp

/-
  What answers among literal registrations: those for the
  path, if no segment of it holds a slash.
-/
theorem answering_literal_eq
    {registrations : List (Registration H)}
    (hLiteral :
      ∀ registration ∈ registrations,
        Path.IsLiteral E registration.path)
    (method path : Text) :
    answering E registrations method path =
      if ∀ segment ∈ Path.split path, '/' ∉ segment then
        (registrations.filter fun registration =>
          registration.path == path &&
            Method.serves registration.method method).map
          (·.handler)
      else [] := by
  unfold answering
  split
  case isTrue hSlashes =>
      congr 1
      refine List.filter_congr fun registration hMember => ?_
      have hAnswers :=
        answers_literal_iff (hLiteral registration hMember)
          method path
      rw [Bool.eq_iff_iff, decide_eq_true_eq, hAnswers,
        and_iff_left hSlashes]
      simp [and_comm]
  case isFalse hSlashes =>
      rw [List.map_eq_nil_iff, List.filter_eq_nil_iff]
      intro registration hMember hAnswers
      rw [decide_eq_true_eq,
        answers_literal_iff (hLiteral registration hMember)]
          at hAnswers
      exact hSlashes hAnswers.2

end Registration

end RequestRouter
