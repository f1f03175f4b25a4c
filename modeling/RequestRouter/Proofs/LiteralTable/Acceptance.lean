import RequestRouter.LiteralTable
import RequestRouter.Proofs.Route.Grammar

/-
  Which routes a literal table takes.

  A table takes a route if all of its segments are written
  as text, and refuses every other one that is well formed.
  It looks at the route as written, so that a route with an
  expansion is taken as well where each of its segments is
  text: those whose optional parameters have braces.

  Key definition:
    * `LiteralTable.SeparatesLiteral`

  Main statements:
    * `LiteralTable.exists_add_eq_ok_iff`
    * `LiteralTable.separatesLiteral_iff`
-/

------------------------------------------------------------
-- Routes of Text
------------------------------------------------------------

namespace RequestRouter

open SegmentShape

variable {E : Regex.Engine}
variable {H : Type}

namespace LiteralTable

/- A table takes the routes all of whose segments are text. -/
theorem exists_add_eq_ok_iff
    (table : LiteralTable H)
    (registration : Registration H) :
    (∃ taken, table.add E registration = .ok taken) ↔
      ∀ segment ∈ Path.split registration.path,
        ¬ IsDynamic segment := by
  rw [← Path.parsesStatic_iff (E := E)]
  constructor
  · intro hTaken
    rcases hTaken with ⟨taken, hAdd⟩
    rcases (Sequence.bind_eq_ok_iff _ _ _).mp hAdd with
      ⟨patterns, hParse, hTest⟩
    refine ⟨patterns, hParse, ?_⟩
    split at hTest
    case isTrue => cases hTest
    case isFalse hStatic => simpa using hStatic
  · intro hStatic
    rcases hStatic with ⟨patterns, hParse, hStatic⟩
    refine ⟨⟨table.entries ++ [registration]⟩, ?_⟩
    rw [add, hParse]
    simp [hStatic, bind, Except.bind]

/- It refuses the others that are read as unsupported. -/
theorem add_eq_error
    (table : LiteralTable H)
    {registration : Registration H}
    {patterns : List (Pattern E)}
    (hParse :
      Pattern.parsePath registration.path = .ok patterns)
    {segment : Text}
    (hSegment : segment ∈ Path.split registration.path)
    (hDynamic : IsDynamic segment) :
    table.add E registration =
      .error (.unsupportedPath registration.path) := by
  rcases
      Sequence.exists_of_mem_items
        (Pattern.mapM_parse_of_parsePath hParse) hSegment with
    ⟨pattern, hMember, hPattern⟩
  have hAny : Pattern.anyDynamic patterns = true := by
    apply List.any_eq_true.mpr
    exact
      ⟨pattern, hMember,
        (Pattern.isDynamic_of_parse hPattern).mpr hDynamic⟩
  rw [add, hParse]
  simp [hAny, bind, Except.bind]

variable (E) in
/-
  Whether a table tells literal routes from others: it takes
  a route just if it is literal, and refuses any other that
  is well formed as unsupported.
-/
structure SeparatesLiteral
    (table : LiteralTable H)
    (registration : Registration H) : Prop where
  taken_iff :
    (∃ taken, table.add E registration = .ok taken) ↔
      Path.IsLiteral E registration.path
  refused :
    ∀ patterns : List (Pattern E),
      Pattern.parsePath registration.path = .ok patterns →
        ¬ Path.IsLiteral E registration.path →
          table.add E registration =
            .error (.unsupportedPath registration.path)

/- A literal route is not expanded, and all of it is text. -/
theorem isLiteral_iff
    (path : Text) :
    Path.IsLiteral E path ↔
      Path.expandOptional path = none ∧
        ∀ segment ∈ Path.split path,
          ¬ IsDynamic segment := by
  rw [← Path.parsesStatic_iff (E := E)]
  constructor
  · intro hPath
    exact ⟨hPath.alone, hPath.static⟩
  · intro hBoth
    exact ⟨hBoth.1, hBoth.2⟩

/- Where a segment is not text the route is refused. -/
theorem separatesLiteral_of_dynamic
    (table : LiteralTable H)
    {registration : Registration H}
    {segment : Text}
    (hSegment : segment ∈ Path.split registration.path)
    (hDynamic : IsDynamic segment) :
    table.SeparatesLiteral E registration where
  taken_iff := by
    rw [exists_add_eq_ok_iff, isLiteral_iff]
    constructor
    · intro hText
      exact absurd hDynamic (hText segment hSegment)
    · intro hBoth
      exact hBoth.2
  refused _ hParse _ :=
    add_eq_error table hParse hSegment hDynamic

/-
  A table tells literal routes from others, but for those
  that are expanded although each of their segments is text.
  An optional parameter is text if it is written with
  braces.
-/
theorem separatesLiteral_iff
    (table : LiteralTable H)
    (registration : Registration H) :
    (table.SeparatesLiteral E registration ↔
        Path.expandOptional registration.path = none ∨
          ∃ segment ∈ Path.split registration.path,
            IsDynamic segment) ∧
      ∀ segment, (Path.optional? segment).isSome = true →
        (IsDynamic segment ↔
          '{' ∉ segment ∧ '}' ∉ segment) := by
  refine ⟨?_, fun segment => isDynamic_iff_of_optional⟩
  by_cases hText :
      ∀ segment ∈ Path.split registration.path,
        ¬ IsDynamic segment
  · have hNone :
        ¬ ∃ segment ∈ Path.split registration.path,
          IsDynamic segment := by
      simpa using hText
    rw [or_iff_left hNone]
    constructor
    · intro hSeparates
      have hTaken :=
        (exists_add_eq_ok_iff (E := E) table registration).mpr
          hText
      exact (hSeparates.taken_iff.mp hTaken).alone
    · intro hAlone
      have hLiteral := isLiteral_iff (E := E) registration.path
      constructor
      · rw [exists_add_eq_ok_iff, hLiteral]
        exact (and_iff_right hAlone).symm
      · intro patterns _ hOther
        exact absurd (hLiteral.mpr ⟨hAlone, hText⟩) hOther
  · have hSome :
        ∃ segment ∈ Path.split registration.path,
          IsDynamic segment := by
      simpa using hText
    rcases hSome with ⟨segment, hSegment, hDynamic⟩
    apply iff_of_true
    · exact separatesLiteral_of_dynamic table hSegment hDynamic
    · exact Or.inr ⟨segment, hSegment, hDynamic⟩

/-
  An optional parameter with a constraint is taken for text,
  although its route has two variants.
-/
theorem add_braced_optional :
    (empty.add Regex.engine
        ⟨['G'],
          ['/', ':', 'i', '{', 'a', '}', '?'], 0⟩).map
          (·.entries.length) =
        .ok 1 ∧
      Path.expandOptional
          ['/', ':', 'i', '{', 'a', '}', '?'] =
        some
          [['/'], ['/', ':', 'i', '{', 'a', '}']] := by
  decide

end LiteralTable

end RequestRouter
