import RequestRouter.Path.Optional
import RequestRouter.Proofs.Path.Cutting

/-
  The variants of a path are cut alike.

  A variant is joined from the first segments of its path,
  an optional one without its question mark. Slashes inside
  braces are not taken for separators again, so that each
  variant is the root or cut into just these segments.

  Key definition:
    * `Path.requiredSegments`

  Main statements:
    * `Path.split_joinSegments`
    * `Path.exists_split_variants`
-/

------------------------------------------------------------
-- Joined Segments
------------------------------------------------------------

namespace RequestRouter

namespace Path

/-
  What is joined from cut segments is cut into them again.
  A single empty segment is joined to the root, which has
  two.
-/
theorem split_joinSegments
    {parts : List Text}
    (hCut : AreCut 0 parts)
    (hSome : parts ≠ []) :
    split (joinSegments parts) =
      if parts = [[]] then [[], []] else parts := by
  by_cases hEmpty : parts = [[]]
  · subst hEmpty
    rfl
  · have hSplit := splitFrom_intercalate hCut hSome
    have hJoined : ['/'].intercalate parts ≠ [] := by
      intro hNone
      rw [hNone] at hSplit
      exact hEmpty hSplit.symm
    rw [if_neg hEmpty, joinSegments, orRoot_of_ne_nil hJoined]
    exact hSplit

end Path

end RequestRouter

------------------------------------------------------------
-- Required Segments
------------------------------------------------------------

namespace RequestRouter

namespace Path

/- The segments of a route with optional ones required. -/
def requiredSegments
    (parts : List Text) : List Text :=
  parts.map fun segment => (optional? segment).getD segment

/- Each variant joins the first of the required segments. -/
theorem exists_prefix_of_mem_variantsFrom
    {base parts : List Text}
    {variant : Text}
    (hVariant : variant ∈ variantsFrom base parts) :
    ∃ start,
      start <+: base ++ requiredSegments parts ∧
        variant = joinSegments start := by
  induction parts generalizing base with
  | nil => simp [variantsFrom] at hVariant
  | cons segment rest ih =>
      unfold variantsFrom at hVariant
      cases hOptional : optional? segment with
      | none =>
          simp only [hOptional] at hVariant
          rcases ih hVariant with ⟨start, hStart, rfl⟩
          refine ⟨start, ?_, rfl⟩
          simpa [requiredSegments, hOptional] using hStart
      | some required =>
          simp only [hOptional, List.mem_cons] at hVariant
          rcases hVariant with rfl | rfl | hLater
          · exact ⟨base, List.prefix_append _ _, rfl⟩
          · refine ⟨base ++ [required], ?_, rfl⟩
            simp [requiredSegments, hOptional,
              List.prefix_append_right_inj]
          · rcases ih hLater with ⟨start, hStart, rfl⟩
            refine ⟨start, ?_, rfl⟩
            simpa [requiredSegments, hOptional] using hStart

/- A required segment is what is in front of the mark. -/
theorem required_cases
    (segment : Text) :
    (optional? segment).getD segment = segment ∨
      segment = (optional? segment).getD segment ++ ['?'] := by
  cases hOptional : optional? segment with
  | none => exact Or.inl rfl
  | some required =>
      right
      unfold optional? at hOptional
      split at hOptional
      case isFalse => cases hOptional
      case isTrue =>
          exact Text.eq_append_of_stripSuffix? hOptional

/- The mark is no brace and no slash. -/
theorem areCut_requiredSegments
    {parts : List Text}
    (hCut : AreCut 0 parts) :
    AreCut 0 (requiredSegments parts) := by
  refine hCut.map ?_ ?_
  · intro segment hUncut
    rcases required_cases segment with hSame | hMark
    · rwa [hSame]
    · rw [hMark] at hUncut
      exact hUncut.of_append
  · intro segment
    rcases required_cases segment with hSame | hMark
    · rw [hSame]
    · have hEnd :
          ∀ required,
            depthBehind 0 (required ++ ['?']) =
              depthBehind 0 required := by
        simp [depthBehind, depthAfter]
      exact
        (hEnd _).symm.trans
          (congrArg (depthBehind 0) hMark.symm)

/- The segments of a route path are cut as its parts are. -/
theorem areCut_segments
    (path : Text) :
    AreCut 0 (segments path) := by
  have hCut := areCut_splitFrom 0 path
  unfold segments
  rw [split]
  revert hCut
  generalize splitFrom 0 path = parts
  intro hCut
  cases parts with
  | nil => exact trivial
  | cons part rest =>
      rcases hCut with ⟨hUncut, hClosed, hRest⟩
      refine ⟨hUncut, fun hMore => hClosed ?_, hRest.filter _⟩
      rintro rfl
      exact hMore rfl

/-
  The variants of a path are the root, or are cut into the
  first of some segments.
-/
theorem exists_split_variants
    (path : Text) :
    ∃ parts, ∀ variant ∈ variants path,
      split variant = [[], []] ∨ split variant <+: parts := by
  unfold variants expandOptional
  split
  case isFalse =>
      refine ⟨split path, ?_⟩
      intro variant hVariant
      rw [List.mem_singleton.mp hVariant]
      exact Or.inr (List.prefix_refl _)
  case isTrue =>
      refine ⟨requiredSegments (segments path), ?_⟩
      have hCut :=
        areCut_requiredSegments (areCut_segments path)
      intro variant hVariant
      have hMember :
          variant ∈ variantsFrom [] (segments path) := by
        simpa using hVariant
      rcases exists_prefix_of_mem_variantsFrom hMember with
        ⟨start, hStart, rfl⟩
      rw [List.nil_append] at hStart
      by_cases hNone : start = []
      · left
        rw [hNone]
        rfl
      · rw [split_joinSegments (hCut.of_isPrefix hStart) hNone]
        split
        case isTrue => exact Or.inl rfl
        case isFalse => exact Or.inr hStart

end Path

end RequestRouter
