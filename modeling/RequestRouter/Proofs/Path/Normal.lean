import Mathlib.Data.List.Infix
import RequestRouter.Proofs.Path.Braceless

/-
  Normal forms of paths.

  A request path is canonical if it is not empty, has no two
  slashes in a row, and ends in a slash only as the root.
  Each path has one canonical form, which is joined from its
  segments without the empty ones behind the first. So the
  quick test and the computation character by character
  agree, and so do routes and requests without braces.

  Key definitions include:
    * `Path.IsCanonical`
    * `Path.withoutGaps`

  Main statements:
    * `Path.isNormal_iff`
    * `Path.normalize_canonical`
    * `Path.normalizeRoute_canonical`
-/

------------------------------------------------------------
-- Canonical Paths
------------------------------------------------------------

namespace RequestRouter

namespace Path

/- Whether a request path is in canonical form. -/
structure IsCanonical
    (path : Text) : Prop where
  ne_nil : path ≠ []
  single : ¬ ['/', '/'] <:+: path
  root : ['/'] <:+ path → path = ['/']

/- Two slashes in a row are the first characters or later. -/
theorem double_cons_iff
    (c : Char)
    (rest : Text) :
    ['/', '/'] <:+: c :: rest ↔
      (c = '/' ∧ rest.head? = some '/') ∨
        ['/', '/'] <:+: rest := by
  rw [List.infix_cons_iff, List.cons_prefix_cons,
    List.singleton_prefix_iff_head?_eq_some]
  apply or_congr_left
  apply and_congr_left'
  exact eq_comm

/- The test for two slashes in a row finds them anywhere. -/
theorem hasDoubleSlash_iff
    (path : Text) :
    hasDoubleSlash path = true ↔ ['/', '/'] <:+: path := by
  fun_induction hasDoubleSlash path with
  | case1 rest =>
      apply iff_of_true rfl
      exact (List.prefix_append ['/', '/'] rest).isInfix
  | case2 => simp
  | case3 c rest hOther ih =>
      rw [ih, double_cons_iff, or_iff_right]
      intro hStart
      rcases List.head?_eq_some_iff.mp hStart.2 with
        ⟨later, hRest⟩
      exact hOther later hStart.1 hRest

/- A trailing slash is a last slash of a longer path. -/
theorem hasTrailingSlash_iff
    (path : Text) :
    hasTrailingSlash path = true ↔
      ∃ front ≠ [], path = front ++ ['/'] := by
  unfold hasTrailingSlash Text.endsWith
  rw [Bool.and_eq_true, decide_eq_true_eq, beq_iff_eq,
    List.getLast?_eq_some_iff]
  constructor
  · intro hBoth
    rcases hBoth with ⟨hLong, front, hPath⟩
    refine ⟨front, ?_, hPath⟩
    intro hNone
    rw [hPath, hNone] at hLong
    simp at hLong
  · intro hFront
    rcases hFront with ⟨front, hSome, hPath⟩
    refine ⟨?_, front, hPath⟩
    have := List.length_pos_of_ne_nil hSome
    rw [hPath, List.length_append, List.length_singleton]
    omega

/- Without one, the root is the only path with a last slash. -/
theorem not_hasTrailingSlash_iff
    (path : Text) :
    ¬ hasTrailingSlash path = true ↔
      (['/'] <:+ path → path = ['/']) := by
  rw [hasTrailingSlash_iff]
  constructor
  · intro hNone hSlash
    rcases hSlash with ⟨front, hPath⟩
    by_cases hFront : front = []
    · rw [← hPath, hFront, List.nil_append]
    · exact absurd ⟨front, hFront, hPath.symm⟩ hNone
  · intro hRoot hFront
    rcases hFront with ⟨front, hSome, hPath⟩
    have hSame := hRoot ⟨front, hPath.symm⟩
    rw [hPath] at hSame
    exact hSome (by simpa using hSame)

/- The quick test accepts the canonical paths. -/
theorem isNormal_iff
    (path : Text) :
    isNormal path = true ↔ IsCanonical path := by
  unfold isNormal
  simp only [Bool.and_eq_true, Bool.not_eq_true',
    ← Bool.not_eq_true, List.isEmpty_iff,
    not_hasTrailingSlash_iff, hasDoubleSlash_iff]
  constructor
  · intro hNormal
    rcases hNormal with ⟨⟨hSome, hRoot⟩, hSingle⟩
    exact ⟨hSome, hSingle, hRoot⟩
  · intro hCanonical
    exact
      ⟨⟨hCanonical.ne_nil, hCanonical.root⟩,
        hCanonical.single⟩

end Path

end RequestRouter

------------------------------------------------------------
-- Segments Without Gaps
------------------------------------------------------------

namespace RequestRouter

namespace Path

/- Segments without the empty ones behind the first. -/
def withoutGaps : List Text → List Text
  | [] => []
  | first :: rest => first :: rest.filter (!·.isEmpty)

/- The segments of a route are those of its split. -/
theorem segments_eq
    (path : Text) :
    segments path = withoutGaps (split path) := by
  unfold segments
  cases split path with
  | nil => rfl
  | cons first rest => rfl

variable {parts : List Text}

/- The first segment is kept as it is. -/
theorem withoutGaps_modifyHead
    (f : Text → Text)
    (parts : List Text) :
    withoutGaps (parts.modifyHead f) =
      (withoutGaps parts).modifyHead f := by
  cases parts <;> rfl

/- Segments without gaps are left as they are. -/
theorem withoutGaps_of_not_mem
    (hParts : [] ∉ parts.tail) :
    withoutGaps parts = parts := by
  cases parts with
  | nil => rfl
  | cons first rest =>
      rw [withoutGaps, List.filter_eq_self.mpr]
      intro part hPart
      have hSome : part ≠ [] := by
        intro hNone
        exact hParts (hNone ▸ hPart)
      simpa using hSome

/- An empty segment behind all others is a gap. -/
theorem withoutGaps_concat_nil
    (hSome : parts ≠ []) :
    withoutGaps (parts ++ [[]]) = withoutGaps parts := by
  cases parts with
  | nil => exact absurd rfl hSome
  | cons first rest =>
      rw [List.cons_append, withoutGaps, withoutGaps,
        List.filter_append]
      simp

/- All segments that are not empty stay. -/
theorem filter_withoutGaps
    (parts : List Text)
    {keep : Text → Bool}
    (hKeep : keep [] = false) :
    (withoutGaps parts).filter keep = parts.filter keep := by
  cases parts with
  | nil => rfl
  | cons first rest =>
      have hRest :
          (rest.filter (!·.isEmpty)).filter keep =
            rest.filter keep := by
        rw [List.filter_filter]
        apply List.filter_congr
        intro part hPart
        cases part with
        | nil => simp [hKeep]
        | cons c more => simp
      rw [withoutGaps, List.filter_cons, List.filter_cons,
        hRest]

end Path

end RequestRouter

------------------------------------------------------------
-- Request Paths
------------------------------------------------------------

namespace RequestRouter

namespace Path

/-
  Collapsing keeps the segments without gaps. Behind a slash
  the first segment may be a gap too, so that both facts are
  proved together.
-/
theorem withoutGaps_collapseFrom
    (path : Text) :
    withoutGaps ((collapseFrom false path).splitOn '/') =
        withoutGaps (path.splitOn '/') ∧
      ((collapseFrom true path).splitOn '/').filter
          (!·.isEmpty) =
        (path.splitOn '/').filter (!·.isEmpty) := by
  induction path with
  | nil => exact ⟨rfl, rfl⟩
  | cons c rest ih =>
      rcases ih with ⟨hFirst, hBehind⟩
      unfold collapseFrom
      by_cases hSlash : c = '/'
      · subst hSlash
        simp [List.splitOn_cons_eq_if_modifyHead,
          withoutGaps, hBehind]
      · have hHead :
            ∀ parts : List Text,
              (parts.modifyHead (c :: ·)).filter
                  (!·.isEmpty) =
                withoutGaps (parts.modifyHead (c :: ·)) := by
          intro parts
          cases parts with
          | nil => rfl
          | cons first others => simp [withoutGaps]
        simp [List.splitOn_cons_eq_if_modifyHead, hSlash,
          hHead, withoutGaps_modifyHead, hFirst]

/- Behind a slash, what is collapsed starts otherwise. -/
theorem head?_collapseFrom_true
    (path : Text) :
    (collapseFrom true path).head? ≠ some '/' := by
  induction path with
  | nil => simp [collapseFrom]
  | cons c rest ih =>
      unfold collapseFrom
      by_cases hSlash : c = '/'
      · simpa [hSlash] using ih
      · simp [hSlash]

/- What is collapsed has no two slashes in a row. -/
theorem single_collapseFrom
    (afterSlash : Bool)
    (path : Text) :
    ¬ ['/', '/'] <:+: collapseFrom afterSlash path := by
  induction path generalizing afterSlash with
  | nil => simp [collapseFrom]
  | cons c rest ih =>
      unfold collapseFrom
      split
      case isTrue =>
          split
          case isTrue => exact ih true
          case isFalse =>
              rw [double_cons_iff, not_or]
              refine ⟨?_, ih true⟩
              intro hStart
              exact head?_collapseFrom_true rest hStart.2
      case isFalse hOther =>
          rw [double_cons_iff, not_or]
          refine ⟨?_, ih false⟩
          intro hStart
          exact hOther hStart.1

/- A trailing slash is in front of a gap. -/
theorem withoutGaps_dropTrailingSlash
    (path : Text) :
    withoutGaps ((dropTrailingSlash path).splitOn '/') =
      withoutGaps (path.splitOn '/') := by
  unfold dropTrailingSlash
  split
  case isFalse => rfl
  case isTrue hTrailing =>
      rcases (hasTrailingSlash_iff path).mp hTrailing with
        ⟨front, -, hPath⟩
      rw [hPath, List.dropLast_concat,
        List.splitOn_append_cons_self, List.splitOn_nil,
        withoutGaps_concat_nil (List.splitOn_ne_nil _ _)]

/- The root has the segments of the empty path and a gap. -/
theorem withoutGaps_orRoot
    (path : Text) :
    withoutGaps ((orRoot path).splitOn '/') =
      withoutGaps (path.splitOn '/') := by
  by_cases hNone : path = []
  · rw [hNone]
    decide
  · rw [orRoot_of_ne_nil hNone]

/- So no step of the computation changes more than gaps. -/
theorem withoutGaps_rebuild
    (path : Text) :
    withoutGaps ((rebuild path).splitOn '/') =
      withoutGaps (path.splitOn '/') := by
  rw [rebuild, withoutGaps_orRoot,
    withoutGaps_dropTrailingSlash]
  exact (withoutGaps_collapseFrom path).1

/- Without two slashes in a row it is enough to drop one. -/
theorem isCanonical_dropTrailingSlash
    {path : Text}
    (hSome : dropTrailingSlash path ≠ [])
    (hSingle : ¬ ['/', '/'] <:+: path) :
    IsCanonical (dropTrailingSlash path) := by
  refine ⟨hSome, ?_, ?_⟩
  · intro hDouble
    apply hSingle
    unfold dropTrailingSlash at hDouble
    split at hDouble
    case isTrue =>
        exact hDouble.trans (List.dropLast_prefix path).isInfix
    case isFalse => exact hDouble
  · unfold dropTrailingSlash
    split
    case isTrue hTrailing =>
        rcases (hasTrailingSlash_iff path).mp hTrailing with
          ⟨front, -, hPath⟩
        rw [hPath, List.dropLast_concat]
        intro hSlash
        rcases hSlash with ⟨start, hFront⟩
        refine absurd ?_ hSingle
        rw [hPath, ← hFront]
        exact ⟨start, [], by simp⟩
    case isFalse hNone =>
        exact (not_hasTrailingSlash_iff path).mp hNone

/- What is computed character by character is canonical. -/
theorem isCanonical_rebuild
    (path : Text) :
    IsCanonical (rebuild path) := by
  unfold rebuild orRoot
  split
  case isTrue => exact ⟨by simp, by decide, fun _ => rfl⟩
  case isFalse hSome =>
      apply isCanonical_dropTrailingSlash
      · simpa using hSome
      · exact single_collapseFrom false path

/- A gap makes two slashes in a row or a trailing slash. -/
theorem slashes_of_gap
    {parts : List Text}
    (hGap : [] ∈ parts.tail) :
    ['/', '/'] <:+: ['/'].intercalate parts ∨
      ['/'] <:+ ['/'].intercalate parts := by
  induction parts with
  | nil => simp at hGap
  | cons first rest ih =>
      cases rest with
      | nil => simp at hGap
      | cons second more =>
          rw [List.intercalate_cons_cons]
          rcases List.mem_cons.mp hGap with hNone | hLater
          · subst hNone
            cases more with
            | nil =>
                right
                simp
            | cons third others =>
                left
                rw [List.intercalate_cons_cons]
                exact
                  ⟨first, ['/'].intercalate (third :: others),
                    by simp⟩
          · apply (ih hLater).imp
            · exact List.infix_append_of_infix_right
            · intro hEnd
              exact hEnd.trans (List.suffix_append _ _)

/- A canonical path is joined from its segments. -/
theorem joinSegments_of_isCanonical
    {path : Text}
    (hPath : IsCanonical path) :
    joinSegments (withoutGaps (path.splitOn '/')) = path := by
  by_cases hRoot : path = ['/']
  · subst hRoot
    decide
  · have hGaps : [] ∉ (path.splitOn '/').tail := by
      intro hGap
      have hSlashes := slashes_of_gap hGap
      rw [List.intercalate_splitOn] at hSlashes
      rcases hSlashes with hDouble | hEnd
      · exact hPath.single hDouble
      · exact hRoot (hPath.root hEnd)
    rw [withoutGaps_of_not_mem hGaps, joinSegments,
      List.intercalate_splitOn,
      orRoot_of_ne_nil hPath.ne_nil]

/- So the segments decide what is computed. -/
theorem rebuild_eq
    (path : Text) :
    rebuild path =
      joinSegments (withoutGaps (path.splitOn '/')) := by
  have hJoin :=
    joinSegments_of_isCanonical (isCanonical_rebuild path)
  rw [withoutGaps_rebuild] at hJoin
  exact hJoin.symm

/- The quick test accepts what would be left unchanged. -/
theorem isNormal_iff_rebuild_eq
    (path : Text) :
    isNormal path = true ↔ rebuild path = path := by
  constructor
  · intro hNormal
    rw [rebuild_eq]
    apply joinSegments_of_isCanonical
    exact (isNormal_iff path).mp hNormal
  · intro hSame
    rw [isNormal_iff, ← hSame]
    exact isCanonical_rebuild path

/- With or without the quick test, the form is the same. -/
theorem normalize_eq_rebuild
    (path : Text) :
    normalize path = rebuild path := by
  unfold normalize
  split
  case isTrue hNormal =>
      exact ((isNormal_iff_rebuild_eq path).mp hNormal).symm
  case isFalse => rfl

/-
  The normal form of a request path is canonical, is its own
  normal form, and is joined from the parts between slashes
  without the empty ones behind the first. The quick test
  accepts just the paths that would be left unchanged.
-/
theorem normalize_canonical
    (path : Text) :
    IsCanonical (normalize path) ∧
      normalize (normalize path) = normalize path ∧
      normalize path =
        joinSegments (withoutGaps (path.splitOn '/')) ∧
      (isNormal path = true ↔ rebuild path = path) := by
  have hCanonical : IsCanonical (normalize path) := by
    rw [normalize_eq_rebuild]
    exact isCanonical_rebuild path
  refine ⟨hCanonical, ?_, ?_, isNormal_iff_rebuild_eq path⟩
  · exact if_pos ((isNormal_iff _).mpr hCanonical)
  · rw [normalize_eq_rebuild, rebuild_eq]

end Path

end RequestRouter

------------------------------------------------------------
-- Route Paths
------------------------------------------------------------

namespace RequestRouter

namespace Path

/- A route in normal form is cut into its segments. -/
theorem split_normalizeRoute
    (path : Text) :
    split (normalizeRoute path) =
      if withoutGaps (split path) = [[]] then [[], []]
      else withoutGaps (split path) := by
  have hCut := areCut_segments path
  have hSome : segments path ≠ [] := by
    rw [segments_eq]
    cases hSplit : split path with
    | nil => exact absurd hSplit (split_ne_nil path)
    | cons first rest => exact List.cons_ne_nil _ _
  rw [normalizeRoute, split_joinSegments hCut hSome,
    segments_eq]

/- Its segments are those of the route. -/
theorem segments_normalizeRoute
    (path : Text) :
    segments (normalizeRoute path) = segments path := by
  rw [segments_eq, segments_eq, split_normalizeRoute]
  split
  case isTrue hEmpty =>
      rw [hEmpty]
      rfl
  case isFalse =>
      apply withoutGaps_of_not_mem
      cases split path with
      | nil => simp [withoutGaps]
      | cons first rest => simp [withoutGaps]

/- Its segments that are not empty are all of the route's. -/
theorem filter_split_normalizeRoute
    (path : Text)
    {keep : Text → Bool}
    (hKeep : keep [] = false) :
    (split (normalizeRoute path)).filter keep =
      (split path).filter keep := by
  rw [← filter_withoutGaps _ hKeep, ← segments_eq,
    segments_normalizeRoute, segments_eq,
    filter_withoutGaps _ hKeep]

/-
  The normal form of a route path. Without braces it is the
  one of a request path. It is its own normal form, and is
  cut into the segments of the route without the empty ones
  behind the first, so that the segments with a constraint
  stay as they are.
-/
theorem normalizeRoute_canonical
    (path : Text) :
    ('{' ∉ path → normalizeRoute path = normalize path) ∧
      normalizeRoute (normalizeRoute path) =
        normalizeRoute path ∧
      split (normalizeRoute path) =
        (if withoutGaps (split path) = [[]] then [[], []]
        else withoutGaps (split path)) ∧
      (split (normalizeRoute path)).filter (·.contains '{') =
        (split path).filter (·.contains '{') := by
  refine ⟨?_, ?_, split_normalizeRoute path, ?_⟩
  · intro hPath
    rw [normalizeRoute, segments_eq, split_eq_splitOn hPath,
      normalize_eq_rebuild, rebuild_eq]
  · rw [normalizeRoute, segments_normalizeRoute]
    rfl
  · exact filter_split_normalizeRoute path rfl

/- A route with slashes in front, inside, and at the end. -/
def slashed : Text :=
  ['/', '/', 'a', '/', '/', ':', 'b', '/']

/- As a route and as a request it has one normal form. -/
theorem normalizeRoute_canonical_slashed :
    '{' ∉ slashed ∧
      normalizeRoute slashed = normalize slashed ∧
        normalize slashed = ['/', 'a', '/', ':', 'b'] := by
  have hPath : '{' ∉ slashed := by decide
  exact
    ⟨hPath, (normalizeRoute_canonical _).1 hPath, by decide⟩

end Path

end RequestRouter
