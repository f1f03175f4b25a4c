import RequestRouter.Proofs.Path.Variants

/-
  Paths without braces.

  Such a path is cut at every slash, so that a route path
  and a request path are cut alike. The variants of a route
  without braces have no braces.

  Main statements:
    * `Path.split_eq_splitOn`
    * `Path.eq_of_splitOn_eq`
    * `Path.brace_not_mem_of_mem_variants`
-/

------------------------------------------------------------
-- Cutting at Slashes
------------------------------------------------------------

namespace RequestRouter

namespace Path

/- Without an open brace every slash separates. -/
theorem split_eq_splitOn
    {path : Text}
    (hPath : '{' ∉ path) :
    split path = path.splitOn '/' := by
  unfold split
  induction path with
  | nil => rfl
  | cons c rest ih =>
      have hFirst : c ≠ '{' := by
        rintro rfl
        exact hPath (by simp)
      have hDepth : depthAfter 0 c = 0 := by
        simp [depthAfter, hFirst]
      have hRest : '{' ∉ rest := fun hMember =>
        hPath (List.mem_cons_of_mem _ hMember)
      rw [splitFrom, hDepth, ih hRest,
        List.splitOn_cons_eq_if_modifyHead]
      simp

/- The segments of a path are made of its characters. -/
theorem mem_of_mem_splitOn
    {path part : Text}
    (hPart : part ∈ path.splitOn '/')
    {c : Char}
    (hChar : c ∈ part) :
    c ∈ path ∧ c ≠ '/' := by
  induction path generalizing part with
  | nil =>
      simp [List.splitOn_eq_singleton] at hPart
      simp [hPart] at hChar
  | cons first rest ih =>
      rw [List.splitOn_cons_eq_if_modifyHead] at hPart
      split at hPart
      case isTrue =>
          rcases List.mem_cons.mp hPart with rfl | hPart
          · simp at hChar
          · rcases ih hPart hChar with ⟨hRest, hSlash⟩
            exact ⟨List.mem_cons_of_mem _ hRest, hSlash⟩
      case isFalse hFirst =>
          cases hSplit : rest.splitOn '/' with
          | nil => exact absurd hSplit (by simp)
          | cons head others =>
              rw [hSplit, List.modifyHead_cons] at hPart
              have hOld :
                  ∀ part ∈ rest.splitOn '/', c ∈ part →
                    c ∈ first :: rest ∧ c ≠ '/' := by
                intro part hPart hChar
                rcases ih hPart hChar with ⟨hRest, hSlash⟩
                exact ⟨List.mem_cons_of_mem _ hRest, hSlash⟩
              rw [hSplit] at hOld
              rcases List.mem_cons.mp hPart with rfl | hPart
              · rcases List.mem_cons.mp hChar with
                  rfl | hChar
                · exact ⟨by simp, by simpa using hFirst⟩
                · exact hOld head (by simp) hChar
              · exact
                  hOld part (List.mem_cons_of_mem _ hPart)
                    hChar

/- A slash separates, and so is in no segment. -/
theorem slash_not_mem
    {path part : Text}
    (hPart : part ∈ path.splitOn '/') :
    '/' ∉ part :=
  fun hSlash => (mem_of_mem_splitOn hPart hSlash).2 rfl

/- Paths with the same segments are the same. -/
theorem eq_of_splitOn_eq
    {first second : Text}
    (hSame : first.splitOn '/' = second.splitOn '/') :
    first = second := by
  have hFirst : ['/'].intercalate (first.splitOn '/') = first :=
    List.intercalate_splitOn '/'
  rw [← hFirst, hSame, List.intercalate_splitOn]

end Path

end RequestRouter

------------------------------------------------------------
-- Variants
------------------------------------------------------------

namespace RequestRouter

namespace Path

/- Whether a segment could be one of a path without braces. -/
def IsBareSegment
    (segment : Text) : Prop :=
  '/' ∉ segment ∧ '{' ∉ segment

/- A path without braces is cut into bare segments. -/
theorem isBareSegment_of_mem_split
    {path : Text}
    (hPath : '{' ∉ path)
    {segment : Text}
    (hSegment : segment ∈ split path) :
    IsBareSegment segment := by
  rw [split_eq_splitOn hPath] at hSegment
  exact
    ⟨slash_not_mem hSegment, fun hBrace =>
      hPath (mem_of_mem_splitOn hSegment hBrace).1⟩

/- A path that is joined from bare segments has no braces. -/
theorem brace_not_mem_joinSegments
    {parts : List Text}
    (hParts : ∀ part ∈ parts, IsBareSegment part) :
    '{' ∉ joinSegments parts := by
  have hJoined :
      '{' ∉ ['/'].intercalate parts := by
    induction parts with
    | nil => simp
    | cons part rest ih =>
        have hPart := (hParts part (by simp)).2
        have hRest :=
          ih fun later hLater =>
            hParts later (List.mem_cons_of_mem _ hLater)
        cases rest with
        | nil => simpa using hPart
        | cons second more =>
            simp [List.intercalate_cons_cons, hPart, hRest]
  unfold joinSegments orRoot
  split
  · decide
  · exact hJoined

/- The required segments are bare if the segments are. -/
theorem isBareSegment_requiredSegments
    {parts : List Text}
    (hParts : ∀ part ∈ parts, IsBareSegment part)
    {segment : Text}
    (hSegment : segment ∈ requiredSegments parts) :
    IsBareSegment segment := by
  rcases List.mem_map.mp hSegment with ⟨part, hPart, rfl⟩
  have hBare := hParts part hPart
  cases hOptional : optional? part with
  | none => exact hBare
  | some required =>
      have hSubset : required ⊆ part := by
        unfold optional? at hOptional
        split at hOptional
        case isFalse => cases hOptional
        case isTrue =>
            rw [Text.eq_append_of_stripSuffix? hOptional]
            exact List.subset_append_left _ _
      exact
        ⟨fun hSlash => hBare.1 (hSubset hSlash),
          fun hBrace => hBare.2 (hSubset hBrace)⟩

/- The variants of a path without braces have no braces. -/
theorem brace_not_mem_of_mem_variants
    {path variant : Text}
    (hPath : '{' ∉ path)
    (hVariant : variant ∈ variants path) :
    '{' ∉ variant := by
  unfold variants expandOptional at hVariant
  split at hVariant
  case isFalse => rwa [List.mem_singleton.mp hVariant]
  case isTrue =>
      have hSegments :
          ∀ segment ∈ segments path,
            IsBareSegment segment := by
        intro segment hSegment
        refine isBareSegment_of_mem_split hPath ?_
        unfold segments at hSegment
        split at hSegment
        case h_1 => simp at hSegment
        case h_2 first rest hSplit =>
            rw [hSplit]
            rcases List.mem_cons.mp hSegment with rfl | hRest
            · simp
            · exact
                List.mem_cons_of_mem _
                  (List.mem_filter.mp hRest).1
      have hMember :
          variant ∈ variantsFrom [] (segments path) := by
        simpa using hVariant
      rcases exists_prefix_of_mem_variantsFrom hMember with
        ⟨start, hStart, rfl⟩
      rw [List.nil_append] at hStart
      exact
        brace_not_mem_joinSegments fun part hPart =>
          isBareSegment_requiredSegments hSegments
            (hStart.subset hPart)

end Path

end RequestRouter
