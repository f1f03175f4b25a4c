import Mathlib.Data.List.TakeWhile
import RequestRouter.Proofs.Route.Literal

/-
  How segments are written.

  A wildcard is a star. A parameter is a colon and a name
  without braces, perhaps with a constraint in braces behind
  it. All other segments are literal text. So an optional
  parameter is read as a parameter only if it is written
  without braces.

  Key definitions include:
    * `SegmentShape.IsName`
    * `SegmentShape.IsDynamic`

  Main statements:
    * `SegmentShape.ofText_eq_param_iff`
    * `SegmentShape.ofText_eq_constrained_iff`
    * `SegmentShape.ofText_eq_literal_iff`
    * `Path.parsesStatic_iff`
-/

------------------------------------------------------------
-- Names
------------------------------------------------------------

namespace RequestRouter

namespace SegmentShape

/- Whether a text can be the name of a parameter. -/
def IsName
    (name : Text) : Prop :=
  name ≠ [] ∧ '{' ∉ name ∧ '}' ∉ name

instance
    (name : Text) :
    Decidable (IsName name) := by
  unfold IsName
  infer_instance

/- A body without an opening brace can be a name only. -/
theorem ofBody_of_braceless
    {body : Text}
    (hBody : '{' ∉ body) :
    ofBody body =
      if IsName body then .param body else .literal := by
  have hAll : ∀ c ∈ body, (c != '{') = true := by
    intro c hMember
    apply bne_iff_ne.mpr
    intro hBrace
    exact hBody (hBrace ▸ hMember)
  have hTake := List.takeWhile_eq_self_iff.mpr hAll
  have hDrop := List.dropWhile_eq_nil_iff.mpr hAll
  unfold ofBody
  rw [hTake, hDrop]
  by_cases hNone : body = []
  · simp [IsName, hNone]
  · by_cases hClose : '}' ∈ body
    · simp [IsName, hClose]
    · simp [IsName, hNone, hBody, hClose]

/- Behind a name in front of a brace is a constraint. -/
theorem ofBody_of_brace
    {name : Text}
    (hName : '{' ∉ name)
    (inner : Text) :
    ofBody (name ++ '{' :: inner) =
      if IsName name then
        match Text.stripSuffix? '}' inner with
        | some (c :: source) => .constrained name (c :: source)
        | _ => .literal
      else .literal := by
  have hAll : ∀ c ∈ name, (c != '{') = true := by
    intro c hMember
    apply bne_iff_ne.mpr
    intro hBrace
    exact hName (hBrace ▸ hMember)
  have hTake :
      (name ++ '{' :: inner).takeWhile (· != '{') = name := by
    rw [List.takeWhile_append_of_pos hAll]
    simp
  have hDrop :
      (name ++ '{' :: inner).dropWhile (· != '{') =
        '{' :: inner := by
    rw [List.dropWhile_append_of_pos hAll]
    simp
  unfold ofBody
  rw [hTake, hDrop]
  by_cases hNone : name = []
  · simp [IsName, hNone]
  · by_cases hClose : '}' ∈ name
    · simp [IsName, hClose]
    · have hPlain :
          ¬ (name.isEmpty || name.contains '}') = true := by
        simp [hNone, hClose]
      have hIsName : IsName name := ⟨hNone, hName, hClose⟩
      exact (if_neg hPlain).trans (if_pos hIsName).symm

/- A body is a parameter if it is the name. -/
theorem ofBody_eq_param_iff
    (body name : Text) :
    ofBody body = .param name ↔
      body = name ∧ IsName name := by
  constructor
  · intro hShape
    have hBody := eq_of_ofBody_param hShape
    refine ⟨hBody, ?_⟩
    subst hBody
    by_cases hBrace : '{' ∈ body
    · rcases List.eq_append_cons_of_mem hBrace with
        ⟨front, inner, hBody, hFront⟩
      rw [hBody, ofBody_of_brace hFront] at hShape
      split at hShape
      · split at hShape <;> cases hShape
      · cases hShape
    · rw [ofBody_of_braceless hBrace] at hShape
      split at hShape
      case isTrue hName => exact hName
      case isFalse => cases hShape
  · intro hBoth
    rcases hBoth with ⟨rfl, hName⟩
    rw [ofBody_of_braceless hName.2.1, if_pos hName]

/-
  A body is a constrained parameter if it is a name with a
  source in braces behind it.
-/
theorem ofBody_eq_constrained_iff
    (body name source : Text) :
    ofBody body = .constrained name source ↔
      body = name ++ '{' :: source ++ ['}'] ∧
        IsName name ∧ source ≠ [] := by
  have hStrip :
      ∀ source, Text.stripSuffix? '}' (source ++ ['}']) =
        some source := by
    intro source
    simp [Text.stripSuffix?, Text.endsWith]
  constructor
  · intro hShape
    have hBody := eq_of_ofBody_constrained hShape
    refine ⟨hBody, ?_⟩
    by_cases hBrace : '{' ∈ body
    · rcases List.eq_append_cons_of_mem hBrace with
        ⟨front, inner, hFrontBody, hFront⟩
      rw [hFrontBody, ofBody_of_brace hFront] at hShape
      split at hShape
      case isFalse => cases hShape
      case isTrue hName =>
          split at hShape
          case h_1 c rest hInner =>
              cases hShape
              exact ⟨hName, List.cons_ne_nil _ _⟩
          case h_2 => cases hShape
    · rw [ofBody_of_braceless hBrace] at hShape
      split at hShape <;> cases hShape
  · intro hBoth
    rcases hBoth with ⟨rfl, hName, hSource⟩
    rw [List.append_assoc, List.cons_append,
      ofBody_of_brace hName.2.1, if_pos hName, hStrip]
    cases source with
    | nil => exact absurd rfl hSource
    | cons c rest => rfl

end SegmentShape

end RequestRouter

------------------------------------------------------------
-- Segments
------------------------------------------------------------

namespace RequestRouter

namespace SegmentShape

/- A segment is a parameter if it is a colon and a name. -/
theorem ofText_eq_param_iff
    (raw name : Text) :
    ofText raw = .param name ↔
      raw = ':' :: name ∧ IsName name := by
  constructor
  · intro hShape
    have hRaw := eq_of_ofText_param hShape
    subst hRaw
    rw [ofText, ofBody_eq_param_iff] at hShape
    exact ⟨rfl, hShape.2⟩
  · intro hBoth
    rcases hBoth with ⟨rfl, hName⟩
    rw [ofText, ofBody_eq_param_iff]
    exact ⟨rfl, hName⟩

/-
  A segment is a constrained parameter if it is a colon, a
  name, and a source in braces.
-/
theorem ofText_eq_constrained_iff
    (raw name source : Text) :
    ofText raw = .constrained name source ↔
      raw = ':' :: name ++ '{' :: source ++ ['}'] ∧
        IsName name ∧ source ≠ [] := by
  constructor
  · intro hShape
    have hRaw := eq_of_ofText_constrained hShape
    refine ⟨hRaw, ?_⟩
    rw [hRaw, List.cons_append, List.cons_append, ofText,
      ofBody_eq_constrained_iff] at hShape
    exact hShape.2
  · intro hBoth
    rcases hBoth with ⟨rfl, hName⟩
    rw [List.cons_append, List.cons_append, ofText,
      ofBody_eq_constrained_iff]
    exact ⟨rfl, hName⟩

/-
  Whether a segment is written as a wildcard, a parameter or
  a constrained parameter.
-/
def IsDynamic
    (raw : Text) : Prop :=
  raw = ['*'] ∨
    ∃ name, IsName name ∧
      (raw = ':' :: name ∨
        ∃ source ≠ [],
          raw = ':' :: name ++ '{' :: source ++ ['}'])

/- All other segments are literal. -/
theorem ofText_eq_literal_iff
    (raw : Text) :
    ofText raw = .literal ↔ ¬ IsDynamic raw := by
  constructor
  · intro hShape hDynamic
    rcases hDynamic with rfl | ⟨name, hName, hParam⟩
    · cases hShape
    · rcases hParam with hRaw | ⟨source, hSource, hRaw⟩
      · rw [(ofText_eq_param_iff raw name).mpr ⟨hRaw, hName⟩]
          at hShape
        cases hShape
      · rw [(ofText_eq_constrained_iff raw name source).mpr
          ⟨hRaw, hName, hSource⟩] at hShape
        cases hShape
  · intro hText
    cases hShape : ofText raw with
    | literal => rfl
    | wildcard =>
        exact
          absurd (Or.inl (eq_of_ofText_wildcard hShape)) hText
    | param name =>
        rcases (ofText_eq_param_iff raw name).mp hShape with
          ⟨hRaw, hName⟩
        exact
          absurd (Or.inr ⟨name, hName, Or.inl hRaw⟩) hText
    | constrained name source =>
        rcases
            (ofText_eq_constrained_iff raw name source).mp
              hShape with
          ⟨hRaw, hName, hSource⟩
        exact
          absurd
            (Or.inr
              ⟨name, hName, Or.inr ⟨source, hSource, hRaw⟩⟩)
            hText

/-
  An optional parameter is read as a parameter only if there
  are no braces in it: the question mark stands behind the
  braces of a constraint.
-/
theorem isDynamic_iff_of_optional
    {raw : Text}
    (hOptional : (Path.optional? raw).isSome = true) :
    IsDynamic raw ↔ '{' ∉ raw ∧ '}' ∉ raw := by
  unfold Path.optional? at hOptional
  split at hOptional
  case isFalse => cases hOptional
  case isTrue hColon =>
      rcases Option.isSome_iff_exists.mp hOptional with
        ⟨front, hStrip⟩
      have hRaw := Text.eq_append_of_stripSuffix? hStrip
      constructor
      · intro hDynamic
        rcases hDynamic with hStar | ⟨name, hName, hParam⟩
        · rw [hStar] at hColon
          cases hColon
        · rcases hParam with hPlain | ⟨source, -, hBraced⟩
          · rw [hPlain]
            simpa using hName.2
          · have hLast := congrArg List.getLast? hRaw
            rw [hBraced, List.getLast?_concat,
              List.getLast?_concat] at hLast
            cases hLast
      · intro hBraces
        cases raw with
        | nil => cases hColon
        | cons c name =>
            have hFirst : c = ':' := by
              simpa [Text.startsWith] using hColon
            subst hFirst
            refine Or.inr ⟨name, ⟨?_, ?_, ?_⟩, Or.inl rfl⟩
            · intro hNone
              rw [hNone] at hStrip
              cases hStrip
            · intro hOpen
              exact hBraces.1 (List.mem_cons_of_mem _ hOpen)
            · intro hClose
              exact hBraces.2 (List.mem_cons_of_mem _ hClose)

end SegmentShape

end RequestRouter

------------------------------------------------------------
-- Literal Segments
------------------------------------------------------------

namespace RequestRouter

variable {E : Regex.Engine}

namespace Pattern

/- What is read from a segment is as dynamic as it is written. -/
theorem isDynamic_of_parse
    {raw : Text}
    {pattern : Pattern E}
    (hParse : parse raw = .ok pattern) :
    pattern.isDynamic = true ↔ SegmentShape.IsDynamic raw := by
  rw [← not_iff_not, ← SegmentShape.ofText_eq_literal_iff]
  unfold parse at hParse
  split at hParse
  case h_1 hShape =>
      cases hParse
      simp [isDynamic, hShape]
  case h_2 hShape | h_3 hShape =>
      cases hParse
      simp [isDynamic, hShape]
  case h_4 hShape =>
      split at hParse
      · cases hParse
        simp [isDynamic, hShape]
      · cases hParse

/- Literal segments are read as their texts. -/
theorem parsePath_literals
    {path : Text}
    (hText :
      ∀ segment ∈ Path.split path,
        ¬ SegmentShape.IsDynamic segment) :
    parsePath path =
      .ok (literals (E := E) (Path.split path)) := by
  have hParts :
      (Path.split path).mapM parse =
        .ok (literals (E := E) (Path.split path)) := by
    rw [Sequence.mapM_eq_ok_iff, literals,
      List.forall₂_map_right_iff, List.forall₂_same]
    intro segment hSegment
    rw [parse,
      (SegmentShape.ofText_eq_literal_iff segment).mpr
        (hText segment hSegment)]
  have hNames :
      (literals (E := E) (Path.split path)).filterMap name? =
        [] := by
    simp [literals, name?]
  rw [parsePath, hParts]
  simp [hNames, firstRepeated, bind, Except.bind]

end Pattern

namespace Path

/-
  A path is read as literals just if none of its segments is
  written as something else.
-/
theorem parsesStatic_iff
    (path : Text) :
    (∃ patterns : List (Pattern E),
        Pattern.parsePath path = .ok patterns ∧
          Pattern.anyDynamic patterns = false) ↔
      ∀ segment ∈ split path,
        ¬ SegmentShape.IsDynamic segment := by
  constructor
  · intro hStatic segment hSegment
    rcases hStatic with ⟨patterns, hParse, hLiteral⟩
    rcases
        Sequence.exists_of_mem_items
          (Pattern.mapM_parse_of_parsePath hParse)
          hSegment with
      ⟨pattern, hMember, hPattern⟩
    rw [← Pattern.isDynamic_of_parse hPattern]
    exact List.any_eq_false.mp hLiteral pattern hMember
  · intro hText
    refine ⟨_, Pattern.parsePath_literals hText, ?_⟩
    simp [Pattern.anyDynamic, Pattern.literals,
      Pattern.isDynamic]

end Path

end RequestRouter
