import RequestRouter.Proofs.Sequence
import RequestRouter.Route.Pattern

/-
  Labels of patterns.

  The label of a pattern is the segment that it was read
  from, so patterns that were read from segments are told
  apart by their labels.

  Key definition:
    * `Pattern.IsRead`

  Main statements:
    * `Pattern.label_of_parse`
    * `Pattern.eq_of_label_eq`
    * `Pattern.isRead_of_parsePath`
-/

------------------------------------------------------------
-- Shapes
------------------------------------------------------------

namespace RequestRouter

namespace SegmentShape

/- The body of a parameter is its name. -/
theorem eq_of_ofBody_param
    {body name : Text}
    (hShape : ofBody body = .param name) :
    body = name := by
  simp only [ofBody] at hShape
  split at hShape
  · cases hShape
  · split at hShape
    · rename_i hBraces
      have hJoin :=
        List.takeWhile_append_dropWhile
          (p := (· != '{')) (l := body)
      rw [hBraces, List.append_nil] at hJoin
      cases hShape
      exact hJoin.symm
    · split at hShape <;> cases hShape

/- The body of a constraint is a name and a braced source. -/
theorem eq_of_ofBody_constrained
    {body name source : Text}
    (hShape : ofBody body = .constrained name source) :
    body = name ++ '{' :: source ++ ['}'] := by
  simp only [ofBody] at hShape
  split at hShape
  · cases hShape
  · split at hShape
    · cases hShape
    · rename_i brace inner hBraces
      have hBrace : brace = '{' := by
        have hHead :=
          List.head?_dropWhile_not (· != '{') body
        rw [hBraces] at hHead
        simpa using hHead
      have hJoin :=
        List.takeWhile_append_dropWhile
          (p := (· != '{')) (l := body)
      rw [hBraces, hBrace] at hJoin
      split at hShape
      · rename_i c rest hStrip
        cases hShape
        have hInner := Text.eq_append_of_stripSuffix? hStrip
        rw [hInner] at hJoin
        simpa using hJoin.symm
      · cases hShape

/- No body is read as a wildcard. -/
theorem ofBody_ne_wildcard
    (body : Text) :
    ofBody body ≠ .wildcard := by
  simp only [ofBody]
  split
  · simp
  · split
    · simp
    · split <;> simp

/- Only a star is read as a wildcard. -/
theorem eq_of_ofText_wildcard
    {raw : Text}
    (hShape : ofText raw = .wildcard) :
    raw = ['*'] := by
  unfold ofText at hShape
  split at hShape
  · rfl
  · exact absurd hShape (ofBody_ne_wildcard _)
  · cases hShape

/- A parameter is a colon and its name. -/
theorem eq_of_ofText_param
    {raw name : Text}
    (hShape : ofText raw = .param name) :
    raw = ':' :: name := by
  unfold ofText at hShape
  split at hShape
  · cases hShape
  · rw [eq_of_ofBody_param hShape]
  · cases hShape

/- A constrained parameter is a colon and its body. -/
theorem eq_of_ofText_constrained
    {raw name source : Text}
    (hShape : ofText raw = .constrained name source) :
    raw = ':' :: name ++ '{' :: source ++ ['}'] := by
  unfold ofText at hShape
  split at hShape
  · cases hShape
  · rw [eq_of_ofBody_constrained hShape]
    rfl
  · cases hShape

end SegmentShape

end RequestRouter

------------------------------------------------------------
-- Labels
------------------------------------------------------------

namespace RequestRouter

variable {E : Regex.Engine}

namespace Constraint

/- A compiled constraint keeps its source. -/
theorem source_of_compile
    {source : Text}
    {constraint : Constraint E}
    (hCompile : compile source = .ok constraint) :
    constraint.source = source := by
  rcases (Sequence.bind_eq_ok_iff _ _ _).mp hCompile with
    ⟨program, -, hResult⟩
  cases hResult
  rfl

end Constraint

namespace Pattern

/- The label of a pattern is the segment it was read from. -/
theorem label_of_parse
    {raw : Text}
    {pattern : Pattern E}
    (hParse : parse raw = .ok pattern) :
    pattern.label = raw := by
  unfold parse at hParse
  split at hParse
  · cases hParse
    rfl
  · rename_i hShape
    cases hParse
    exact (SegmentShape.eq_of_ofText_wildcard hShape).symm
  · rename_i hShape
    cases hParse
    exact (SegmentShape.eq_of_ofText_param hShape).symm
  · rename_i name source hShape
    split at hParse
    · rename_i constraint hCompile
      cases hParse
      rw [SegmentShape.eq_of_ofText_constrained hShape]
      simp [label, Constraint.source_of_compile hCompile]
    · cases hParse

/- Whether a pattern was read from a segment. -/
def IsRead
    (pattern : Pattern E) : Prop :=
  parse pattern.label = .ok pattern

/- What is read from a segment is read from its label. -/
theorem isRead_of_parse
    {raw : Text}
    {pattern : Pattern E}
    (hParse : parse raw = .ok pattern) :
    pattern.IsRead := by
  unfold IsRead
  rw [label_of_parse hParse]
  exact hParse

/- Patterns that were read are told apart by their labels. -/
theorem eq_of_label_eq
    {first second : Pattern E}
    (hFirst : first.IsRead)
    (hSecond : second.IsRead)
    (hLabel : first.label = second.label) :
    first = second := by
  unfold IsRead at hFirst hSecond
  rw [hLabel, hSecond] at hFirst
  exact (Except.ok.inj hFirst).symm

/- A path that is read has its segments read one by one. -/
theorem mapM_parse_of_parsePath
    {path : Text}
    {patterns : List (Pattern E)}
    (hParse : parsePath path = .ok patterns) :
    (Path.split path).mapM parse = .ok patterns := by
  rcases (Sequence.bind_eq_ok_iff _ _ _).mp hParse with
    ⟨found, hFound, hNames⟩
  split at hNames
  · cases hNames
  · cases hNames
    exact hFound

/- The patterns of a path were read from its segments. -/
theorem isRead_of_parsePath
    {path : Text}
    {patterns : List (Pattern E)}
    (hParse : parsePath path = .ok patterns)
    {pattern : Pattern E}
    (hMember : pattern ∈ patterns) :
    pattern.IsRead := by
  rcases
      Sequence.exists_of_mem_mapM
        (mapM_parse_of_parsePath hParse) hMember with
    ⟨raw, -, hRaw⟩
  exact isRead_of_parse hRaw

end Pattern

end RequestRouter
