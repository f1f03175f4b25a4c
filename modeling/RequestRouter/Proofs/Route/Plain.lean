import RequestRouter.Proofs.Path.Braceless
import RequestRouter.Proofs.Route.Label
import RequestRouter.Proofs.Route.Taking

/-
  Patterns without constraints.

  Each of them takes one part of a path, as a constraint
  does that accepts no slash, so that there is one way at
  most to take a path, and what it binds can be read off the
  parts. Of the variants of one route, those that take a
  path bind lists that start one another.

  Key definitions include:
    * `Pattern.IsPlain`
    * `Pattern.IsConfined`
    * `Pattern.bound`

  Main statements:
    * `Pattern.isPlain_of_parsePath`
    * `Pattern.eq_bound_of_takes`
    * `Pattern.prefix_or_prefix_of_variants`
-/

------------------------------------------------------------
-- Plain Patterns
------------------------------------------------------------

namespace RequestRouter

variable {E : Regex.Engine}

namespace Pattern

/- Whether a pattern stays inside a segment. -/
def IsPlain : Pattern E → Prop
  | .literal text => '/' ∉ text
  | .constrained _ _ => False
  | .param _ | .wildcard => True

/- A bare segment is read as a plain pattern. -/
theorem isPlain_of_parse
    {raw : Text}
    (hRaw : Path.IsBareSegment raw)
    {pattern : Pattern E}
    (hParse : parse raw = .ok pattern) :
    pattern.IsPlain := by
  have hLabel := label_of_parse hParse
  cases pattern with
  | param | wildcard => exact trivial
  | literal text =>
      rw [label] at hLabel
      exact hLabel ▸ hRaw.1
  | constrained name constraint =>
      refine absurd ?_ hRaw.2
      rw [← hLabel]
      simp [label]

/- The patterns of a path, segment by segment. -/
theorem forall₂_parse
    {path : Text}
    {patterns : List (Pattern E)}
    (hParse : parsePath path = .ok patterns) :
    List.Forall₂ (fun raw pattern => parse raw = .ok pattern)
      (Path.split path) patterns :=
  (Sequence.mapM_eq_ok_iff _ _ _).mp
    (mapM_parse_of_parsePath hParse)

/- A path without braces is read as plain patterns. -/
theorem isPlain_of_parsePath
    {path : Text}
    (hPath : '{' ∉ path)
    {patterns : List (Pattern E)}
    (hParse : parsePath path = .ok patterns)
    {pattern : Pattern E}
    (hPattern : pattern ∈ patterns) :
    pattern.IsPlain := by
  rcases
      Sequence.exists_of_mem_mapM
        (mapM_parse_of_parsePath hParse) hPattern with
    ⟨raw, hRaw, hRead⟩
  exact
    isPlain_of_parse
      (Path.isBareSegment_of_mem_split hPath hRaw) hRead

/- The labels of the patterns of a path are its segments. -/
theorem map_label_of_parsePath
    {path : Text}
    {patterns : List (Pattern E)}
    (hParse : parsePath path = .ok patterns) :
    patterns.map label = Path.split path := by
  have hAll := forall₂_parse hParse
  clear hParse
  revert hAll
  generalize Path.split path = segments
  intro hAll
  induction hAll with
  | nil => rfl
  | cons hFirst _ ih =>
      rw [List.map_cons, ih, label_of_parse hFirst]

/- A path has at least one pattern. -/
theorem ne_nil_of_parsePath
    {path : Text}
    {patterns : List (Pattern E)}
    (hParse : parsePath path = .ok patterns) :
    patterns ≠ [] := by
  rintro rfl
  exact
    Path.split_ne_nil path
      (map_label_of_parsePath hParse).symm

end Pattern

end RequestRouter

------------------------------------------------------------
-- Bound Parts
------------------------------------------------------------

namespace RequestRouter

variable {E : Regex.Engine}

namespace Pattern

/- Whether a constraint, if any, accepts no slash. -/
def IsConfined : Pattern E → Prop
  | .constrained _ constraint =>
      ∀ text, constraint.isMatch text = true → '/' ∉ text
  | _ => True

/- A plain pattern has no constraint. -/
theorem IsPlain.isConfined
    {pattern : Pattern E}
    (hPlain : pattern.IsPlain) :
    pattern.IsConfined := by
  cases pattern with
  | literal | param | wildcard => exact trivial
  | constrained => exact hPlain.elim

/- The parts at the places of named patterns. -/
def bound
    (patterns : List (Pattern E))
    (parts : List Text) : List (Text × Text) :=
  (patterns.zip parts).filterMap fun (pattern, part) =>
    pattern.name?.map (·, part)

/- Confined patterns bind the parts at their places. -/
theorem eq_bound_of_takes
    {patterns : List (Pattern E)}
    {parts : List Text}
    {bindings : List (Text × Text)}
    (hTakes : Takes patterns parts bindings)
    (hConfined :
      ∀ pattern ∈ patterns, pattern.IsConfined) :
    bindings = bound patterns parts := by
  induction hTakes with
  | nothing => rfl
  | literal _ ih | segment _ _ _ ih =>
      have hRest := ih (List.forall_mem_cons.mp hConfined).2
      simpa [bound, name?] using hRest
  | param _ _ ih =>
      have hRest := ih (List.forall_mem_cons.mp hConfined).2
      simpa [bound, name?] using hRest
  | @constrained _ _ span _ _ _ hSpan hMatch _ ih =>
      rcases List.forall_mem_cons.mp hConfined with
        ⟨hFirst, hLater⟩
      have hSlash := hFirst _ hMatch
      cases span with
      | nil => exact absurd rfl hSpan
      | cons part rest =>
          cases rest with
          | nil => simpa [bound, name?] using ih hLater
          | cons second more =>
              simp [List.intercalate_cons_cons] at hSlash
  | remainder parts =>
      cases parts <;> rfl

/- Fewer patterns bind the start of what more of them bind. -/
theorem isPrefix_bound
    {start patterns : List (Pattern E)}
    (hStart : start <+: patterns)
    (parts : List Text) :
    bound start parts <+: bound patterns parts := by
  rcases hStart with ⟨later, rfl⟩
  induction start generalizing parts with
  | nil => exact List.nil_prefix
  | cons pattern rest ih =>
      cases parts with
      | nil => exact List.nil_prefix
      | cons part parts =>
          have hRest := ih parts
          cases hName : pattern.name? with
          | none => simpa [bound, hName] using hRest
          | some name => simpa [bound, hName] using hRest

/- The patterns of the root bind nothing. -/
theorem bound_root
    (parts : List Text) :
    bound [.literal [], (.literal [] : Pattern E)] parts =
      [] := by
  cases parts with
  | nil => rfl
  | cons first rest => cases rest <;> rfl

end Pattern

end RequestRouter

------------------------------------------------------------
-- Patterns of Variants
------------------------------------------------------------

namespace RequestRouter

variable {E : Regex.Engine}

namespace Pattern

/- The root is read as two literals without text. -/
theorem eq_of_root
    {path : Text}
    (hRoot : Path.split path = [[], []])
    {patterns : List (Pattern E)}
    (hParse : parsePath path = .ok patterns) :
    patterns = [.literal [], .literal []] := by
  have hAll := mapM_parse_of_parsePath hParse
  rw [hRoot] at hAll
  cases hAll
  rfl

/- Paths that start one another have patterns that do. -/
theorem isPrefix_of_split
    {first second : Text}
    (hStart : Path.split first <+: Path.split second)
    {patterns others : List (Pattern E)}
    (hFirst : parsePath first = .ok patterns)
    (hSecond : parsePath second = .ok others) :
    patterns <+: others := by
  have hMap := mapM_parse_of_parsePath hSecond
  rcases hStart with ⟨rest, hRest⟩
  rw [← hRest, List.mapM_append,
    mapM_parse_of_parsePath hFirst] at hMap
  rcases (Sequence.bind_eq_ok_iff _ _ _).mp hMap with
    ⟨_, hOk, hMore⟩
  cases hOk
  rcases (Sequence.bind_eq_ok_iff _ _ _).mp hMore with
    ⟨later, -, hAll⟩
  cases hAll
  exact List.prefix_append _ _

/-
  Of what is read off the patterns of two variants from left
  to right, one starts the other, if there is nothing to
  read off the root.
-/
theorem prefix_or_prefix_of_variants
    {α : Type}
    (read : List (Pattern E) → List α)
    (hRoot : read [.literal [], .literal []] = [])
    (hRead :
      ∀ {start patterns : List (Pattern E)},
        start <+: patterns → read start <+: read patterns)
    {path first second : Text}
    (hFirst : first ∈ Path.variants path)
    (hSecond : second ∈ Path.variants path)
    {patterns others : List (Pattern E)}
    (hPatterns : parsePath first = .ok patterns)
    (hOthers : parsePath second = .ok others) :
    read patterns <+: read others ∨
      read others <+: read patterns := by
  rcases Path.exists_split_variants path with
    ⟨segments, hAll⟩
  rcases hAll first hFirst with hOwn | hStart
  · rw [eq_of_root hOwn hPatterns, hRoot]
    exact Or.inl List.nil_prefix
  · rcases hAll second hSecond with hOwn' | hStart'
    · rw [eq_of_root hOwn' hOthers, hRoot]
      exact Or.inr List.nil_prefix
    · refine
        (List.prefix_or_prefix_of_prefix hStart hStart').imp
          ?_ ?_
      · intro hPrefix
        exact
          hRead (isPrefix_of_split hPrefix hPatterns hOthers)
      · intro hPrefix
        exact
          hRead (isPrefix_of_split hPrefix hOthers hPatterns)

/-
  Two variants of confined patterns that take the same path
  bind lists of which one starts the other.
-/
theorem prefix_or_prefix_of_takes
    {path first second : Text}
    (hFirst : first ∈ Path.variants path)
    (hSecond : second ∈ Path.variants path)
    {patterns others : List (Pattern E)}
    (hPatterns : parsePath first = .ok patterns)
    (hOthers : parsePath second = .ok others)
    (hConfined :
      ∀ pattern ∈ patterns ++ others, pattern.IsConfined)
    {parts : List Text}
    {bindings more : List (Text × Text)}
    (hTakes : Takes patterns parts bindings)
    (hMore : Takes others parts more) :
    bindings <+: more ∨ more <+: bindings := by
  rw [eq_bound_of_takes hTakes fun pattern hPattern =>
      hConfined pattern (List.mem_append_left _ hPattern),
    eq_bound_of_takes hMore fun pattern hPattern =>
      hConfined pattern (List.mem_append_right _ hPattern)]
  exact
    prefix_or_prefix_of_variants (bound · parts)
      (bound_root parts)
      (fun hStart => isPrefix_bound hStart parts) hFirst
      hSecond hPatterns hOthers

end Pattern

end RequestRouter
