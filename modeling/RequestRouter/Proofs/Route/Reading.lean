import RequestRouter.Proofs.Regex.Ways
import RequestRouter.Proofs.Route.Grammar
import RequestRouter.Proofs.Trie.Contents

/-
  What raw segments stand for.

  Each segment stands for one pattern, or for the fault of
  its constraint, and reading finds it. The label of the
  pattern is the segment again, so that a child of the trie
  is shared by equal segments only.

  Key definitions include:
    * `SegmentShape.IsBraced`
    * `Pattern.StandsFor`

  Main statements:
    * `Pattern.parse_eq_iff`
    * `Pattern.parse_grammar`
-/

------------------------------------------------------------
-- The Grammar of Segments
------------------------------------------------------------

namespace RequestRouter

namespace SegmentShape

/- Whether a segment is a colon, a name, a source in braces. -/
def IsBraced
    (raw name source : Text) : Prop :=
  raw = ':' :: name ++ '{' :: source ++ ['}'] ∧
    IsName name ∧ source ≠ []

end SegmentShape

namespace Pattern

variable {E : Regex.Engine}

/-
  What a raw segment stands for. A constraint is compiled
  between anchors, and its fault is reported together with
  the segment.
-/
inductive StandsFor
    (raw : Text) :
    Except RouteError (Pattern E) → Prop where
  | wildcard
      (hRaw : raw = ['*']) :
      StandsFor raw (.ok .wildcard)
  | param
      {name : Text}
      (hRaw : raw = ':' :: name)
      (hName : SegmentShape.IsName name) :
      StandsFor raw (.ok (.param name))
  | constrained
      {name source : Text}
      {program : E.Program}
      (hRaw : SegmentShape.IsBraced raw name source)
      (hCompile :
        E.compile (Constraint.anchored source) =
          .ok program) :
      StandsFor raw
        (.ok (.constrained name ⟨source, program⟩))
  | refused
      {name source : Text}
      {reason : Regex.Fault}
      (hRaw : SegmentShape.IsBraced raw name source)
      (hCompile :
        E.compile (Constraint.anchored source) =
          .error reason) :
      StandsFor raw (.error (.invalidConstraint raw reason))
  | literal
      (hRaw : ¬ SegmentShape.IsDynamic raw) :
      StandsFor raw (.ok (.literal raw))

end Pattern

end RequestRouter

------------------------------------------------------------
-- Reading Segments
------------------------------------------------------------

namespace RequestRouter

namespace Pattern

variable {E : Regex.Engine}

/- A segment in braces is read by compiling its source. -/
theorem parse_braced
    {raw name source : Text}
    (hRaw : SegmentShape.IsBraced raw name source) :
    parse (E := E) raw =
      match E.compile (Constraint.anchored source) with
      | .ok program =>
          .ok (.constrained name ⟨source, program⟩)
      | .error reason =>
          .error (.invalidConstraint raw reason) := by
  have hShape :=
    (SegmentShape.ofText_eq_constrained_iff raw name
      source).mpr hRaw
  unfold parse Constraint.compile
  simp only [hShape]
  cases E.compile (Constraint.anchored source) with
  | ok program => rfl
  | error reason => rfl

/- What is read from a segment is what it stands for. -/
theorem standsFor_parse
    (raw : Text) :
    StandsFor (E := E) raw (parse raw) := by
  cases hShape : SegmentShape.ofText raw with
  | literal =>
      rw [parse, hShape]
      apply StandsFor.literal
      exact (SegmentShape.ofText_eq_literal_iff raw).mp hShape
  | wildcard =>
      rw [parse, hShape]
      apply StandsFor.wildcard
      exact SegmentShape.eq_of_ofText_wildcard hShape
  | param name =>
      rw [parse, hShape]
      rcases
          (SegmentShape.ofText_eq_param_iff raw name).mp
            hShape with
        ⟨hRaw, hName⟩
      exact StandsFor.param hRaw hName
  | constrained name source =>
      have hRaw : SegmentShape.IsBraced raw name source :=
        (SegmentShape.ofText_eq_constrained_iff raw name
          source).mp hShape
      rw [parse_braced hRaw]
      split
      case h_1 program hCompile =>
          exact StandsFor.constrained hRaw hCompile
      case h_2 reason hCompile =>
          exact StandsFor.refused hRaw hCompile

/- A segment stands for no more than is read from it. -/
theorem parse_eq_of_standsFor
    {raw : Text}
    {result : Except RouteError (Pattern E)}
    (hStands : StandsFor raw result) :
    parse raw = result := by
  cases hStands with
  | wildcard hRaw =>
      rw [hRaw]
      rfl
  | param hRaw hName =>
      rw [parse,
        (SegmentShape.ofText_eq_param_iff raw _).mpr
          ⟨hRaw, hName⟩]
  | constrained hRaw hCompile =>
      rw [parse_braced hRaw, hCompile]
  | refused hRaw hCompile =>
      rw [parse_braced hRaw, hCompile]
  | literal hRaw =>
      rw [parse,
        (SegmentShape.ofText_eq_literal_iff raw).mpr hRaw]

/- Reading follows the grammar. -/
theorem parse_eq_iff
    (raw : Text)
    (result : Except RouteError (Pattern E)) :
    parse raw = result ↔ StandsFor raw result := by
  constructor
  · intro hParse
    rw [← hParse]
    exact standsFor_parse raw
  · exact parse_eq_of_standsFor

/- Segments with patterns of one label are the same. -/
theorem eq_of_label_parse
    {raw other : Text}
    {first second : Pattern E}
    (hFirst : parse raw = .ok first)
    (hSecond : parse other = .ok second)
    (hLabel : first.label = second.label) :
    raw = other := by
  rw [← label_of_parse hFirst, hLabel, label_of_parse hSecond]

/-
  Reading follows the grammar of segments, and the label of
  what is read is the segment. So another segment has another
  label, and attaching along the one leaves the children of
  the trie along the other as they are.
-/
theorem parse_grammar
    (raw : Text) :
    (∀ result : Except RouteError (Pattern E),
        parse raw = result ↔ StandsFor raw result) ∧
      (∀ pattern : Pattern E,
        parse raw = .ok pattern → pattern.label = raw) ∧
      ∀ (other : Text) (first second : Pattern E),
        parse raw = .ok first → parse other = .ok second →
          (first.label = second.label → raw = other) ∧
          (raw ≠ other →
            ∀ method score rest,
              ∀ node child : TrieNode E,
                (node.attach method score
                      (first :: rest)).Child second child ↔
                  node.Child second child) := by
  refine ⟨parse_eq_iff raw, fun _ => label_of_parse, ?_⟩
  intro other first second hFirst hSecond
  refine ⟨eq_of_label_parse hFirst hSecond, ?_⟩
  intro hOther method score rest node child
  apply TrieNode.child_attach_iff_of_label_ne
  intro hLabel
  exact hOther (eq_of_label_parse hFirst hSecond hLabel)

/- A constraint to one letter. -/
def letter : Constraint Regex.treeEngine where
  source := ['a']
  program :=
    .sequence
      [.assertion .textStart, .char 'a', .assertion .textEnd]

/-
  Parameters of one name, with a constraint and without,
  are children of their own.
-/
theorem parse_grammar_namesake :
    parse [':', 'x', '{', 'a', '}'] =
        .ok (.constrained ['x'] letter) ∧
      parse (E := Regex.treeEngine) [':', 'x'] =
        .ok (.param ['x']) ∧
      (Pattern.constrained ['x'] letter).label =
        [':', 'x', '{', 'a', '}'] ∧
      ((TrieNode.empty.attach ['G'] 0
              [.constrained ['x'] letter]).attach ['G'] 1
            [.param ['x']]).Child
        (.constrained ['x'] letter)
        (TrieNode.empty.attach ['G'] 0 []) := by
  have hBraced :
      parse [':', 'x', '{', 'a', '}'] =
        .ok (.constrained ['x'] letter) :=
    rfl
  have hPlain :
      parse (E := Regex.treeEngine) [':', 'x'] =
        .ok (.param ['x']) :=
    rfl
  refine
    ⟨hBraced, hPlain,
      (parse_grammar _).2.1 _ hBraced, ?_⟩
  apply
    (((parse_grammar _).2.2 _ _ _ hPlain hBraced).2
      (by decide) ['G'] 1 [] _ _).mpr
  exact List.mem_cons_self

end Pattern

end RequestRouter
