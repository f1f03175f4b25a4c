import RequestRouter.Proofs.LinearScan.Constraint
import RequestRouter.Proofs.Regex.Unopened

/-
  What a constraint accepts, and when its source stands on
  its own.

  The source of a constraint is put between parentheses and
  anchors as it is. If it closes a group that it does not
  open, it ends the parentheses, and the anchors bind parts of
  it only. Any other source that is accepted there compiles
  alone, and the constraint accepts the texts that the source
  matches from end to end.

  Key definitions include:
    * `Regex.Engine.IsLimitedBySize`
    * `Constraint.IsAnchored`

  Main statements:
    * `Regex.isLimitedBySize_engine`
    * `Pattern.isAnchored_iff_of_parse`
-/

------------------------------------------------------------
-- Engines With a Size Limit
------------------------------------------------------------

namespace RequestRouter

namespace Regex

namespace Engine

/-
  Whether an engine refuses a well-formed source for its
  size only: it compiles whatever takes no more bytes than
  another source that it compiles.
-/
def IsLimitedBySize
    (E : Engine) : Prop :=
  ∀ {source other : Text} {program : E.Program} {e f : Expr},
    E.compile source = .ok program →
      parse source = .ok e →
        parse other = .ok f →
          f.programStorage ≤ e.programStorage →
            ∃ smaller, E.compile other = .ok smaller

end Engine

/- The engine of this library refuses large programs only. -/
theorem isLimitedBySize_engine :
    engine.IsLimitedBySize := by
  intro source other program e f hCompile hSource hOther hSize
  rcases (Sequence.bind_eq_ok_iff _ _ _).mp hCompile with
    ⟨own, hOwn, hLimit⟩
  rw [hSource] at hOwn
  cases hOwn
  split at hLimit
  case isTrue => cases hLimit
  case isFalse hSmall =>
      refine ⟨f.program, ?_⟩
      have hLess : ¬ maxStorage < f.programStorage := by omega
      change compile other = .ok f.program
      rw [compile, hOther]
      simp [bind, Except.bind, hLess]

/- The engine of expression trees refuses none. -/
theorem isLimitedBySize_treeEngine :
    treeEngine.IsLimitedBySize := by
  intro source other program e f _ _ hOther _
  exact ⟨f, hOther⟩

end Regex

end RequestRouter

------------------------------------------------------------
-- Sources of Constraints
------------------------------------------------------------

namespace RequestRouter

open Regex

variable {E : Engine}

namespace Constraint

/- An expression between anchors is no smaller than alone. -/
theorem measures_anchored
    (body : Expr) :
    let e : Expr :=
      .sequence
        [.assertion .textStart, body, .assertion .textEnd]
    body.height ≤ e.height ∧
      body.programStorage ≤ e.programStorage := by
  simp only [Expr.sequence, Expr.height, Expr.listHeight,
    Expr.programStorage, Expr.storage, Expr.listStorage,
    Expr.lastGroup, Expr.listLastGroup]
  omega

/-
  The source of a constraint is well formed alone, and takes
  no more bytes, unless it closes a group that it does not
  open.
-/
theorem parse_of_parse_anchored
    {source : Text}
    {e : Expr}
    (hAnchored : parse (anchored source) = .ok e) :
    parse source = .error .unopenedGroup ∨
      ∃ body,
        parse source = .ok body ∧
          body.programStorage ≤ e.programStorage := by
  rcases read_of_parse_anchored hAnchored with
    hError | ⟨body, hRead⟩
  · exact Or.inl hError
  · rcases closedBody?_of_read hRead hAnchored with
      ⟨groups, hClosed⟩
    have hSame := eq_of_parse_anchored hClosed hAnchored
    rw [body.shift_zero] at hSame
    have hHeight :=
      ((Builder.parse_eq_ok_iff _ _).mp hAnchored).2
    have hMeasures := measures_anchored body
    rw [← hSame] at hMeasures
    refine Or.inr ⟨body, ?_, hMeasures.2⟩
    rw [Builder.parse_eq_ok_iff]
    exact ⟨hRead, Nat.le_trans hMeasures.1 hHeight⟩

/-
  Whether a constraint is anchored on the text that it
  binds: its source compiles alone, and the texts that are
  accepted are those that the source matches from the first
  position to the last one.
-/
structure IsAnchored
    (constraint : Constraint E) : Prop where
  compiles :
    ∃ program, E.compile constraint.source = .ok program
  isMatch_iff :
    ∃ body, parse constraint.source = .ok body ∧
      ∀ text,
        constraint.isMatch text = true ↔
          ∃ last, last.rest = [] ∧
            body.ways.Leads (Place.start text) last

/-
  A constraint is anchored if its source closes no group that
  it does not open.
-/
theorem isAnchored_of_compile
    (hE : E.IsLeftmostFirst)
    (hSize : E.IsLimitedBySize)
    {source : Text}
    {constraint : Constraint E}
    (hCompile : compile source = .ok constraint)
    (hOpened : parse source ≠ .error .unopenedGroup) :
    constraint.IsAnchored := by
  have hBoth := hCompile
  rcases (Sequence.bind_eq_ok_iff _ _ _).mp hBoth with
    ⟨program, hProgram, hSame⟩
  cases hSame
  rcases hE with ⟨preferred, hPreferred, hEngine⟩
  rcases hEngine hProgram with ⟨e, hAnchored, -, -⟩
  rcases parse_of_parse_anchored hAnchored with
    hError | ⟨body, hBody, hSmall⟩
  · exact absurd hError hOpened
  rcases hSize hProgram hAnchored hBody hSmall with
    ⟨alone, hAlone⟩
  rcases
      exists_means_of_compile ⟨preferred, hPreferred, hEngine⟩
        hCompile hAlone with
    ⟨own, hOwn, hMeans⟩
  exact ⟨⟨alone, hAlone⟩, own, hOwn, hMeans.isMatch_iff⟩

end Constraint

namespace Pattern

/- The constraint of a segment is compiled from its source. -/
theorem compile_of_parse
    {raw name : Text}
    {constraint : Constraint E}
    (hParse :
      parse raw = .ok (.constrained name constraint)) :
    Constraint.compile constraint.source = .ok constraint := by
  unfold parse at hParse
  split at hParse
  case h_1 | h_2 | h_3 => cases hParse
  case h_4 own source _ =>
      split at hParse
      case h_2 => cases hParse
      case h_1 found hCompile =>
          cases hParse
          have hFound := hCompile
          rcases (Sequence.bind_eq_ok_iff _ _ _).mp hFound with
            ⟨program, -, hSame⟩
          cases hSame
          exact hCompile

/-
  The constraint of a segment is anchored on the text that it
  binds just if its source closes no group that it does not
  open.
-/
theorem isAnchored_iff_of_parse
    (hE : E.IsLeftmostFirst)
    (hSize : E.IsLimitedBySize)
    {raw name : Text}
    {constraint : Constraint E}
    (hParse :
      parse raw = .ok (.constrained name constraint)) :
    constraint.IsAnchored ↔
      Regex.parse constraint.source ≠
        .error .unopenedGroup := by
  constructor
  · intro hAnchored hError
    rcases hAnchored.isMatch_iff with ⟨body, hBody, -⟩
    rw [hError] at hBody
    cases hBody
  · exact
      Constraint.isAnchored_of_compile hE hSize
        (compile_of_parse hParse)

/- A constraint with a group of its own. -/
def opened : Constraint treeEngine where
  source := ['(', 'a', ')', '|', 'b']
  program :=
    .sequence
      [.assertion .textStart,
        .choice [.group 1 none (.char 'a'), .char 'b'],
        .assertion .textEnd]

/- It closes no other group, and is anchored. -/
theorem isAnchored_opened :
    parse
          [':', 'x', '{', '(', 'a', ')', '|', 'b', '}'] =
        .ok (.constrained ['x'] opened) ∧
      opened.IsAnchored := by
  have hParse :
      parse
          [':', 'x', '{', '(', 'a', ')', '|', 'b', '}'] =
        .ok (.constrained ['x'] opened) :=
    rfl
  have hAlone :
      Regex.parse opened.source =
        .ok
          (.choice [.group 1 none (.char 'a'), .char 'b']) :=
    rfl
  refine ⟨hParse, ?_⟩
  apply
    (isAnchored_iff_of_parse isLeftmostFirst_treeEngine
      isLimitedBySize_treeEngine hParse).mpr
  rw [hAlone]
  intro hError
  cases hError

/-
  A constraint that closes the parentheses around it, so that
  each anchor binds one of its branches.
-/
def unopened : Constraint treeEngine where
  source := ['a', ')', '|', '(', 'b']
  program :=
    .choice
      [.sequence [.assertion .textStart, .char 'a'],
        .sequence
          [.group 1 none (.char 'b'), .assertion .textEnd]]

/-
  It does not compile alone, and accepts a text of which its
  first branch matches no more than the front.
-/
theorem not_isAnchored_unopened :
    parse
          [':', 'x', '{', 'a', ')', '|', '(', 'b', '}'] =
        .ok (.constrained ['x'] unopened) ∧
      (¬ ∃ program,
        treeEngine.compile unopened.source = .ok program) ∧
      unopened.isMatch ['a', 'x'] = true := by
  refine ⟨rfl, ?_, ?_⟩
  · intro hCompiles
    rcases hCompiles with ⟨program, hProgram⟩
    cases hProgram
  · decide +kernel

end Pattern

end RequestRouter
