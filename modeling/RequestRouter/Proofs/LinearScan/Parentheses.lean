import RequestRouter.Proofs.LinearScan.Spelling
import RequestRouter.Proofs.SegmentTree.Parentheses

/-
  The parentheses of a scanned path.

  The source of a path is a row of pieces, and each of its
  parentheses stands for a name. The groups of a compiled
  path are what is counted along this row; if the patterns
  are counted, the group of each parameter is that of its
  own parenthesis.

  Key definitions include:
    * `ScanSource.row`
    * `ScanVariant.HasOwnNumbers`

  Main statements:
    * `ScanSource.ofPatterns_eq`
    * `ScanVariant.hasOwnNumbers_of_compile`
-/

------------------------------------------------------------
-- Rows of Paths
------------------------------------------------------------

namespace RequestRouter

open Regex

variable {E : Engine}

namespace Pattern

/-
  What is written for a pattern, with the source of a
  parameter in parentheses.
-/
def row
    (first last : Bool)
    (pattern : Pattern E) : List (Piece Text) :=
  let front : Piece Text := .text (ScanPiece.separator first)
  match pattern with
  | .param name => [front, .group name segmentSource 0]
  | .constrained name constraint =>
      [front, .group name constraint.source constraint.groups]
  | pattern =>
      [.text
        ((ScanPiece.ofPattern first last pattern).source
          first)]

/- The row of a counted pattern is readable. -/
theorem IsCounted.isReadable_row
    {pattern : Pattern E}
    (hCounted : pattern.IsCounted)
    (first last : Bool) :
    ∀ piece ∈ pattern.row first last, piece.IsReadable := by
  have hFront :
      (Piece.text (ScanPiece.separator first) :
        Piece Text).IsReadable :=
    Edge.isReadable_separator (ScanPiece.separator_cases first)
  have hPlain :
      pattern.name? = none →
        (Piece.text
          ((ScanPiece.ofPattern first last pattern).source
            first) : Piece Text).IsReadable := by
    intro hName
    refine
      ⟨takesGroups_of_isReadAs fun group => ?_,
        ScanPiece.head?_source _ first⟩
    rcases
        ScanPiece.exists_isReadAs Expr.isPreference_ways
          (ScanPiece.isReadWell_of_isCounted hCounted first
            last) first group with
      ⟨after, items, hAfter, hItems, -⟩
    have hSame : after = group := by
      cases pattern with
      | literal =>
          simpa [ScanPiece.ofPattern, ScanPiece.groupAfter,
            Edge.groupAfter] using hAfter.symm
      | param | constrained => cases hName
      | wildcard =>
          cases last <;> cases first <;>
            simpa [ScanPiece.ofPattern, ScanPiece.groupAfter,
              Edge.groupAfter] using hAfter.symm
    exact ⟨items, hSame ▸ hItems⟩
  cases pattern with
  | literal | wildcard =>
      exact List.forall_mem_singleton.mpr (hPlain rfl)
  | param name =>
      refine List.forall_mem_cons.mpr ⟨hFront, ?_⟩
      exact
        List.forall_mem_singleton.mpr
          (Edge.isCounted_segment.isReadable name)
  | constrained name constraint =>
      refine List.forall_mem_cons.mpr ⟨hFront, ?_⟩
      exact
        List.forall_mem_singleton.mpr
          (Edge.IsCounted.isReadable hCounted name)

end Pattern

namespace ScanSource

/- What is written for patterns, up to the end of the text. -/
def rowFrom
    (first : Bool) : List (Pattern E) → List (Piece Text)
  | [] => [.text ['$']]
  | pattern :: rest =>
      pattern.row first rest.isEmpty ++ rowFrom false rest

/- What is written for the patterns of a path. -/
def row
    (patterns : List (Pattern E)) : List (Piece Text) :=
  .text ['^'] :: rowFrom true patterns

/- A source is written as its row, and counted along it. -/
theorem ofPatternsFrom_eq
    (first : Bool)
    (group : Nat)
    (patterns : List (Pattern E)) :
    ofPatternsFrom first group patterns =
      ⟨Piece.rowSource (rowFrom first patterns),
        Piece.numbers group (rowFrom first patterns)⟩ := by
  induction patterns generalizing first group with
  | nil => rfl
  | cons pattern rest ih =>
      rw [ofPatternsFrom_cons, rowFrom,
        Piece.rowSource_append, Piece.numbers,
        Piece.tally_append]
      dsimp only
      rw [ih]
      cases pattern with
      | literal =>
          simp [Pattern.row, Piece.rowSource, Piece.source,
            Piece.tally, Piece.owner?, Piece.width,
            Piece.numbers, ScanPiece.ofPattern,
            ScanPiece.groupAfter, Edge.groupAfter,
            Pattern.name?]
      | wildcard =>
          cases rest.isEmpty <;> cases first <;>
            simp [Pattern.row, Piece.rowSource, Piece.source,
              Piece.tally, Piece.owner?, Piece.width,
              Piece.numbers, ScanPiece.ofPattern,
              ScanPiece.groupAfter, Edge.groupAfter,
              Pattern.name?]
      | param | constrained =>
          simp [Pattern.row, Piece.rowSource, Piece.source,
            Piece.tally, Piece.owner?, Piece.width,
            Piece.numbers, ScanPiece.ofPattern,
            ScanPiece.source, ScanPiece.groupAfter,
            Edge.source, Edge.segment, Edge.groupAfter,
            Pattern.name?, Nat.add_assoc, Nat.add_comm]

/- So is the source of a whole path. -/
theorem ofPatterns_eq
    (patterns : List (Pattern E)) :
    ofPatterns patterns =
      ⟨Piece.rowSource (row patterns),
        Piece.numbers 1 (row patterns)⟩ := by
  rw [ofPatterns, ofPatternsFrom_eq]
  simp [after, row, Piece.rowSource, Piece.source,
    Piece.numbers, Piece.tally, Piece.owner?, Piece.width]

/- The row of counted patterns is readable. -/
theorem isReadable_row
    {patterns : List (Pattern E)}
    (hCounted : ∀ pattern ∈ patterns, pattern.IsCounted) :
    ∀ piece ∈ row patterns, piece.IsReadable := by
  have hFrom :
      ∀ first, ∀ piece ∈ rowFrom first patterns,
        piece.IsReadable := by
    induction patterns with
    | nil =>
        intro first
        exact
          List.forall_mem_singleton.mpr
            (Piece.isReadable_anchor (Or.inr rfl))
    | cons pattern rest ih =>
        rcases List.forall_mem_cons.mp hCounted with
          ⟨hFirst, hRest⟩
        intro first piece hPiece
        rcases List.mem_append.mp hPiece with hOwn | hLater
        · exact
            hFirst.isReadable_row first rest.isEmpty piece
              hOwn
        · exact ih hRest false piece hLater
  exact
    List.forall_mem_cons.mpr
      ⟨Piece.isReadable_anchor (Or.inl rfl), hFrom true⟩

end ScanSource

end RequestRouter

------------------------------------------------------------
-- Numbers of a Compiled Path
------------------------------------------------------------

namespace RequestRouter

open Regex

variable {E : Engine}

namespace ScanVariant

/-
  Whether a compiled path has the program of what is written
  for its patterns, and for each of its parameters the number
  of the parenthesis that is written for it.
-/
structure HasOwnNumbers
    (patterns : List (Pattern E))
    (variant : ScanVariant E) : Prop where
  program :
    E.compile (Piece.rowSource (ScanSource.row patterns)) =
      .ok variant.program
  params :
    AreOwn (Piece.rowSource (ScanSource.row patterns))
      variant.params
      (Piece.parentheses (ScanSource.row patterns))

/- A path with counted constraints has its own numbers. -/
theorem hasOwnNumbers_of_compile
    (hE : E.IsLeftmostFirst)
    {path : Text}
    {variant : ScanVariant E}
    (hCompile : compile path = .ok variant)
    {patterns : List (Pattern E)}
    (hParse : Pattern.parsePath path = .ok patterns)
    (hCounted : ∀ pattern ∈ patterns, pattern.IsCounted) :
    variant.HasOwnNumbers patterns := by
  rcases exists_of_compile hCompile with
    ⟨own, hOwn, hProgram, hParams⟩
  rw [hParse] at hOwn
  cases hOwn
  rw [ScanSource.ofPatterns_eq] at hProgram hParams
  rcases hE with ⟨preferred, -, hEngine⟩
  rcases hEngine hProgram with ⟨e, hRead, -, -⟩
  refine ⟨hProgram, ?_⟩
  rw [hParams]
  exact
    Piece.areOwn_of_parse
      (ScanSource.isReadable_row hCounted) hRead

end ScanVariant

end RequestRouter
