import RequestRouter.LinearScan.Variant
import RequestRouter.Proofs.Compiled.Captures

/-
  The expression that the source of a scanned path is read
  as.

  Every pattern is written as one piece: as an edge of a
  segment tree is, or, for a wildcard inside the path, as a
  segment without a group. The source of a path is read as
  an expression with the ways of its pieces in a row, tied
  to both ends, in which each parameter has the group that
  is recorded for it.

  Key definitions include:
    * `ScanPiece`
    * `ScanSource.waysFrom`

  Main statements:
    * `ScanSource.ofPatternsFrom_cons`
    * `ScanSource.exists_isReadAs`
    * `ScanSource.rel_finds_ways`
-/

------------------------------------------------------------
-- Pieces
------------------------------------------------------------

namespace RequestRouter

open Regex

/- How a pattern is written in the source of its path. -/
inductive ScanPiece where
  | shared (edge : Edge)
  | segment
  deriving DecidableEq, Repr

namespace ScanPiece

variable {E : Engine}
variable {preferred : Expr → Ways}
variable {inner : Text → Nat → Ways}

/- The piece of a pattern, by its place in the path. -/
def ofPattern
    (first last : Bool) : Pattern E → ScanPiece
  | .literal text => .shared (.literal text)
  | .param _ => .shared .segment
  | .constrained _ constraint =>
      .shared (.capture constraint.source constraint.groups)
  | .wildcard =>
      if !last then .segment
      else if first then .shared .any
      else .shared .tail

/- What stands in front of a piece. -/
def separator
    (first : Bool) : Text :=
  if first then [] else ['/']

/- The text of a piece behind its separator. -/
def source
    (first : Bool) : ScanPiece → Text
  | .shared edge => edge.source (separator first)
  | .segment => separator first ++ Pattern.segmentSource

/- The first free group behind a piece. -/
def groupAfter
    (group : Nat) : ScanPiece → Nat
  | .shared edge => edge.groupAfter group
  | .segment => group

/- The ways of a piece behind its separator. -/
def ways
    (inner : Text → Nat → Ways)
    (first : Bool)
    (group : Nat) : ScanPiece → Ways
  | .shared edge => edge.ways inner (separator first) group
  | .segment =>
      Ways.andThen (Ways.text (separator first))
        Edge.segmentWays

/- Whether a piece is read as it is meant. -/
def IsReadWell
    (preferred : Expr → Ways)
    (inner : Text → Nat → Ways) : ScanPiece → Prop
  | .shared edge => edge.IsReadWell preferred inner
  | .segment => True

/- A separator is nothing or a slash. -/
theorem separator_cases
    (first : Bool) :
    separator first = [] ∨ separator first = ['/'] := by
  cases first
  · exact Or.inr rfl
  · exact Or.inl rfl

/- No piece starts with a question mark. -/
theorem head?_source
    (piece : ScanPiece)
    (first : Bool) :
    (piece.source first).head? ≠ some '?' := by
  cases piece with
  | shared edge =>
      exact edge.head?_source (separator_cases first)
  | segment =>
      cases first <;>
        simp [source, separator, Pattern.segmentSource]

/- No group behind a piece comes before it. -/
theorem le_groupAfter
    (piece : ScanPiece)
    (group : Nat) :
    group ≤ piece.groupAfter group := by
  cases piece with
  | segment => exact Nat.le_refl group
  | shared edge =>
      cases edge with
      | literal | tail | any => exact Nat.le_refl group
      | capture source groups =>
          simp only [ScanPiece.groupAfter, Edge.groupAfter]
          omega

/- The pattern of a parameter is written as a capture. -/
theorem exists_capture_of_name?
    {pattern : Pattern E}
    {name : Text}
    (hName : pattern.name? = some name)
    (first last : Bool) :
    ∃ source groups,
      ofPattern first last pattern =
        .shared (.capture source groups) := by
  cases pattern with
  | literal | wildcard => cases hName
  | param => exact ⟨_, _, rfl⟩
  | constrained => exact ⟨_, _, rfl⟩

/- A piece is read with its ways; a capture has its group. -/
theorem exists_isReadAs
    (hPreferred : IsPreference preferred)
    {piece : ScanPiece}
    (hPiece : piece.IsReadWell preferred inner)
    (first : Bool)
    (group : Nat) :
    ∃ last items,
      piece.groupAfter (group + 1) = last + 1 ∧
        IsReadAs (piece.source first) group last items ∧
        Ways.sequence (items.map preferred) =
          piece.ways inner first (group + 1) ∧
        ∀ source groups,
          piece = .shared (.capture source groups) →
            group + 1 ∈ Expr.listOuterGroups items := by
  cases piece with
  | shared edge =>
      rcases
          Edge.exists_isReadAs hPreferred hPiece
            (separator_cases first) group with
        ⟨last, items, hAfter, hRead, hWays, hOwn⟩
      refine ⟨last, items, hAfter, hRead, hWays, ?_⟩
      rintro source groups hCapture
      cases hCapture
      exact hOwn 0 (0, group + 1) (by simp [Edge.ownGroup])
  | segment =>
      have hSegment :=
        isReadAs_repeated '+' (Or.inr rfl)
          (isReadAs_allBut_slash group)
      have hFront :=
        Edge.isReadAs_separator (separator_cases first) group
      refine
        ⟨group, _, rfl,
          isReadAs_append hFront (by decide) hSegment, ?_,
          by simp⟩
      rw [List.map_append, Ways.sequence_append,
        hPreferred.chars, ways]
      simp only [List.map_cons, List.map_nil, Ways.sequence,
        Ways.andThen_stay]
      rw [hPreferred.repetition rfl, hPreferred.set]
      rfl

end ScanPiece

end RequestRouter

------------------------------------------------------------
-- Sources
------------------------------------------------------------

namespace RequestRouter

open Regex

namespace ScanSource

variable {E : Engine}
variable {preferred : Expr → Ways}
variable {inner : Text → Nat → Ways}

/- The source of patterns is the piece of the first, and on. -/
theorem ofPatternsFrom_cons
    (first : Bool)
    (group : Nat)
    (pattern : Pattern E)
    (rest : List (Pattern E)) :
    ofPatternsFrom first group (pattern :: rest) =
      let piece :=
        ScanPiece.ofPattern first rest.isEmpty pattern
      let later :=
        ofPatternsFrom false (piece.groupAfter group) rest
      ⟨piece.source first ++ later.source,
        (pattern.name?.map (·, group)).toList ++
          later.params⟩ := by
  cases pattern with
  | literal | param | constrained =>
      simp [ofPatternsFrom, after, afterGroup,
        ScanPiece.ofPattern, ScanPiece.source,
        ScanPiece.groupAfter, ScanPiece.separator,
        Edge.source, Edge.segment, Edge.groupAfter,
        Pattern.name?]
  | wildcard =>
      cases hLast : rest.isEmpty <;> cases first <;>
        simp [ofPatternsFrom, after, hLast,
          ScanPiece.ofPattern, ScanPiece.source,
          ScanPiece.groupAfter, ScanPiece.separator,
          Edge.source, Edge.groupAfter, Pattern.name?]

/- The ways of the patterns of a path, tied to its end. -/
def waysFrom
    (inner : Text → Nat → Ways)
    (first : Bool)
    (group : Nat) : List (Pattern E) → Ways
  | [] => Ways.check .textEnd
  | pattern :: rest =>
      let piece :=
        ScanPiece.ofPattern first rest.isEmpty pattern
      Ways.andThen (piece.ways inner first group)
        (waysFrom inner false (piece.groupAfter group) rest)

/- Whether the pieces of patterns are read as they should. -/
def AreReadWell
    (preferred : Expr → Ways)
    (inner : Text → Nat → Ways)
    (patterns : List (Pattern E)) : Prop :=
  ∀ pattern ∈ patterns, ∀ first last,
    (ScanPiece.ofPattern first last pattern).IsReadWell
      preferred inner

/- No source starts with a question mark. -/
theorem head?_source
    (first : Bool)
    (group : Nat)
    (patterns : List (Pattern E)) :
    (ofPatternsFrom first group patterns).source.head? ≠
      some '?' := by
  induction patterns generalizing first group with
  | nil => simp [ofPatternsFrom]
  | cons pattern rest ih =>
      rw [ofPatternsFrom_cons]
      dsimp only
      generalize
        ScanPiece.ofPattern first rest.isEmpty pattern = piece
      have hPiece := piece.head?_source first
      cases hText : piece.source first with
      | nil => simpa using ih false (piece.groupAfter group)
      | cons c text => simpa [hText] using hPiece

/-
  The source of patterns is read with their ways, and the
  groups of its parameters are outside repetitions.
-/
theorem exists_isReadAs
    (hPreferred : IsPreference preferred)
    {patterns : List (Pattern E)}
    (hPatterns : AreReadWell preferred inner patterns)
    (first : Bool)
    (group : Nat) :
    ∃ last items,
      IsReadAs
          (ofPatternsFrom first (group + 1) patterns).source
          group last items ∧
        Ways.sequence (items.map preferred) =
          waysFrom inner first (group + 1) patterns ∧
        ∀ entry ∈
            (ofPatternsFrom first (group + 1) patterns).params,
          entry.2 ∈ Expr.listOuterGroups items := by
  induction patterns generalizing first group with
  | nil =>
      refine
        ⟨group, _, isReadAs_anchor (Or.inr rfl) group, ?_,
          by simp [ofPatternsFrom]⟩
      simp [Ways.sequence, Ways.andThen_stay, waysFrom,
        hPreferred.assertion]
  | cons pattern rest ih =>
      rcases
          ScanPiece.exists_isReadAs hPreferred
            (hPatterns pattern (by simp) first rest.isEmpty)
            first group with
        ⟨middle, items, hAfter, hItems, hWays, hOwn⟩
      rcases
          ih (fun later hLater =>
            hPatterns later (List.mem_cons_of_mem _ hLater))
            false middle with
        ⟨last, others, hOthers, hLater, hGroups⟩
      rw [ofPatternsFrom_cons, waysFrom]
      dsimp only
      rw [hAfter]
      refine
        ⟨last, items ++ others,
          isReadAs_append hItems (head?_source _ _ _) hOthers,
          ?_, ?_⟩
      · rw [List.map_append, Ways.sequence_append, hWays,
          hLater]
      · intro entry hEntry
        rw [Expr.listOuterGroups_append, List.mem_append]
        rcases List.mem_append.mp hEntry with hFirst | hRest
        · rcases
              Option.map_eq_some_iff.mp
                (Option.mem_toList.mp hFirst) with
            ⟨name, hName, rfl⟩
          rcases
              ScanPiece.exists_capture_of_name? hName first
                rest.isEmpty with
            ⟨source, groups, hPiece⟩
          exact Or.inl (hOwn source groups hPiece)
        · exact Or.inr (hGroups entry hRest)

/- The groups of parameters increase. -/
theorem sorted_params
    (first : Bool)
    (group : Nat)
    (patterns : List (Pattern E)) :
    (∀ entry ∈ (ofPatternsFrom first group patterns).params,
        group ≤ entry.2) ∧
      (ofPatternsFrom first group patterns).params.Pairwise
        (·.2 < ·.2) := by
  induction patterns generalizing first group with
  | nil => simp [ofPatternsFrom]
  | cons pattern rest ih =>
      rw [ofPatternsFrom_cons]
      dsimp only
      have hAfter :=
        (ScanPiece.ofPattern first rest.isEmpty
          pattern).le_groupAfter group
      rcases
          ih false
            ((ScanPiece.ofPattern first rest.isEmpty
              pattern).groupAfter group) with
        ⟨hBehind, hSorted⟩
      cases hName : pattern.name? with
      | none =>
          exact
            ⟨fun entry hEntry =>
              Nat.le_trans hAfter (hBehind entry hEntry),
              hSorted⟩
      | some name =>
          rcases
              ScanPiece.exists_capture_of_name? hName first
                rest.isEmpty with
            ⟨source, groups, hPiece⟩
          rw [hPiece] at hBehind hSorted ⊢
          simp only [ScanPiece.groupAfter, Edge.groupAfter]
            at hBehind hSorted ⊢
          simp only [Option.map_some, Option.toList_some,
            List.singleton_append, List.mem_cons,
            List.pairwise_cons, forall_eq_or_imp]
          refine ⟨⟨Nat.le_refl group, ?_⟩, ?_, hSorted⟩
          · intro entry hEntry
            have hBound := hBehind entry hEntry
            omega
          · intro entry hEntry
            have hBound := hBehind entry hEntry
            omega

/-
  What a leftmost-first engine finds for the source of
  patterns is their first way, with the groups of all
  parameters.
-/
theorem rel_finds_ways
    (hPreferred : IsPreference preferred)
    {patterns : List (Pattern E)}
    (hPatterns : AreReadWell preferred inner patterns)
    {e : Expr}
    (hParse : parse (ofPatterns patterns).source = .ok e)
    {text : Text}
    {found : Option Captures}
    (hFinds : e.Finds preferred text found) :
    Option.Rel
      (fun captures (way : Way) =>
        ∀ entry ∈ (ofPatterns patterns).params,
          captures.group? entry.2 =
            way.record.lookup entry.2)
      found
      (waysFrom inner true 1 patterns
        (Place.start text)).head? := by
  rcases exists_isReadAs hPreferred hPatterns true 0 with
    ⟨last, items, hRead, hWays, hGroups⟩
  cases
    eq_sequence_of_parse (head?_source _ _ _) hRead hParse
  have hFound := Expr.rel_finds_textStart hPreferred hFinds
  rw [← hWays]
  revert hFound
  generalize
    (Ways.sequence (items.map preferred)
      (Place.start text)).head? = way
  intro hFound
  cases hFound with
  | none => exact .none
  | some hAnswers =>
      refine .some fun entry hEntry => ?_
      exact
        hAnswers entry.2 (hGroups entry hEntry)
          ((sorted_params true 1 patterns).1 entry hEntry)

end ScanSource

end RequestRouter
