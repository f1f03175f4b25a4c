import RequestRouter.Proofs.LinearScan.Agreement
import RequestRouter.Proofs.SegmentTree.Spelling

/-
  What a scanned path binds, by the paths that it spells.

  The source of a path whose constraints are counted matches
  what the edges of the path spell, and the group that is
  recorded for each parameter is that of its parenthesis: a
  request binds the names of the path to what the edges at
  their places catch.

  Key definitions include:
    * `Pattern.steps`
    * `ScanVariant.BindsSpelled`

  Main statements:
    * `ScanSource.exists_spells_of_mem_waysFrom`
    * `ScanVariant.bindsSpelled_of_compile`
-/

------------------------------------------------------------
-- Pieces That Pass
------------------------------------------------------------

namespace RequestRouter

open Regex

namespace Edge

/- Only captures catch something. -/
theorem Passes.eq_none
    {edge : Edge}
    {separator : Text}
    {start last : Place}
    {caught : Option Text}
    (hPass : edge.Passes separator start last caught)
    (hEdge : edge.isCapture = false) :
    caught = none := by
  cases hPass with
  | literal | tail | any => rfl
  | capture => cases hEdge

/- The source of a segment is closed without groups. -/
theorem closedBody?_segmentSource :
    closedBody? Pattern.segmentSource =
      some
        (.repetition 1 none true
          (.set (CharSet.allBut ['/'])), 0) := by
  with_unfolding_all rfl

/- The source of a segment has the ways of a segment. -/
theorem sourceWays_segment :
    sourceWays Pattern.segmentSource = segmentWays := by
  rw [sourceWays, closedBody?_segmentSource]
  rfl

end Edge

namespace ScanPiece

variable {E : Engine}
variable {preferred : Expr → Ways}

/-
  A pattern is written as its edge, which is a capture only
  for a name, or it is a wildcard inside the path and
  written as a segment.
-/
theorem ofPattern_cases
    (first last : Bool)
    (pattern : Pattern E) :
    (ofPattern first last pattern =
        .shared (pattern.edge first last) ∧
      (pattern.name? = none →
        (pattern.edge first last).isCapture = false)) ∨
      (ofPattern first last pattern = .segment ∧
        pattern.name? = none ∧
        pattern.edge first last = .segment) := by
  cases pattern with
  | literal => exact Or.inl ⟨rfl, fun _ => rfl⟩
  | param | constrained => exact Or.inl ⟨rfl, nofun⟩
  | wildcard =>
      cases last with
      | false => exact Or.inr ⟨rfl, rfl, rfl⟩
      | true =>
          cases first <;> exact Or.inl ⟨rfl, fun _ => rfl⟩

/- The pieces of counted patterns are read as they should. -/
theorem isReadWell_of_isCounted
    {pattern : Pattern E}
    (hCounted : pattern.IsCounted)
    (first last : Bool) :
    (ofPattern first last pattern).IsReadWell preferred
      (Edge.closedWays preferred) := by
  rcases ofPattern_cases first last pattern with
    ⟨hEdge, -⟩ | ⟨hSegment, -, -⟩
  · rw [hEdge]
    exact
      Edge.isReadWell_of_isCounted (hCounted.edge first last)
  · rw [hSegment]
    exact trivial

/- Behind a separator a segment is passed. -/
theorem leads_segment_iff
    (first : Bool)
    (group : Nat)
    (start last : Place) :
    (segment.ways (Edge.closedWays preferred) first
        group).Leads start last ↔
      ∃ caught,
        Edge.segment.Passes (separator first) start last
          caught := by
  rw [ways, Ways.leads_andThen_iff]
  constructor
  · intro hLeads
    rcases hLeads with ⟨middle, hFront, hSegment⟩
    rw [← Edge.sourceWays_segment] at hSegment
    exact ⟨_, .capture hFront hSegment⟩
  · intro hPasses
    rcases hPasses with ⟨caught, hPass⟩
    cases hPass with
    | @capture _ _ middle hFront hSource =>
        rw [Edge.sourceWays_segment] at hSource
        exact ⟨middle, hFront, hSource⟩

/- A segment without a group records nothing. -/
theorem record_of_mem_segment
    {first : Bool}
    {group : Nat}
    {start : Place}
    {way : Way}
    (hWay :
      way ∈
        segment.ways (Edge.closedWays preferred) first group
          start) :
    way.record = [] := by
  rcases List.mem_flatMap.mp hWay with
    ⟨front, hFront, hLater⟩
  rcases List.mem_map.mp hLater with ⟨later, hOwn, rfl⟩
  rcases List.mem_map.mp hOwn with ⟨inner, -, rfl⟩
  rw [Edge.record_of_mem_text hFront]
  rfl

/-
  Each way of a counted pattern's piece passes its edge. If
  the pattern has a name, the number of the piece comes
  first in the record, with what is caught.
-/
theorem exists_passes_of_mem_ways
    (hPreferred : IsPreference preferred)
    {pattern : Pattern E}
    (hCounted : pattern.IsCounted)
    {first last : Bool}
    {group : Nat}
    {start : Place}
    {way : Way}
    (hWay :
      way ∈
        (ofPattern first last pattern).ways
          (Edge.closedWays preferred) first group start) :
    ∃ caught inner,
      (pattern.edge first last).Passes (separator first)
          start way.place caught ∧
        way.record =
          (pattern.name?.bind fun _ => caught).toList.map
              (group, ·) ++ inner ∧
        ∀ entry ∈ inner,
          group < entry.1 ∧
            entry.1 <
              (ofPattern first last pattern).groupAfter
                group := by
  rcases ofPattern_cases first last pattern with
    ⟨hEdge, hUnnamed⟩ | ⟨hSegment, hName, hEdge⟩
  · rw [hEdge] at hWay ⊢
    rcases
        Edge.exists_passes_of_mem_ways hPreferred
          (hCounted.edge first last) hWay with
      ⟨caught, inner, hPass, hRecord, hInner⟩
    refine ⟨caught, inner, hPass, ?_, hInner⟩
    rw [hRecord]
    cases hName : pattern.name? with
    | some name => rfl
    | none =>
        rw [hPass.eq_none (hUnnamed hName)]
        rfl
  · rw [hSegment] at hWay ⊢
    rcases
        (leads_segment_iff first group start way.place).mp
          ⟨way, hWay, rfl⟩ with
      ⟨caught, hPass⟩
    refine ⟨caught, [], hEdge ▸ hPass, ?_, by simp⟩
    rw [record_of_mem_segment hWay, hName]
    rfl

/- Where a pattern's edge passes, a way of its piece leads. -/
theorem leads_ways_of_passes
    (hPreferred : IsPreference preferred)
    {pattern : Pattern E}
    {first last : Bool}
    {start middle : Place}
    {caught : Option Text}
    (hPass :
      (pattern.edge first last).Passes (separator first)
        start middle caught)
    (group : Nat) :
    ((ofPattern first last pattern).ways
      (Edge.closedWays preferred) first group).Leads start
        middle := by
  rcases ofPattern_cases first last pattern with
    ⟨hEdge, -⟩ | ⟨hSegment, -, hEdge⟩
  · rw [hEdge]
    exact Edge.leads_ways_of_passes hPreferred hPass group
  · rw [hSegment]
    rw [hEdge] at hPass
    exact (leads_segment_iff _ _ _ _).mpr ⟨caught, hPass⟩

end ScanPiece

end RequestRouter

------------------------------------------------------------
-- Sources That Spell
------------------------------------------------------------

namespace RequestRouter

open Regex

variable {E : Engine}

namespace Pattern

/- The steps of patterns, none of which is refused. -/
def steps
    (first : Bool) : List (Pattern E) → List Step
  | [] => []
  | pattern :: rest =>
      ⟨pattern.edge first rest.isEmpty, pattern.name?⟩ ::
        steps false rest

end Pattern

/- What has a greater key is looked up behind the others. -/
theorem lookup_append_of_lt
    {bound key : Nat}
    (hKey : bound ≤ key)
    {front : List (Nat × Text)}
    (hFront : ∀ entry ∈ front, entry.1 < bound)
    (rest : List (Nat × Text)) :
    (front ++ rest).lookup key = rest.lookup key := by
  induction front with
  | nil => rfl
  | cons entry front ih =>
      rcases List.forall_mem_cons.mp hFront with
        ⟨hFirst, hLater⟩
      have hOther : key ≠ entry.1 := by omega
      rw [List.cons_append, List.lookup_cons,
        beq_false_of_ne hOther]
      exact ih hLater

namespace ScanSource

variable {preferred : Expr → Ways}

/- What parameters are bound to by a record. -/
def boundBy
    (params : List (Text × Nat))
    (record : List (Nat × Text)) : List (Text × Text) :=
  params.filterMap fun entry =>
    (record.lookup entry.2).map (entry.1, ·)

/- Parameters in a row are bound in a row. -/
theorem boundBy_append
    (params others : List (Text × Nat))
    (record : List (Nat × Text)) :
    boundBy (params ++ others) record =
      boundBy params record ++ boundBy others record :=
  List.filterMap_append

/- Groups behind those of a front are bound behind it. -/
theorem boundBy_of_le
    {bound : Nat}
    {params : List (Text × Nat)}
    (hParams : ∀ entry ∈ params, bound ≤ entry.2)
    {front : List (Nat × Text)}
    (hFront : ∀ entry ∈ front, entry.1 < bound)
    (rest : List (Nat × Text)) :
    boundBy params (front ++ rest) = boundBy params rest := by
  apply List.filterMap_congr
  intro entry hEntry
  rw [lookup_append_of_lt (hParams entry hEntry) hFront]

/-
  A pattern in front binds its name to what its edge
  catches, if its group comes first in the record.
-/
theorem boundBy_front
    {pattern : Pattern E}
    {first last : Bool}
    {separator : Text}
    {start middle : Place}
    {caught : Option Text}
    (hPass :
      (pattern.edge first last).Passes separator start middle
        caught)
    (group : Nat)
    (rest : List (Nat × Text)) :
    boundBy (pattern.name?.map (·, group)).toList
        ((pattern.name?.bind fun _ => caught).toList.map
          (group, ·) ++ rest) =
      (pattern.name?.bind fun name =>
        caught.map (name, ·)).toList := by
  cases pattern with
  | literal | wildcard => rfl
  | param | constrained =>
      cases hPass with
      | capture => simp [boundBy, Pattern.name?]

/- All that a pattern records comes before what follows. -/
theorem lt_groupAfter_of_mem
    {pattern : Pattern E}
    {first last : Bool}
    (caught : Option Text)
    {group : Nat}
    {inner : List (Nat × Text)}
    (hInner :
      ∀ entry ∈ inner,
        group < entry.1 ∧
          entry.1 <
            (ScanPiece.ofPattern first last
              pattern).groupAfter group) :
    ∀ entry ∈
        (pattern.name?.bind fun _ => caught).toList.map
          (group, ·) ++ inner,
      entry.1 <
        (ScanPiece.ofPattern first last pattern).groupAfter
          group := by
  intro entry hEntry
  rcases List.mem_append.mp hEntry with hOwn | hIn
  · cases hName : pattern.name? with
    | none => simp [hName] at hOwn
    | some name =>
        rcases
            ScanPiece.exists_capture_of_name? hName first
              last with
          ⟨source, groups, hPiece⟩
        rcases List.mem_map.mp hOwn with ⟨text, -, rfl⟩
        rw [hPiece]
        simp only [ScanPiece.groupAfter, Edge.groupAfter]
        omega
  · exact (hInner entry hIn).2

/-
  Each way of counted patterns spells what follows with
  their edges, and the groups of their names record what the
  edges catch.
-/
theorem exists_spells_of_mem_waysFrom
    (hPreferred : IsPreference preferred)
    {patterns : List (Pattern E)}
    (hCounted : ∀ pattern ∈ patterns, pattern.IsCounted)
    {first : Bool}
    {group : Nat}
    {start : Place}
    {way : Way}
    (hWay :
      way ∈
        waysFrom (Edge.closedWays preferred) first group
          patterns start) :
    ∃ texts,
      Edge.Spells (ScanPiece.separator first)
          (Step.edges (Pattern.steps first patterns)) start
          texts ∧
        boundBy (ofPatternsFrom first group patterns).params
            way.record =
          Step.spelled (Pattern.steps first patterns)
            texts := by
  induction patterns generalizing first group start way with
  | nil =>
      rw [waysFrom, Ways.check] at hWay
      split at hWay
      case isFalse => cases hWay
      case isTrue hEnd =>
          have hRest : start.rest = [] := by
            simpa [Assertion.holds] using hEnd
          exact ⟨[], .nil hRest, rfl⟩
  | cons pattern rest ih =>
      rcases List.forall_mem_cons.mp hCounted with
        ⟨hFirst, hRest⟩
      rcases List.mem_flatMap.mp hWay with
        ⟨front, hFront, hLater⟩
      rcases List.mem_map.mp hLater with
        ⟨later, hBelow, rfl⟩
      rcases
          ScanPiece.exists_passes_of_mem_ways hPreferred
            hFirst hFront with
        ⟨caught, inner, hPass, hRecord, hInner⟩
      rcases ih hRest hBelow with ⟨texts, hSpells, hBound⟩
      refine ⟨caught :: texts, .cons hPass hSpells, ?_⟩
      have hBehind :=
        (sorted_params (E := E) false
          ((ScanPiece.ofPattern first rest.isEmpty
            pattern).groupAfter group) rest).1
      have hBefore :=
        lt_groupAfter_of_mem caught hInner
      rw [ofPatternsFrom_cons]
      dsimp only
      rw [boundBy_append, hRecord,
        boundBy_of_le hBehind hBefore, hBound,
        List.append_assoc, boundBy_front hPass]
      rw [Pattern.steps, Step.spelled, Step.spelled,
        List.zip_cons_cons, List.filterMap_cons]
      cases
        (pattern.name?.bind fun name =>
          caught.map (name, ·)) <;> rfl

/- Where the edges of patterns spell what follows is a way. -/
theorem exists_way_of_spells
    (hPreferred : IsPreference preferred)
    {patterns : List (Pattern E)}
    {first : Bool}
    {start : Place}
    {texts : List (Option Text)}
    (hSpells :
      Edge.Spells (ScanPiece.separator first)
        (Step.edges (Pattern.steps first patterns)) start
        texts)
    (group : Nat) :
    ∃ way,
      way ∈
        waysFrom (Edge.closedWays preferred) first group
          patterns start := by
  induction patterns
    generalizing first start texts group with
  | nil =>
      have hEnd : start.rest = [] := by
        cases hSpells with
        | nil hEnd => exact hEnd
      refine ⟨⟨start, []⟩, ?_⟩
      simp [waysFrom, Ways.check, Assertion.holds, hEnd]
  | cons pattern rest ih =>
      cases hSpells with
      | cons hPass hRest =>
          rcases
              ScanPiece.leads_ways_of_passes hPreferred hPass
                group with
            ⟨front, hFront, rfl⟩
          rcases
              @ih false _ _ hRest
                ((ScanPiece.ofPattern first rest.isEmpty
                  pattern).groupAfter group) with
            ⟨later, hLater⟩
          refine
            ⟨⟨later.place, front.record ++ later.record⟩, ?_⟩
          exact
            List.mem_flatMap.mpr
              ⟨front, hFront, List.mem_map_of_mem hLater⟩

end ScanSource

namespace ScanVariant

/-
  Whether a compiled path binds what its patterns spell: it
  matches a request that their edges spell, and no other,
  and binds their names to what the edges catch.
-/
def BindsSpelled
    (patterns : List (Pattern E))
    (variant : ScanVariant E) : Prop :=
  ∀ request,
    (∀ bindings,
        variant.bindings? request = some bindings →
          ∃ texts,
            Edge.Spells []
                (Step.edges (Pattern.steps true patterns))
                (Place.start request) texts ∧
              bindings =
                Step.spelled (Pattern.steps true patterns)
                  texts) ∧
      (variant.bindings? request = none →
        ∀ texts,
          ¬ Edge.Spells []
              (Step.edges (Pattern.steps true patterns))
              (Place.start request) texts)

/- A path with counted constraints binds what it spells. -/
theorem bindsSpelled_of_compile
    (hE : E.IsLeftmostFirst)
    {path : Text}
    {variant : ScanVariant E}
    (hCompile : compile path = .ok variant)
    {patterns : List (Pattern E)}
    (hParse : Pattern.parsePath path = .ok patterns)
    (hCounted : ∀ pattern ∈ patterns, pattern.IsCounted) :
    variant.BindsSpelled patterns := by
  rcases exists_of_compile hCompile with
    ⟨own, hOwn, hProgram, hParams⟩
  rw [hParse] at hOwn
  cases hOwn
  rcases hE with ⟨preferred, hPreferred, hEngine⟩
  rcases hEngine hProgram with ⟨e, hRead, -, hFinds⟩
  have hWell :
      ScanSource.AreReadWell preferred
        (Edge.closedWays preferred) patterns :=
    fun pattern hPattern first last =>
      ScanPiece.isReadWell_of_isCounted
        (hCounted pattern hPattern) first last
  intro request
  have hFound :=
    ScanSource.rel_finds_ways hPreferred hWell hRead
      (hFinds request)
  unfold bindings?
  rw [hParams]
  revert hFound
  generalize E.find variant.program request = found
  generalize hHead :
    (ScanSource.waysFrom (Edge.closedWays preferred) true 1
      patterns (Place.start request)).head? = way
  intro hFound
  cases hFound with
  | none =>
      refine ⟨by simp, ?_⟩
      intro _ texts hSpells
      rcases
          @ScanSource.exists_way_of_spells E preferred
            hPreferred patterns true _ _ hSpells 1 with
        ⟨way, hWay⟩
      rw [List.head?_eq_none_iff.mp hHead] at hWay
      cases hWay
  | @some captures way hAnswers =>
      refine ⟨?_, by simp⟩
      intro bindings hBindings
      cases hBindings
      rcases
          ScanSource.exists_spells_of_mem_waysFrom hPreferred
            hCounted (List.mem_of_head? hHead) with
        ⟨texts, hSpells, hBound⟩
      refine ⟨texts, hSpells, ?_⟩
      rw [← hBound]
      apply List.filterMap_congr
      intro entry hEntry
      rw [← hAnswers entry hEntry]

end ScanVariant

end RequestRouter
