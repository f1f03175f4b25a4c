import RequestRouter.Proofs.Compiled.Spelling
import RequestRouter.Proofs.SegmentTree.Parentheses

/-
  The markers that take part in a match.

  If the constraints of a plan are counted, the tables of
  its tree hold the numbers of its own parentheses. Wherever
  the combined expression matches a path, the marker of one
  leaf takes part and no other, and the table answers with
  this leaf.

  Key definitions include:
    * `Regex.Captures.tookPart`
    * `DynamicTable.IsExactFor`

  Main statements:
    * `SegmentTree.HasOwnNumbers.exists_marker`
    * `DynamicTable.isExactFor_ofPlan`
-/

------------------------------------------------------------
-- Markers of a Tree
------------------------------------------------------------

namespace RequestRouter

open Regex

/-
  Whether the group that opens at a position of a source
  took part in a match.
-/
def Regex.Captures.tookPart
    (source : Text)
    (captures : Captures)
    (position : Nat) : Bool :=
  ((numberAt? source position).bind captures.group?).isSome

namespace SegmentTree

/-
  If by the table exactly the marker of a leaf took part, so
  did exactly one of the parentheses that mark leaves, and it
  marks this leaf.
-/
theorem HasOwnNumbers.exists_marker
    {tree : SegmentTree}
    (hTree : tree.HasOwnNumbers)
    {captures : Captures}
    {group leaf : Nat}
    (hMember : (group, leaf) ∈ tree.flatten.leafGroups)
    (hOnly :
      ∀ entry ∈ tree.flatten.leafGroups,
        (captures.group? entry.1).isSome = true ↔
          entry = (group, leaf)) :
    ∃ position,
      (leaf, position) ∈ tree.markerPositions ∧
        ∀ marker ∈ tree.markerPositions,
          captures.tookPart tree.flatten.source marker.2 =
              true ↔
            marker = (leaf, position) := by
  have hSwapped :
      (leaf, group) ∈
        tree.flatten.leafGroups.map Prod.swap :=
    List.mem_map.mpr ⟨(group, leaf), hMember, rfl⟩
  rcases Sequence.exists_of_mem_left hTree.leaves hSwapped
    with ⟨⟨other, position⟩, hMarker, hLeaf, hNumber⟩
  dsimp only at hLeaf hNumber
  subst hLeaf
  refine ⟨position, hMarker, ?_⟩
  intro marker hMember
  rcases Sequence.exists_of_mem_right hTree.leaves hMember
    with ⟨entry, hEntry, hOwn, hOwnNumber⟩
  rcases List.mem_map.mp hEntry with
    ⟨⟨own, ownLeaf⟩, hTable, rfl⟩
  dsimp only [Prod.swap] at hOwn hOwnNumber
  subst hOwn
  rw [Captures.tookPart, hOwnNumber, Option.bind_some,
    hOnly _ hTable]
  constructor
  · intro hSame
    rcases Prod.mk.inj hSame with ⟨rfl, hLeaf⟩
    exact
      Prod.ext hLeaf (numberAt?_inj hOwnNumber hNumber)
  · rintro rfl
    rw [hNumber] at hOwnNumber
    rw [Option.some.inj hOwnNumber]

end SegmentTree

end RequestRouter

------------------------------------------------------------
-- Tables of a Plan
------------------------------------------------------------

namespace RequestRouter

open Regex

variable {E : Engine}
variable {H : Type}

namespace DynamicTable

/-
  Whether a table is that of a plan, with the numbers of the
  plan's own parentheses, and goes by its markers: wherever
  the program matches a path, exactly one marker took part,
  and the table answers with the handlers of its leaf and
  with what the groups of its names caught.
-/
structure IsExactFor
    (plan : Plan H)
    (table : DynamicTable E H) : Prop where
  program :
    E.compile plan.tree.flatten.source = .ok table.program
  contents :
    table =
      .ofPlan table.program plan.tree.flatten plan.dynamics
  numbers : plan.tree.HasOwnNumbers
  selects :
    ∀ path captures,
      E.find table.program path = some captures →
        ∃ number position leaf trail,
          (number, position) ∈ plan.tree.markerPositions ∧
            (∀ marker ∈ plan.tree.markerPositions,
              captures.tookPart plan.tree.flatten.source
                  marker.2 = true ↔
                marker = (number, position)) ∧
            plan.dynamics[number]? = some (leaf, trail) ∧
            table.find path =
              some
                ⟨leaf.handlers,
                  .ofList
                    (Params.valuesOf captures.group?
                      (leaf.paramGroups
                        plan.tree.flatten.captureGroups
                        trail))⟩

/- The table of a counted plan is exact for it. -/
theorem isExactFor_ofPlan
    (hE : E.IsLeftmostFirst)
    {routes : List (PlannedRoute H)}
    {plan : Plan H}
    (hRead : PlannedRoute.AreRead E routes)
    (hCounted : PlannedRoute.AreCounted routes)
    (hPlan : plan.Holds (Leaf.ofRoutes routes))
    (hSome : plan.dynamics ≠ [])
    {program : E.Program}
    (hCompile :
      E.compile plan.tree.flatten.source = .ok program) :
    (ofPlan program plan.tree.flatten plan.dynamics :
      DynamicTable E H).IsExactFor plan := by
  have hTree : plan.tree.HasOwnNumbers := by
    rcases hE with ⟨preferred, -, hEngine⟩
    rcases hEngine hCompile with ⟨e, hParse, -, -⟩
    exact
      SegmentTree.hasOwnNumbers_of_parse hPlan.sound.orderly
        (Plan.allEdges_isCounted hCounted hPlan) hParse
  refine ⟨hCompile, rfl, hTree, ?_⟩
  intro path captures hCaptures
  rcases
      exists_records hE hRead hCounted hPlan hSome hCompile
        hCaptures with
    ⟨variant, -, texts, trail, number, record, -, -, hLeaf,
      hRecords, hAnswered⟩
  have hGroups : plan.tree.flatten.groups.Nodup :=
    (plan.tree.root.isNumbered_flatten [] 1).nodup
  rcases Emission.exists_marker hGroups hRecords hAnswered
    with ⟨group, hMarker, hOnly⟩
  rcases hTree.exists_marker hMarker hOnly with
    ⟨position, hPosition, hTook⟩
  rcases
      find_of_records hPlan.sound.nodup hCaptures hRecords
        hAnswered hLeaf with
    ⟨hFind, -⟩
  exact
    ⟨number, position, _, trail, hPosition, hTook, hLeaf,
      hFind⟩

end DynamicTable

namespace MethodProgram

/- So is the table of its program, if there is one. -/
theorem isExactFor_of_ofPlan
    (hE : E.IsLeftmostFirst)
    {routes : List (PlannedRoute H)}
    {plan : Plan H}
    (hRead : PlannedRoute.AreRead E routes)
    (hCounted : PlannedRoute.AreCounted routes)
    (hPlan : plan.Holds (Leaf.ofRoutes routes))
    {method : Text}
    {program : MethodProgram E H}
    (hProgram : (ofPlan method plan).value = .ok program)
    {table : DynamicTable E H}
    (hTable : program.dynamics = some table) :
    table.IsExactFor plan := by
  rcases (exists_of_ofPlan hProgram).2 with
    ⟨-, hNone⟩ | ⟨hSome, compiled, hCompile, hOwn⟩
  · rw [hNone] at hTable
    cases hTable
  · rw [hOwn] at hTable
    cases hTable
    exact
      DynamicTable.isExactFor_ofPlan hE hRead hCounted hPlan
        hSome hCompile

end MethodProgram

end RequestRouter
