import RequestRouter.Proofs.SegmentTree.Matching
import RequestRouter.Proofs.SegmentTree.Spelling

/-
  What the groups of a flattened tree report.

  A record tells of a leaf and of what its edges catch, by
  the numbers in the tables of an emission. The groups that
  the tables do not know are in nobody's way, and a part of
  an emission has a range of numbers for itself.

  Key definitions include:
    * `Emission.Reports`
    * `Emission.IsPart`

  Main statements:
    * `TreeNode.reports_branch`
    * `Emission.IsPart.reports`
    * `TreeNode.isPart_marker`
    * `TreeNode.isPart_branch`
-/

------------------------------------------------------------
-- Reports
------------------------------------------------------------

namespace RequestRouter

open Regex

namespace Emission

/-
  Whether a record tells of a selection: without the groups
  that the tables do not know, it is the selection's.
-/
def Reports
    (emission : Emission)
    (record : List (Nat × Text))
    (selected : Selected) : Prop :=
  emission.Records
    (record.filter fun entry =>
      decide (entry.1 ∈ emission.groups))
    selected

/-
  Whether all that is recorded lies between the first group
  of an emission and the next free one.
-/
def IsWithin
    (emission : Emission)
    (first : Nat)
    (record : List (Nat × Text)) : Prop :=
  ∀ entry ∈ record,
    first ≤ entry.1 ∧ entry.1 < emission.next

/-
  A record in the range of a part is reported by the whole,
  if the whole has no other groups in this range.
-/
theorem Reports.mono
    {small large : Emission}
    {record : List (Nat × Text)}
    {selected : Selected}
    (hReports : small.Reports record selected)
    (hLeaves : small.leafGroups ⊆ large.leafGroups)
    (hCaptures : small.captureGroups ⊆ large.captureGroups)
    (hGroups :
      ∀ entry ∈ record,
        entry.1 ∈ large.groups ↔ entry.1 ∈ small.groups) :
    large.Reports record selected := by
  have hSame :
      (record.filter fun entry =>
          decide (entry.1 ∈ large.groups)) =
        record.filter fun entry =>
          decide (entry.1 ∈ small.groups) := by
    apply List.filter_congr
    intro entry hEntry
    exact decide_eq_decide.mpr (hGroups entry hEntry)
  unfold Reports
  rw [hSame]
  exact Records.mono hLeaves hCaptures hReports

/- What the tables do not know can stand in front. -/
theorem Reports.append
    {emission : Emission}
    {record : List (Nat × Text)}
    {selected : Selected}
    (hReports : emission.Reports record selected)
    {inner : List (Nat × Text)}
    (hInner :
      ∀ entry ∈ inner, entry.1 ∉ emission.groups) :
    emission.Reports (inner ++ record) selected := by
  have hNone :
      (inner.filter fun entry =>
        decide (entry.1 ∈ emission.groups)) = [] := by
    apply List.filter_eq_nil_iff.mpr
    intro entry hEntry
    simpa using hInner entry hEntry
  unfold Reports
  rw [List.filter_append, hNone]
  exact hReports

/- What a capture catches is reported in front. -/
theorem Reports.behind
    {emission : Emission}
    {record : List (Nat × Text)}
    {selected : Selected}
    (hReports : emission.Reports record selected)
    {node group : Nat}
    (hGroup : (node, group) ∈ emission.captureGroups)
    (text : Text) :
    emission.Reports ((group, text) :: record)
      (selected.behind node text) := by
  have hKnown : group ∈ emission.groups :=
    List.mem_append_right _ (List.mem_map_of_mem hGroup)
  unfold Reports
  rw [List.filter_cons, if_pos (decide_eq_true hKnown)]
  exact Records.behind hReports hGroup text

end Emission

namespace TreeNode

/-
  Behind an edge, a branch reports what is caught there in
  front of what its child reports.
-/
theorem reports_branch
    {edge : Edge}
    {child : TreeNode}
    {separator : Text}
    {start last : Place}
    {caught : Option Text}
    (hPass : edge.Passes separator start last caught)
    {group : Nat}
    {inner later : List (Nat × Text)}
    (hInner :
      ∀ entry ∈ inner,
        group < entry.1 ∧ entry.1 < edge.groupAfter group)
    {selected : Selected}
    (hWithin :
      (child.flatten ['/'] (edge.groupAfter group)).IsWithin
        (edge.groupAfter group) later)
    (hReports :
      (child.flatten ['/'] (edge.groupAfter group)).Reports
        later selected) :
    ((branchOf (edge, child)).flatten separator
        group).IsWithin group
        (caught.toList.map (group, ·) ++ inner ++ later) ∧
      ((branchOf (edge, child)).flatten separator
        group).Reports
        (caught.toList.map (group, ·) ++ inner ++ later)
        ⟨selected.leaf,
          caught.toList.map (child.id, ·) ++
            selected.caught⟩ := by
  have hNumbered :=
    child.isNumbered_flatten ['/'] (edge.groupAfter group)
  have hOwn := hPass.ownGroup_eq child.id group
  have hEmission :=
    (branchOf (edge, child)).flatten_eq separator group
  have hAfter :
      group + caught.toList.length ≤
        edge.groupAfter group := by
    cases hPass <;> simp [Edge.groupAfter]
  revert hWithin hReports hNumbered
  dsimp only [branchOf] at hEmission ⊢
  rw [hEmission, hOwn]
  generalize
    child.flatten ['/'] (edge.groupAfter group) = below
  intro hWithin hReports hNumbered
  have hNext := hNumbered.le
  constructor
  · intro entry hEntry
    dsimp only
    rcases List.mem_append.mp hEntry with hFront | hLater
    · rcases List.mem_append.mp hFront with hCaught | hIn
      · rcases List.mem_map.mp hCaught with ⟨text, hText, rfl⟩
        have hSome := List.length_pos_of_mem hText
        omega
      · have hBounds := hInner entry hIn
        omega
    · have hBounds := hWithin entry hLater
      omega
  · have hOld :
        ∀ entry ∈ inner,
          entry.1 ≠ group ∧ entry.1 ∉ below.groups := by
      intro entry hEntry
      have hBounds := hInner entry hEntry
      refine ⟨by omega, ?_⟩
      intro hGroup
      have hBelow := hNumbered.bounds entry.1 hGroup
      omega
    cases caught with
    | none =>
        apply Emission.Reports.append
        · exact hReports
        · intro entry hEntry
          exact (hOld entry hEntry).2
    | some text =>
        have hLarge :
            ∀ other, other ≠ group →
              (other ∈
                  (below.leafGroups.map Prod.fst ++
                    ((child.id, group) ::
                      below.captureGroups).map Prod.snd) ↔
                other ∈ below.groups) := by
          intro other hOther
          simp [Emission.groups, hOther]
        apply Emission.Reports.behind
        · apply Emission.Reports.append
          · refine hReports.mono ?_ ?_ ?_
            · exact List.Subset.refl _
            · exact List.subset_cons_self _ _
            · intro entry hEntry
              apply hLarge
              have hBounds := hWithin entry hEntry
              rw [Option.toList_some, List.length_singleton]
                at hAfter
              omega
          · intro entry hEntry
            rcases hOld entry hEntry with ⟨hOther, hNone⟩
            exact fun hGroup =>
              hNone ((hLarge _ hOther).mp hGroup)
        · exact List.mem_cons_self

end TreeNode

end RequestRouter

------------------------------------------------------------
-- Parts of Emissions
------------------------------------------------------------

namespace RequestRouter

open Regex

namespace Emission

/-
  Whether an emission from one number on is a part of one
  from another on: its tables are in those of the other, and
  no other numbers of these lie in its range.
-/
structure IsPart
    (large : Emission)
    (first : Nat)
    (small : Emission)
    (number : Nat) : Prop where
  leaves : small.leafGroups ⊆ large.leafGroups
  captures : small.captureGroups ⊆ large.captureGroups
  le : first ≤ number
  next_le : small.next ≤ large.next
  mem_groups :
    ∀ group ∈ large.groups,
      number ≤ group → group < small.next →
        group ∈ small.groups

/- What a part reports, the whole reports. -/
theorem IsPart.reports
    {large small : Emission}
    {first number : Nat}
    (hPart : large.IsPart first small number)
    {record : List (Nat × Text)}
    {selected : Selected}
    (hWithin : small.IsWithin number record)
    (hReports : small.Reports record selected) :
    large.IsWithin first record ∧
      large.Reports record selected := by
  constructor
  · intro entry hEntry
    have hBounds := hWithin entry hEntry
    have hFirst := hPart.le
    have hNext := hPart.next_le
    omega
  · refine hReports.mono hPart.leaves hPart.captures ?_
    intro entry hEntry
    rcases hWithin entry hEntry with ⟨hFirst, hNext⟩
    constructor
    · intro hGroup
      exact hPart.mem_groups entry.1 hGroup hFirst hNext
    · intro hGroup
      rcases List.mem_append.mp hGroup with hLeaf | hCapture
      · exact
          List.mem_append_left _
            (List.map_subset _ hPart.leaves hLeaf)
      · exact
          List.mem_append_right _
            (List.map_subset _ hPart.captures hCapture)

end Emission

namespace TreeNode

/- The first free group behind the marker of a node. -/
def groupBehind
    (node : TreeNode)
    (group : Nat) : Nat :=
  if node.leaf.isSome then group + 1 else group

/- The alternatives of a node are numbered in turn. -/
theorem areNumbered_alternatives
    (node : TreeNode)
    (separator : Text)
    (group : Nat) :
    Emission.AreNumbered (node.groupBehind group)
        (Branch.flattenAll separator (node.groupBehind group)
          (node.ordered.map branchOf))
        (node.flatten separator group).next := by
  have hEmit :
      ∀ branch ∈ node.ordered.map branchOf, ∀ group,
        (branch.emit group).IsNumbered group := by
    intro branch hBranch
    rcases List.mem_map.mp hBranch with ⟨entry, -, rfl⟩
    exact entry.2.isNumbered_flatten ['/']
  rcases
      Branch.exists_areNumbered_flattenAll hEmit separator
        (node.groupBehind group) with
    ⟨last, hAll⟩
  have hFull :
      Emission.AreNumbered group
        (node.alternatives separator group) last := by
    unfold alternatives
    unfold groupBehind at hAll
    cases hLeaf : node.leaf with
    | none => simpa [hLeaf] using hAll
    | some leaf =>
        rw [hLeaf] at hAll
        exact
          .cons (Emission.isNumbered_marker group leaf) hAll
  have hNext :
      (node.flatten separator group).next = last := by
    rw [flatten_eq]
    exact hFull.getLast?_next
  exact hNext ▸ hAll

/- The marker of a leaf is a part of what its node emits. -/
theorem isPart_marker
    {node : TreeNode}
    {leaf : Nat}
    (hLeaf : node.leaf = some leaf)
    (separator : Text)
    (group : Nat) :
    (node.flatten separator group).IsPart group
      (Emission.marker group leaf) group := by
  have hNext :=
    (node.areNumbered_alternatives separator group).le
  have hIn :
      Emission.marker group leaf ∈
        node.alternatives separator group := by
    simp [alternatives, hLeaf]
  have hTables := Emission.subset_ofAlternatives hIn group
  rw [← flatten_eq] at hTables
  refine
    ⟨hTables.1, hTables.2, Nat.le_refl _, ?_, ?_⟩
  · have hMarker :
        (Emission.marker group leaf).next = group + 1 := rfl
    rw [hMarker]
    simpa [groupBehind, hLeaf] using hNext
  · intro other _ hAbove hBelow
    have hSame : other = group :=
      Nat.le_antisymm (Nat.le_of_lt_succ hBelow) hAbove
    simp [hSame, Emission.groups, Emission.marker]

/-
  A branch of a child is a part as well, if none of the
  other branches has numbers in its range.
-/
theorem isPart_branch
    {node : TreeNode}
    {separator : Text}
    {group number : Nat}
    {small : Emission}
    (hMember :
      small ∈
        Branch.flattenAll separator (node.groupBehind group)
          (node.ordered.map branchOf))
    (hLe : node.groupBehind group ≤ number)
    (hNext :
      small.next ≤ (node.flatten separator group).next)
    (hGroups :
      ∀ other ∈
          (Branch.flattenAll separator
            (node.groupBehind group)
            (node.ordered.map branchOf)).flatMap
              Emission.groups,
        number ≤ other → other < small.next →
          other ∈ small.groups) :
    (node.flatten separator group).IsPart group small
      number := by
  have hIn : small ∈ node.alternatives separator group :=
    List.mem_append_right _ hMember
  have hTables := Emission.subset_ofAlternatives hIn group
  rw [← flatten_eq] at hTables
  refine ⟨hTables.1, hTables.2, ?_, hNext, ?_⟩
  · unfold groupBehind at hLe
    split at hLe <;> omega
  · intro other hOther hAbove hBelow
    rw [flatten_eq] at hOther
    have hAll :=
      (Emission.groups_ofAlternatives _ _).mem_iff.mp hOther
    rw [alternatives, List.flatMap_append,
      List.mem_append] at hAll
    rcases hAll with hMarker | hSibling
    · -- The number of the marker comes before all branches.
      cases hLeaf : node.leaf with
      | none => simp [hLeaf] at hMarker
      | some leaf =>
          simp only [hLeaf, Option.map_some,
            Option.toList_some, List.flatMap_singleton,
            Emission.groups, Emission.marker, List.map_cons,
            List.map_nil, List.append_nil,
            List.mem_singleton] at hMarker
          simp only [groupBehind, hLeaf, Option.isSome_some,
            if_true] at hLe
          omega
    · exact hGroups other hSibling hAbove hBelow

end TreeNode

end RequestRouter
