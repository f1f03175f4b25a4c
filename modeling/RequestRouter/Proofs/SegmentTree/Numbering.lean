import Mathlib.Data.List.Perm.Subperm
import RequestRouter.Proofs.SegmentTree.Selection
import RequestRouter.SegmentTree.Flatten

/-
  The group numbers of a flattened tree.

  A flattened node is the alternation of its own marker and
  of its children in order. Each group number is given to
  one marker or one capture only, and those of a subtree lie
  between its first free number and the next.

  Key definitions include:
    * `TreeNode.alternatives`
    * `Emission.groups`
    * `Emission.IsNumbered`

  Main statements:
    * `TreeNode.flatten_eq`
    * `TreeNode.isNumbered_flatten`
    * `TreeNode.nodup_nodes`
-/

------------------------------------------------------------
-- Alternatives
------------------------------------------------------------

namespace RequestRouter

namespace TreeNode

/- A child as a branch. -/
def branchOf
    (entry : Edge × TreeNode) : Branch :=
  ⟨entry.1, entry.2.id, flatten ['/'] entry.2⟩

/- The branches of children are theirs, one by one. -/
theorem branches_eq
    (children : List (Edge × TreeNode)) :
    branches children = children.map branchOf := by
  induction children with
  | nil => rfl
  | cons entry rest ih =>
      rcases entry with ⟨edge, child⟩
      simp [branches, branchOf, ih]

/- Branches are in the order of the children. -/
theorem sorted_branches
    (node : TreeNode) :
    Branch.sorted (branches node.children) =
      node.ordered.map branchOf := by
  rw [branches_eq, Branch.sorted, ordered]
  refine (List.map_mergeSort ?_).symm
  intro a ha b hb
  rfl

/- The emissions that a node is the alternation of. -/
def alternatives
    (separator : Text)
    (group : Nat)
    (node : TreeNode) : List Emission :=
  (node.leaf.map (Emission.marker group)).toList ++
    Branch.flattenAll separator
      (if node.leaf.isSome then group + 1 else group)
      (node.ordered.map branchOf)

/- A flattened node is the alternation of these. -/
theorem flatten_eq
    (separator : Text)
    (node : TreeNode)
    (group : Nat) :
    node.flatten separator group =
      .ofAlternatives group
        (node.alternatives separator group) := by
  rw [alternatives, ← sorted_branches]
  cases node
  rfl

end TreeNode

end RequestRouter

------------------------------------------------------------
-- Numbers
------------------------------------------------------------

namespace RequestRouter

namespace Emission

/- The numbers of markers and captures. -/
def groups
    (emission : Emission) : List Nat :=
  emission.leafGroups.map Prod.fst ++
    emission.captureGroups.map Prod.snd

/-
  Whether the numbers from `first` on are given once each,
  up to the next free number.
-/
structure IsNumbered
    (first : Nat)
    (emission : Emission) : Prop where
  nodup : emission.groups.Nodup
  bounds :
    ∀ group ∈ emission.groups,
      first ≤ group ∧ group < emission.next
  le : first ≤ emission.next

/- A marker has the first number. -/
theorem isNumbered_marker
    (group leaf : Nat) :
    (marker group leaf).IsNumbered group := by
  constructor <;> simp [marker, groups]

/- The numbers of alternatives are those of each of them. -/
theorem groups_ofAlternatives
    (group : Nat)
    (emissions : List Emission) :
    (ofAlternatives group emissions).groups.Perm
      (emissions.flatMap groups) := by
  simp only [ofAlternatives, groups, List.map_flatMap]
  exact List.flatMap_append_perm _ _ _

/-
  Whether emissions are numbered in turn, each from the next
  free number of the one before.
-/
inductive AreNumbered :
    Nat → List Emission → Nat → Prop where
  | nil (group : Nat) :
      AreNumbered group [] group
  | cons {first emission emissions last}
      (hFirst : emission.IsNumbered first)
      (hRest : AreNumbered emission.next emissions last) :
      AreNumbered first (emission :: emissions) last

namespace AreNumbered

/- The numbers in turn do not fall. -/
theorem le
    {first last : Nat}
    {emissions : List Emission}
    (hAll : AreNumbered first emissions last) :
    first ≤ last := by
  induction hAll with
  | nil => exact Nat.le_refl _
  | cons hFirst _ ih => exact Nat.le_trans hFirst.le ih

/- All numbers lie between the first and the last. -/
theorem bounds
    {first last : Nat}
    {emissions : List Emission}
    (hAll : AreNumbered first emissions last) :
    ∀ group ∈ emissions.flatMap groups,
      first ≤ group ∧ group < last := by
  induction hAll with
  | nil => simp
  | cons hFirst hRest ih =>
      intro group hGroup
      rw [List.flatMap_cons, List.mem_append] at hGroup
      have hNext := hFirst.le
      have hLast := hRest.le
      rcases hGroup with hOwn | hOther
      · have hBounds := hFirst.bounds group hOwn
        omega
      · have hBounds := ih group hOther
        omega

/- No number is given twice. -/
theorem nodup
    {first last : Nat}
    {emissions : List Emission}
    (hAll : AreNumbered first emissions last) :
    (emissions.flatMap groups).Nodup := by
  induction hAll with
  | nil => simp
  | cons hFirst hRest ih =>
      rw [List.flatMap_cons]
      refine List.nodup_append.mpr ⟨hFirst.nodup, ih, ?_⟩
      rintro group hOwn _ hOther rfl
      have hBelow := hFirst.bounds group hOwn
      have hAbove := hRest.bounds group hOther
      omega

/- The next free number is that of the last emission. -/
theorem getLast?_next
    {first last : Nat}
    {emissions : List Emission}
    (hAll : AreNumbered first emissions last) :
    (emissions.getLast?.map (·.next)).getD first = last := by
  induction hAll with
  | nil => rfl
  | @cons first emission emissions last hFirst hRest ih =>
      cases emissions with
      | nil =>
          cases hRest
          rfl
      | cons second more =>
          rw [List.getLast?_cons_cons, ← ih]
          simp [List.getLast?_eq_some_getLast]

/- Emissions that are numbered in turn are alternatives. -/
theorem isNumbered
    {first last : Nat}
    {emissions : List Emission}
    (hAll : AreNumbered first emissions last) :
    (ofAlternatives first emissions).IsNumbered first := by
  have hPerm := groups_ofAlternatives first emissions
  have hNext : (ofAlternatives first emissions).next = last :=
    hAll.getLast?_next
  refine ⟨?_, ?_, ?_⟩
  · exact hPerm.nodup_iff.mpr hAll.nodup
  · intro group hGroup
    rw [hNext]
    exact hAll.bounds group (hPerm.mem_iff.mp hGroup)
  · rw [hNext]
    exact hAll.le

end AreNumbered

end Emission

namespace Branch

/-
  A branch is numbered from a first group if what it emits
  is, from any group on.
-/
theorem isNumbered_flatten
    {branch : Branch}
    (hEmit : ∀ group, (branch.emit group).IsNumbered group)
    (separator : Text)
    (group : Nat) :
    (branch.flatten separator group).IsNumbered group := by
  rcases branch with ⟨edge, id, emit⟩
  cases edge with
  | literal | tail | any =>
      exact
        ⟨(hEmit group).nodup, (hEmit group).bounds,
          (hEmit group).le⟩
  | capture source groups =>
      have hInner :
          (emit (group + 1 + groups)).IsNumbered
            (group + 1 + groups) := hEmit _
      have hNext := hInner.le
      have hPerm :
          (flatten separator group
            ⟨.capture source groups, id, emit⟩).groups.Perm
            (group ::
              (emit (group + 1 + groups)).groups) :=
        List.perm_middle
      refine ⟨?_, ?_, ?_⟩
      · refine hPerm.nodup_iff.mpr
          (List.nodup_cons.mpr ⟨?_, hInner.nodup⟩)
        intro hGroup
        have hBounds := hInner.bounds group hGroup
        omega
      · intro other hOther
        change group ≤ other ∧
          other < (emit (group + 1 + groups)).next
        rcases List.mem_cons.mp (hPerm.mem_iff.mp hOther) with
          rfl | hOther
        · omega
        · have hBounds := hInner.bounds other hOther
          omega
      · change group ≤ (emit (group + 1 + groups)).next
        omega

/- Branches are numbered in turn. -/
theorem exists_areNumbered_flattenAll
    {branches : List Branch}
    (hEmit :
      ∀ branch ∈ branches, ∀ group,
        (branch.emit group).IsNumbered group)
    (separator : Text)
    (group : Nat) :
    ∃ last,
      Emission.AreNumbered group
        (flattenAll separator group branches) last := by
  induction branches generalizing group with
  | nil => exact ⟨group, .nil group⟩
  | cons branch rest ih =>
      have hFirst :=
        isNumbered_flatten (hEmit branch (by simp))
          separator group
      rcases
          ih (fun later hLater =>
              hEmit later (List.mem_cons_of_mem _ hLater))
            (branch.flatten separator group).next with
        ⟨last, hRest⟩
      exact ⟨last, .cons hFirst hRest⟩

end Branch

namespace TreeNode

/- A flattened node is numbered from its first group. -/
theorem isNumbered_flatten
    (node : TreeNode)
    (separator : Text)
    (group : Nat) :
    (node.flatten separator group).IsNumbered group := by
  induction node using induct generalizing separator group with
  | hNode node ih =>
      have hEmit :
          ∀ branch ∈ node.ordered.map branchOf, ∀ group,
            (branch.emit group).IsNumbered group := by
        intro branch hBranch
        rcases List.mem_map.mp hBranch with
          ⟨entry, hEntry, rfl⟩
        exact
          ih entry ((mem_ordered_iff _ _).mp hEntry) ['/']
      rw [flatten_eq, alternatives]
      cases node.leaf with
      | none =>
          rcases
              Branch.exists_areNumbered_flattenAll hEmit
                separator group with
            ⟨last, hAll⟩
          exact hAll.isNumbered
      | some leaf =>
          rcases
              Branch.exists_areNumbered_flattenAll hEmit
                separator (group + 1) with
            ⟨last, hAll⟩
          exact
            (Emission.AreNumbered.cons
              (Emission.isNumbered_marker group leaf)
              hAll).isNumbered

end TreeNode

end RequestRouter

------------------------------------------------------------
-- Nodes of Captures
------------------------------------------------------------

namespace RequestRouter

namespace Emission

/- The numbers of the nodes behind captures. -/
def nodes
    (emission : Emission) : List Nat :=
  emission.captureGroups.map Prod.fst

/- A marker is no capture. -/
theorem nodes_marker
    (group leaf : Nat) :
    (marker group leaf).nodes = [] :=
  rfl

/- Alternatives capture at the nodes of each of them. -/
theorem nodes_ofAlternatives
    (group : Nat)
    (emissions : List Emission) :
    (ofAlternatives group emissions).nodes =
      emissions.flatMap nodes := by
  simp only [ofAlternatives, nodes, List.map_flatMap]
  rfl

end Emission

namespace TreeNode

/- The order of children does not matter for their numbers. -/
theorem childIds_perm
    {first second : List (Edge × TreeNode)}
    (hPerm : first.Perm second) :
    (childIds first).Perm (childIds second) := by
  have hFlat :
      ∀ children,
        childIds children =
          children.flatMap fun entry =>
            entry.2.id :: entry.2.ids := by
    intro children
    induction children with
    | nil => rfl
    | cons entry rest ih => simp [childIds, ih]
  rw [hFlat, hFlat]
  exact hPerm.flatMap_right _

/- A branch captures at its child and at nodes below it. -/
theorem nodes_flatten_subperm
    {entry : Edge × TreeNode}
    (hChild :
      ∀ group,
        (entry.2.flatten ['/'] group).nodes.Subperm
          entry.2.ids)
    (separator : Text)
    (group : Nat) :
    ((branchOf entry).flatten separator group).nodes.Subperm
      (entry.2.id :: entry.2.ids) := by
  rcases entry with ⟨edge, child⟩
  cases edge with
  | literal | tail | any =>
      exact
        (hChild group).trans
          (List.sublist_cons_self _ _).subperm
  | capture source groups =>
      exact
        (List.subperm_cons child.id).mpr
          (hChild (group + 1 + groups))

/- Siblings capture at their nodes and below them. -/
theorem nodes_flattenAll_subperm
    {entries : List (Edge × TreeNode)}
    (hEntries :
      ∀ entry ∈ entries, ∀ group,
        (entry.2.flatten ['/'] group).nodes.Subperm
          entry.2.ids)
    (separator : Text)
    (group : Nat) :
    ((Branch.flattenAll separator group
        (entries.map branchOf)).flatMap
          Emission.nodes).Subperm (childIds entries) := by
  induction entries generalizing group with
  | nil => exact List.Subperm.refl _
  | cons entry rest ih =>
      have hFirst :=
        nodes_flatten_subperm (hEntries entry (by simp))
          separator group
      have hRest :=
        ih (fun later hLater =>
            hEntries later (List.mem_cons_of_mem _ hLater))
          ((branchOf entry).flatten separator group).next
      exact List.Subperm.append hFirst hRest

/- The captures of a node are at different nodes below it. -/
theorem nodes_subperm
    (node : TreeNode)
    (separator : Text)
    (group : Nat) :
    (node.flatten separator group).nodes.Subperm
      node.ids := by
  induction node using induct generalizing separator group with
  | hNode node ih =>
      have hEntries :
          ∀ entry ∈ node.ordered, ∀ group,
            (entry.2.flatten ['/'] group).nodes.Subperm
              entry.2.ids :=
        fun entry hEntry =>
          ih entry ((mem_ordered_iff _ _).mp hEntry) ['/']
      have hSiblings :=
        nodes_flattenAll_subperm hEntries separator
      have hIds :
          (childIds node.ordered).Perm node.ids := by
        rw [ids_eq]
        exact childIds_perm node.ordered_perm
      rw [flatten_eq]
      cases hLeaf : node.leaf with
      | none =>
          have hAll := (hSiblings group).trans hIds.subperm
          simpa [Emission.nodes_ofAlternatives, alternatives,
            hLeaf] using hAll
      | some leaf =>
          have hAll :=
            (hSiblings (group + 1)).trans hIds.subperm
          simpa [Emission.nodes_ofAlternatives, alternatives,
            hLeaf, Emission.nodes_marker] using hAll

/- If nodes have different numbers, so have captures. -/
theorem nodup_nodes
    {node : TreeNode}
    (hIds : node.ids.Nodup)
    (separator : Text)
    (group : Nat) :
    (node.flatten separator group).nodes.Nodup := by
  rcases nodes_subperm node separator group with
    ⟨some, hPerm, hSublist⟩
  exact hPerm.nodup_iff.mp (hIds.sublist hSublist)

end TreeNode

end RequestRouter
