import Mathlib.Algebra.Ring.Nat
import RequestRouter.Proofs.SegmentTree.Shape

/-
  The tables of a flattened tree are complete.

  Each leaf of a tree has one marker and each capture one
  group in the tables of its emission. The numbers of the
  markers, and for each capture those of its group and of
  the groups inside its source, are the numbers from 1 on,
  each given once.

  Key definitions include:
    * `TreeNode.leaves`
    * `TreeNode.captures`
    * `Emission.Fills`
    * `Emission.taken`
    * `SegmentTree.IsTabulatedBy`

  Main statements:
    * `TreeNode.Tour.fills`
    * `SegmentTree.nodup_leaves_insertAll`
    * `SegmentTree.isTabulatedBy_ofCalls`
-/

------------------------------------------------------------
-- Leaves and Captures of a Tree
------------------------------------------------------------

namespace RequestRouter

namespace Edge

/- A capture by its node, with the groups inside its source. -/
def counted
    (id : Nat) : Edge → List (Nat × Nat)
  | .capture _ groups => [(id, groups)]
  | _ => []

/- The groups that an edge takes: its own and those inside. -/
def width : Edge → Nat
  | .capture _ groups => groups + 1
  | _ => 0

/- Behind an edge the groups that it takes are passed. -/
theorem groupAfter_eq
    (edge : Edge)
    (group : Nat) :
    edge.groupAfter group = group + edge.width := by
  cases edge with
  | literal | tail | any => rfl
  | capture source groups =>
      simp only [groupAfter, width]
      omega

/- The groups that an edge takes, by the count of its node. -/
theorem width_eq_sum
    (edge : Edge)
    (id : Nat) :
    edge.width = ((edge.counted id).map (·.2 + 1)).sum := by
  cases edge <;> simp [width, counted]

end Edge

namespace TreeNode

/- The leaves that are set at a node and below it. -/
def leaves
    (node : TreeNode) : List Nat :=
  node.nodes.filterMap (·.leaf)

/- The captures below a node, with the groups inside each. -/
def captures
    (node : TreeNode) : List (Nat × Nat) :=
  node.links.flatMap fun link =>
    link.edge.counted link.child.id

/- The groups that are taken at a node and below it. -/
def width
    (node : TreeNode) : Nat :=
  node.leaves.length + (node.captures.map (·.2 + 1)).sum

/- Leaves are listed child by child. -/
theorem leaves_eq
    (node : TreeNode) :
    node.leaves =
      node.leaf.toList ++
        node.children.flatMap (·.2.leaves) := by
  have hOwn :
      ∀ (own : Option Nat) (rest : List TreeNode)
        (first : TreeNode), first.leaf = own →
          (first :: rest).filterMap (·.leaf) =
            own.toList ++ rest.filterMap (·.leaf) := by
    rintro own rest first rfl
    cases hLeaf : first.leaf <;> simp [hLeaf]
  rw [leaves, nodes, hOwn _ _ _ rfl, links_eq]
  congr 1
  rw [List.map_flatMap, List.filterMap_flatMap]
  rfl

/- So are captures, each in front of those below it. -/
theorem captures_eq
    (node : TreeNode) :
    node.captures =
      node.children.flatMap fun entry =>
        entry.1.counted entry.2.id ++ entry.2.captures := by
  rw [captures, links_eq, List.flatMap_assoc]
  rfl

/- Captures lead to some of the nodes below. -/
theorem map_fst_captures_sublist
    (node : TreeNode) :
    (node.captures.map Prod.fst).Sublist node.ids := by
  rw [← map_id_links, captures]
  induction node.links with
  | nil => exact List.Sublist.refl _
  | cons link rest ih =>
      rw [List.flatMap_cons, List.map_append, List.map_cons]
      cases link.edge with
      | literal | tail | any => exact ih.cons _
      | capture source groups => exact ih.cons_cons _

end TreeNode

end RequestRouter

------------------------------------------------------------
-- Leaves behind Insertions
------------------------------------------------------------

namespace RequestRouter

namespace TreeNode

/- A leaf that is set at a node is new there. -/
theorem leaves_insertLeaf
    {node : TreeNode}
    {leaf : Nat}
    (hNew : leaf ∉ node.leaves)
    {next : Nat}
    {trail : List Nat}
    (hTrail : (node.insertLeaf leaf next).trail = some trail) :
    (node.insertLeaf leaf next).node.leaves.Perm
      (node.leaves ++ [leaf]) := by
  unfold insertLeaf at hTrail ⊢
  split at hTrail
  case h_1 other hLeaf =>
      exfalso
      have hOther : other ∈ node.leaves := by
        rw [leaves_eq, hLeaf]
        simp
      split at hTrail
      case isTrue hSame => exact hNew (hSame ▸ hOther)
      case isFalse => cases hTrail
  case h_2 hLeaf =>
      split at hTrail
      case isTrue => cases hTrail
      case isFalse hFree =>
          rw [if_neg hFree, leaves_eq, leaves_eq, hLeaf]
          exact List.perm_append_comm

/- The leaves below a child are leaves of the node. -/
theorem mem_leaves_of_child
    {node : TreeNode}
    {entry : Edge × TreeNode}
    (hEntry : entry ∈ node.children)
    {leaf : Nat}
    (hLeaf : leaf ∈ entry.2.leaves) :
    leaf ∈ node.leaves := by
  rw [leaves_eq]
  apply List.mem_append_right
  exact List.mem_flatMap.mpr ⟨entry, hEntry, hLeaf⟩

/- What a child gains the node gains. -/
theorem leaves_setChild_of_some
    {node child changed : TreeNode}
    {edge : Edge}
    (hChild : node.child? edge = some child)
    {leaf : Nat}
    (hLeaves :
      changed.leaves.Perm (child.leaves ++ [leaf])) :
    (node.setChild edge changed).leaves.Perm
      (node.leaves ++ [leaf]) := by
  rcases exists_children_setChild hChild changed with
    ⟨before, after, hBefore, hAfter⟩
  rw [leaves_eq, leaves_eq node, hAfter, hBefore]
  simp only [List.flatMap_append, List.flatMap_cons,
    List.append_assoc]
  apply List.Perm.append_left
  apply List.Perm.append_left
  apply (hLeaves.append_right _).trans
  rw [List.append_assoc]
  apply List.Perm.append_left
  exact List.perm_append_comm

/- A child in a new place adds its leaves. -/
theorem leaves_setChild_of_none
    {node : TreeNode}
    {edge : Edge}
    (hChild : node.child? edge = none)
    (child : TreeNode) :
    (node.setChild edge child).leaves =
      node.leaves ++ child.leaves := by
  rw [leaves_eq, leaves_eq node, children_setChild hChild,
    List.flatMap_append, List.flatMap_singleton,
    List.append_assoc]
  rfl

/- No leaves are set below a fresh node. -/
theorem leaves_fresh
    (id : Nat)
    (spans : Bool) :
    (fresh id spans).leaves = [] := by
  rw [leaves_eq]
  simp [fresh]

/- An insertion that is not refused sets its leaf. -/
theorem leaves_insert
    {node : TreeNode}
    {leaf : Nat}
    (hNew : leaf ∉ node.leaves)
    {steps : List Step}
    {next : Nat}
    {trail : List Nat}
    (hTrail :
      (node.insert leaf steps next).trail = some trail) :
    (node.insert leaf steps next).node.leaves.Perm
      (node.leaves ++ [leaf]) := by
  induction steps generalizing node next trail with
  | nil => exact leaves_insertLeaf hNew hTrail
  | cons step rest ih =>
      unfold insert at hTrail ⊢
      split at hTrail
      case h_1 child hChild =>
          rcases Option.map_eq_some_iff.mp hTrail with
            ⟨below, hBelow, -⟩
          have hMember : (step.edge, child) ∈ node.children :=
            AssocList.mem_of_find?_eq_some hChild
          have hNewBelow : leaf ∉ child.leaves :=
            fun hOld => hNew (mem_leaves_of_child hMember hOld)
          exact
            leaves_setChild_of_some hChild
              (ih hNewBelow hBelow)
      case h_2 hChild =>
          split at hTrail
          case isTrue => cases hTrail
          case isFalse hFree =>
              rcases Option.map_eq_some_iff.mp hTrail with
                ⟨below, hBelow, -⟩
              have hFresh :=
                leaves_fresh next step.edge.spans
              have hLeaves := ih (by simp [hFresh]) hBelow
              rw [hFresh, List.nil_append] at hLeaves
              rw [if_neg hFree,
                leaves_setChild_of_none hChild]
              exact hLeaves.append_left _

end TreeNode

namespace SegmentTree

/-
  Leaves with different numbers are each set at one node at
  most, also where some insertions are refused.
-/
theorem nodup_leaves_insertAll
    {tree : SegmentTree}
    {calls : List (List Step × Nat)}
    (hNumbers :
      (tree.root.leaves ++ calls.map Prod.snd).Nodup) :
    (tree.insertAll calls).1.root.leaves.Nodup := by
  induction calls generalizing tree with
  | nil => simpa [insertAll] using hNumbers
  | cons call rest ih =>
      rcases call with ⟨steps, leaf⟩
      rw [List.map_cons] at hNumbers
      have hNew : leaf ∉ tree.root.leaves := by
        intro hOld
        have hApart := (List.nodup_append.mp hNumbers).2.2
        exact hApart leaf hOld leaf List.mem_cons_self rfl
      cases hInsert : tree.insert steps leaf with
      | mk after outcome =>
          rw [insertAll_cons hInsert]
          apply ih
          cases outcome with
          | none =>
              rw [eq_of_refused hInsert]
              refine List.Nodup.sublist ?_ hNumbers
              apply List.Sublist.append_left
              exact List.sublist_cons_self _ _
          | some trail =>
              rcases Prod.mk.inj hInsert with ⟨rfl, hTrail⟩
              have hLeaves :=
                (TreeNode.leaves_insert hNew
                  hTrail).append_right (rest.map Prod.snd)
              rw [List.append_assoc, List.singleton_append]
                at hLeaves
              exact hLeaves.nodup_iff.mpr hNumbers

end SegmentTree

end RequestRouter

------------------------------------------------------------
-- Numbers in Turn
------------------------------------------------------------

namespace RequestRouter

variable {count : Nat → Nat}

namespace Emission

/-
  The numbers in the tables of an emission: those of its
  markers, and for each capture that of its group and those
  of the groups that are counted inside it.
-/
def numbers
    (count : Nat → Nat)
    (emission : Emission) : List Nat :=
  emission.leafGroups.map Prod.fst ++
    emission.captureGroups.flatMap fun entry =>
      List.range' entry.2 (count entry.1 + 1)

/-
  Whether an emission gives `width` numbers from a first one
  on, each once, and those of its markers in order.
-/
structure Fills
    (count : Nat → Nat)
    (first width : Nat)
    (emission : Emission) : Prop where
  numbers :
    (emission.numbers count).Perm (List.range' first width)
  next : emission.next = first + width
  increasing :
    (emission.leafGroups.map Prod.fst).Pairwise (· < ·)

namespace Fills

variable {first width later : Nat}
variable {emission : Emission}
variable {rest : List Emission}

/- The numbers of markers lie in the range that is filled. -/
theorem bounds
    (hFills : emission.Fills count first width)
    {number : Nat}
    (hNumber : number ∈ emission.leafGroups.map Prod.fst) :
    first ≤ number ∧ number < first + width := by
  have hMember : number ∈ emission.numbers count :=
    List.mem_append_left _ hNumber
  exact
    List.mem_range'_1.mp
      (hFills.numbers.mem_iff.mp hMember)

/- No alternatives give no numbers. -/
theorem nil
    (count : Nat → Nat)
    (group : Nat) :
    (ofAlternatives group []).Fills count group 0 := by
  constructor <;> simp [ofAlternatives, Emission.numbers]

/- Alternatives fill ranges one behind the other. -/
theorem cons
    (hFirst : emission.Fills count first width)
    (hRest :
      (ofAlternatives emission.next rest).Fills count
        emission.next later) :
    (ofAlternatives first (emission :: rest)).Fills count
      first (width + later) := by
  have hNext :
      (ofAlternatives first (emission :: rest)).next =
        (ofAlternatives emission.next rest).next := by
    cases rest with
    | nil => rfl
    | cons second more =>
        simp [ofAlternatives,
          List.getLast?_eq_some_getLast]
  have hLeaves :
      (ofAlternatives first (emission :: rest)).leafGroups =
        emission.leafGroups ++
          (ofAlternatives emission.next rest).leafGroups :=
    List.flatMap_cons
  have hCaptures :
      (ofAlternatives first
          (emission :: rest)).captureGroups =
        emission.captureGroups ++
          (ofAlternatives emission.next
            rest).captureGroups :=
    List.flatMap_cons
  have hNumbers :
      ((ofAlternatives first (emission :: rest)).numbers
          count).Perm
        (emission.numbers count ++
          (ofAlternatives emission.next rest).numbers
            count) := by
    unfold Emission.numbers
    rw [hLeaves, hCaptures, List.map_append,
      List.flatMap_append]
    apply List.perm_iff_count.mpr
    intro number
    simp only [List.count_append]
    omega
  refine ⟨?_, ?_, ?_⟩
  · apply hNumbers.trans
    apply (hFirst.numbers.append hRest.numbers).trans
    rw [hFirst.next, List.range'_append_1]
  · rw [hNext, hRest.next, hFirst.next, Nat.add_assoc]
  · rw [hLeaves, List.map_append]
    refine List.pairwise_append.mpr
      ⟨hFirst.increasing, hRest.increasing, ?_⟩
    intro early hEarly late hLate
    have hBelow := hFirst.bounds hEarly
    have hAbove := hRest.bounds hLate
    have hStart := hFirst.next
    omega

/- A marker gives one number. -/
theorem marker
    (count : Nat → Nat)
    (group leaf : Nat) :
    (Emission.marker group leaf).Fills count group 1 := by
  constructor <;>
    simp [Emission.marker, Emission.numbers]

/- An edge gives its numbers in front of those behind it. -/
theorem behind
    {group : Nat}
    {edge : Edge}
    (hInner :
      emission.Fills count (group + edge.width) width)
    {id : Nat}
    (hCount :
      ∀ capture ∈ edge.counted id,
        count capture.1 = capture.2)
    (source : Text) :
    Fills count group (edge.width + width)
      ⟨source, emission.leafGroups,
        edge.ownGroup id group ++ emission.captureGroups,
        emission.next⟩ := by
  have hNext := hInner.next
  refine ⟨?_, by dsimp only; omega, hInner.increasing⟩
  have hRange :
      List.range' group (edge.width + width) =
        List.range' group edge.width ++
          List.range' (group + edge.width) width := by
    rw [List.range'_append_1]
  rw [hRange]
  refine List.Perm.trans ?_ (hInner.numbers.append_left _)
  unfold Emission.numbers
  cases edge with
  | literal | tail | any => exact List.Perm.refl _
  | capture text groups =>
      have hGroups : count id = groups :=
        hCount (id, groups) List.mem_cons_self
      simp only [Edge.ownGroup, Edge.width,
        List.singleton_append, List.flatMap_cons, hGroups]
      rw [← List.append_assoc, ← List.append_assoc]
      exact List.perm_append_comm.append_right _

end Fills

end Emission

namespace TreeNode

/- The groups that siblings take, with all below them. -/
def siblingWidth
    (entries : List (Edge × TreeNode)) : Nat :=
  (entries.map fun entry =>
    entry.1.width + entry.2.width).sum

/- A node takes a marker and what its children take. -/
theorem width_eq
    (node : TreeNode) :
    node.width =
      node.leaf.toList.length +
        siblingWidth node.children := by
  have hSiblings :
      ∀ entries : List (Edge × TreeNode),
        (entries.flatMap (·.2.leaves)).length +
            ((entries.flatMap fun entry =>
              entry.1.counted entry.2.id ++
                entry.2.captures).map (·.2 + 1)).sum =
          siblingWidth entries := by
    intro entries
    induction entries with
    | nil => rfl
    | cons entry rest ih =>
        have hEdge := entry.1.width_eq_sum entry.2.id
        simp only [siblingWidth, List.map_cons,
          List.sum_cons, List.flatMap_cons,
          List.length_append, List.map_append,
          List.sum_append] at ih ⊢
        rw [← ih, hEdge, width]
        omega
  rw [width, leaves_eq, captures_eq, List.length_append,
    Nat.add_assoc, hSiblings]

/- Children in order take what the children take. -/
theorem siblingWidth_ordered
    (node : TreeNode) :
    siblingWidth node.ordered =
      siblingWidth node.children :=
  (node.ordered_perm.map _).sum_nat

/- A node fills a range if its children do. -/
theorem fills_gather
    {node : TreeNode}
    {group width : Nat}
    {below : List Emission}
    (hBelow :
      (Emission.ofAlternatives (node.groupBehind group)
        below).Fills count (node.groupBehind group) width) :
    (node.gather group below).Fills count group
      (node.leaf.toList.length + width) := by
  unfold gather
  cases hLeaf : node.leaf with
  | none =>
      rw [groupBehind, hLeaf] at hBelow
      simpa using hBelow
  | some leaf =>
      rw [groupBehind, hLeaf] at hBelow
      exact (Emission.Fills.marker count group leaf).cons hBelow

/- Whether captures at siblings and below are counted. -/
def AreCounted
    (count : Nat → Nat)
    (entries : List (Edge × TreeNode)) : Prop :=
  ∀ entry ∈ entries,
    ∀ capture ∈
        entry.1.counted entry.2.id ++ entry.2.captures,
      count capture.1 = capture.2

/- If the captures below a node are counted, in any order. -/
theorem areCounted_ordered
    {node : TreeNode}
    (hCount :
      ∀ capture ∈ node.captures,
        count capture.1 = capture.2) :
    AreCounted count node.ordered := by
  intro entry hEntry capture hCapture
  apply hCount
  rw [captures_eq]
  exact
    List.mem_flatMap.mpr
      ⟨entry, (mem_ordered_iff _ _).mp hEntry, hCapture⟩

namespace Tour

variable {separator : Text}
variable {group : Nat}
variable {entries : List (Edge × TreeNode)}
variable {gathered : List Emission}
variable {visited : List Nat}

/-
  A tour of siblings gives all numbers from its first group
  on, as many as the siblings take, each of them once.
-/
theorem fills
    (hTour :
      Tour separator group entries gathered visited)
    (hCount : AreCounted count entries) :
    (Emission.ofAlternatives group gathered).Fills count group
      (siblingWidth entries) := by
  induction hTour with
  | nil separator group => exact .nil count group
  | @cons separator group entry rest below inner emissions
      visited hBelow hRest ihBelow ihRest =>
      have hEntry := hCount entry List.mem_cons_self
      have hChild :
          (entry.2.gather (entry.1.groupAfter group)
            below).Fills count (entry.1.groupAfter group)
              entry.2.width := by
        rw [width_eq, ← siblingWidth_ordered]
        apply fills_gather
        apply ihBelow
        apply areCounted_ordered
        intro capture hCapture
        exact hEntry capture (List.mem_append_right _ hCapture)
      have hBranch :
          (gatherBranch separator group entry below).Fills
            count group (entry.1.width + entry.2.width) := by
        rw [gatherBranch]
        apply Emission.Fills.behind
        · rw [← Edge.groupAfter_eq]
          exact hChild
        · intro capture hCapture
          exact
            hEntry capture (List.mem_append_left _ hCapture)
      apply hBranch.cons
      apply ihRest
      intro later hLater
      exact hCount later (List.mem_cons_of_mem _ hLater)

end Tour

end TreeNode

end RequestRouter

------------------------------------------------------------
-- Leaves and Nodes in the Tables
------------------------------------------------------------

namespace RequestRouter

namespace TreeNode

/- A node marks its own leaf and those of its children. -/
theorem leaves_gather
    (node : TreeNode)
    (group : Nat)
    (below : List Emission) :
    (node.gather group below).leafGroups.map Prod.snd =
      node.leaf.toList ++
        below.flatMap (·.leafGroups.map Prod.snd) := by
  dsimp only [gather, Emission.ofAlternatives]
  cases node.leaf with
  | none => simp [List.map_flatMap]
  | some leaf =>
      simp [List.map_flatMap, Emission.marker]

/- It captures where its children do. -/
theorem nodes_gather
    (node : TreeNode)
    (group : Nat)
    (below : List Emission) :
    (node.gather group below).nodes =
      below.flatMap Emission.nodes := by
  rw [gather, Emission.nodes_ofAlternatives,
    List.flatMap_append]
  cases node.leaf with
  | none => rfl
  | some leaf => simp [Emission.nodes_marker]

/- A branch captures at its child and where those below do. -/
theorem nodes_gatherBranch
    (separator : Text)
    (group : Nat)
    (entry : Edge × TreeNode)
    (below : List Emission) :
    (gatherBranch separator group entry below).nodes =
      (entry.1.counted entry.2.id).map Prod.fst ++
        below.flatMap Emission.nodes := by
  rw [← entry.2.nodes_gather (entry.1.groupAfter group),
    gatherBranch, Emission.nodes, List.map_append]
  cases entry.1 <;> rfl

namespace Tour

variable {separator : Text}
variable {group : Nat}
variable {entries : List (Edge × TreeNode)}
variable {gathered : List Emission}
variable {visited : List Nat}

/- A tour marks all leaves of siblings, each once. -/
theorem perm_leaves
    (hTour :
      Tour separator group entries gathered visited) :
    (gathered.flatMap (·.leafGroups.map Prod.snd)).Perm
      (entries.flatMap (·.2.leaves)) := by
  induction hTour with
  | nil => exact List.Perm.refl _
  | @cons separator group entry rest below inner emissions
      visited hBelow hRest ihBelow ihRest =>
      rw [List.flatMap_cons, List.flatMap_cons,
        gatherBranch]
      dsimp only
      rw [leaves_gather, leaves_eq]
      refine List.Perm.append ?_ ihRest
      apply List.Perm.append_left
      exact
        ihBelow.trans
          (entry.2.ordered_perm.flatMap_right _)

/- A tour captures at all nodes behind captures, once each. -/
theorem perm_nodes
    (hTour :
      Tour separator group entries gathered visited) :
    (gathered.flatMap Emission.nodes).Perm
      ((entries.flatMap fun entry =>
        entry.1.counted entry.2.id ++
          entry.2.captures).map Prod.fst) := by
  induction hTour with
  | nil => exact List.Perm.refl _
  | @cons separator group entry rest below inner emissions
      visited hBelow hRest ihBelow ihRest =>
      rw [List.flatMap_cons, List.flatMap_cons,
        nodes_gatherBranch, List.map_append,
        List.map_append, captures_eq entry.2]
      refine List.Perm.append ?_ ihRest
      apply List.Perm.append_left
      exact
        ihBelow.trans
          ((entry.2.ordered_perm.flatMap_right _).map _)

end Tour

variable {count : Nat → Nat}

/- A flattened node fills a range from its first group on. -/
theorem fills_flatten
    {node : TreeNode}
    (hCount :
      ∀ capture ∈ node.captures,
        count capture.1 = capture.2)
    (separator : Text)
    (group : Nat) :
    (node.flatten separator group).Fills count group
      node.width := by
  rcases
      node.exists_tour separator (node.groupBehind group)
    with ⟨visited, hTour⟩
  rw [flatten_eq_gather, width_eq, ← siblingWidth_ordered]
  apply fills_gather
  exact hTour.fills (areCounted_ordered hCount)

/- It marks the leaves at the node and below it. -/
theorem perm_leaves_flatten
    (node : TreeNode)
    (separator : Text)
    (group : Nat) :
    ((node.flatten separator group).leafGroups.map
      Prod.snd).Perm node.leaves := by
  rcases
      node.exists_tour separator (node.groupBehind group)
    with ⟨visited, hTour⟩
  rw [flatten_eq_gather, leaves_gather, leaves_eq]
  apply List.Perm.append_left
  exact
    hTour.perm_leaves.trans
      (node.ordered_perm.flatMap_right _)

/- It captures at the nodes behind the captures below it. -/
theorem perm_nodes_flatten
    (node : TreeNode)
    (separator : Text)
    (group : Nat) :
    (node.flatten separator group).nodes.Perm
      (node.captures.map Prod.fst) := by
  rcases
      node.exists_tour separator (node.groupBehind group)
    with ⟨visited, hTour⟩
  rw [flatten_eq_gather, nodes_gather, captures_eq]
  exact
    hTour.perm_nodes.trans
      ((node.ordered_perm.flatMap_right _).map _)

end TreeNode

end RequestRouter

------------------------------------------------------------
-- Complete Tables
------------------------------------------------------------

namespace RequestRouter

namespace Emission

/-
  The numbers that a capture takes, by its node and with the
  groups inside it: from that in the table on.
-/
def taken
    (emission : Emission)
    (capture : Nat × Nat) : List Nat :=
  (emission.captureGroups.lookup capture.1).toList.flatMap
    fun group => List.range' group (capture.2 + 1)

end Emission

/- Where keys differ, the value of an entry is looked up. -/
theorem lookup_eq_some_of_mem
    {entries : List (Nat × Nat)}
    (hKeys : (entries.map Prod.fst).Nodup)
    {entry : Nat × Nat}
    (hEntry : entry ∈ entries) :
    entries.lookup entry.1 = some entry.2 := by
  induction entries with
  | nil => cases hEntry
  | cons first rest ih =>
      rcases List.nodup_cons.mp hKeys with ⟨hFirst, hRest⟩
      rcases List.mem_cons.mp hEntry with rfl | hEntry
      · exact List.lookup_cons_self
      · have hOther : entry.1 ≠ first.1 := by
          intro hSame
          apply hFirst
          rw [← hSame]
          exact List.mem_map_of_mem hEntry
        rw [List.lookup_cons, beq_false_of_ne hOther]
        exact ih hRest hEntry

namespace SegmentTree

/-
  Whether the tables of an emission are those of a tree:
  each leaf has one marker, with numbers that grow, and each
  capture one entry. The numbers of markers, and those that
  captures take with the groups inside them, are all numbers
  from 1 on, each once, up to the number of them.
-/
structure IsTabulatedBy
    (tree : SegmentTree)
    (emission : Emission) : Prop where
  leaves :
    (emission.leafGroups.map Prod.snd).Perm tree.root.leaves
  once : tree.root.leaves.Nodup
  increasing :
    (emission.leafGroups.map Prod.fst).Pairwise (· < ·)
  nodes :
    (emission.captureGroups.map Prod.fst).Perm
      (tree.root.captures.map Prod.fst)
  apart : (tree.root.captures.map Prod.fst).Nodup
  numbers :
    (emission.leafGroups.map Prod.fst ++
        tree.root.captures.flatMap emission.taken).Perm
      (List.range' 1
        (tree.root.leaves.length +
          (tree.root.captures.map (·.2 + 1)).sum))

/-
  The numbers that captures take are those that are counted
  for the entries of the table, in another order.
-/
theorem perm_taken
    {captures : List (Nat × Nat)}
    {count : Nat → Nat}
    (hCount :
      ∀ capture ∈ captures, count capture.1 = capture.2)
    {emission : Emission}
    (hNodes : emission.nodes.Perm (captures.map Prod.fst))
    (hApart : emission.nodes.Nodup) :
    (captures.flatMap emission.taken).Perm
      (emission.captureGroups.flatMap fun entry =>
        List.range' entry.2 (count entry.1 + 1)) := by
  have hCaptures :
      captures =
        (captures.map Prod.fst).map fun node =>
          (node, count node) := by
    rw [List.map_map]
    conv_lhs => rw [← List.map_id captures]
    apply List.map_congr_left
    intro capture hCapture
    exact Prod.ext rfl (hCount capture hCapture).symm
  have hEntries :
      captures.Perm
        (emission.captureGroups.map fun entry =>
          (entry.1, count entry.1)) := by
    rw [hCaptures]
    apply (hNodes.symm.map _).trans
    rw [Emission.nodes, List.map_map]
    exact List.Perm.refl _
  apply (hEntries.flatMap_right _).trans
  rw [List.flatMap_map]
  apply List.Perm.of_eq
  apply List.flatMap_congr
  intro entry hEntry
  have hLookup := lookup_eq_some_of_mem hApart hEntry
  simp [Emission.taken, hLookup]

/-
  A tree with different leaves is tabulated by what it is
  flattened to.
-/
theorem IsGrown.isTabulatedBy
    {tree : SegmentTree}
    (hTree : tree.IsGrown)
    (hLeaves : tree.root.leaves.Nodup) :
    tree.IsTabulatedBy tree.flatten := by
  let count : Nat → Nat := fun node =>
    (tree.root.captures.lookup node).getD 0
  have hApart : (tree.root.captures.map Prod.fst).Nodup :=
    List.Nodup.sublist tree.root.map_fst_captures_sublist
      hTree.sound.nodup
  have hCount :
      ∀ capture ∈ tree.root.captures,
        count capture.1 = capture.2 := by
    intro capture hCapture
    have hLookup := lookup_eq_some_of_mem hApart hCapture
    simp [count, hLookup]
  have hNodes := tree.root.perm_nodes_flatten [] 1
  have hFills := TreeNode.fills_flatten hCount [] 1
  refine
    ⟨tree.root.perm_leaves_flatten [] 1, hLeaves,
      hFills.increasing, hNodes, hApart, ?_⟩
  have hTaken :=
    perm_taken hCount hNodes (hNodes.nodup_iff.mpr hApart)
  exact (hTaken.append_left _).trans hFills.numbers

/-
  Whatever leaves with different numbers are inserted at the
  ends of routes, in any order and with any refusals, the
  tables of the tree's emission are complete.
-/
theorem isTabulatedBy_ofCalls
    {E : Regex.Engine}
    {calls : List (List Step × Nat)}
    (hCalls : ∀ call ∈ calls, Step.AreRead E call.1)
    (hNumbers : (calls.map Prod.snd).Nodup) :
    (ofCalls calls).IsTabulatedBy
      (ofCalls calls).flatten := by
  apply (isGrown_ofCalls hCalls).isTabulatedBy
  apply nodup_leaves_insertAll
  simpa [empty, TreeNode.leaves, TreeNode.nodes,
    TreeNode.fresh, TreeNode.links,
    TreeNode.childLinks] using hNumbers

/-
  Behind two refusals there are two leaves and two captures,
  one of them with a group inside, which take five numbers.
-/
theorem isTabulatedBy_ofCalls_crowded :
    (∀ call ∈ crowded,
      Step.AreRead Regex.treeEngine call.1) ∧
      (crowded.map Prod.snd).Nodup ∧
      (ofCalls crowded).flatten.leafGroups =
        [(2, 5), (5, 7)] ∧
      (ofCalls crowded).flatten.captureGroups =
        [(2, 1), (3, 3)] ∧
      (ofCalls crowded).IsTabulatedBy
        (ofCalls crowded).flatten :=
  ⟨areRead_crowded, by decide, by decide +kernel,
    by decide +kernel,
    isTabulatedBy_ofCalls areRead_crowded (by decide)⟩

end SegmentTree

end RequestRouter
