import RequestRouter.Proofs.SegmentTree.Leaves
import RequestRouter.Proofs.SegmentTree.Numbering

/-
  Trees with leaves at the ends of the same edges.

  Such trees may differ in the numbers of their nodes and
  leaves and in the order in which children were made. They
  admit the same literal paths, and they are flattened to
  the same source, in which the markers with one group
  number belong to leaves at the end of the same edges.

  Key definitions include:
    * `TreeNode.IsLike`
    * `TreeNode.AreTwins`
    * `Emission.Mirrors`

  Main statements:
    * `TreeNode.forall₂_ordered`
    * `TreeNode.admits_eq_of_isLike`
    * `TreeNode.mirrors_flatten`
-/

------------------------------------------------------------
-- Like Nodes
------------------------------------------------------------

namespace RequestRouter

namespace TreeNode

/- Whether nodes have leaves at the ends of the same edges. -/
def IsLike
    (node other : TreeNode) : Prop :=
  ∀ edges,
    (∃ trail leaf, node.HasLeaf edges trail leaf) ↔
      ∃ trail leaf, other.HasLeaf edges trail leaf

/- Whether leaves lie at the end of the same edges. -/
def AreTwins
    (node other : TreeNode)
    (leaf twin : Nat) : Prop :=
  ∃ edges trail others,
    node.HasLeaf edges trail leaf ∧
      other.HasLeaf edges others twin

/- An edge of an orderly node leads to some leaf. -/
theorem mem_edges_iff
    {node : TreeNode}
    (hNode : node.IsOrderly)
    (edge : Edge) :
    edge ∈ node.edges ↔
      ∃ rest trail leaf,
        node.HasLeaf (edge :: rest) trail leaf := by
  constructor
  · intro hEdge
    rcases List.mem_map.mp hEdge with ⟨entry, hEntry, rfl⟩
    rcases
        exists_hasLeaf entry.2 (hNode.child hEntry)
          (hNode.tidy.used entry hEntry) with
      ⟨rest, trail, leaf, hHas⟩
    exact ⟨rest, _, leaf, .child hEntry hHas⟩
  · rintro ⟨rest, trail, leaf, hHas⟩
    cases hHas with
    | child hChild _ =>
        exact List.mem_map_of_mem (f := Prod.fst) hChild

namespace IsLike

variable {node other : TreeNode}

/- A leaf ends at both of two like nodes, or at neither. -/
theorem isSome_leaf
    (hLike : node.IsLike other) :
    node.leaf.isSome = other.leaf.isSome := by
  have hOwn :
      ∀ node : TreeNode,
        node.leaf.isSome = true ↔
          ∃ trail leaf, node.HasLeaf [] trail leaf := by
    intro node
    simp [hasLeaf_nil_iff, Option.isSome_iff_exists]
  rw [Bool.eq_iff_iff, hOwn, hOwn]
  exact hLike []

/- Like nodes have the same edges. -/
theorem mem_edges_iff
    (hLike : node.IsLike other)
    (hNode : node.IsOrderly)
    (hOther : other.IsOrderly)
    (edge : Edge) :
    edge ∈ node.edges ↔ edge ∈ other.edges := by
  rw [TreeNode.mem_edges_iff hNode,
    TreeNode.mem_edges_iff hOther]
  exact exists_congr fun rest => hLike (edge :: rest)

/- The children of like nodes along one edge are like. -/
theorem child
    (hLike : node.IsLike other)
    (hNode : node.IsOrderly)
    (hOther : other.IsOrderly)
    {edge : Edge}
    {below twin : TreeNode}
    (hBelow : (edge, below) ∈ node.children)
    (hTwin : (edge, twin) ∈ other.children) :
    below.IsLike twin := by
  have hOnly :
      ∀ {node child : TreeNode}, node.IsOrderly →
        (edge, child) ∈ node.children →
          ∀ rest,
            (∃ trail leaf,
                node.HasLeaf (edge :: rest) trail leaf) ↔
              ∃ trail leaf,
                child.HasLeaf rest trail leaf := by
    intro node child hNode hChild rest
    constructor
    · rintro ⟨trail, leaf, hHas⟩
      cases hHas with
      | child hSibling hLeaf =>
          cases hNode.tidy.eq_of_mem hChild hSibling
          exact ⟨_, _, hLeaf⟩
    · rintro ⟨trail, leaf, hLeaf⟩
      exact ⟨_, _, .child hChild hLeaf⟩
  intro rest
  rw [← hOnly hNode hBelow, ← hOnly hOther hTwin]
  exact hLike (edge :: rest)

end IsLike

/- Twins below children along one edge are twins. -/
theorem AreTwins.behind
    {node other below twin : TreeNode}
    {edge : Edge}
    (hBelow : (edge, below) ∈ node.children)
    (hTwin : (edge, twin) ∈ other.children)
    {leaf number : Nat}
    (hTwins : below.AreTwins twin leaf number) :
    node.AreTwins other leaf number := by
  rcases hTwins with ⟨edges, trail, others, hFirst, hSecond⟩
  exact
    ⟨edge :: edges, _, _, .child hBelow hFirst,
      .child hTwin hSecond⟩

end TreeNode

end RequestRouter

------------------------------------------------------------
-- The Order of Like Nodes
------------------------------------------------------------

namespace RequestRouter

namespace Edge

/-
  Edges that precede each other are the same, unless they
  are captures.
-/
theorem eq_of_precedes
    {a b : Edge}
    (hFirst : a.precedes b = true)
    (hSecond : b.precedes a = true)
    (hCapture :
      a.isCapture = true → b.isCapture = true → a = b) :
    a = b := by
  have hRank :=
    Nat.le_antisymm (rank_le_of_precedes hFirst)
      (rank_le_of_precedes hSecond)
  cases a with
  | literal x =>
      cases b with
      | literal y =>
          rw [eq_of_precedes_literal hFirst hSecond]
      | capture | tail | any => simp [rank] at hRank
  | capture =>
      cases b with
      | capture => exact hCapture rfl rfl
      | literal | tail | any => simp [rank] at hRank
  | tail =>
      cases b with
      | tail => rfl
      | literal | capture | any => simp [rank] at hRank
  | any =>
      cases b with
      | any => rfl
      | literal | capture | tail => simp [rank] at hRank

end Edge

namespace TreeNode

variable {node other : TreeNode}

/- Like nodes have their edges in one order. -/
theorem map_fst_ordered
    (hLike : node.IsLike other)
    (hNode : node.IsOrderly)
    (hOther : other.IsOrderly) :
    node.ordered.map Prod.fst =
      other.ordered.map Prod.fst := by
  have hEdges :
      ∀ node : TreeNode,
        (node.ordered.map Prod.fst).Perm node.edges :=
    fun node => node.ordered_perm.map Prod.fst
  have hSame : node.edges.Perm other.edges :=
    (List.perm_ext_iff_of_nodup hNode.tidy.keyed
      hOther.tidy.keyed).mpr
        (hLike.mem_edges_iff hNode hOther)
  have hSorted :
      ∀ node : TreeNode,
        (node.ordered.map Prod.fst).Pairwise fun a b =>
          a.precedes b = true :=
    fun node => List.pairwise_map.mpr node.sorted_ordered
  refine
    List.Perm.eq_of_pairwise ?_ (hSorted node)
      (hSorted other)
      ((hEdges node).trans
        (hSame.trans (hEdges other).symm))
  intro a b hFirst hSecond hBefore hBehind
  have ha := (hEdges node).mem_iff.mp hFirst
  have hb :=
    hSame.mem_iff.mpr ((hEdges other).mem_iff.mp hSecond)
  exact
    Edge.eq_of_precedes hBefore hBehind
      (hNode.tidy.alone ha hb)

/-
  The ordered children of like nodes stand side by side:
  along the same edge, with like nodes behind it.
-/
theorem forall₂_ordered
    (hLike : node.IsLike other)
    (hNode : node.IsOrderly)
    (hOther : other.IsOrderly) :
    List.Forall₂
      (fun entry twin =>
        entry.1 = twin.1 ∧
          entry ∈ node.children ∧ twin ∈ other.children)
      node.ordered other.ordered := by
  have hEdges := map_fst_ordered hLike hNode hOther
  apply List.forall₂_iff_get.mpr
  constructor
  · simpa using congrArg List.length hEdges
  · intro index hFirst hSecond
    refine
      ⟨?_, (node.mem_ordered_iff _).mp (List.get_mem _ _),
        (other.mem_ordered_iff _).mp (List.get_mem _ _)⟩
    have hSame := congrArg (·[index]?) hEdges
    simpa [hFirst, hSecond] using hSame

end TreeNode

end RequestRouter

------------------------------------------------------------
-- Literal Paths beside Like Trees
------------------------------------------------------------

namespace RequestRouter

namespace TreeNode

/- Like nodes both have a capture, or neither has. -/
theorem hasCapture_eq_of_isLike
    {node other : TreeNode}
    (hLike : node.IsLike other)
    (hNode : node.IsOrderly)
    (hOther : other.IsOrderly) :
    node.hasCapture = other.hasCapture := by
  have hEdges :
      ∀ node : TreeNode,
        node.hasCapture = true ↔
          ∃ edge ∈ node.edges, edge.isCapture = true := by
    intro node
    simp [hasCapture, edges]
  rw [Bool.eq_iff_iff, hEdges, hEdges]
  simp only [hLike.mem_edges_iff hNode hOther]

/- A child along an edge is there in both of two like nodes. -/
theorem isSome_child?_iff
    (node : TreeNode)
    (edge : Edge) :
    (node.child? edge).isSome = true ↔
      edge ∈ node.edges := by
  rw [← Option.ne_none_iff_isSome, ne_eq, child?,
    AssocList.find?_eq_none_iff]
  simp [edges]

/- Like trees admit the same literal paths. -/
theorem admits_eq_of_isLike
    {node other : TreeNode}
    (hLike : node.IsLike other)
    (hNode : node.IsOrderly)
    (hOther : other.IsOrderly)
    (steps : List Step) :
    node.admits steps = other.admits steps := by
  induction steps generalizing node other with
  | nil => rfl
  | cons step rest ih =>
      have hSome :
          (node.child? step.edge).isSome =
            (other.child? step.edge).isSome := by
        rw [Bool.eq_iff_iff, isSome_child?_iff,
          isSome_child?_iff]
        exact hLike.mem_edges_iff hNode hOther step.edge
      unfold admits
      cases hFirst : node.child? step.edge with
      | none =>
          cases hSecond : other.child? step.edge with
          | none =>
              exact
                congrArg (!·)
                  (hasCapture_eq_of_isLike hLike hNode hOther)
          | some twin => simp [hFirst, hSecond] at hSome
      | some child =>
          cases hSecond : other.child? step.edge with
          | none => simp [hFirst, hSecond] at hSome
          | some twin =>
              have hChild :=
                AssocList.mem_of_find?_eq_some hFirst
              have hTwin :=
                AssocList.mem_of_find?_eq_some hSecond
              exact
                ih (hLike.child hNode hOther hChild hTwin)
                  (hNode.child hChild) (hOther.child hTwin)

end TreeNode

end RequestRouter

------------------------------------------------------------
-- Flattening Like Trees
------------------------------------------------------------

namespace RequestRouter

namespace Emission

/-
  Whether two emissions have the same source and the same
  markers, for leaves that are related.
-/
structure Mirrors
    (related : Nat → Nat → Prop)
    (emission other : Emission) : Prop where
  source : emission.source = other.source
  next : emission.next = other.next
  leafGroups :
    List.Forall₂
      (fun entry twin =>
        entry.1 = twin.1 ∧ related entry.2 twin.2)
      emission.leafGroups other.leafGroups

/- Emissions mirror each other for a wider relation. -/
theorem Mirrors.imp
    {related wider : Nat → Nat → Prop}
    {emission other : Emission}
    (hMirrors : emission.Mirrors related other)
    (hWider : ∀ leaf twin, related leaf twin → wider leaf twin) :
    emission.Mirrors wider other where
  source := hMirrors.source
  next := hMirrors.next
  leafGroups :=
    hMirrors.leafGroups.imp fun _ _ hBoth =>
      ⟨hBoth.1, hWider _ _ hBoth.2⟩

/- Alternatives that mirror each other make up such a pair. -/
theorem mirrors_ofAlternatives
    {related : Nat → Nat → Prop}
    {emissions others : List Emission}
    (hAll :
      List.Forall₂ (Mirrors related) emissions others)
    (group : Nat) :
    (ofAlternatives group emissions).Mirrors related
      (ofAlternatives group others) := by
  have hSources :
      emissions.map (·.source) = others.map (·.source) := by
    induction hAll with
    | nil => rfl
    | cons hFirst _ ih => simp [hFirst.source, ih]
  have hNext :
      emissions.getLast?.map (·.next) =
        others.getLast?.map (·.next) := by
    have hNexts :
        emissions.map (·.next) = others.map (·.next) := by
      clear hSources
      induction hAll with
      | nil => rfl
      | cons hFirst _ ih => simp [hFirst.next, ih]
    rw [← List.getLast?_map, ← List.getLast?_map, hNexts]
  constructor
  case source => exact congrArg alternation hSources
  case next => exact congrArg (·.getD group) hNext
  case leafGroups =>
      clear hSources hNext
      induction hAll with
      | nil => exact .nil
      | cons hFirst _ ih =>
          exact List.rel_append hFirst.leafGroups ih

end Emission

namespace Branch

/- A branch mirrors one with the same edge if children do. -/
theorem mirrors_flatten
    {related : Nat → Nat → Prop}
    {branch other : Branch}
    (hEdge : branch.edge = other.edge)
    (hEmit :
      ∀ group,
        (branch.emit group).Mirrors related
          (other.emit group))
    (separator : Text)
    (group : Nat) :
    (branch.flatten separator group).Mirrors related
      (other.flatten separator group) := by
  rcases branch with ⟨edge, id, emit⟩
  rcases other with ⟨_, twin, emit'⟩
  cases hEdge
  have hBehind :
      ∀ front group,
        (behind front (emit group)).Mirrors related
          (behind front (emit' group)) := by
    intro front group
    have hMirrors := hEmit group
    exact
      ⟨congrArg (front ++ ·) hMirrors.source, hMirrors.next,
        hMirrors.leafGroups⟩
  cases edge with
  | literal | tail | any => exact hBehind _ _
  | capture source groups =>
      have hMirrors := hEmit (group + 1 + groups)
      refine ⟨?_, hMirrors.next, hMirrors.leafGroups⟩
      exact
        congrArg (separator ++ '(' :: source ++ ')' :: ·)
          hMirrors.source

/- So do branches in a row. -/
theorem forall₂_flattenAll
    {related : Nat → Nat → Prop}
    {branches others : List Branch}
    (hAll :
      List.Forall₂
        (fun branch other =>
          branch.edge = other.edge ∧
            ∀ group,
              (branch.emit group).Mirrors related
                (other.emit group))
        branches others)
    (separator : Text)
    (group : Nat) :
    List.Forall₂ (Emission.Mirrors related)
      (flattenAll separator group branches)
      (flattenAll separator group others) := by
  induction hAll generalizing group with
  | nil => exact .nil
  | @cons branch other _ _ hFirst _ ih =>
      have hMirrors :=
        mirrors_flatten hFirst.1 hFirst.2 separator group
      have hRest := ih (other.flatten separator group).next
      refine .cons hMirrors ?_
      rwa [hMirrors.next]

end Branch

namespace TreeNode

/-
  Like trees are flattened alike, and markers with the same
  group belong to twins.
-/
theorem mirrors_flatten
    {node other : TreeNode}
    (hLike : node.IsLike other)
    (hNode : node.IsOrderly)
    (hOther : other.IsOrderly)
    (separator : Text)
    (group : Nat) :
    (node.flatten separator group).Mirrors
      (node.AreTwins other)
      (other.flatten separator group) := by
  induction node using induct
    generalizing other separator group with
  | hNode node ih =>
      have hChildren :
          ∀ first,
            List.Forall₂
              (Emission.Mirrors (node.AreTwins other))
              (Branch.flattenAll separator first
                (node.ordered.map branchOf))
              (Branch.flattenAll separator first
                (other.ordered.map branchOf)) := by
        intro first
        apply Branch.forall₂_flattenAll
        rw [List.forall₂_map_left_iff,
          List.forall₂_map_right_iff]
        refine
          (forall₂_ordered hLike hNode hOther).imp ?_
        rintro ⟨edge, child⟩ ⟨_, twin⟩ ⟨rfl, hChild, hTwin⟩
        refine ⟨rfl, fun group => ?_⟩
        have hBelow :=
          ih _ hChild (hLike.child hNode hOther hChild hTwin)
            (hNode.child hChild) (hOther.child hTwin) ['/']
            group
        exact
          hBelow.imp fun _ _ hTwins =>
            hTwins.behind hChild hTwin
      have hSome := hLike.isSome_leaf
      rw [flatten_eq, flatten_eq]
      apply Emission.mirrors_ofAlternatives
      unfold alternatives
      rw [hSome]
      apply List.rel_append _ (hChildren _)
      cases hLeaf : node.leaf with
      | none =>
          cases hTwin : other.leaf with
          | none => exact .nil
          | some twin => simp [hLeaf, hTwin] at hSome
      | some leaf =>
          cases hTwin : other.leaf with
          | none => simp [hLeaf, hTwin] at hSome
          | some twin =>
              refine .cons ⟨rfl, rfl, .cons ?_ .nil⟩ .nil
              exact
                ⟨rfl, [], [], [], .here hLeaf, .here hTwin⟩

end TreeNode

end RequestRouter
