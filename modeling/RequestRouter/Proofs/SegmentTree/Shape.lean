import RequestRouter.Proofs.Regex.Ways
import RequestRouter.Proofs.SegmentTree.Runs
import RequestRouter.Proofs.SegmentTree.Steps
import RequestRouter.Proofs.SegmentTree.Tour

/-
  The shape of a tree behind any insertions.

  A tree is described by its links, each from the number of
  a node along an edge to a child. Whatever routes are
  inserted, in any order, and whichever of them are refused,
  each node but the root is the end of one link, from a node
  with a smaller number, and siblings can be told apart. So
  a tour of the tree comes to each node once.

  Key definitions include:
    * `Link`
    * `TreeNode.nodes`
    * `SegmentTree.ofCalls`
    * `SegmentTree.IsWellShaped`
    * `SegmentTree.IsVisitedOnce`

  Main statements:
    * `SegmentTree.IsGrown.isWellShaped`
    * `SegmentTree.IsGrown.isVisitedOnce`
    * `SegmentTree.isWellShaped_ofCalls`
-/

------------------------------------------------------------
-- Links
------------------------------------------------------------

namespace RequestRouter

/- An edge of a tree, from a numbered node to a child. -/
structure Link where
  parent : Nat
  edge : Edge
  child : TreeNode

namespace TreeNode

mutual

/- The links below a node. -/
def links : TreeNode → List Link
  | ⟨id, _, _, children⟩ => childLinks id children

/- The links to children and below them. -/
def childLinks
    (parent : Nat) :
    List (Edge × TreeNode) → List Link
  | [] => []
  | (edge, child) :: rest =>
      ⟨parent, edge, child⟩ ::
        (child.links ++ childLinks parent rest)

end

/- A node and the nodes below it. -/
def nodes
    (node : TreeNode) : List TreeNode :=
  node :: node.links.map (·.child)

/- The links below a node are listed child by child. -/
theorem links_eq
    (node : TreeNode) :
    node.links =
      node.children.flatMap fun entry =>
        ⟨node.id, entry.1, entry.2⟩ :: entry.2.links := by
  rcases node with ⟨id, spans, leaf, children⟩
  change childLinks id children = _
  induction children with
  | nil => rfl
  | cons entry rest ih =>
      rw [childLinks, ih]
      simp

/- A link leads to a child, or lies below one. -/
theorem mem_links_iff
    (node : TreeNode)
    (link : Link) :
    link ∈ node.links ↔
      ∃ entry ∈ node.children,
        link = ⟨node.id, entry.1, entry.2⟩ ∨
          link ∈ entry.2.links := by
  rw [links_eq]
  simp only [List.mem_flatMap, List.mem_cons]

/- Links lead to the nodes below, each with its number. -/
theorem map_id_links
    (node : TreeNode) :
    node.links.map (·.child.id) = node.ids := by
  have hIds :
      ∀ children,
        childIds children =
          children.flatMap fun entry =>
            entry.2.id :: entry.2.ids := by
    intro children
    induction children with
    | nil => rfl
    | cons entry rest ih => simp [childIds, ih]
  induction node using induct with
  | hNode node ih =>
      rw [links_eq, ids_eq, hIds, List.map_flatMap]
      apply List.flatMap_congr
      intro entry hEntry
      rw [List.map_cons, ih entry hEntry]

/- What passes on to children holds of all nodes below. -/
theorem forall_mem_nodes
    {property : TreeNode → Prop}
    (hChildren :
      ∀ node : TreeNode, property node →
        ∀ entry ∈ node.children, property entry.2)
    {node : TreeNode}
    (hNode : property node) :
    ∀ other ∈ node.nodes, property other := by
  have hBelow : ∀ link ∈ node.links, property link.child := by
    induction node using induct with
    | hNode node ih =>
        intro link hLink
        rcases (mem_links_iff _ _).mp hLink with
          ⟨entry, hEntry, rfl | hLink⟩
        · exact hChildren node hNode entry hEntry
        · exact
            ih entry hEntry (hChildren node hNode entry hEntry)
              link hLink
  intro other hOther
  rcases List.mem_cons.mp hOther with rfl | hOther
  · exact hNode
  · rcases List.mem_map.mp hOther with ⟨link, hLink, rfl⟩
    exact hBelow link hLink

/- A link leads from a node to one of its children. -/
theorem exists_parent
    {node : TreeNode}
    {link : Link}
    (hLink : link ∈ node.links) :
    ∃ parent ∈ node.nodes,
      parent.id = link.parent ∧
        (link.edge, link.child) ∈ parent.children := by
  induction node using induct with
  | hNode node ih =>
      rcases (mem_links_iff _ _).mp hLink with
        ⟨entry, hEntry, rfl | hBelow⟩
      · exact ⟨node, List.mem_cons_self, rfl, hEntry⟩
      · rcases ih entry hEntry hBelow with
          ⟨parent, hParent, hSame, hChild⟩
        refine ⟨parent, ?_, hSame, hChild⟩
        apply List.mem_cons_of_mem
        rcases List.mem_cons.mp hParent with rfl | hParent
        · exact
            List.mem_map.mpr
              ⟨_, (mem_links_iff _ _).mpr
                ⟨entry, hEntry, Or.inl rfl⟩, rfl⟩
        · rcases List.mem_map.mp hParent with
            ⟨other, hOther, rfl⟩
          exact
            List.mem_map.mpr
              ⟨other, (mem_links_iff _ _).mpr
                ⟨entry, hEntry, Or.inr hOther⟩, rfl⟩

end TreeNode

end RequestRouter

------------------------------------------------------------
-- Well-Shaped Trees
------------------------------------------------------------

namespace RequestRouter

namespace SegmentTree

/-
  Whether the nodes of a tree have the numbers from that of
  the root on, once each, and are told apart: one link leads
  to each but the root, from a smaller number, siblings have
  different edges, no node has both a literal and a capture
  or two captures, a node behind a spanning edge has one
  leaf or child at most, and open-ended edges lead to no
  children.
-/
structure IsWellShaped
    (tree : SegmentTree) : Prop where
  numbered :
    (tree.root.nodes.map (·.id)).Perm
      (List.range tree.size)
  root : tree.root.id = 0
  parent :
    ∀ id, 0 < id → id < tree.size →
      ∃ link,
        tree.root.links.filter (·.child.id == id) = [link] ∧
          link.parent < id
  keyed : ∀ node ∈ tree.root.nodes, node.edges.Nodup
  apart :
    ∀ node ∈ tree.root.nodes,
      ¬ ((∃ edge ∈ node.edges, edge.isLiteral = true) ∧
        ∃ edge ∈ node.edges, edge.isCapture = true)
  alone :
    ∀ node ∈ tree.root.nodes,
      (node.edges.filter (·.isCapture)).length ≤ 1
  single :
    ∀ link ∈ tree.root.links, link.edge.spans = true →
      link.child.leaf.toList.length +
        link.child.children.length ≤ 1
  closed :
    ∀ link ∈ tree.root.links,
      link.edge.isOpenEnded = true →
        link.child.children = []

/-
  Whether a tree is flattened by visiting each of its nodes
  once, and in no other way.
-/
structure IsVisitedOnce
    (tree : SegmentTree) : Prop where
  visits : ∃ visited, tree.Visits tree.flatten visited
  once :
    ∀ emission visited, tree.Visits emission visited →
      emission = tree.flatten ∧
        visited.Perm (List.range tree.size)

end SegmentTree

/- Where images differ, a member is filtered by its own. -/
theorem filter_eq_singleton
    {α β : Type}
    [BEq β] [LawfulBEq β]
    {f : α → β}
    {items : List α}
    (hImages : (items.map f).Nodup)
    {item : α}
    (hItem : item ∈ items) :
    items.filter (f · == f item) = [item] := by
  induction items with
  | nil => cases hItem
  | cons first rest ih =>
      rcases List.nodup_cons.mp hImages with ⟨hFirst, hRest⟩
      rcases List.mem_cons.mp hItem with rfl | hItem
      · have hNone :
            rest.filter (f · == f item) = [] := by
          apply List.filter_eq_nil_iff.mpr
          intro other hOther hSame
          apply hFirst
          rw [← beq_iff_eq.mp hSame]
          exact List.mem_map_of_mem hOther
        simp [hNone]
      · have hOther : f first ≠ f item := by
          intro hSame
          apply hFirst
          rw [hSame]
          exact List.mem_map_of_mem hItem
        simp [hOther, ih hRest hItem]

namespace TreeNode

/- A tidy node has one capture among its edges at most. -/
theorem IsTidy.length_captures_le
    {node : TreeNode}
    (hTidy : node.IsTidy) :
    (node.edges.filter (·.isCapture)).length ≤ 1 := by
  have hCaptures :
      ∀ edge ∈ node.edges.filter (·.isCapture),
        edge ∈ node.edges ∧ edge.isCapture = true :=
    fun edge hEdge => List.mem_filter.mp hEdge
  have hKeyed :
      (node.edges.filter (·.isCapture)).Nodup :=
    hTidy.keyed.filter _
  revert hCaptures hKeyed
  generalize node.edges.filter (·.isCapture) = captures
  intro hCaptures hKeyed
  match captures with
  | [] | [_] => simp
  | a :: b :: rest =>
      have hFirst := hCaptures a (by simp)
      have hSecond := hCaptures b (by simp)
      have hSame :=
        hTidy.alone hFirst.1 hSecond.1 hFirst.2 hSecond.2
      simp [hSame] at hKeyed

end TreeNode

namespace SegmentTree

namespace IsGrown

variable {tree : SegmentTree}

/- All nodes of a grown tree are orderly. -/
theorem isOrderly_of_mem
    (hTree : tree.IsGrown) :
    ∀ node ∈ tree.root.nodes, node.IsOrderly :=
  TreeNode.forall_mem_nodes
    (fun _ hNode _ hEntry => hNode.child hEntry)
    hTree.sound.orderly

/- A link leads to a larger number. -/
theorem parent_lt
    (hTree : tree.IsGrown)
    {link : Link}
    (hLink : link ∈ tree.root.links) :
    link.parent < link.child.id := by
  rcases TreeNode.exists_parent hLink with
    ⟨parent, hParent, hSame, hChild⟩
  have hRising : parent.IsRising :=
    TreeNode.forall_mem_nodes
      (fun _ hNode _ hEntry => hNode.child hEntry)
      hTree.rising parent hParent
  rw [← hSame]
  exact hRising.lt hChild

/- One link leads to each node but the root. -/
theorem exists_filter_links
    (hTree : tree.IsGrown)
    {id : Nat}
    (hPositive : 0 < id)
    (hSize : id < tree.size) :
    ∃ link,
      tree.root.links.filter (·.child.id == id) = [link] ∧
        link.parent < id := by
  have hNodup :
      (tree.root.links.map (·.child.id)).Nodup := by
    rw [TreeNode.map_id_links]
    exact hTree.sound.nodup
  have hKnown : id ∈ tree.root.id :: tree.root.ids :=
    hTree.numbered.mem_iff.mpr (List.mem_range.mpr hSize)
  rcases List.mem_cons.mp hKnown with hRoot | hBelow
  · have hZero := hTree.root
    omega
  · rw [← TreeNode.map_id_links] at hBelow
    rcases List.mem_map.mp hBelow with ⟨link, hLink, rfl⟩
    exact
      ⟨link, filter_eq_singleton hNodup hLink,
        hTree.parent_lt hLink⟩

/- A grown tree is well-shaped. -/
theorem isWellShaped
    (hTree : tree.IsGrown) :
    tree.IsWellShaped where
  numbered := by
    rw [TreeNode.nodes, List.map_cons, List.map_map]
    change
      (tree.root.id ::
        tree.root.links.map (·.child.id)).Perm _
    rw [TreeNode.map_id_links]
    exact hTree.numbered
  root := hTree.root
  parent := fun _ hPositive hSize =>
    hTree.exists_filter_links hPositive hSize
  keyed := fun node hNode =>
    (hTree.isOrderly_of_mem node hNode).tidy.keyed
  apart := by
    rintro node hNode
      ⟨⟨a, ha, hLiteral⟩, b, hb, hCapture⟩
    have hTidy := (hTree.isOrderly_of_mem node hNode).tidy
    simp [hTidy.apart hb ha hCapture] at hLiteral
  alone := fun node hNode =>
    (hTree.isOrderly_of_mem node
      hNode).tidy.length_captures_le
  single := by
    intro link hLink hSpans
    rcases TreeNode.exists_parent hLink with
      ⟨parent, hParent, -, hChild⟩
    have hOrderly := hTree.isOrderly_of_mem parent hParent
    have hChildSpans :=
      hOrderly.tidy.passed _ hChild
    rcases
        (hOrderly.child hChild).tidy.single
          (hChildSpans.trans hSpans) with
      ⟨hLeaf, hLength⟩
    dsimp only at hLeaf hLength
    cases hOwn : link.child.leaf with
    | none => simpa using hLength
    | some leaf => simp [hLeaf (by simp [hOwn])]
  closed := by
    intro link hLink hOpen
    rcases TreeNode.exists_parent hLink with
      ⟨parent, hParent, -, hChild⟩
    have hOrderly := hTree.isOrderly_of_mem parent hParent
    exact hOrderly.tidy.closed _ hChild hOpen

/- A grown tree is flattened by visiting each node once. -/
theorem isVisitedOnce
    (hTree : tree.IsGrown) :
    tree.IsVisitedOnce where
  visits := tree.exists_visits
  once := fun _ _ hVisits =>
    ⟨hVisits.eq_flatten, hVisits.perm.trans hTree.numbered⟩

end IsGrown

end SegmentTree

end RequestRouter

------------------------------------------------------------
-- Trees of Routes
------------------------------------------------------------

namespace RequestRouter

namespace Step

/- Whether steps are those of the patterns of some path. -/
def AreRead
    (E : Regex.Engine)
    (steps : List Step) : Prop :=
  ∃ path, ∃ patterns : List (Pattern E),
    ofPatterns path patterns = .ok steps

/- A path that is parsed has steps that are read. -/
theorem areRead_of_parsePath
    {E : Regex.Engine}
    (path : Text)
    {steps : List Step}
    (hSteps :
      (Pattern.parsePath path >>=
        ofPatterns (E := E) path) = .ok steps) :
    AreRead E steps := by
  rcases (Sequence.bind_eq_ok_iff _ _ _).mp hSteps with
    ⟨patterns, -, hSteps⟩
  exact ⟨path, patterns, hSteps⟩

/- An open-ended edge comes last in steps that are read. -/
theorem AreRead.openLast
    {E : Regex.Engine}
    {steps : List Step}
    (hRead : AreRead E steps) :
    OpenLast steps := by
  rcases hRead with ⟨path, patterns, hSteps⟩
  exact openLast_of_ofPatternsFrom hSteps

end Step

namespace SegmentTree

/- The tree behind insertions, whichever are refused. -/
def ofCalls
    (calls : List (List Step × Nat)) : SegmentTree :=
  (empty.insertAll calls).1

/- The tree of routes is grown. -/
theorem isGrown_ofCalls
    {E : Regex.Engine}
    {calls : List (List Step × Nat)}
    (hCalls : ∀ call ∈ calls, Step.AreRead E call.1) :
    (ofCalls calls).IsGrown :=
  (isGrown_insertAll isGrown_empty
    (fun call hCall => (hCalls call hCall).openLast)
    rfl).1

/-
  Whatever leaves are inserted at the ends of routes, in any
  order and with any refusals, the tree is well-shaped, and
  it is flattened by visiting each of its nodes once.
-/
theorem isWellShaped_ofCalls
    {E : Regex.Engine}
    {calls : List (List Step × Nat)}
    (hCalls : ∀ call ∈ calls, Step.AreRead E call.1) :
    (ofCalls calls).IsWellShaped ∧
      (ofCalls calls).IsVisitedOnce := by
  have hGrown := isGrown_ofCalls hCalls
  exact ⟨hGrown.isWellShaped, hGrown.isVisitedOnce⟩

/-
  Steps of a parameter, of a constrained one behind it, of a
  literal in its place and of a tail behind both.
-/
def crowded : List (List Step × Nat) :=
  [([⟨.literal [], none⟩, ⟨.segment, some ['x']⟩], 5),
    ([⟨.literal [], none⟩, ⟨.segment, some ['x']⟩,
      ⟨.capture ['(', 'a', ')', '+'] 1, some ['y']⟩], 7),
    ([⟨.literal [], none⟩, ⟨.literal ['b'], none⟩], 8),
    ([⟨.literal [], none⟩, ⟨.segment, some ['x']⟩,
      ⟨.capture ['(', 'a', ')', '+'] 1, some ['y']⟩,
      ⟨.tail, none⟩], 2)]

/- The crowded routes are read from their paths. -/
theorem areRead_crowded :
    ∀ call ∈ crowded,
      Step.AreRead Regex.treeEngine call.1 := by
  simp only [crowded, List.forall_mem_cons]
  refine ⟨?_, ?_, ?_, ?_, by simp⟩
  · exact
      Step.areRead_of_parsePath ['/', ':', 'x']
        (by decide +kernel)
  · exact
      Step.areRead_of_parsePath
        ['/', ':', 'x', '/', ':', 'y', '{', '(', 'a', ')',
          '+', '}']
        (by decide +kernel)
  · exact
      Step.areRead_of_parsePath ['/', 'b']
        (by decide +kernel)
  · exact
      Step.areRead_of_parsePath
        ['/', ':', 'x', '/', ':', 'y', '{', '(', 'a', ')',
          '+', '}', '/', '*']
        (by decide +kernel)

/- The tree is well-shaped behind two refusals. -/
theorem isWellShaped_ofCalls_crowded :
    (∀ call ∈ crowded,
      Step.AreRead Regex.treeEngine call.1) ∧
      (empty.insertAll crowded).2 =
        [some [1, 2], some [1, 2, 3], none, none] ∧
      (ofCalls crowded).IsWellShaped ∧
      (ofCalls crowded).IsVisitedOnce :=
  ⟨areRead_crowded, by decide +kernel,
    isWellShaped_ofCalls areRead_crowded⟩

end SegmentTree

end RequestRouter
