import RequestRouter.Proofs.AssocList
import RequestRouter.SegmentTree.Basic

/-
  What a segment tree contains.

  A tree contains leaves, each at the end of a list of edges
  and with a trail of node numbers. An insertion that is not
  refused adds one leaf to them, gives new numbers to new
  nodes, and keeps the order of the tree: captures have no
  siblings that could match the same segment.

  Key definitions include:
    * `TreeNode.HasLeaf`
    * `TreeNode.IsTidy`
    * `TreeNode.IsOrderly`
    * `TreeNode.ids`
    * `Insertion.Adds`

  Main statement:
    * `TreeNode.adds_insert`
-/

------------------------------------------------------------
-- Leaves and Order
------------------------------------------------------------

namespace RequestRouter

namespace TreeNode

/- What carries over from children holds of all nodes. -/
theorem induct
    {motive : TreeNode → Prop}
    (hNode :
      ∀ node,
        (∀ entry ∈ node.children, motive entry.2) →
          motive node)
    (node : TreeNode) :
    motive node := by
  refine
    @TreeNode.rec motive
      (fun children => ∀ entry ∈ children, motive entry.2)
      (fun entry => motive entry.2) ?_ ?_ ?_ ?_ node
  · intro id spans leaf children hChildren
    exact hNode ⟨id, spans, leaf, children⟩ hChildren
  · simp
  · intro entry rest hEntry hRest
    simpa using ⟨hEntry, fun edge child hMember =>
      hRest (edge, child) hMember⟩
  · intro edge child hChild
    exact hChild

/-
  Whether a leaf lies at the end of edges below a node, with
  the numbers of the nodes on the way.
-/
inductive HasLeaf :
    TreeNode → List Edge → List Nat → Nat → Prop where
  | here {node leaf}
      (hLeaf : node.leaf = some leaf) :
      HasLeaf node [] [] leaf
  | child {node edge child edges trail leaf}
      (hChild : (edge, child) ∈ node.children)
      (hLeaf : HasLeaf child edges trail leaf) :
      HasLeaf node (edge :: edges) (child.id :: trail) leaf

/- The leaf at the end of no edges is the node's own. -/
theorem hasLeaf_nil_iff
    (node : TreeNode)
    (trail : List Nat)
    (leaf : Nat) :
    node.HasLeaf [] trail leaf ↔
      trail = [] ∧ node.leaf = some leaf := by
  constructor
  · rintro ⟨hLeaf⟩
    exact ⟨rfl, hLeaf⟩
  · rintro ⟨rfl, hLeaf⟩
    exact .here hLeaf

/- Any other leaf lies below a child. -/
theorem hasLeaf_cons_iff
    (node : TreeNode)
    (edge : Edge)
    (edges : List Edge)
    (trail : List Nat)
    (leaf : Nat) :
    node.HasLeaf (edge :: edges) trail leaf ↔
      ∃ child below, (edge, child) ∈ node.children ∧
        trail = child.id :: below ∧
        child.HasLeaf edges below leaf := by
  constructor
  · intro hHas
    cases hHas with
    | child hChild hLeaf => exact ⟨_, _, hChild, rfl, hLeaf⟩
  · rintro ⟨child, below, hChild, rfl, hLeaf⟩
    exact .child hChild hLeaf

/- The edges from a node to its children. -/
def edges
    (node : TreeNode) : List Edge :=
  node.children.map Prod.fst

/- Whether a node has a leaf or a child. -/
def IsUsed
    (node : TreeNode) : Prop :=
  node.leaf.isSome = true ∨ node.children ≠ []

/-
  Whether the children of a node can be told apart: edges
  differ, a capture stands beside neither literals nor other
  captures, a node behind a spanning edge has only one
  continuation, nothing follows an open-ended edge, and no
  child is barren.
-/
structure IsTidy
    (node : TreeNode) : Prop where
  keyed : node.edges.Nodup
  apart :
    ∀ {a b}, a ∈ node.edges → b ∈ node.edges →
      a.isCapture = true → b.isLiteral = false
  alone :
    ∀ {a b}, a ∈ node.edges → b ∈ node.edges →
      a.isCapture = true → b.isCapture = true → a = b
  single :
    node.spans = true →
      (node.leaf.isSome = true → node.children = []) ∧
        node.children.length ≤ 1
  used :
    ∀ entry ∈ node.children, entry.2.IsUsed
  closed :
    ∀ entry ∈ node.children,
      entry.1.isOpenEnded = true → entry.2.children = []
  passed :
    ∀ entry ∈ node.children, entry.2.spans = entry.1.spans

/- Whether a node and all nodes below it are tidy. -/
inductive IsOrderly : TreeNode → Prop where
  | mk {node}
      (hTidy : node.IsTidy)
      (hBelow :
        ∀ entry ∈ node.children, IsOrderly entry.2) :
      IsOrderly node

namespace IsOrderly

/- An orderly node is tidy. -/
theorem tidy
    {node : TreeNode}
    (hNode : node.IsOrderly) :
    node.IsTidy := by
  cases hNode
  assumption

/- The children of an orderly node are orderly. -/
theorem child
    {node : TreeNode}
    (hNode : node.IsOrderly)
    {entry : Edge × TreeNode}
    (hEntry : entry ∈ node.children) :
    entry.2.IsOrderly := by
  cases hNode with
  | mk hTidy hBelow => exact hBelow entry hEntry

end IsOrderly

/- A fresh node is orderly. -/
theorem isOrderly_fresh
    (id : Nat)
    (spans : Bool) :
    (fresh id spans).IsOrderly := by
  refine .mk ?_ (by simp [fresh])
  constructor <;> simp [fresh, edges]

/- There are no leaves below a fresh node. -/
theorem not_hasLeaf_fresh
    (id : Nat)
    (spans : Bool)
    (edges : List Edge)
    (trail : List Nat)
    (leaf : Nat) :
    ¬ (fresh id spans).HasLeaf edges trail leaf := by
  intro hHas
  cases hHas with
  | here hLeaf => simp [fresh] at hLeaf
  | child hChild => simp [fresh] at hChild

/- A used node has a leaf somewhere below it. -/
theorem exists_hasLeaf
    (node : TreeNode)
    (hNode : node.IsOrderly)
    (hUsed : node.IsUsed) :
    ∃ edges trail leaf, node.HasLeaf edges trail leaf := by
  induction node using induct with
  | hNode node ih =>
      rcases hUsed with hLeaf | hChildren
      · rcases Option.isSome_iff_exists.mp hLeaf with
          ⟨leaf, hLeaf⟩
        exact ⟨[], [], leaf, .here hLeaf⟩
      · rcases List.exists_mem_of_ne_nil _ hChildren with
          ⟨⟨edge, child⟩, hChild⟩
        rcases
            ih _ hChild (hNode.child hChild)
              (hNode.tidy.used _ hChild) with
          ⟨edges, trail, leaf, hHas⟩
        exact
          ⟨edge :: edges, child.id :: trail, leaf,
            .child hChild hHas⟩

mutual

/- The numbers of the nodes below a node. -/
def ids : TreeNode → List Nat
  | ⟨_, _, _, children⟩ => childIds children

/- The numbers of children and of the nodes below them. -/
def childIds : List (Edge × TreeNode) → List Nat
  | [] => []
  | (_, child) :: rest =>
      child.id :: (child.ids ++ childIds rest)

end

/- The numbers below a node are those of its children. -/
theorem ids_eq
    (node : TreeNode) :
    node.ids = childIds node.children := by
  cases node
  rfl

/- Children in a row have their numbers in a row. -/
theorem childIds_append
    (first second : List (Edge × TreeNode)) :
    childIds (first ++ second) =
      childIds first ++ childIds second := by
  induction first with
  | nil => rfl
  | cons entry rest ih => simp [childIds, ih]

end TreeNode

end RequestRouter

------------------------------------------------------------
-- Insertion
------------------------------------------------------------

namespace RequestRouter

namespace Step

/- The edges of steps. -/
def edges
    (steps : List Step) : List Edge :=
  steps.map (·.edge)

/- Whether an open-ended edge comes last in steps, if at all. -/
def OpenLast : List Step → Prop
  | [] => True
  | step :: rest =>
      (step.edge.isOpenEnded = true → rest = []) ∧
        OpenLast rest

end Step

namespace Insertion

/-
  Whether an insertion adds one leaf: the node stays as it
  is in all else, and new nodes get the numbers from `next`
  on.
-/
structure Adds
    (before : TreeNode)
    (steps : List Step)
    (leaf next : Nat)
    (trail : List Nat)
    (outcome : Insertion) : Prop where
  id : outcome.node.id = before.id
  spans : outcome.node.spans = before.spans
  orderly : outcome.node.IsOrderly
  used : outcome.node.IsUsed
  closed :
    steps = [] → outcome.node.children = before.children
  hasLeaf_iff :
    ∀ edges found number,
      outcome.node.HasLeaf edges found number ↔
        before.HasLeaf edges found number ∨
          edges = Step.edges steps ∧ found = trail ∧
            number = leaf
  next_le : next ≤ outcome.next
  ids :
    outcome.node.ids.Perm
      (before.ids ++
        List.range' next (outcome.next - next))

end Insertion

namespace TreeNode

/- A child that is put in the place of another. -/
theorem exists_children_setChild
    {node old : TreeNode}
    {edge : Edge}
    (hChild : node.child? edge = some old)
    (child : TreeNode) :
    ∃ before after,
      node.children = before ++ (edge, old) :: after ∧
        (node.setChild edge child).children =
          before ++ (edge, child) :: after :=
  AssocList.exists_upsert_of_find?_eq_some hChild child
    fun _ => child

/- A child along a new edge comes last. -/
theorem children_setChild
    {node : TreeNode}
    {edge : Edge}
    (hChild : node.child? edge = none)
    (child : TreeNode) :
    (node.setChild edge child).children =
      node.children ++ [(edge, child)] :=
  AssocList.upsert_of_find?_eq_none hChild child
    fun _ => child

/- The child that is put in place is the only new one. -/
theorem mem_children_setChild
    {node child : TreeNode}
    {edge : Edge}
    {entry : Edge × TreeNode}
    (hEntry :
      entry ∈ (node.setChild edge child).children) :
    entry = (edge, child) ∨ entry ∈ node.children := by
  rcases AssocList.mem_of_mem_upsert hEntry with
    hOld | ⟨before, -, hSame, hValue⟩ | hNew
  · exact Or.inr hOld
  · left
    exact Prod.ext (beq_iff_eq.mp hSame) hValue
  · exact Or.inl hNew

/- A leaf may end at a node where none does. -/
theorem adds_insertLeaf
    {node : TreeNode}
    (hNode : node.IsOrderly)
    {leaf next : Nat}
    {trail : List Nat}
    (hTrail : (node.insertLeaf leaf next).trail = some trail) :
    (node.insertLeaf leaf next).Adds node [] leaf next
      trail := by
  unfold insertLeaf at hTrail ⊢
  split at hTrail
  case h_1 other hLeaf =>
      split at hTrail
      case isFalse => cases hTrail
      case isTrue hSame =>
          cases hTrail
          subst hSame
          refine
            ⟨rfl, rfl, hNode, Or.inl (by simp [hLeaf]),
              fun _ => rfl, ?_, Nat.le_refl _, by simp⟩
          intro edges found number
          constructor
          · exact Or.inl
          · rintro (hHas | ⟨rfl, rfl, rfl⟩)
            · exact hHas
            · exact .here hLeaf
  case h_2 hLeaf =>
      split at hTrail
      case isTrue => cases hTrail
      case isFalse hFree =>
          cases hTrail
          rw [if_neg hFree]
          refine
            ⟨rfl, rfl, ?_, Or.inl rfl, fun _ => rfl, ?_,
              Nat.le_refl _, ?_⟩
          · have hTidy := hNode.tidy
            refine .mk ?_ fun entry hEntry =>
              hNode.child hEntry
            refine
              { hTidy with
                single := ?_ }
            intro hSpans
            refine ⟨fun _ => ?_, (hTidy.single hSpans).2⟩
            have hSpans : node.spans = true := hSpans
            simpa [hSpans] using hFree
          · intro edges found number
            cases edges with
            | nil =>
                simp only [hasLeaf_nil_iff, hLeaf]
                simp [Step.edges, eq_comm]
            | cons edge edges =>
                simp [hasLeaf_cons_iff, Step.edges]
          · rcases node with ⟨id, spans, own, children⟩
            simp [ids]

/- A child in the place of another keeps a node tidy. -/
theorem isTidy_setChild_of_some
    {node old child : TreeNode}
    {edge : Edge}
    (hNode : node.IsTidy)
    (hOld : node.child? edge = some old)
    (hUsed : child.IsUsed)
    (hSpans : child.spans = old.spans)
    (hClosed :
      edge.isOpenEnded = true →
        child.children = old.children) :
    (node.setChild edge child).IsTidy := by
  rcases exists_children_setChild hOld child with
    ⟨before, after, hBefore, hAfter⟩
  have hEdges : (node.setChild edge child).edges =
      node.edges := by
    simp [edges, hBefore, hAfter]
  have hMember : (edge, old) ∈ node.children := by
    simp [hBefore]
  constructor
  case keyed => exact hEdges ▸ hNode.keyed
  case apart => exact hEdges ▸ hNode.apart
  case alone => exact hEdges ▸ hNode.alone
  case single =>
      intro hSpans
      rcases hNode.single hSpans with ⟨hLeaf, hLength⟩
      constructor
      · intro hSome
        simp [hLeaf hSome] at hMember
      · simpa [hAfter, hBefore] using hLength
  case used =>
      intro entry hEntry
      rcases mem_children_setChild hEntry with rfl | hEntry
      · exact hUsed
      · exact hNode.used entry hEntry
  case closed =>
      intro entry hEntry hOpen
      rcases mem_children_setChild hEntry with rfl | hEntry
      · rw [hClosed hOpen]
        exact hNode.closed _ hMember hOpen
      · exact hNode.closed entry hEntry hOpen
  case passed =>
      intro entry hEntry
      rcases mem_children_setChild hEntry with rfl | hEntry
      · exact hSpans.trans (hNode.passed _ hMember)
      · exact hNode.passed entry hEntry

/- What an edge that does not clash shares a node with. -/
theorem sibling_of_clashes
    {node : TreeNode}
    {edge other : Edge}
    (hClash : node.clashes edge = false)
    (hOther : other ∈ node.edges) :
    (edge.isLiteral = true → other.isCapture = false) ∧
      (edge.isCapture = true →
        other.isLiteral = false ∧
          other.isCapture = false) := by
  rcases List.mem_map.mp hOther with ⟨entry, hEntry, rfl⟩
  cases edge with
  | literal text =>
      simp only [clashes, hasCapture,
        List.any_eq_false] at hClash
      simpa [Edge.isCapture, Edge.isLiteral] using
        hClash entry hEntry
  | capture source groups =>
      simp only [clashes, List.any_eq_false] at hClash
      simpa [Edge.isCapture, Edge.isLiteral] using
        hClash entry hEntry
  | tail | any => simp [Edge.isCapture, Edge.isLiteral]

/-
  A child along a new edge keeps a node tidy if the edge
  does not clash and the node has room for it.
-/
theorem isTidy_setChild_of_none
    {node child : TreeNode}
    {edge : Edge}
    (hNode : node.IsTidy)
    (hNew : node.child? edge = none)
    (hClash : node.clashes edge = false)
    (hTaken : node.isTaken = false)
    (hUsed : child.IsUsed)
    (hSpans : child.spans = edge.spans)
    (hClosed :
      edge.isOpenEnded = true → child.children = []) :
    (node.setChild edge child).IsTidy := by
  have hChildren := children_setChild hNew child
  have hEdges : (node.setChild edge child).edges =
      node.edges ++ [edge] := by
    simp [edges, hChildren]
  constructor
  case keyed =>
      rw [hEdges]
      refine List.nodup_append.mpr
        ⟨hNode.keyed, by simp, ?_⟩
      intro a hSibling b hLast
      rcases List.mem_map.mp hSibling with
        ⟨entry, hEntry, rfl⟩
      rw [List.mem_singleton.mp hLast]
      exact
        (AssocList.find?_eq_none_iff edge _).mp hNew entry
          hEntry
  case apart =>
      intro a b ha hb hCapture
      rw [hEdges] at ha hb
      simp only [List.mem_append, List.mem_singleton]
        at ha hb
      rcases ha with ha | rfl
      · rcases hb with hb | rfl
        · exact hNode.apart ha hb hCapture
        · rw [Bool.eq_false_iff]
          intro hLiteral
          have hSibling :=
            (sibling_of_clashes hClash ha).1 hLiteral
          simp [hCapture] at hSibling
      · rcases hb with hb | rfl
        · exact
            ((sibling_of_clashes hClash hb).2 hCapture).1
        · cases b <;> simp_all [Edge.isCapture,
            Edge.isLiteral]
  case alone =>
      intro a b ha hb hFirst hSecond
      rw [hEdges] at ha hb
      simp only [List.mem_append, List.mem_singleton]
        at ha hb
      rcases ha with ha | rfl
      · rcases hb with hb | rfl
        · exact hNode.alone ha hb hFirst hSecond
        · have hSibling :=
            ((sibling_of_clashes hClash ha).2 hSecond).2
          simp [hFirst] at hSibling
      · rcases hb with hb | rfl
        · have hSibling :=
            ((sibling_of_clashes hClash hb).2 hFirst).2
          simp [hSecond] at hSibling
        · rfl
  case single =>
      intro hSpans
      have hSpans : node.spans = true := hSpans
      have hRoom : node.leaf = none ∧
          node.children = [] := by
        simpa [isTaken, hSpans] using hTaken
      constructor
      · intro hLeaf
        have hLeaf : node.leaf.isSome = true := hLeaf
        simp [hRoom.1] at hLeaf
      · simp [hChildren, hRoom.2]
  case used =>
      intro entry hEntry
      rcases mem_children_setChild hEntry with rfl | hEntry
      · exact hUsed
      · exact hNode.used entry hEntry
  case closed =>
      intro entry hEntry hOpen
      rcases mem_children_setChild hEntry with rfl | hEntry
      · exact hClosed hOpen
      · exact hNode.closed entry hEntry hOpen
  case passed =>
      intro entry hEntry
      rcases mem_children_setChild hEntry with rfl | hEntry
      · exact hSpans
      · exact hNode.passed entry hEntry

/- A child keeps the order if it keeps its parent tidy. -/
theorem isOrderly_setChild
    {node child : TreeNode}
    {edge : Edge}
    (hNode : node.IsOrderly)
    (hChild : child.IsOrderly)
    (hTidy : (node.setChild edge child).IsTidy) :
    (node.setChild edge child).IsOrderly := by
  refine .mk hTidy ?_
  intro entry hEntry
  rcases mem_children_setChild hEntry with rfl | hEntry
  · exact hChild
  · exact hNode.child hEntry

/- A leaf is added below a child that is there. -/
theorem adds_setChild_of_some
    {node old : TreeNode}
    {step : Step}
    {rest : List Step}
    (hNode : node.IsOrderly)
    (hOld : node.child? step.edge = some old)
    (hOpen : step.edge.isOpenEnded = true → rest = [])
    {leaf next : Nat}
    {trail : List Nat}
    {below : Insertion}
    (hBelow : below.Adds old rest leaf next trail) :
    Insertion.Adds node (step :: rest) leaf next
      (old.id :: trail)
      ⟨node.setChild step.edge below.node, below.next,
        some (old.id :: trail)⟩ := by
  rcases exists_children_setChild hOld below.node with
    ⟨before, after, hBefore, hAfter⟩
  have hMember : (step.edge, old) ∈ node.children := by
    simp [hBefore]
  refine
    ⟨rfl, rfl, ?_, Or.inr (by simp [hAfter]), by simp, ?_,
      hBelow.next_le, ?_⟩
  · exact
      isOrderly_setChild hNode hBelow.orderly
        (isTidy_setChild_of_some hNode.tidy hOld hBelow.used
          hBelow.spans fun hEdge =>
            hBelow.closed (hOpen hEdge))
  · intro edges found number
    cases edges with
    | nil =>
        simp [hasLeaf_nil_iff, Step.edges, setChild]
    | cons edge edges =>
        simp only [hasLeaf_cons_iff, hAfter, hBefore,
          List.mem_append, List.mem_cons, Step.edges,
          List.map_cons, List.cons.injEq]
        constructor
        · rintro ⟨child, later, hChild | hChild | hChild,
            rfl, hLeaf⟩
          · exact
              Or.inl ⟨child, later, Or.inl hChild, rfl, hLeaf⟩
          · cases hChild
            rcases (hBelow.hasLeaf_iff _ _ _).mp hLeaf with
              hOther | ⟨rfl, rfl, rfl⟩
            · exact
                Or.inl
                  ⟨old, later, Or.inr (Or.inl rfl),
                    by rw [hBelow.id], hOther⟩
            · exact
                Or.inr
                  ⟨⟨rfl, rfl⟩, by rw [hBelow.id], rfl⟩
          · exact
              Or.inl
                ⟨child, later, Or.inr (Or.inr hChild), rfl,
                  hLeaf⟩
        · rintro (⟨child, later, hChild | hChild | hChild,
            rfl, hLeaf⟩ | ⟨⟨rfl, rfl⟩, rfl, rfl⟩)
          · exact ⟨child, later, Or.inl hChild, rfl, hLeaf⟩
          · cases hChild
            exact
              ⟨below.node, later, Or.inr (Or.inl rfl),
                by rw [hBelow.id],
                (hBelow.hasLeaf_iff _ _ _).mpr
                  (Or.inl hLeaf)⟩
          · exact
              ⟨child, later, Or.inr (Or.inr hChild), rfl,
                hLeaf⟩
          · exact
              ⟨below.node, trail, Or.inr (Or.inl rfl),
                by rw [hBelow.id],
                (hBelow.hasLeaf_iff _ _ _).mpr
                  (Or.inr ⟨rfl, rfl, rfl⟩)⟩
  · rw [ids_eq, ids_eq, hAfter, hBefore, childIds_append,
      childIds_append, childIds, childIds, hBelow.id]
    simp only [List.append_assoc, List.cons_append]
    refine List.Perm.append_left _ (List.Perm.cons _ ?_)
    exact
      (hBelow.ids.append_right _).trans <| by
        rw [List.append_assoc]
        exact List.Perm.append_left _ List.perm_append_comm

/- A leaf is added below a child that is made for it. -/
theorem adds_setChild_of_none
    {node : TreeNode}
    {step : Step}
    {rest : List Step}
    (hNode : node.IsOrderly)
    (hNew : node.child? step.edge = none)
    (hClash : node.clashes step.edge = false)
    (hTaken : node.isTaken = false)
    (hOpen : step.edge.isOpenEnded = true → rest = [])
    {leaf next : Nat}
    {trail : List Nat}
    {below : Insertion}
    (hBelow :
      below.Adds (fresh next step.edge.spans) rest leaf
        (next + 1) trail) :
    Insertion.Adds node (step :: rest) leaf next
      (next :: trail)
      ⟨node.setChild step.edge below.node, below.next,
        some (next :: trail)⟩ := by
  have hChildren := children_setChild hNew below.node
  have hBound := hBelow.next_le
  refine
    ⟨rfl, rfl, ?_, Or.inr (by simp [hChildren]), by simp,
      ?_, by dsimp only; omega, ?_⟩
  · refine
      isOrderly_setChild hNode hBelow.orderly
        (isTidy_setChild_of_none hNode.tidy hNew hClash
          hTaken hBelow.used hBelow.spans ?_)
    intro hEdge
    rw [hBelow.closed (hOpen hEdge)]
    rfl
  · intro edges found number
    cases edges with
    | nil =>
        simp [hasLeaf_nil_iff, Step.edges, setChild]
    | cons edge edges =>
        simp only [hasLeaf_cons_iff, hChildren,
          List.mem_append, List.mem_singleton, Step.edges,
          List.map_cons, List.cons.injEq]
        constructor
        · rintro ⟨child, later, hChild | hChild, rfl, hLeaf⟩
          · exact Or.inl ⟨child, later, hChild, rfl, hLeaf⟩
          · cases hChild
            rcases (hBelow.hasLeaf_iff _ _ _).mp hLeaf with
              hOther | ⟨rfl, rfl, rfl⟩
            · exact
                absurd hOther (not_hasLeaf_fresh _ _ _ _ _)
            · exact
                Or.inr
                  ⟨⟨rfl, rfl⟩, by rw [hBelow.id]; rfl, rfl⟩
        · rintro (⟨child, later, hChild, rfl, hLeaf⟩ |
            ⟨⟨rfl, rfl⟩, rfl, rfl⟩)
          · exact ⟨child, later, Or.inl hChild, rfl, hLeaf⟩
          · exact
              ⟨below.node, trail, Or.inr rfl,
                by rw [hBelow.id]; rfl,
                (hBelow.hasLeaf_iff _ _ _).mpr
                  (Or.inr ⟨rfl, rfl, rfl⟩)⟩
  · have hId : below.node.id = next := hBelow.id
    rw [ids_eq, ids_eq, hChildren, childIds_append, childIds,
      childIds, List.append_nil, hId]
    refine List.Perm.append_left _ ?_
    have hCount :
        below.next - next =
          (below.next - (next + 1)) + 1 := by
      omega
    rw [hCount, List.range'_succ]
    exact List.Perm.cons _ hBelow.ids

/-
  An insertion that is not refused adds its leaf, at the end
  of the edges of its steps and with its trail.
-/
theorem adds_insert
    {node : TreeNode}
    (hNode : node.IsOrderly)
    {steps : List Step}
    (hOpen : Step.OpenLast steps)
    {leaf next : Nat}
    {trail : List Nat}
    (hTrail :
      (node.insert leaf steps next).trail = some trail) :
    (node.insert leaf steps next).Adds node steps leaf next
      trail := by
  induction steps generalizing node next trail with
  | nil => exact adds_insertLeaf hNode hTrail
  | cons step rest ih =>
      rcases hOpen with ⟨hLast, hRest⟩
      unfold insert at hTrail ⊢
      split at hTrail
      case h_1 old hOld =>
          rcases Option.map_eq_some_iff.mp hTrail with
            ⟨below, hBelow, rfl⟩
          have hMember : (step.edge, old) ∈ node.children :=
            AssocList.mem_of_find?_eq_some hOld
          have hAdds := ih (hNode.child hMember) hRest hBelow
          dsimp only
          rw [hBelow]
          exact
            adds_setChild_of_some hNode hOld hLast hAdds
      case h_2 hNew =>
          split at hTrail
          case isTrue => cases hTrail
          case isFalse hFree =>
              rcases Option.map_eq_some_iff.mp hTrail with
                ⟨below, hBelow, rfl⟩
              have hRoom :
                  node.clashes step.edge = false ∧
                    node.isTaken = false := by
                simpa using hFree
              have hAdds :=
                ih (isOrderly_fresh _ _) hRest hBelow
              rw [if_neg hFree]
              dsimp only
              rw [hBelow]
              exact
                adds_setChild_of_none hNode hNew hRoom.1
                  hRoom.2 hLast hAdds

end TreeNode

end RequestRouter
