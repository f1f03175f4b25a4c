import RequestRouter.Proofs.SegmentTree.Coexistence

/-
  Insertions into a tree in a row, some of them refused.

  Below a node that was just made nothing is refused, so
  that a refused insertion has made no nodes: it leaves the
  tree as it is. Any row of insertions therefore keeps a
  tree sound, with the numbers of its nodes in a row from
  the root on and larger ones further below.

  Key definitions include:
    * `TreeNode.IsRising`
    * `SegmentTree.insertAll`
    * `SegmentTree.IsGrown`

  Main statements:
    * `TreeNode.insert_of_refused`
    * `SegmentTree.eq_of_refused`
    * `SegmentTree.insert_cases`
    * `SegmentTree.isGrown_insertAll`
    * `SegmentTree.exists_hasLeaf_insertAll`
-/

------------------------------------------------------------
-- Refused Insertions
------------------------------------------------------------

namespace RequestRouter

namespace TreeNode

/- Below a fresh node no insertion is refused. -/
theorem isSome_trail_insert_fresh
    (id : Nat)
    (spans : Bool)
    (leaf : Nat)
    (steps : List Step)
    (next : Nat) :
    ((fresh id spans).insert leaf steps next).trail.isSome =
      true := by
  have hNone :
      ∀ edges trail number,
        ¬ (fresh id spans).HasLeaf edges trail number :=
    not_hasLeaf_fresh id spans
  have hLacks :
      ∀ edges trail number,
        (fresh id spans).HasLeaf edges trail number →
          number ≠ leaf :=
    fun edges trail number hHas =>
      (hNone edges trail number hHas).elim
  apply
    (isSome_trail_insert_iff (isOrderly_fresh id spans)
      hLacks steps next).mpr
  intro edges trail number hHas
  exact (hNone edges trail number hHas).elim

/- To put a child where it stands changes nothing. -/
theorem setChild_eq_self
    {node child : TreeNode}
    {edge : Edge}
    (hChild : node.child? edge = some child) :
    node.setChild edge child = node := by
  rcases exists_children_setChild hChild child with
    ⟨before, after, hBefore, hAfter⟩
  rcases node with ⟨id, spans, leaf, children⟩
  simp only [setChild, mk.injEq, true_and]
  exact hAfter.trans hBefore.symm

/- A refused insertion leaves a node as it is. -/
theorem insert_of_refused
    {node : TreeNode}
    {leaf : Nat}
    {steps : List Step}
    {next : Nat}
    (hRefused :
      (node.insert leaf steps next).trail = none) :
    node.insert leaf steps next = ⟨node, next, none⟩ := by
  induction steps generalizing node next with
  | nil =>
      unfold insert insertLeaf at hRefused ⊢
      split
      case h_1 other hLeaf =>
          simp only [hLeaf] at hRefused
          rw [hRefused]
      case h_2 hLeaf =>
          simp only [hLeaf] at hRefused
          split
          case isTrue => rfl
          case isFalse hFree =>
              rw [if_neg hFree] at hRefused
              cases hRefused
  | cons step rest ih =>
      unfold insert at hRefused ⊢
      cases hChild : node.child? step.edge with
      | some child =>
          simp only [hChild, Option.map_eq_none_iff]
            at hRefused
          dsimp only
          rw [ih hRefused]
          simp [setChild_eq_self hChild]
      | none =>
          simp only [hChild] at hRefused
          dsimp only
          split
          case isTrue => rfl
          case isFalse hFree =>
              -- A node is made here, and nothing below it is
              -- refused.
              have hSome :=
                isSome_trail_insert_fresh next
                  step.edge.spans leaf rest (next + 1)
              rw [if_neg hFree] at hRefused
              simp only [Option.map_eq_none_iff] at hRefused
              simp [hRefused] at hSome

end TreeNode

namespace SegmentTree

/- A refused insertion leaves the tree as it is. -/
theorem eq_of_refused
    {tree after : SegmentTree}
    {steps : List Step}
    {leaf : Nat}
    (hInsert : tree.insert steps leaf = (after, none)) :
    after = tree := by
  rcases Prod.mk.inj hInsert with ⟨rfl, hRefused⟩
  rw [TreeNode.insert_of_refused hRefused]

/-
  An insertion is refused and leaves the tree as it is, or
  it adds its leaf.
-/
theorem insert_cases
    {tree : SegmentTree}
    (hTree : tree.root.IsOrderly)
    {steps : List Step}
    (hOpen : Step.OpenLast steps)
    (leaf : Nat) :
    tree.insert steps leaf = (tree, none) ∨
      ∃ after trail,
        tree.insert steps leaf = (after, some trail) ∧
          Insertion.Adds tree.root steps leaf tree.size trail
            ⟨after.root, after.size, some trail⟩ := by
  cases hInsert : tree.insert steps leaf with
  | mk after outcome =>
      cases outcome with
      | none =>
          left
          rw [eq_of_refused hInsert]
      | some trail =>
          right
          refine ⟨after, trail, rfl, ?_⟩
          rcases Prod.mk.inj hInsert with ⟨rfl, hTrail⟩
          have hAdds :=
            TreeNode.adds_insert hTree hOpen hTrail
          dsimp only
          rw [← hTrail]
          exact hAdds

end SegmentTree

end RequestRouter

------------------------------------------------------------
-- Numbers
------------------------------------------------------------

namespace RequestRouter

namespace TreeNode

/- Whether numbers get larger from a node to its children. -/
inductive IsRising : TreeNode → Prop where
  | mk {node}
      (hAbove : ∀ entry ∈ node.children, node.id < entry.2.id)
      (hBelow :
        ∀ entry ∈ node.children, IsRising entry.2) :
      IsRising node

namespace IsRising

variable {node : TreeNode}

/- A child has a larger number. -/
theorem lt
    (hNode : node.IsRising)
    {entry : Edge × TreeNode}
    (hEntry : entry ∈ node.children) :
    node.id < entry.2.id := by
  cases hNode with
  | mk hAbove hBelow => exact hAbove entry hEntry

/- Numbers get larger below a child as well. -/
theorem child
    (hNode : node.IsRising)
    {entry : Edge × TreeNode}
    (hEntry : entry ∈ node.children) :
    entry.2.IsRising := by
  cases hNode with
  | mk hAbove hBelow => exact hBelow entry hEntry

end IsRising

/- There are no numbers below a fresh node. -/
theorem isRising_fresh
    (id : Nat)
    (spans : Bool) :
    (fresh id spans).IsRising := by
  constructor <;> simp [fresh]

/- A child with a larger number keeps numbers rising. -/
theorem isRising_setChild
    {node child : TreeNode}
    (hNode : node.IsRising)
    (hLess : node.id < child.id)
    (hChild : child.IsRising)
    (edge : Edge) :
    (node.setChild edge child).IsRising := by
  constructor
  · intro entry hEntry
    rcases mem_children_setChild hEntry with rfl | hEntry
    · exact hLess
    · exact hNode.lt hEntry
  · intro entry hEntry
    rcases mem_children_setChild hEntry with rfl | hEntry
    · exact hChild
    · exact hNode.child hEntry

/- An insertion keeps the number of a node. -/
theorem id_insert
    (leaf : Nat)
    (steps : List Step)
    (node : TreeNode)
    (next : Nat) :
    (node.insert leaf steps next).node.id = node.id := by
  cases steps with
  | nil =>
      unfold insert insertLeaf
      repeat' split
      all_goals rfl
  | cons step rest =>
      unfold insert
      repeat' split
      all_goals rfl

/-
  An insertion keeps numbers rising, if all that are there
  are below the next free one.
-/
theorem isRising_insert
    {node : TreeNode}
    (hNode : node.IsRising)
    (leaf : Nat)
    (steps : List Step)
    {next : Nat}
    (hIds : ∀ id ∈ node.id :: node.ids, id < next) :
    (node.insert leaf steps next).node.IsRising := by
  induction steps generalizing node next with
  | nil =>
      unfold insert insertLeaf
      repeat' split
      all_goals
        exact .mk (fun _ => hNode.lt) (fun _ => hNode.child)
  | cons step rest ih =>
      unfold insert
      split
      case h_1 child hChild =>
          have hMember : (step.edge, child) ∈ node.children :=
            AssocList.mem_of_find?_eq_some hChild
          have hBelow :
              ∀ id ∈ child.id :: child.ids, id < next := by
            intro id hId
            apply hIds
            apply List.mem_cons_of_mem
            rw [ids_eq]
            exact (sublist_childIds hMember).subset hId
          apply isRising_setChild hNode
          · rw [id_insert]
            exact hNode.lt hMember
          · exact ih (hNode.child hMember) hBelow
      case h_2 =>
          split
          case isTrue => exact hNode
          case isFalse =>
              apply isRising_setChild hNode
              · rw [id_insert]
                exact hIds _ List.mem_cons_self
              · apply ih (isRising_fresh _ _)
                simp [fresh, ids, childIds]

end TreeNode

end RequestRouter

------------------------------------------------------------
-- Insertions in a Row
------------------------------------------------------------

namespace RequestRouter

namespace SegmentTree

/-
  Insert leaves in turn, with the trail of each. Those that
  are refused have none, and the others go on.
-/
def insertAll
    (tree : SegmentTree) :
    List (List Step × Nat) →
      SegmentTree × List (Option (List Nat))
  | [] => (tree, [])
  | (steps, leaf) :: rest =>
      let (after, trail) := tree.insert steps leaf
      let (last, trails) := insertAll after rest
      (last, trail :: trails)

/- The first insertion comes before the others. -/
theorem insertAll_cons
    {tree after : SegmentTree}
    {steps : List Step}
    {leaf : Nat}
    {trail : Option (List Nat)}
    (hInsert : tree.insert steps leaf = (after, trail))
    (rest : List (List Step × Nat)) :
    tree.insertAll ((steps, leaf) :: rest) =
      ((after.insertAll rest).1,
        trail :: (after.insertAll rest).2) := by
  rw [insertAll, hInsert]

/-
  Whether a tree is sound and grown from a root with number
  0: every number below the next free one is that of a node,
  and numbers get larger further below.
-/
structure IsGrown
    (tree : SegmentTree) : Prop where
  sound : tree.IsSound
  root : tree.root.id = 0
  numbered :
    (tree.root.id :: tree.root.ids).Perm
      (List.range tree.size)
  rising : tree.root.IsRising

/- The tree without paths is grown. -/
theorem isGrown_empty : empty.IsGrown where
  sound := isSound_empty
  root := rfl
  numbered := List.Perm.refl [0]
  rising := TreeNode.isRising_fresh 0 false

/- A range goes on from any number below its end. -/
theorem range_eq_append
    {size next : Nat}
    (hNext : size ≤ next) :
    List.range next =
      List.range size ++ List.range' size (next - size) := by
  have hAppend :=
    List.range'_append_1 (s := 0) (m := size)
      (n := next - size)
  simpa [List.range_eq_range', Nat.add_sub_of_le hNext]
    using hAppend.symm

/- An insertion that is not refused keeps a tree grown. -/
theorem isGrown_of_adds
    {tree after : SegmentTree}
    (hTree : tree.IsGrown)
    {steps : List Step}
    (hOpen : Step.OpenLast steps)
    {leaf : Nat}
    {trail : List Nat}
    (hInsert : tree.insert steps leaf = (after, some trail)) :
    after.IsGrown := by
  have hSound :=
    (isSound_insert hTree.sound hOpen hInsert).1
  rcases Prod.mk.inj hInsert with ⟨rfl, hTrail⟩
  have hAdds :=
    TreeNode.adds_insert hTree.sound.orderly hOpen hTrail
  refine ⟨hSound, hAdds.id.trans hTree.root, ?_, ?_⟩
  · dsimp only
    rw [range_eq_append hAdds.next_le, hAdds.id]
    apply (hAdds.ids.cons _).trans
    exact hTree.numbered.append_right _
  · apply TreeNode.isRising_insert hTree.rising
    intro id hId
    exact
      List.mem_range.mp (hTree.numbered.mem_iff.mp hId)

/-
  Insertions in a row keep a tree grown. It contains the
  leaves of those that were not refused beside its own.
-/
theorem isGrown_insertAll
    {tree last : SegmentTree}
    (hTree : tree.IsGrown)
    {calls : List (List Step × Nat)}
    (hOpen : ∀ call ∈ calls, Step.OpenLast call.1)
    {trails : List (Option (List Nat))}
    (hRun : tree.insertAll calls = (last, trails)) :
    last.IsGrown ∧
      ∀ edges found number,
        last.root.HasLeaf edges found number ↔
          tree.root.HasLeaf edges found number ∨
            ∃ call, (call, some found) ∈ calls.zip trails ∧
              edges = Step.edges call.1 ∧
                number = call.2 := by
  induction calls generalizing tree trails with
  | nil =>
      cases hRun
      simp [hTree]
  | cons call rest ih =>
      rcases call with ⟨steps, leaf⟩
      have hFirst : Step.OpenLast steps :=
        hOpen _ List.mem_cons_self
      have hLater :
          ∀ call ∈ rest, Step.OpenLast call.1 :=
        fun later hLater =>
          hOpen later (List.mem_cons_of_mem _ hLater)
      rcases insert_cases hTree.sound.orderly hFirst leaf with
        hRefused | ⟨after, trail, hInsert, hAdds⟩
      · rw [insertAll_cons hRefused] at hRun
        rcases Prod.mk.inj hRun with ⟨hLast, rfl⟩
        have hRest := ih hTree hLater (Prod.ext hLast rfl)
        simpa using hRest
      · rw [insertAll_cons hInsert] at hRun
        rcases Prod.mk.inj hRun with ⟨hLast, rfl⟩
        rcases
            ih (isGrown_of_adds hTree hFirst hInsert) hLater
              (Prod.ext hLast rfl) with
          ⟨hGrown, hLeaves⟩
        refine ⟨hGrown, ?_⟩
        intro edges found number
        rw [hLeaves, hAdds.hasLeaf_iff, or_assoc]
        apply or_congr_right
        constructor
        · rintro (⟨hEdges, rfl, hNumber⟩ |
            ⟨call, hCall, hSame⟩)
          · exact
              ⟨(steps, leaf), List.mem_cons_self, hEdges,
                hNumber⟩
          · exact ⟨call, List.mem_cons_of_mem _ hCall, hSame⟩
        · rintro ⟨call, hCall, hEdges, hNumber⟩
          rcases List.mem_cons.mp hCall with hSame | hCall
          · cases hSame
            exact Or.inl ⟨hEdges, rfl, hNumber⟩
          · exact Or.inr ⟨call, hCall, hEdges, hNumber⟩

/- Each insertion in a row has its trail or none. -/
theorem length_insertAll
    (tree : SegmentTree)
    (calls : List (List Step × Nat)) :
    (tree.insertAll calls).2.length = calls.length := by
  induction calls generalizing tree with
  | nil => rfl
  | cons call rest ih =>
      rw [insertAll_cons rfl, List.length_cons,
        List.length_cons, ih]

/- Where none is refused, each insertion leaves its leaf. -/
theorem exists_hasLeaf_insertAll
    {tree last : SegmentTree}
    (hTree : tree.IsGrown)
    {calls : List (List Step × Nat)}
    (hOpen : ∀ call ∈ calls, Step.OpenLast call.1)
    {trails : List (Option (List Nat))}
    (hRun : tree.insertAll calls = (last, trails))
    (hTaken : none ∉ trails) :
    ∀ call ∈ calls, ∃ found,
      last.root.HasLeaf (Step.edges call.1) found call.2 := by
  have hLeaves := (isGrown_insertAll hTree hOpen hRun).2
  have hLength : calls.length ≤ trails.length := by
    have hSame := length_insertAll tree calls
    rw [hRun] at hSame
    exact Nat.le_of_eq hSame.symm
  intro call hCall
  rw [← List.map_fst_zip hLength] at hCall
  rcases List.mem_map.mp hCall with
    ⟨⟨_, trail⟩, hPair, rfl⟩
  cases trail with
  | none => exact absurd (List.of_mem_zip hPair).2 hTaken
  | some found =>
      exact
        ⟨found, (hLeaves _ _ _).mpr
          (Or.inr ⟨_, hPair, rfl, rfl⟩)⟩

end SegmentTree

end RequestRouter
