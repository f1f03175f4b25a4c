import RequestRouter.Proofs.SegmentTree.Selection

/-
  The leaves of a tree, told apart by their edges.

  In an orderly tree the edges to a leaf determine it, and
  the numbers on its trail are among those of the tree. A
  literal path that the tree admits meets only leaves whose
  edges cover it.

  Key definition:
    * `SegmentTree.IsSound`

  Main statements:
    * `TreeNode.hasLeaf_unique`
    * `TreeNode.HasLeaf.nodup_trail`
    * `TreeNode.covers_of_admits`
    * `SegmentTree.isSound_insert`
-/

------------------------------------------------------------
-- Trails
------------------------------------------------------------

namespace RequestRouter

namespace TreeNode

/- A child has its number and those below it in a row. -/
theorem sublist_childIds
    {entry : Edge × TreeNode}
    {children : List (Edge × TreeNode)}
    (hEntry : entry ∈ children) :
    (entry.2.id :: entry.2.ids).Sublist
      (childIds children) := by
  induction children with
  | nil => cases hEntry
  | cons first rest ih =>
      rcases first with ⟨edge, child⟩
      rcases List.mem_cons.mp hEntry with rfl | hRest
      · rw [childIds]
        exact (List.sublist_append_left _ _).cons_cons _
      · rw [childIds]
        exact
          ((ih hRest).trans
            (List.sublist_append_right _ _)).cons _

namespace HasLeaf

/- A trail has a number for every edge. -/
theorem length_trail
    {node : TreeNode}
    {edges : List Edge}
    {trail : List Nat}
    {leaf : Nat}
    (hHas : node.HasLeaf edges trail leaf) :
    trail.length = edges.length := by
  induction hHas with
  | here => rfl
  | child _ _ ih => simp [ih]

/- A trail goes down the numbers of the tree. -/
theorem sublist_ids
    {node : TreeNode}
    {edges : List Edge}
    {trail : List Nat}
    {leaf : Nat}
    (hHas : node.HasLeaf edges trail leaf) :
    trail.Sublist node.ids := by
  induction hHas with
  | here => exact List.nil_sublist _
  | child hChild _ ih =>
      rw [ids_eq]
      exact (ih.cons_cons _).trans (sublist_childIds hChild)

/- If nodes have different numbers, a trail repeats none. -/
theorem nodup_trail
    {node : TreeNode}
    {edges : List Edge}
    {trail : List Nat}
    {leaf : Nat}
    (hHas : node.HasLeaf edges trail leaf)
    (hIds : node.ids.Nodup) :
    trail.Nodup :=
  hIds.sublist hHas.sublist_ids

end HasLeaf

/- In an orderly tree, edges lead to one leaf at most. -/
theorem hasLeaf_unique
    {node : TreeNode}
    (hNode : node.IsOrderly)
    {edges : List Edge}
    {trail others : List Nat}
    {leaf other : Nat}
    (hFirst : node.HasLeaf edges trail leaf)
    (hSecond : node.HasLeaf edges others other) :
    trail = others ∧ leaf = other := by
  induction edges generalizing node trail others with
  | nil =>
      rcases (hasLeaf_nil_iff _ _ _).mp hFirst with
        ⟨rfl, hLeaf⟩
      rcases (hasLeaf_nil_iff _ _ _).mp hSecond with
        ⟨rfl, hOther⟩
      rw [hLeaf] at hOther
      exact ⟨rfl, Option.some.inj hOther⟩
  | cons edge rest ih =>
      rcases (hasLeaf_cons_iff _ _ _ _ _).mp hFirst with
        ⟨child, below, hChild, rfl, hLeaf⟩
      rcases (hasLeaf_cons_iff _ _ _ _ _).mp hSecond with
        ⟨child', below', hChild', rfl, hOther⟩
      have hSame := hNode.tidy.eq_of_mem hChild hChild'
      subst hSame
      rcases ih (hNode.child hChild) hLeaf hOther with
        ⟨rfl, rfl⟩
      exact ⟨rfl, rfl⟩

end TreeNode

end RequestRouter

------------------------------------------------------------
-- Literal Paths beside a Tree
------------------------------------------------------------

namespace RequestRouter

namespace TreeNode

/- A capture stands where a literal walk must not end. -/
theorem not_admits_of_capture
    {node child : TreeNode}
    (hNode : node.IsOrderly)
    {edge : Edge}
    (hChild : (edge, child) ∈ node.children)
    (hCapture : edge.isCapture = true)
    {step : Step}
    (hStep : step.edge.isLiteral = true)
    (rest : List Step) :
    node.admits (step :: rest) = false := by
  have hMember : edge ∈ node.edges :=
    List.mem_map_of_mem (f := Prod.fst) hChild
  cases hFind : node.child? step.edge with
  | some other =>
      have hSibling : step.edge ∈ node.edges :=
        List.mem_map_of_mem (f := Prod.fst)
          (AssocList.mem_of_find?_eq_some hFind)
      simp [hNode.tidy.apart hMember hSibling hCapture]
        at hStep
  | none =>
      simp only [admits, hFind, hasCapture,
        Bool.not_eq_eq_eq_not, Bool.not_false,
        List.any_eq_true]
      exact ⟨_, hChild, hCapture⟩

/-
  A leaf that fits the parts of an admitted literal path has
  edges that cover those of the path.
-/
theorem covers_of_admits
    {node : TreeNode}
    (hNode : node.IsOrderly)
    {edges : List Edge}
    {trail : List Nat}
    {leaf : Nat}
    (hHas : node.HasLeaf edges trail leaf)
    {parts : List Text}
    (hFits : Edge.Fits edges parts)
    {steps : List Step}
    (hSteps : Step.edges steps = parts.map Edge.literal)
    (hAdmits : node.admits steps = true) :
    Edge.Covers edges (Step.edges steps) := by
  induction edges generalizing node trail parts steps with
  | nil =>
      have hParts : parts = [] := hFits
      rw [hSteps, hParts]
      exact Or.inl rfl
  | cons edge rest ih =>
      rcases (hasLeaf_cons_iff _ _ _ _ _).mp hHas with
        ⟨child, below, hChild, rfl, hBelow⟩
      cases edge with
      | tail | any =>
          rcases hNode.own?_of_open rfl hHas with ⟨rfl, -⟩
          exact Edge.covers_open rfl _
      | literal text =>
          cases parts with
          | nil => exact hFits.elim
          | cons part parts =>
              rcases hFits with ⟨rfl, hFits⟩
              cases steps with
              | nil => simp [Step.edges] at hSteps
              | cons step steps =>
                  simp only [Step.edges, List.map_cons,
                    List.cons.injEq] at hSteps
                  have hFind :
                      node.child? step.edge = some child := by
                    rw [hSteps.1]
                    exact
                      AssocList.find?_eq_some_of_mem
                        hNode.tidy.keyed hChild
                  have hBelowAdmits :
                      child.admits steps = true := by
                    simpa [admits, hFind] using hAdmits
                  have hCovers :=
                    ih (hNode.child hChild) hBelow hFits
                      hSteps.2 hBelowAdmits
                  simp only [Step.edges, List.map_cons,
                    hSteps.1]
                  exact Edge.covers_cons hCovers _
      | capture source groups =>
          cases parts with
          | nil => exact hFits.elim
          | cons part parts =>
              cases steps with
              | nil => simp [Step.edges] at hSteps
              | cons step steps =>
                  simp only [Step.edges, List.map_cons,
                    List.cons.injEq] at hSteps
                  have hLiteral : step.edge.isLiteral = true := by
                    simp [hSteps.1, Edge.isLiteral]
                  have hRefused :=
                    not_admits_of_capture hNode hChild rfl
                      hLiteral steps
                  simp [hRefused] at hAdmits

end TreeNode

end RequestRouter

------------------------------------------------------------
-- Sound Trees
------------------------------------------------------------

namespace RequestRouter

namespace SegmentTree

/-
  Whether a tree is orderly, and numbers its nodes below its
  next free number, each differently.
-/
structure IsSound
    (tree : SegmentTree) : Prop where
  orderly : tree.root.IsOrderly
  nodup : tree.root.ids.Nodup
  lt_size : ∀ id ∈ tree.root.ids, id < tree.size

/- The tree without paths is sound. -/
theorem isSound_empty : empty.IsSound where
  orderly := TreeNode.isOrderly_fresh 0 false
  nodup := by
    simp [empty, TreeNode.fresh, TreeNode.ids,
      TreeNode.childIds]
  lt_size := by
    simp [empty, TreeNode.fresh, TreeNode.ids,
      TreeNode.childIds]

/- An insertion that is not refused adds a leaf soundly. -/
theorem isSound_insert
    {tree : SegmentTree}
    (hTree : tree.IsSound)
    {steps : List Step}
    (hOpen : Step.OpenLast steps)
    {leaf : Nat}
    {after : SegmentTree}
    {trail : List Nat}
    (hInsert : tree.insert steps leaf = (after, some trail)) :
    after.IsSound ∧ after.root.IsUsed ∧
      ∀ edges found number,
        after.root.HasLeaf edges found number ↔
          tree.root.HasLeaf edges found number ∨
            edges = Step.edges steps ∧ found = trail ∧
              number = leaf := by
  rcases Prod.mk.inj hInsert with ⟨rfl, hTrail⟩
  have hAdds :=
    TreeNode.adds_insert hTree.orderly hOpen hTrail
  refine ⟨⟨hAdds.orderly, ?_, ?_⟩, hAdds.used,
    hAdds.hasLeaf_iff⟩
  · refine hAdds.ids.nodup_iff.mpr ?_
    refine List.nodup_append.mpr
      ⟨hTree.nodup, List.nodup_range', ?_⟩
    rintro id hOld _ hNew rfl
    have hBelow := hTree.lt_size id hOld
    have hAbove := (List.mem_range'_1.mp hNew).1
    omega
  · intro id hMember
    have hNext := hAdds.next_le
    rcases List.mem_append.mp
        (hAdds.ids.mem_iff.mp hMember) with hOld | hNew
    · have hBelow := hTree.lt_size id hOld
      change id < (tree.root.insert leaf steps tree.size).next
      omega
    · have hBelow := (List.mem_range'_1.mp hNew).2
      change id < (tree.root.insert leaf steps tree.size).next
      omega

end SegmentTree

end RequestRouter
