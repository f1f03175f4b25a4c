import RequestRouter.Proofs.Compiled.Plan
import RequestRouter.Proofs.SegmentTree.Coexistence
import RequestRouter.Proofs.SegmentTree.Likeness

/-
  Plans of the same leaves in different orders.

  Leaves can be planned if the edges of those that are not
  literal go together in pairs, and the tree admits the
  others. Neither depends on the order of the leaves, and
  the trees of two orders have leaves at the ends of the
  same edges.

  Main statements:
    * `Plan.exists_insertLeaves_iff`
    * `Plan.ofLeaves_eq_ok_iff`
    * `Plan.exists_ofLeaves_of_perm`
-/

------------------------------------------------------------
-- Inserting Leaves in Pairs
------------------------------------------------------------

namespace RequestRouter

variable {H : Type}

namespace SegmentTree

/- Behind an insertion, edges must also go with the new ones. -/
theorem mayTake_insert_iff
    {tree : SegmentTree}
    (hTree : tree.IsSound)
    {steps : List Step}
    (hOpen : Step.OpenLast steps)
    {leaf : Nat}
    {after : SegmentTree}
    {trail : List Nat}
    (hInsert : tree.insert steps leaf = (after, some trail))
    (edges : List Edge) :
    after.root.spans = tree.root.spans ∧
      (after.root.MayTake edges ↔
        tree.root.MayTake edges ∧
          Edge.Coexist tree.root.spans (Step.edges steps)
            edges) := by
  rcases Prod.mk.inj hInsert with ⟨rfl, hTrail⟩
  have hAdds :=
    TreeNode.adds_insert hTree.orderly hOpen hTrail
  have hSpans := hAdds.spans
  refine ⟨hSpans, ?_⟩
  unfold TreeNode.MayTake
  dsimp only
  simp only [hSpans, hAdds.hasLeaf_iff]
  constructor
  · intro hTake
    constructor
    · intro others found number hHas
      exact hTake others found number (Or.inl hHas)
    · exact hTake _ _ _ (Or.inr ⟨rfl, rfl, rfl⟩)
  · rintro ⟨hTake, hNew⟩ others found number
      (hHas | ⟨rfl, -, -⟩)
    · exact hTake others found number hHas
    · exact hNew

end SegmentTree

namespace Plan

/-
  Leaves are all inserted if the edges of each go together
  with those in the tree, and with those of every other.
-/
theorem exists_insertLeaves_iff
    {tree : SegmentTree}
    (hTree : tree.IsSound)
    {number : Nat}
    (hBelow :
      ∀ edges trail found,
        tree.root.HasLeaf edges trail found →
          found < number)
    {leaves : List (Leaf H)}
    (hOpen : ∀ leaf ∈ leaves, Step.OpenLast leaf.steps) :
    (∃ planned, insertLeaves tree number leaves = .ok planned) ↔
      (∀ leaf ∈ leaves,
          tree.root.MayTake (Step.edges leaf.steps)) ∧
        leaves.Pairwise fun first second =>
          Edge.Coexist tree.root.spans
            (Step.edges first.steps)
            (Step.edges second.steps) := by
  induction leaves generalizing tree number with
  | nil => simp [insertLeaves]
  | cons leaf rest ih =>
      have hOwn := hOpen leaf (by simp)
      have hLacks : tree.root.Lacks number := by
        intro edges trail found hHas
        exact Nat.ne_of_lt (hBelow _ _ _ hHas)
      have hTake :=
        TreeNode.isSome_trail_insert_iff hTree.orderly hLacks
          leaf.steps tree.size
      rw [insertLeaves]
      cases hInsert : tree.insert leaf.steps number with
      | mk after trail =>
          have hTrail :
              (tree.root.insert number leaf.steps
                tree.size).trail = trail :=
            congrArg Prod.snd hInsert
          rw [hTrail] at hTake
          cases trail with
          | none =>
              have hRefused :
                  ¬ tree.root.MayTake
                    (Step.edges leaf.steps) := by
                simpa using hTake
              constructor
              · rintro ⟨planned, hPlanned⟩
                cases hPlanned
              · intro hBoth
                exact absurd (hBoth.1 leaf (by simp)) hRefused
          | some trail =>
              have hMay :
                  tree.root.MayTake
                    (Step.edges leaf.steps) := by
                simpa using hTake
              rcases
                  SegmentTree.isSound_insert hTree hOwn
                    hInsert with
                ⟨hAfter, -, hHas⟩
              have hNext :
                  ∀ edges trail found,
                    after.root.HasLeaf edges trail found →
                      found < number + 1 := by
                intro edges found other hFound
                rcases (hHas _ _ _).mp hFound with
                  hOld | ⟨-, -, rfl⟩
                · exact Nat.lt_succ_of_lt (hBelow _ _ _ hOld)
                · exact Nat.lt_succ_self _
              have hRest :=
                ih hAfter hNext fun later hLater =>
                  hOpen later (List.mem_cons_of_mem _ hLater)
              have hBehind :=
                fun edges =>
                  SegmentTree.mayTake_insert_iff hTree hOwn
                    hInsert edges
              have hSpans := (hBehind []).1
              rw [hSpans] at hRest
              simp only [(hBehind _).2] at hRest
              dsimp only
              rw [Sequence.exists_bind_eq_ok_iff
                fun value => ⟨_, rfl⟩, hRest]
              rw [List.pairwise_cons, List.forall_mem_cons]
              constructor
              · rintro ⟨hBoth, hPairs⟩
                exact
                  ⟨⟨hMay, fun later hLater =>
                      (hBoth later hLater).1⟩,
                    fun later hLater =>
                      (hBoth later hLater).2, hPairs⟩
              · rintro ⟨⟨-, hOld⟩, hNew, hPairs⟩
                exact
                  ⟨fun later hLater =>
                    ⟨hOld later hLater, hNew later hLater⟩,
                    hPairs⟩

/- In an empty tree, leaves must go together in pairs. -/
theorem exists_insertLeaves_empty_iff
    {leaves : List (Leaf H)}
    (hOpen : ∀ leaf ∈ leaves, Step.OpenLast leaf.steps) :
    (∃ planned, insertLeaves .empty 0 leaves = .ok planned) ↔
      (leaves.map (·.steps)).Pairwise fun first second =>
        Edge.Coexist false (Step.edges first)
          (Step.edges second) := by
  have hNone :
      ∀ edges trail found,
        ¬ SegmentTree.empty.root.HasLeaf edges trail found :=
    TreeNode.not_hasLeaf_fresh 0 false
  rw [exists_insertLeaves_iff SegmentTree.isSound_empty
      (fun _ _ _ hHas => (hNone _ _ _ hHas).elim) hOpen,
    List.pairwise_map]
  refine and_iff_right ?_
  intro leaf hLeaf edges trail found hHas
  exact (hNone _ _ _ hHas).elim

end Plan

end RequestRouter

------------------------------------------------------------
-- Plans of Reordered Leaves
------------------------------------------------------------

namespace RequestRouter

variable {H : Type}

namespace Plan

/-
  Leaves are planned if the dynamic ones are inserted, and
  the tree admits the others.
-/
theorem ofLeaves_eq_ok_iff
    (leaves : List (Leaf H))
    (plan : Plan H) :
    ofLeaves leaves = .ok plan ↔
      plan.statics = leaves.filter (·.isStatic) ∧
        insertLeaves .empty 0 (leaves.filter (!·.isStatic)) =
            .ok (plan.tree, plan.dynamics) ∧
          ∀ leaf ∈ plan.statics,
            plan.tree.admits leaf.steps = true := by
  rcases plan with ⟨statics, dynamics, tree⟩
  unfold ofLeaves
  rw [Sequence.bind_eq_ok_iff]
  constructor
  · rintro ⟨⟨after, others⟩, hInsert, hPlan⟩
    cases hFind :
        (leaves.filter (·.isStatic)).find?
          (!after.admits ·.steps) with
    | some leaf => simp [hFind] at hPlan
    | none =>
        simp only [hFind, Except.ok.injEq, mk.injEq] at hPlan
        rcases hPlan with ⟨rfl, rfl, rfl⟩
        refine ⟨rfl, hInsert, ?_⟩
        intro leaf hLeaf
        simpa using List.find?_eq_none.mp hFind leaf hLeaf
  · rintro ⟨rfl, hInsert, hAdmits⟩
    refine ⟨(tree, dynamics), hInsert, ?_⟩
    have hFind :
        (leaves.filter (·.isStatic)).find?
          (!tree.admits ·.steps) = none := by
      apply List.find?_eq_none.mpr
      intro leaf hLeaf
      simp [hAdmits leaf hLeaf]
    simp [hFind]

/- The steps of the leaves that are not literal. -/
theorem map_steps_dynamic
    (leaves : List (Leaf H)) :
    (leaves.filter (!·.isStatic)).map (·.steps) =
      (leaves.map (·.steps)).filter
        (!Step.allLiteral ·) := by
  rw [List.filter_map]
  rfl

/-
  A tree that leaves are inserted into is orderly, and has
  leaves at the ends of their edges.
-/
theorem exists_hasLeaf_iff_of_insertLeaves
    {leaves : List (Leaf H)}
    (hOpen : ∀ leaf ∈ leaves, Step.OpenLast leaf.steps)
    {tree : SegmentTree}
    {dynamics : List (Leaf H × List Nat)}
    (hInsert :
      insertLeaves .empty 0 leaves = .ok (tree, dynamics)) :
    tree.root.IsOrderly ∧
      ∀ edges,
        (∃ trail number,
            tree.root.HasLeaf edges trail number) ↔
          ∃ steps ∈ leaves.map (·.steps),
            edges = Step.edges steps := by
  rcases
      insertLeaves_spec hInsert SegmentTree.isSound_empty
        hOpen with
    ⟨hSound, hFsts, -, hHas⟩
  refine ⟨hSound.orderly, ?_⟩
  intro edges
  simp only [hHas]
  constructor
  · rintro ⟨trail, number, hNone | ⟨index, leaf, hLeaf, rfl, -⟩⟩
    · exact (TreeNode.not_hasLeaf_fresh _ _ _ _ _ hNone).elim
    · refine ⟨leaf.steps, List.mem_map_of_mem ?_, rfl⟩
      rw [← hFsts]
      exact
        List.mem_map_of_mem (f := Prod.fst)
          (List.mem_of_getElem? hLeaf)
  · rintro ⟨_, hSteps, rfl⟩
    rcases List.mem_map.mp hSteps with ⟨leaf, hLeaf, rfl⟩
    rw [← hFsts] at hLeaf
    rcases List.mem_map.mp hLeaf with
      ⟨⟨_, trail⟩, hEntry, rfl⟩
    rcases List.mem_iff_getElem?.mp hEntry with
      ⟨index, hIndex⟩
    exact
      ⟨trail, 0 + index, Or.inr ⟨index, _, hIndex, rfl, rfl⟩⟩

/-
  The trees of leaves with the same steps, in any order, are
  alike.
-/
theorem isLike_of_insertLeaves
    {leaves others : List (Leaf H)}
    (hSteps :
      (leaves.map (·.steps)).Perm (others.map (·.steps)))
    (hOpen : ∀ leaf ∈ leaves, Step.OpenLast leaf.steps)
    (hOthers : ∀ leaf ∈ others, Step.OpenLast leaf.steps)
    {tree other : SegmentTree}
    {dynamics entries : List (Leaf H × List Nat)}
    (hTree :
      insertLeaves .empty 0 leaves = .ok (tree, dynamics))
    (hOther :
      insertLeaves .empty 0 others = .ok (other, entries)) :
    tree.root.IsOrderly ∧ other.root.IsOrderly ∧
      tree.root.IsLike other.root := by
  rcases exists_hasLeaf_iff_of_insertLeaves hOpen hTree with
    ⟨hOrderly, hFirst⟩
  rcases
      exists_hasLeaf_iff_of_insertLeaves hOthers hOther with
    ⟨hOrderly', hSecond⟩
  refine ⟨hOrderly, hOrderly', ?_⟩
  intro edges
  rw [hFirst, hSecond]
  simp only [hSteps.mem_iff]

/-
  If leaves can be planned in one order, they can in every
  other, with a tree that is like the first.
-/
theorem exists_ofLeaves_of_perm
    {leaves others : List (Leaf H)}
    (hSteps :
      (leaves.map (·.steps)).Perm (others.map (·.steps)))
    (hOpen : ∀ leaf ∈ leaves, Step.OpenLast leaf.steps)
    {plan : Plan H}
    (hPlan : ofLeaves leaves = .ok plan) :
    ∃ other, ofLeaves others = .ok other ∧
      plan.tree.root.IsOrderly ∧
        other.tree.root.IsOrderly ∧
          plan.tree.root.IsLike other.tree.root := by
  rcases (ofLeaves_eq_ok_iff _ _).mp hPlan with
    ⟨hStatics, hInsert, hAdmits⟩
  have hOthers :
      ∀ leaf ∈ others, Step.OpenLast leaf.steps := by
    intro leaf hLeaf
    have hMember :=
      hSteps.mem_iff.mpr (List.mem_map_of_mem hLeaf)
    rcases List.mem_map.mp hMember with
      ⟨twin, hTwin, hSame⟩
    rw [← hSame]
    exact hOpen twin hTwin
  have hDynamic :
      ((leaves.filter (!·.isStatic)).map (·.steps)).Perm
        ((others.filter (!·.isStatic)).map (·.steps)) := by
    rw [map_steps_dynamic, map_steps_dynamic]
    exact hSteps.filter _
  have hOpenDynamic :
      ∀ leaf ∈ leaves.filter (!·.isStatic),
        Step.OpenLast leaf.steps :=
    fun leaf hLeaf => hOpen leaf (List.mem_filter.mp hLeaf).1
  have hOthersDynamic :
      ∀ leaf ∈ others.filter (!·.isStatic),
        Step.OpenLast leaf.steps :=
    fun leaf hLeaf =>
      hOthers leaf (List.mem_filter.mp hLeaf).1
  have hPairs :=
    (exists_insertLeaves_empty_iff hOpenDynamic).mp
      ⟨_, hInsert⟩
  rw [hDynamic.pairwise_iff fun hBoth => hBoth.symm] at hPairs
  rcases
      (exists_insertLeaves_empty_iff hOthersDynamic).mpr
        hPairs with
    ⟨⟨tree, entries⟩, hTwin⟩
  rcases
      isLike_of_insertLeaves hDynamic hOpenDynamic
        hOthersDynamic hInsert hTwin with
    ⟨hOrderly, hOrderly', hLike⟩
  refine
    ⟨⟨others.filter (·.isStatic), entries, tree⟩,
      (ofLeaves_eq_ok_iff _ _).mpr ⟨rfl, hTwin, ?_⟩,
      hOrderly, hOrderly', hLike⟩
  intro leaf hLeaf
  rcases List.mem_filter.mp hLeaf with ⟨hMember, hStatic⟩
  rcases
      List.mem_map.mp
        (hSteps.mem_iff.mpr (List.mem_map_of_mem hMember)) with
    ⟨twin, hOwn, hSame⟩
  have hAdmitted : plan.tree.admits twin.steps = true := by
    apply hAdmits
    rw [hStatics]
    refine List.mem_filter.mpr ⟨hOwn, ?_⟩
    unfold Leaf.isStatic at hStatic ⊢
    rwa [hSame]
  rw [← hSame]
  exact
    (TreeNode.admits_eq_of_isLike hLike hOrderly hOrderly'
      twin.steps).symm.trans hAdmitted

end Plan

end RequestRouter
