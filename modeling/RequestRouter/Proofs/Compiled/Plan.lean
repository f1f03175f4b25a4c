import RequestRouter.Compiled.Plan
import RequestRouter.Proofs.SegmentTree.Leaves
import RequestRouter.Proofs.Sequence

/-
  What a plan contains.

  A plan that is not refused has a leaf for every path of
  its routes: the literal ones in a table beside the tree,
  the others in the tree, each under its position. A leaf is
  owned by the routes with a variant that has the same path
  or covers it.

  Key definition:
    * `Plan.Holds`

  Main statements:
    * `Leaf.exists_mem_ofRoutes`
    * `Plan.holds_of_ofLeaves`
    * `Step.covers_iff`
-/

------------------------------------------------------------
-- Covering Steps
------------------------------------------------------------

namespace RequestRouter

namespace Step

/-
  Steps cover others if they end in a wildcard and what
  stands in front of it starts the others.
-/
theorem covers_iff
    (wildcard leaf : List Step) :
    covers wildcard leaf = true ↔
      ∃ front last,
        edges wildcard = front ++ [last] ∧
          last.isOpenEnded = true ∧ front <+: edges leaf := by
  rcases List.eq_nil_or_concat wildcard with
    rfl | ⟨front, last, rfl⟩
  · simp [covers, edges]
  · simp only [covers, List.concat_eq_append,
      List.getLast?_concat, Option.any_some,
      List.dropLast_concat, Bool.and_eq_true,
      List.isPrefixOf_iff_prefix, edges, List.map_append,
      List.map_cons, List.map_nil]
    constructor
    · rintro ⟨hOpen, hFront⟩
      exact ⟨_, _, rfl, hOpen, hFront⟩
    · rintro ⟨start, edge, hSame, hOpen, hFront⟩
      rcases List.append_inj' hSame rfl with ⟨rfl, hLast⟩
      rw [List.singleton_inj.mp hLast]
      exact ⟨hOpen, hFront⟩

/- Equal edges or covering steps cover edges. -/
theorem edgeCovers_iff
    (wider leaf : List Step) :
    Edge.Covers (edges wider) (edges leaf) ↔
      edges wider = edges leaf ∨ covers wider leaf = true := by
  rw [covers_iff]
  rfl

end Step

end RequestRouter

------------------------------------------------------------
-- Leaves of Routes
------------------------------------------------------------

namespace RequestRouter

variable {H : Type}

namespace Leaf

/- The distinct variants are some of the variants. -/
theorem mem_of_mem_foldl
    {kept variants : List PlannedVariant}
    {variant : PlannedVariant}
    (hMember :
      variant ∈
        variants.foldl
          (fun kept variant =>
            if kept.any (·.path == variant.path) then kept
            else kept ++ [variant])
          kept) :
    variant ∈ kept ∨ variant ∈ variants := by
  induction variants generalizing kept with
  | nil => exact Or.inl hMember
  | cons first rest ih =>
      rw [List.foldl_cons] at hMember
      rcases ih hMember with hKept | hRest
      · split at hKept
        case isTrue => exact Or.inl hKept
        case isFalse =>
            rcases List.mem_append.mp hKept with hOld | hNew
            · exact Or.inl hOld
            · rw [List.mem_singleton.mp hNew]
              exact Or.inr (by simp)
      · exact Or.inr (List.mem_cons_of_mem _ hRest)

/- Every path of the variants stays among the distinct. -/
theorem exists_mem_foldl
    {kept variants : List PlannedVariant}
    {variant : PlannedVariant}
    (hMember : variant ∈ kept ∨ variant ∈ variants) :
    ∃ leaf ∈
        variants.foldl
          (fun kept variant =>
            if kept.any (·.path == variant.path) then kept
            else kept ++ [variant])
          kept,
      leaf.path = variant.path := by
  induction variants generalizing kept variant with
  | nil =>
      rcases hMember with hKept | hNone
      · exact ⟨variant, hKept, rfl⟩
      · cases hNone
  | cons first rest ih =>
      rw [List.foldl_cons]
      rcases hMember with hKept | hMember
      · refine ih (Or.inl ?_)
        split
        case isTrue => exact hKept
        case isFalse => exact List.mem_append_left _ hKept
      · rcases List.mem_cons.mp hMember with rfl | hRest
        · split
          case isTrue hOld =>
              rcases List.any_eq_true.mp hOld with
                ⟨other, hOther, hSame⟩
              rcases ih (Or.inl hOther) with
                ⟨leaf, hLeaf, hPath⟩
              exact
                ⟨leaf, hLeaf,
                  hPath.trans (beq_iff_eq.mp hSame)⟩
          case isFalse =>
              exact ih (Or.inl (by simp))
        · exact ih (Or.inr hRest)

/- A leaf is a variant of some route, with its owners. -/
theorem exists_variant_of_mem_ofRoutes
    {routes : List (PlannedRoute H)}
    {leaf : Leaf H}
    (hLeaf : leaf ∈ ofRoutes routes) :
    ∃ route ∈ routes, ∃ variant ∈ route.variants,
      leaf =
        ⟨variant.path, variant.steps,
          routes.filterMap (owner? variant)⟩ := by
  rcases List.mem_map.mp hLeaf with
    ⟨variant, hVariant, rfl⟩
  rcases mem_of_mem_foldl hVariant with hNone | hSome
  · cases hNone
  · rcases List.mem_flatMap.mp hSome with
      ⟨route, hRoute, hVariant⟩
    exact ⟨route, hRoute, variant, hVariant, rfl⟩

/- Every path of the routes has a leaf. -/
theorem exists_mem_ofRoutes
    {routes : List (PlannedRoute H)}
    {route : PlannedRoute H}
    (hRoute : route ∈ routes)
    {variant : PlannedVariant}
    (hVariant : variant ∈ route.variants) :
    ∃ leaf ∈ ofRoutes routes, leaf.path = variant.path := by
  have hMember :
      variant ∈ [] ∨ variant ∈ routes.flatMap (·.variants) :=
    Or.inr (List.mem_flatMap.mpr ⟨route, hRoute, hVariant⟩)
  rcases exists_mem_foldl hMember with
    ⟨leaf, hLeaf, hPath⟩
  exact ⟨_, List.mem_map_of_mem hLeaf, hPath⟩

end Leaf

end RequestRouter

------------------------------------------------------------
-- Planned Leaves
------------------------------------------------------------

namespace RequestRouter

variable {H : Type}

namespace Plan

/- Inserting leaves adds each under its position. -/
theorem insertLeaves_spec
    {tree after : SegmentTree}
    {number : Nat}
    {leaves : List (Leaf H)}
    {dynamics : List (Leaf H × List Nat)}
    (hInsert :
      insertLeaves tree number leaves = .ok (after, dynamics))
    (hTree : tree.IsSound)
    (hOpen : ∀ leaf ∈ leaves, Step.OpenLast leaf.steps) :
    after.IsSound ∧
      dynamics.map Prod.fst = leaves ∧
      (tree.root.IsUsed ∨ leaves ≠ [] → after.root.IsUsed) ∧
      ∀ edges trail found,
        after.root.HasLeaf edges trail found ↔
          tree.root.HasLeaf edges trail found ∨
            ∃ index leaf,
              dynamics[index]? = some (leaf, trail) ∧
                edges = Step.edges leaf.steps ∧
                found = number + index := by
  induction leaves generalizing tree number dynamics with
  | nil =>
      cases hInsert
      simp [hTree]
  | cons leaf rest ih =>
      rw [insertLeaves] at hInsert
      split at hInsert
      case h_1 => cases hInsert
      case h_2 middle trail hFirst =>
          rcases (Sequence.bind_eq_ok_iff _ _ _).mp hInsert with
            ⟨⟨last, others⟩, hRest, hResult⟩
          cases hResult
          rcases
              SegmentTree.isSound_insert hTree
                (hOpen leaf (by simp)) hFirst with
            ⟨hMiddle, hUsed, hAdds⟩
          rcases
              ih hRest hMiddle fun later hLater =>
                hOpen later (List.mem_cons_of_mem _ hLater) with
            ⟨hSound, hFsts, hAfter, hHas⟩
          refine ⟨hSound, ?_, fun _ => hAfter (Or.inl hUsed),
            ?_⟩
          · rw [List.map_cons, hFsts]
          · intro edges found position
            rw [hHas, hAdds]
            constructor
            · rintro ((hOld | ⟨rfl, rfl, rfl⟩) |
                ⟨index, later, hLater, rfl, rfl⟩)
              · exact Or.inl hOld
              · exact Or.inr ⟨0, leaf, rfl, rfl, rfl⟩
              · exact
                  Or.inr
                    ⟨index + 1, later, hLater, rfl, by omega⟩
            · rintro (hOld | ⟨index, later, hLater, rfl, rfl⟩)
              · exact Or.inl (Or.inl hOld)
              · cases index with
                | zero =>
                    cases hLater
                    exact Or.inl (Or.inr ⟨rfl, rfl, rfl⟩)
                | succ index =>
                    exact
                      Or.inr
                        ⟨index, later, hLater, rfl, by omega⟩

/-
  Whether a plan holds leaves: those with literal paths in a
  table that its tree admits, and the others in the tree,
  each under its position.
-/
structure Holds
    (plan : Plan H)
    (leaves : List (Leaf H)) : Prop where
  statics : plan.statics = leaves.filter (·.isStatic)
  dynamics :
    plan.dynamics.map Prod.fst =
      leaves.filter (!·.isStatic)
  sound : plan.tree.IsSound
  used : plan.dynamics ≠ [] → plan.tree.root.IsUsed
  hasLeaf_iff :
    ∀ edges trail number,
      plan.tree.root.HasLeaf edges trail number ↔
        ∃ leaf,
          plan.dynamics[number]? = some (leaf, trail) ∧
            edges = Step.edges leaf.steps
  admits :
    ∀ leaf ∈ plan.statics,
      plan.tree.admits leaf.steps = true

/- A plan that is made of leaves holds them. -/
theorem holds_of_ofLeaves
    {leaves : List (Leaf H)}
    {plan : Plan H}
    (hPlan : ofLeaves leaves = .ok plan)
    (hOpen : ∀ leaf ∈ leaves, Step.OpenLast leaf.steps) :
    plan.Holds leaves := by
  rcases (Sequence.bind_eq_ok_iff _ _ _).mp hPlan with
    ⟨⟨tree, dynamics⟩, hInsert, hStatics⟩
  dsimp only at hStatics
  split at hStatics
  case h_1 => cases hStatics
  case h_2 hAdmits =>
      cases hStatics
      rcases
          insertLeaves_spec hInsert SegmentTree.isSound_empty
            fun leaf hLeaf =>
              hOpen leaf (List.mem_filter.mp hLeaf).1 with
        ⟨hSound, hFsts, hUsed, hHas⟩
      refine ⟨rfl, hFsts, hSound, ?_, ?_, ?_⟩
      · intro hSome
        refine hUsed (Or.inr ?_)
        rw [← hFsts]
        simpa using hSome
      · intro edges trail number
        rw [hHas]
        constructor
        · rintro (hNone | ⟨index, leaf, hLeaf, rfl, rfl⟩)
          · exact
              (TreeNode.not_hasLeaf_fresh _ _ _ _ _
                hNone).elim
          · rw [Nat.zero_add]
            exact ⟨leaf, hLeaf, rfl⟩
        · rintro ⟨leaf, hLeaf, rfl⟩
          exact Or.inr ⟨number, leaf, hLeaf, rfl, by omega⟩
      · intro leaf hLeaf
        have hFound := List.find?_eq_none.mp hAdmits leaf hLeaf
        simpa using hFound

/- The dynamic leaves of a plan are leaves. -/
theorem Holds.mem_of_dynamics
    {plan : Plan H}
    {leaves : List (Leaf H)}
    (hHolds : plan.Holds leaves)
    {leaf : Leaf H}
    {trail : List Nat}
    {number : Nat}
    (hLeaf : plan.dynamics[number]? = some (leaf, trail)) :
    leaf ∈ leaves ∧ leaf.isStatic = false := by
  have hMember : leaf ∈ plan.dynamics.map Prod.fst :=
    List.mem_map_of_mem (f := Prod.fst)
      (List.mem_of_getElem? hLeaf)
  rw [hHolds.dynamics] at hMember
  simpa using List.mem_filter.mp hMember

/- A leaf that is not literal lies in the tree. -/
theorem Holds.exists_hasLeaf
    {plan : Plan H}
    {leaves : List (Leaf H)}
    (hHolds : plan.Holds leaves)
    {leaf : Leaf H}
    (hLeaf : leaf ∈ leaves)
    (hDynamic : leaf.isStatic = false) :
    ∃ trail number,
      plan.dynamics[number]? = some (leaf, trail) ∧
        plan.tree.root.HasLeaf (Step.edges leaf.steps) trail
          number := by
  have hMember : leaf ∈ plan.dynamics.map Prod.fst := by
    rw [hHolds.dynamics]
    exact List.mem_filter.mpr ⟨hLeaf, by simp [hDynamic]⟩
  rcases List.mem_map.mp hMember with
    ⟨⟨_, trail⟩, hEntry, rfl⟩
  rcases List.mem_iff_getElem?.mp hEntry with
    ⟨number, hNumber⟩
  exact
    ⟨trail, number, hNumber,
      (hHolds.hasLeaf_iff _ _ _).mpr ⟨_, hNumber, rfl⟩⟩

end Plan

end RequestRouter
