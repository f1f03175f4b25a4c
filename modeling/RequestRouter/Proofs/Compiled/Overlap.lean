import RequestRouter.Proofs.Compiled.Finding
import RequestRouter.Proofs.Regex.Ways
import RequestRouter.Proofs.SegmentTree.Precedence
import RequestRouter.Proofs.SegmentTree.Runs

/-
  Routes of one tree that overlap.

  Where two edges that leave a node take the same part they
  are the same, unless one is open-ended. So two leaves that
  fit the same parts go the same way until one of them ends
  in a wildcard, which covers the other. A literal path that
  is kept beside the tree is covered in the same way.

  Key definitions include:
    * `PlannedVariant.AreAccepted`

  Main statements:
    * `TreeNode.covers_or_covers`
    * `PlannedVariant.covers_of_fits`
-/

------------------------------------------------------------
-- Leaves That Overlap
------------------------------------------------------------

namespace RequestRouter

namespace Edge

/- Behind an edge of one part, the rest fits the rest. -/
theorem Fits.exists_rest
    {edge : Edge}
    {edges : List Edge}
    {parts : List Text}
    (hFits : Fits (edge :: edges) parts)
    (hOpen : edge.isOpenEnded = false) :
    ∃ part rest, parts = part :: rest ∧ Fits edges rest := by
  cases edge with
  | tail | any => cases hOpen
  | literal | capture =>
      cases parts with
      | nil => exact hFits.elim
      | cons part rest => exact ⟨part, rest, rfl, hFits.2⟩

end Edge

namespace TreeNode

/-
  Edges of a tidy node that take the same part are the same.
-/
theorem IsTidy.eq_of_fits
    {node : TreeNode}
    (hTidy : node.IsTidy)
    {a b : Edge}
    (ha : a ∈ node.edges)
    (hb : b ∈ node.edges)
    (hOpenA : a.isOpenEnded = false)
    (hOpenB : b.isOpenEnded = false)
    {as bs : List Edge}
    {parts : List Text}
    (hFitsA : Edge.Fits (a :: as) parts)
    (hFitsB : Edge.Fits (b :: bs) parts) :
    a = b := by
  rcases hFitsA.exists_rest hOpenA with
    ⟨part, rest, rfl, -⟩
  cases a with
  | tail | any => cases hOpenA
  | literal text =>
      cases b with
      | tail | any => cases hOpenB
      | literal other => rw [hFitsA.1, hFitsB.1]
      | capture => cases hTidy.apart hb ha rfl
  | capture =>
      cases b with
      | tail | any => cases hOpenB
      | literal => cases hTidy.apart ha hb rfl
      | capture => exact hTidy.alone ha hb rfl rfl

/- Of leaves that fit the same parts, one covers another. -/
theorem covers_or_covers
    {node : TreeNode}
    (hNode : node.IsOrderly)
    {first second : List Edge}
    {trail others : List Nat}
    {leaf other : Nat}
    (hFirst : node.HasLeaf first trail leaf)
    (hSecond : node.HasLeaf second others other)
    {parts : List Text}
    (hFitsFirst : Edge.Fits first parts)
    (hFitsSecond : Edge.Fits second parts) :
    Edge.Covers first second ∨ Edge.Covers second first := by
  -- Both leaves go down in step, until one has an open end.
  induction first generalizing node second trail others parts
    with
  | nil =>
      have hParts : parts = [] := hFitsFirst
      subst hParts
      cases second with
      | nil => exact Or.inl (Or.inl rfl)
      | cons b bs =>
          cases hOpen : b.isOpenEnded with
          | false =>
              rcases hFitsSecond.exists_rest hOpen with
                ⟨_, _, hNone, -⟩
              cases hNone
          | true =>
              exact
                Or.inr (hNode.covers_of_open hOpen hSecond [])
  | cons a as ih =>
      cases hOpenA : a.isOpenEnded with
      | true =>
          exact
            Or.inl (hNode.covers_of_open hOpenA hFirst second)
      | false =>
          rcases hFitsFirst.exists_rest hOpenA with
            ⟨part, rest, rfl, hRestFirst⟩
          cases second with
          | nil => cases hFitsSecond
          | cons b bs =>
              cases hOpenB : b.isOpenEnded with
              | true =>
                  exact
                    Or.inr
                      (hNode.covers_of_open hOpenB hSecond
                        (a :: as))
              | false =>
                  rcases hFitsSecond.exists_rest hOpenB with
                    ⟨_, _, hParts, hRestSecond⟩
                  cases hParts
                  rcases (hasLeaf_cons_iff _ _ _ _ _).mp hFirst
                    with ⟨child, below, hChild, rfl, hBelow⟩
                  rcases (hasLeaf_cons_iff _ _ _ _ _).mp hSecond
                    with ⟨twin, under, hTwin, rfl, hUnder⟩
                  cases
                    hNode.tidy.eq_of_fits
                      (List.mem_map_of_mem hChild)
                      (List.mem_map_of_mem hTwin) hOpenA
                      hOpenB hFitsFirst hFitsSecond
                  cases hNode.tidy.eq_of_mem hChild hTwin
                  have hCovers :=
                    ih (hNode.child hChild) hBelow hUnder
                      hRestFirst hRestSecond
                  exact
                    hCovers.imp (Edge.covers_cons · a)
                      (Edge.covers_cons · a)

end TreeNode

end RequestRouter

------------------------------------------------------------
-- Accepted Variants
------------------------------------------------------------

namespace RequestRouter

namespace PlannedVariant

/-
  Whether variants are accepted by a tree: all that are not
  literal were inserted, in some order and with different
  numbers, none was refused, and the tree then admits those
  that are literal.
-/
structure AreAccepted
    (variants : List PlannedVariant)
    (calls : List (PlannedVariant × Nat))
    (tree : SegmentTree) : Prop where
  inserted :
    (calls.map Prod.fst).Perm
      (variants.filter fun variant =>
        !Step.allLiteral variant.steps)
  numbers : (calls.map Prod.snd).Nodup
  taken :
    ∃ trails,
      SegmentTree.empty.insertAll
          (calls.map fun call => (call.1.steps, call.2)) =
        (tree, trails) ∧
        none ∉ trails
  admitted :
    ∀ variant ∈ variants,
      Step.allLiteral variant.steps = true →
        tree.admits variant.steps = true

namespace AreAccepted

variable {E : Regex.Engine}
variable {variants : List PlannedVariant}
variable {calls : List (PlannedVariant × Nat)}
variable {tree : SegmentTree}

/- What is inserted was a variant that is read. -/
theorem openLast_of_mem
    (hAccepted : AreAccepted variants calls tree)
    (hPlain : ∀ variant ∈ variants, variant.IsPlain E) :
    ∀ call ∈
        calls.map fun call => (call.1.steps, call.2),
      Step.OpenLast call.1 := by
  intro call hCall
  rcases List.mem_map.mp hCall with
    ⟨⟨variant, number⟩, hOrigin, rfl⟩
  have hVariant :=
    hAccepted.inserted.mem_iff.mp
      (List.mem_map_of_mem hOrigin)
  exact (hPlain _ (List.mem_filter.mp hVariant).1).openLast

/- The tree of accepted variants is orderly. -/
theorem isOrderly
    (hAccepted : AreAccepted variants calls tree)
    (hPlain : ∀ variant ∈ variants, variant.IsPlain E) :
    tree.root.IsOrderly := by
  rcases hAccepted.taken with ⟨trails, hRun, -⟩
  exact
    (SegmentTree.isGrown_insertAll SegmentTree.isGrown_empty
      (hAccepted.openLast_of_mem hPlain) hRun).1.sound.orderly

/- Each variant that is not literal has its own leaf. -/
theorem exists_hasLeaf
    (hAccepted : AreAccepted variants calls tree)
    (hPlain : ∀ variant ∈ variants, variant.IsPlain E)
    {variant : PlannedVariant}
    (hVariant : variant ∈ variants)
    (hDynamic : Step.allLiteral variant.steps = false) :
    ∃ trail number,
      (variant, number) ∈ calls ∧
        tree.root.HasLeaf (Step.edges variant.steps) trail
          number := by
  rcases hAccepted.taken with ⟨trails, hRun, hTaken⟩
  have hInserted : variant ∈ calls.map Prod.fst := by
    rw [hAccepted.inserted.mem_iff, List.mem_filter]
    exact ⟨hVariant, by simp [hDynamic]⟩
  rcases List.mem_map.mp hInserted with
    ⟨⟨_, number⟩, hCall, rfl⟩
  rcases
      SegmentTree.exists_hasLeaf_insertAll
        SegmentTree.isGrown_empty
        (hAccepted.openLast_of_mem hPlain) hRun hTaken _
        (List.mem_map_of_mem hCall) with
    ⟨trail, hHas⟩
  exact ⟨trail, number, hCall, hHas⟩

/- Two variants of the tree with the same edges are one. -/
theorem eq_of_edges_eq
    (hAccepted : AreAccepted variants calls tree)
    (hPlain : ∀ variant ∈ variants, variant.IsPlain E)
    {first second : PlannedVariant}
    (hFirst : first ∈ variants)
    (hSecond : second ∈ variants)
    (hFirstDynamic : Step.allLiteral first.steps = false)
    (hSecondDynamic : Step.allLiteral second.steps = false)
    (hEdges :
      Step.edges first.steps = Step.edges second.steps) :
    first = second := by
  rcases
      hAccepted.exists_hasLeaf hPlain hFirst
        hFirstDynamic with
    ⟨trail, number, hCall, hHas⟩
  rcases
      hAccepted.exists_hasLeaf hPlain hSecond
        hSecondDynamic with
    ⟨others, other, hOtherCall, hOtherHas⟩
  rw [← hEdges] at hOtherHas
  rcases
      TreeNode.hasLeaf_unique (hAccepted.isOrderly hPlain)
        hHas hOtherHas with
    ⟨-, rfl⟩
  exact
    congrArg Prod.fst
      (List.inj_on_of_nodup_map hAccepted.numbers hCall
        hOtherCall rfl)

/- Of a tree's variants that fit, one covers the other. -/
theorem covers_of_dynamic
    (hAccepted : AreAccepted variants calls tree)
    (hPlain : ∀ variant ∈ variants, variant.IsPlain E)
    {first second : PlannedVariant}
    (hFirst : first ∈ variants)
    (hSecond : second ∈ variants)
    (hOther : first ≠ second)
    (hFirstDynamic : Step.allLiteral first.steps = false)
    (hSecondDynamic : Step.allLiteral second.steps = false)
    {parts : List Text}
    (hFitsFirst : first.Fits parts)
    (hFitsSecond : second.Fits parts) :
    Step.covers first.steps second.steps = true ∨
      Step.covers second.steps first.steps = true := by
  have hDiffer :
      Step.edges first.steps ≠ Step.edges second.steps :=
    fun hEdges =>
      hOther
        (hAccepted.eq_of_edges_eq hPlain hFirst hSecond
          hFirstDynamic hSecondDynamic hEdges)
  rcases
      hAccepted.exists_hasLeaf hPlain hFirst
        hFirstDynamic with
    ⟨_, _, -, hHas⟩
  rcases
      hAccepted.exists_hasLeaf hPlain hSecond
        hSecondDynamic with
    ⟨_, _, -, hOtherHas⟩
  have hCovers :=
    TreeNode.covers_or_covers (hAccepted.isOrderly hPlain)
      hHas hOtherHas hFitsFirst hFitsSecond
  rw [Step.edgeCovers_iff, Step.edgeCovers_iff] at hCovers
  exact
    hCovers.imp (Or.resolve_left · hDiffer)
      (Or.resolve_left · hDiffer.symm)

/- What fits a literal variant's path covers this variant. -/
theorem covers_of_literal
    (hAccepted : AreAccepted variants calls tree)
    (hPlain : ∀ variant ∈ variants, variant.IsPlain E)
    {leaf variant : PlannedVariant}
    (hLeaf : leaf ∈ variants)
    (hVariant : variant ∈ variants)
    (hLiteral : Step.allLiteral leaf.steps = true)
    (hDynamic : Step.allLiteral variant.steps = false)
    (hFits : variant.Fits (leaf.path.splitOn '/')) :
    Step.covers variant.steps leaf.steps = true := by
  rcases
      hAccepted.exists_hasLeaf hPlain hVariant hDynamic with
    ⟨_, _, -, hHas⟩
  have hCovers :=
    TreeNode.covers_of_admits (hAccepted.isOrderly hPlain)
      hHas hFits
      ((hPlain leaf hLeaf).edges_eq_of_literal hLiteral)
      (hAccepted.admitted leaf hLeaf hLiteral)
  rcases (Step.edgeCovers_iff _ _).mp hCovers with
    hSame | hCovers
  · rw [Step.allLiteral_eq, hSame, ← Step.allLiteral_eq,
      hLiteral] at hDynamic
    cases hDynamic
  · exact hCovers

end AreAccepted

/-
  Whenever two variants that are accepted fit one request,
  one of them covers the other.
-/
theorem covers_of_fits
    {E : Regex.Engine}
    {variants : List PlannedVariant}
    (hPlain : ∀ variant ∈ variants, variant.IsPlain E)
    {calls : List (PlannedVariant × Nat)}
    {tree : SegmentTree}
    (hAccepted : AreAccepted variants calls tree)
    {first second : PlannedVariant}
    (hFirst : first ∈ variants)
    (hSecond : second ∈ variants)
    (hPaths : first.path ≠ second.path)
    {request : Text}
    (hFitsFirst : first.Fits (request.splitOn '/'))
    (hFitsSecond : second.Fits (request.splitOn '/')) :
    Step.covers first.steps second.steps = true ∨
      Step.covers second.steps first.steps = true := by
  have hPath :
      ∀ variant ∈ variants,
        Step.allLiteral variant.steps = true →
          variant.Fits (request.splitOn '/') →
            variant.path = request :=
    fun variant hVariant hLiteral =>
      (fits_iff_of_literal (hPlain variant hVariant) hLiteral
        request).mp
  cases hKind : Step.allLiteral first.steps with
  | true =>
      have hOwn := hPath first hFirst hKind hFitsFirst
      cases hOtherKind : Step.allLiteral second.steps with
      | true =>
          have hOther :=
            hPath second hSecond hOtherKind hFitsSecond
          exact absurd (hOwn.trans hOther.symm) hPaths
      | false =>
          rw [← hOwn] at hFitsSecond
          exact
            Or.inr
              (hAccepted.covers_of_literal hPlain hFirst
                hSecond hKind hOtherKind hFitsSecond)
  | false =>
      cases hOtherKind : Step.allLiteral second.steps with
      | true =>
          have hOther :=
            hPath second hSecond hOtherKind hFitsSecond
          rw [← hOther] at hFitsFirst
          exact
            Or.inl
              (hAccepted.covers_of_literal hPlain hSecond
                hFirst hOtherKind hKind hFitsFirst)
      | false =>
          exact
            hAccepted.covers_of_dynamic hPlain hFirst hSecond
              (fun hSame => hPaths (by rw [hSame])) hKind
              hOtherKind hFitsFirst hFitsSecond

/- A wildcard above a parameter, and a literal beside them. -/
def nested : List PlannedVariant :=
  [⟨['/', 'a', '/', ':', 'x'],
      [⟨.literal [], none⟩, ⟨.literal ['a'], none⟩,
        ⟨.segment, some ['x']⟩]⟩,
    ⟨['/', 'a', '/', '*'],
      [⟨.literal [], none⟩, ⟨.literal ['a'], none⟩,
        ⟨.tail, none⟩]⟩,
    ⟨['/', 'b'],
      [⟨.literal [], none⟩, ⟨.literal ['b'], none⟩]⟩]

/- Both paths below `a` fit, and the wildcard covers. -/
theorem covers_of_fits_nested :
    (∀ variant ∈ nested,
      variant.IsPlain Regex.treeEngine) ∧
      ∃ calls tree, AreAccepted nested calls tree ∧
        ∃ first ∈ nested, ∃ second ∈ nested,
          first.path ≠ second.path ∧
            first.Fits (['/', 'a', '/', 'c'].splitOn '/') ∧
            second.Fits (['/', 'a', '/', 'c'].splitOn '/') ∧
            (Step.covers first.steps second.steps = true ∨
              Step.covers second.steps first.steps =
                true) := by
  have hPlain :
      ∀ variant ∈ nested,
        variant.IsPlain Regex.treeEngine := by
    simp only [nested, List.forall_mem_cons]
    exact
      ⟨⟨by decide, _, rfl, rfl⟩, ⟨by decide, _, rfl, rfl⟩,
        ⟨by decide, _, rfl, rfl⟩, by simp⟩
  have hAccepted :
      AreAccepted nested [(nested[1], 4), (nested[0], 7)]
        (SegmentTree.empty.insertAll
          [(nested[1].steps, 4), (nested[0].steps, 7)]).1 :=
    ⟨by decide, by decide, ⟨_, rfl, by decide⟩, by decide⟩
  have hFitsFirst :
      nested[0].Fits (['/', 'a', '/', 'c'].splitOn '/') :=
    ⟨rfl, rfl, by decide, rfl⟩
  have hFitsSecond :
      nested[1].Fits (['/', 'a', '/', 'c'].splitOn '/') :=
    ⟨rfl, rfl, trivial⟩
  exact
    ⟨hPlain, _, _, hAccepted, nested[0], by decide,
      nested[1], by decide, by decide, hFitsFirst,
      hFitsSecond,
      covers_of_fits hPlain hAccepted (by decide)
        (by decide) (by decide) hFitsFirst hFitsSecond⟩

end PlannedVariant

end RequestRouter
