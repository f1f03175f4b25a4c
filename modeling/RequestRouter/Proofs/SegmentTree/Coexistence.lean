import RequestRouter.Proofs.SegmentTree.Leaves

/-
  Which leaves may stand in one tree.

  Whether a leaf can be inserted depends on the leaves that
  the tree contains, and on nothing else: the edges to the
  new leaf must go together with those to each of the
  others. Going together is symmetric, so that the order of
  insertion does not matter.

  Key definitions include:
    * `Edge.clashes`
    * `Edge.Coexist`

  Main statements:
    * `Edge.Coexist.symm`
    * `TreeNode.isSome_trail_insert_iff`
-/

------------------------------------------------------------
-- Edges That Go Together
------------------------------------------------------------

namespace RequestRouter

namespace Edge

/- Whether two edges may not leave the same node. -/
def clashes
    (a b : Edge) : Bool :=
  (a.isCapture && b.isCapture) ||
    (a.isCapture && b.isLiteral) ||
      (a.isLiteral && b.isCapture)

/- Edges clash both ways. -/
theorem clashes_comm
    (a b : Edge) :
    a.clashes b = b.clashes a := by
  cases a <;> cases b <;> rfl

/-
  Whether the edges to two leaves may start at one node,
  which lies behind an edge that spans segments or does not.
  They must part somewhere, not behind an edge that spans,
  and with edges that do not clash.
-/
def Coexist
    (spans : Bool) :
    List Edge → List Edge → Prop
  | [], [] => False
  | [], _ :: _ => spans = false
  | _ :: _, [] => spans = false
  | a :: first, b :: second =>
      if a = b then Coexist a.spans first second
      else spans = false ∧ a.clashes b = false

/- Behind a common edge, what follows must go together. -/
theorem coexist_cons_self_iff
    (spans : Bool)
    (edge : Edge)
    (first second : List Edge) :
    Coexist spans (edge :: first) (edge :: second) ↔
      Coexist edge.spans first second := by
  simp [Coexist]

/- Different edges must not clash. -/
theorem coexist_cons_of_ne
    (spans : Bool)
    {a b : Edge}
    (hOther : a ≠ b)
    (first second : List Edge) :
    Coexist spans (a :: first) (b :: second) ↔
      spans = false ∧ a.clashes b = false := by
  simp [Coexist, hOther]

/- Edges go together both ways. -/
theorem Coexist.symm
    {spans : Bool}
    {first second : List Edge}
    (hBoth : Coexist spans first second) :
    Coexist spans second first := by
  induction first generalizing spans second with
  | nil =>
      cases second with
      | nil => exact hBoth
      | cons b second => exact hBoth
  | cons a first ih =>
      cases second with
      | nil => exact hBoth
      | cons b second =>
          by_cases hSame : a = b
          · subst hSame
            rw [coexist_cons_self_iff] at hBoth ⊢
            exact ih hBoth
          · rw [coexist_cons_of_ne spans hSame] at hBoth
            rw [coexist_cons_of_ne spans (Ne.symm hSame),
              clashes_comm]
            exact hBoth

end Edge

end RequestRouter

------------------------------------------------------------
-- Insertion beside Leaves
------------------------------------------------------------

namespace RequestRouter

namespace TreeNode

/- Two edges from a tidy node do not clash. -/
theorem IsTidy.apart_of_ne
    {node : TreeNode}
    (hTidy : node.IsTidy)
    {a b : Edge}
    (hFirst : a ∈ node.edges)
    (hSecond : b ∈ node.edges)
    (hOther : a ≠ b) :
    node.spans = false ∧ a.clashes b = false := by
  constructor
  · cases hSpans : node.spans with
    | false => rfl
    | true =>
        have hLength : node.edges.length ≤ 1 := by
          simpa [edges] using (hTidy.single hSpans).2
        cases hEdges : node.edges with
        | nil => simp [hEdges] at hFirst
        | cons only rest =>
            have hRest : rest = [] := by
              apply List.eq_nil_of_length_eq_zero
              rw [hEdges, List.length_cons] at hLength
              omega
            rw [hEdges, hRest, List.mem_singleton]
              at hFirst hSecond
            exact absurd (hFirst.trans hSecond.symm) hOther
  · cases hClash : a.clashes b with
    | false => rfl
    | true =>
        simp only [Edge.clashes, Bool.or_eq_true,
          Bool.and_eq_true] at hClash
        rcases hClash with (⟨ha, hb⟩ | ⟨ha, hb⟩) | ⟨ha, hb⟩
        · exact
            absurd (hTidy.alone hFirst hSecond ha hb) hOther
        · simp [hTidy.apart hFirst hSecond ha] at hb
        · simp [hTidy.apart hSecond hFirst hb] at ha

/- A new edge clashes with siblings where the edges clash. -/
theorem clashes_eq_any
    (node : TreeNode)
    (edge : Edge) :
    node.clashes edge =
      node.children.any (·.1.clashes edge) := by
  cases edge with
  | literal text =>
      simp only [clashes, hasCapture]
      congr 1
      funext entry
      cases entry.1 <;> rfl
  | capture source groups =>
      simp only [clashes]
      congr 1
      funext entry
      cases entry.1 <;> rfl
  | tail | any =>
      simp only [clashes]
      symm
      rw [List.any_eq_false]
      intro entry hEntry
      cases entry.1 <;> simp [Edge.clashes, Edge.isCapture,
        Edge.isLiteral]

/- Whether the edges to all leaves go together with edges. -/
def MayTake
    (node : TreeNode)
    (edges : List Edge) : Prop :=
  ∀ others trail number, node.HasLeaf others trail number →
    Edge.Coexist node.spans others edges

/- Whether no leaf has a number. -/
def Lacks
    (node : TreeNode)
    (leaf : Nat) : Prop :=
  ∀ edges trail number, node.HasLeaf edges trail number →
    number ≠ leaf

/- What a node lacks, its children lack. -/
theorem Lacks.child
    {node child : TreeNode}
    {edge : Edge}
    {leaf : Nat}
    (hNew : node.Lacks leaf)
    (hChild : (edge, child) ∈ node.children) :
    child.Lacks leaf := by
  intro edges trail number hHas
  exact hNew _ _ _ (.child hChild hHas)

/- A leaf may end at a node if none ends or goes on there. -/
theorem isSome_trail_insertLeaf_iff
    {node : TreeNode}
    (hNode : node.IsOrderly)
    {leaf : Nat}
    (hNew : node.Lacks leaf)
    (next : Nat) :
    (node.insertLeaf leaf next).trail.isSome = true ↔
      node.MayTake [] := by
  unfold insertLeaf
  cases hOwn : node.leaf with
  | some other =>
      have hOther : other ≠ leaf := hNew _ _ _ (.here hOwn)
      simp only [if_neg hOther, Option.isSome_none,
        Bool.false_eq_true, false_iff]
      intro hTake
      exact hTake [] [] other (.here hOwn)
  | none =>
      dsimp only
      by_cases hAlone :
          (node.spans && !node.children.isEmpty) = true
      case pos =>
          rw [if_pos hAlone]
          simp only [Option.isSome_none, Bool.false_eq_true,
            false_iff]
          intro hTake
          have hParts :
              node.spans = true ∧ node.children ≠ [] := by
            simpa using hAlone
          rcases
              exists_hasLeaf node hNode (Or.inr hParts.2) with
            ⟨edges, trail, number, hHas⟩
          have hBoth := hTake _ _ _ hHas
          cases hHas with
          | here hLeaf => simp [hOwn] at hLeaf
          | child hChild hLeaf =>
              have hSpans : node.spans = false := hBoth
              simp [hParts.1] at hSpans
      case neg =>
          rw [if_neg hAlone]
          simp only [Option.isSome_some, true_iff]
          intro edges trail number hHas
          cases hHas with
          | here hLeaf => simp [hOwn] at hLeaf
          | child hChild hLeaf =>
              change node.spans = false
              have hSome : node.children ≠ [] :=
                List.ne_nil_of_mem hChild
              simpa [hSome] using hAlone

/-
  Below a child that is there, the rest of the edges must go
  together with those of the child; its siblings never mind.
-/
theorem mayTake_cons_of_some
    {node child : TreeNode}
    (hNode : node.IsOrderly)
    {edge : Edge}
    (hChild : node.child? edge = some child)
    (rest : List Edge) :
    node.MayTake (edge :: rest) ↔ child.MayTake rest := by
  have hTidy := hNode.tidy
  have hMember : (edge, child) ∈ node.children :=
    AssocList.mem_of_find?_eq_some hChild
  have hSpans : child.spans = edge.spans :=
    hTidy.passed _ hMember
  have hEdge : edge ∈ node.edges :=
    List.mem_map_of_mem (f := Prod.fst) hMember
  constructor
  · intro hTake others trail number hHas
    rw [hSpans]
    exact
      (Edge.coexist_cons_self_iff _ _ _ _).mp
        (hTake _ _ _ (.child hMember hHas))
  · intro hTake others trail number hHas
    cases hHas with
    | here hLeaf =>
        change node.spans = false
        cases hNodeSpans : node.spans with
        | false => rfl
        | true =>
            have hNone :=
              (hTidy.single hNodeSpans).1 (by simp [hLeaf])
            simp [hNone] at hMember
    | @child _ other sibling others trail number hSibling
        hLeaf =>
        by_cases hSame : other = edge
        case pos =>
            subst hSame
            cases hTidy.eq_of_mem hMember hSibling
            rw [Edge.coexist_cons_self_iff, ← hSpans]
            exact hTake _ _ _ hLeaf
        case neg =>
            have hOther : other ∈ node.edges :=
              List.mem_map_of_mem (f := Prod.fst) hSibling
            rw [Edge.coexist_cons_of_ne _ hSame]
            exact hTidy.apart_of_ne hOther hEdge hSame

/-
  Along a new edge a child can be made if the edge clashes
  with no sibling and the node is not taken.
-/
theorem mayTake_cons_of_none
    {node : TreeNode}
    (hNode : node.IsOrderly)
    {edge : Edge}
    (hChild : node.child? edge = none)
    (rest : List Edge) :
    node.MayTake (edge :: rest) ↔
      node.clashes edge = false ∧ node.isTaken = false := by
  have hOther :
      ∀ entry ∈ node.children, entry.1 ≠ edge :=
    (AssocList.find?_eq_none_iff _ _).mp hChild
  have hClash := node.clashes_eq_any edge
  constructor
  · intro hTake
    -- Every child has a leaf, whose edges go together.
    have hBoth :
        ∀ entry ∈ node.children,
          node.spans = false ∧
            entry.1.clashes edge = false := by
      intro entry hEntry
      rcases
          exists_hasLeaf entry.2 (hNode.child hEntry)
            (hNode.tidy.used entry hEntry) with
        ⟨edges, trail, number, hHas⟩
      have hCoexist := hTake _ _ _ (.child hEntry hHas)
      rwa [Edge.coexist_cons_of_ne _ (hOther entry hEntry)]
        at hCoexist
    constructor
    · rw [hClash, List.any_eq_false]
      intro entry hEntry
      simp [(hBoth entry hEntry).2]
    · cases hSpans : node.spans with
      | false => simp [isTaken, hSpans]
      | true =>
          have hLeaf : node.leaf = none := by
            cases hOwn : node.leaf with
            | none => rfl
            | some number =>
                have hCoexist := hTake _ _ _ (.here hOwn)
                exact absurd hCoexist (by simp [Edge.Coexist,
                  hSpans])
          have hNone : node.children = [] := by
            apply List.eq_nil_iff_forall_not_mem.mpr
            intro entry hEntry
            simp [(hBoth entry hEntry).1] at hSpans
          simp [isTaken, hLeaf, hNone]
  · rintro ⟨hApart, hFree⟩ others trail number hHas
    rw [hClash, List.any_eq_false] at hApart
    cases hHas with
    | here hLeaf =>
        change node.spans = false
        simpa [isTaken, hLeaf] using hFree
    | @child _ own child others trail number hEntry hLeaf =>
        have hSome : node.children ≠ [] :=
          List.ne_nil_of_mem hEntry
        have hSpans : node.spans = false := by
          simpa [isTaken, hSome] using hFree
        rw [Edge.coexist_cons_of_ne _ (hOther _ hEntry)]
        exact ⟨hSpans, by simpa using hApart _ hEntry⟩

/-
  An insertion is not refused if the edges to the new leaf
  go together with those to every leaf that is there.
-/
theorem isSome_trail_insert_iff
    {node : TreeNode}
    (hNode : node.IsOrderly)
    {leaf : Nat}
    (hNew : node.Lacks leaf)
    (steps : List Step)
    (next : Nat) :
    (node.insert leaf steps next).trail.isSome = true ↔
      node.MayTake (Step.edges steps) := by
  induction steps generalizing node next with
  | nil => exact isSome_trail_insertLeaf_iff hNode hNew next
  | cons step rest ih =>
      unfold insert
      cases hChild : node.child? step.edge with
      | some child =>
          have hMember : (step.edge, child) ∈ node.children :=
            AssocList.mem_of_find?_eq_some hChild
          have hBelow :=
            ih (hNode.child hMember) (hNew.child hMember) next
          dsimp only
          rw [Option.isSome_map, hBelow]
          exact
            (mayTake_cons_of_some hNode hChild
              (Step.edges rest)).symm
      | none =>
          have hTake :=
            mayTake_cons_of_none hNode hChild (Step.edges rest)
          dsimp only
          by_cases hRefused :
              (node.clashes step.edge || node.isTaken) = true
          case pos =>
              rw [if_pos hRefused]
              simp only [Option.isSome_none,
                Bool.false_eq_true, false_iff]
              intro hMay
              rcases hTake.mp hMay with ⟨hApart, hFree⟩
              simp [hApart, hFree] at hRefused
          case neg =>
              have hRoom :
                  node.clashes step.edge = false ∧
                    node.isTaken = false := by
                simpa using hRefused
              have hFresh :=
                ih (isOrderly_fresh next step.edge.spans)
                  (fun _ _ _ hHas =>
                    (not_hasLeaf_fresh _ _ _ _ _ hHas).elim)
                  (next + 1)
              rw [if_neg hRefused]
              dsimp only
              rw [Option.isSome_map, hFresh]
              constructor
              · exact fun _ => hTake.mpr hRoom
              · intro _ others trail number hHas
                exact (not_hasLeaf_fresh _ _ _ _ _ hHas).elim

end TreeNode

end RequestRouter
