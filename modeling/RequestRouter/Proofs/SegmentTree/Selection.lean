import RequestRouter.Proofs.SegmentTree.Contents

/-
  Which leaf of a tree is selected for the parts of a path.

  A list of edges fits parts as a route fits a path. Among
  the leaves of a tree whose edges fit, the selection takes
  the first in the order of siblings. In an orderly tree it
  is the most specific one: every other leaf that fits is
  the same or ends in a wildcard that covers it.

  Key definitions include:
    * `TreeNode.ordered`
    * `Edge.Fits`
    * `Edge.caught`
    * `Edge.Covers`
    * `TreeNode.select`

  Main statements:
    * `TreeNode.exists_selects_of_select`
    * `TreeNode.exists_select`
-/

------------------------------------------------------------
-- The Order of Siblings
------------------------------------------------------------

namespace RequestRouter

namespace Edge

/- Literals are in the order of their texts. -/
theorem precedes_literal_iff
    (x y : Text) :
    (literal x).precedes (literal y) = true ↔
      List.lex y x (· < ·) = false := by
  simp only [precedes, Bool.not_eq_true']

/- The order of literals is transitive. -/
theorem precedes_literal_trans
    {x y z : Text}
    (hFirst : (literal x).precedes (literal y) = true)
    (hSecond : (literal y).precedes (literal z) = true) :
    (literal x).precedes (literal z) = true := by
  rw [precedes_literal_iff] at hFirst hSecond ⊢
  exact
    List.lex_eq_false_iff_ge.mpr
      (List.le_trans (List.lex_eq_false_iff_ge.mp hFirst)
        (List.lex_eq_false_iff_ge.mp hSecond))

/- The order of edges is transitive. -/
theorem precedes_trans
    (a b c : Edge)
    (hFirst : a.precedes b = true)
    (hSecond : b.precedes c = true) :
    a.precedes c = true := by
  cases a <;> cases b <;> cases c <;>
    first
      | exact precedes_literal_trans hFirst hSecond
      | simp_all [precedes, rank]

/- Literals that precede each other have the same text. -/
theorem eq_of_precedes_literal
    {x y : Text}
    (hFirst : (literal x).precedes (literal y) = true)
    (hSecond : (literal y).precedes (literal x) = true) :
    x = y := by
  rw [precedes_literal_iff] at hFirst hSecond
  exact
    List.le_antisymm (List.lex_eq_false_iff_ge.mp hFirst)
      (List.lex_eq_false_iff_ge.mp hSecond)

/- Any two edges are ordered. -/
theorem precedes_total
    (a b : Edge) :
    (a.precedes b || b.precedes a) = true := by
  rw [Bool.or_eq_true]
  cases a with
  | literal x =>
      cases b with
      | literal y =>
          rw [precedes_literal_iff, precedes_literal_iff]
          exact
            (List.le_total x y).imp
              List.lex_eq_false_iff_ge.mpr
              List.lex_eq_false_iff_ge.mpr
      | capture | tail | any => simp [precedes, rank]
  | capture | tail | any =>
      cases b <;> simp [precedes, rank]

/- An edge in front of another does not have a higher rank. -/
theorem rank_le_of_precedes
    {a b : Edge}
    (hOrder : a.precedes b = true) :
    a.rank ≤ b.rank := by
  cases a <;> cases b <;> simp_all [precedes, rank]

end Edge

namespace TreeNode

/- The children of a node in the order of their edges. -/
def ordered
    (node : TreeNode) : List (Edge × TreeNode) :=
  node.children.mergeSort fun a b => a.1.precedes b.1

/- Ordering keeps the children. -/
theorem ordered_perm
    (node : TreeNode) :
    node.ordered.Perm node.children :=
  List.mergeSort_perm _ _

/- Ordered children are the children. -/
theorem mem_ordered_iff
    (node : TreeNode)
    (entry : Edge × TreeNode) :
    entry ∈ node.ordered ↔ entry ∈ node.children :=
  node.ordered_perm.mem_iff

/- No ordered child stands behind one that it precedes. -/
theorem sorted_ordered
    (node : TreeNode) :
    node.ordered.Pairwise fun a b =>
      a.1.precedes b.1 = true :=
  List.pairwise_mergeSort
    (fun a b c => Edge.precedes_trans a.1 b.1 c.1)
    (fun a b => Edge.precedes_total a.1 b.1)
    node.children

/- The ranks of ordered children do not fall. -/
theorem pairwise_ordered
    (node : TreeNode) :
    node.ordered.Pairwise fun a b =>
      a.1.rank ≤ b.1.rank :=
  node.sorted_ordered.imp Edge.rank_le_of_precedes

end TreeNode

end RequestRouter

------------------------------------------------------------
-- Fitting Edges
------------------------------------------------------------

namespace RequestRouter

namespace Edge

/-
  Whether edges fit the parts of a path, where each capture
  takes one nonempty part.
-/
def Fits : List Edge → List Text → Prop
  | [], parts => parts = []
  | .tail :: _, _ => True
  | .any :: _, parts => parts ≠ []
  | .literal _ :: _, [] => False
  | .literal text :: rest, part :: parts =>
      text = part ∧ Fits rest parts
  | .capture _ _ :: _, [] => False
  | .capture _ _ :: rest, part :: parts =>
      part ≠ [] ∧ Fits rest parts

/- The parts that captures take, by the nodes behind them. -/
def caught :
    List Edge → List Nat → List Text → List (Nat × Text)
  | .literal _ :: rest, _ :: trail, _ :: parts =>
      caught rest trail parts
  | .capture _ _ :: rest, node :: trail, part :: parts =>
      (node, part) :: caught rest trail parts
  | _, _, _ => []

/-
  Whether edges fit all that other edges fit: they are the
  same, or end in a wildcard and start the others.
-/
def Covers
    (wider edges : List Edge) : Prop :=
  wider = edges ∨
    ∃ front last, wider = front ++ [last] ∧
      last.isOpenEnded = true ∧ front <+: edges

/- An open end covers everything. -/
theorem covers_open
    {last : Edge}
    (hLast : last.isOpenEnded = true)
    (edges : List Edge) :
    Covers [last] edges :=
  Or.inr ⟨[], last, rfl, hLast, List.nil_prefix⟩

/- Covering carries over behind an edge. -/
theorem covers_cons
    {wider edges : List Edge}
    (hCovers : Covers wider edges)
    (edge : Edge) :
    Covers (edge :: wider) (edge :: edges) := by
  rcases hCovers with rfl | ⟨front, last, rfl, hLast, hFront⟩
  · exact Or.inl rfl
  · exact
      Or.inr
        ⟨edge :: front, last, rfl, hLast,
          (List.prefix_cons_inj edge).mpr hFront⟩

/-
  The start of edges that fit still fits with an open end
  behind it. Only a wildcard that stands alone is refused
  where there are no parts.
-/
theorem fits_append_open
    {front edges : List Edge}
    {last : Edge}
    (hFront : front <+: edges)
    (hLast : last.isOpenEnded = true)
    {parts : List Text}
    (hAny : last = .any → front = [] ∧ parts ≠ [])
    (hFits : Fits edges parts) :
    Fits (front ++ [last]) parts := by
  induction front generalizing edges parts with
  | nil =>
      cases last with
      | literal | capture => cases hLast
      | tail => exact trivial
      | any => exact (hAny rfl).2
  | cons edge front ih =>
      have hTail : last ≠ .any := by
        intro hEnd
        cases (hAny hEnd).1
      rcases hFront with ⟨others, rfl⟩
      have hBelow : front <+: front ++ others :=
        List.prefix_append _ _
      cases edge with
      | tail => exact trivial
      | any => exact hFits
      | literal text =>
          cases parts with
          | nil => exact hFits
          | cons part parts =>
              exact
                ⟨hFits.1,
                  ih hBelow (absurd · hTail) hFits.2⟩
      | capture source groups =>
          cases parts with
          | nil => exact hFits
          | cons part parts =>
              exact
                ⟨hFits.1,
                  ih hBelow (absurd · hTail) hFits.2⟩

end Edge

end RequestRouter

------------------------------------------------------------
-- Selection
------------------------------------------------------------

namespace RequestRouter

/- A leaf, and the parts that captures took on the way. -/
structure Selected where
  leaf : Nat
  caught : List (Nat × Text)
  deriving DecidableEq, Repr

namespace Selected

/- Put a part that a capture took in front. -/
def behind
    (node : Nat)
    (part : Text)
    (selected : Selected) : Selected :=
  ⟨selected.leaf, (node, part) :: selected.caught⟩

end Selected

namespace TreeNode

/- The leaf of a node, with nothing caught below it. -/
def own?
    (node : TreeNode) : Option Selected :=
  node.leaf.map (⟨·, []⟩)

/- What is selected through an edge at the end of a path. -/
def atEnd
    (child : TreeNode) : Edge → Option Selected
  | .tail => child.own?
  | _ => none

/-
  What is selected through an edge for a part, if `below` is
  selected behind it for the parts that follow.
-/
def through
    (child : TreeNode)
    (edge : Edge)
    (part : Text)
    (below : Option Selected) : Option Selected :=
  match edge with
  | .literal text => if text = part then below else none
  | .capture _ _ =>
      if part = [] then none
      else below.map (·.behind child.id part)
  | .tail | .any => child.own?

/-
  The first leaf of a tree, in the order of siblings, whose
  edges fit the parts of a path.
-/
def select : List Text → TreeNode → Option Selected
  | [], node =>
      node.own?.or <|
        node.ordered.findSome? fun (edge, child) =>
          child.atEnd edge
  | part :: parts, node =>
      node.ordered.findSome? fun (edge, child) =>
        child.through edge part (select parts child)

/-
  Whether a selection is a leaf whose edges fit, with the
  parts that these edges catch.
-/
def Selects
    (node : TreeNode)
    (parts : List Text)
    (edges : List Edge)
    (trail : List Nat)
    (selected : Selected) : Prop :=
  node.HasLeaf edges trail selected.leaf ∧
    Edge.Fits edges parts ∧
    selected.caught = Edge.caught edges trail parts

/- The leaf of an open-ended child fits. -/
theorem selects_open
    {node child : TreeNode}
    {edge : Edge}
    (hChild : (edge, child) ∈ node.children)
    (hOpen : edge.isOpenEnded = true)
    {parts : List Text}
    (hParts : edge = .any → parts ≠ [])
    {selected : Selected}
    (hOwn : child.own? = some selected) :
    node.Selects parts [edge] [child.id] selected := by
  rcases Option.map_eq_some_iff.mp hOwn with
    ⟨leaf, hLeaf, rfl⟩
  refine ⟨.child hChild (.here hLeaf), ?_, ?_⟩
  · cases edge with
    | literal | capture => cases hOpen
    | tail => exact trivial
    | any => exact hParts rfl
  · cases edge with
    | literal | capture => cases hOpen
    | tail | any => rfl

/- What a literal child selects, its parent selects. -/
theorem selects_literal
    {node child : TreeNode}
    {part : Text}
    (hChild : (.literal part, child) ∈ node.children)
    {parts : List Text}
    {edges : List Edge}
    {trail : List Nat}
    {selected : Selected}
    (hSelects : child.Selects parts edges trail selected) :
    node.Selects (part :: parts) (.literal part :: edges)
      (child.id :: trail) selected := by
  rcases hSelects with ⟨hHas, hFits, hCaught⟩
  exact ⟨.child hChild hHas, ⟨rfl, hFits⟩, hCaught⟩

/- A parent puts the part of a capture in front. -/
theorem selects_capture
    {node child : TreeNode}
    {source : Text}
    {groups : Nat}
    (hChild :
      (.capture source groups, child) ∈ node.children)
    {part : Text}
    (hPart : part ≠ [])
    {parts : List Text}
    {edges : List Edge}
    {trail : List Nat}
    {selected : Selected}
    (hSelects : child.Selects parts edges trail selected) :
    node.Selects (part :: parts)
      (.capture source groups :: edges) (child.id :: trail)
      (selected.behind child.id part) := by
  rcases hSelects with ⟨hHas, hFits, hCaught⟩
  refine ⟨.child hChild hHas, ⟨hPart, hFits⟩, ?_⟩
  simp [Selected.behind, Edge.caught, hCaught]

/- A selected leaf fits. -/
theorem exists_selects_of_select
    {parts : List Text}
    {node : TreeNode}
    {selected : Selected}
    (hSelect : node.select parts = some selected) :
    ∃ edges trail,
      node.Selects parts edges trail selected := by
  induction parts generalizing node selected with
  | nil =>
      rcases Option.or_eq_some_iff.mp hSelect with
        hOwn | ⟨-, hTail⟩
      · rcases Option.map_eq_some_iff.mp hOwn with
          ⟨leaf, hLeaf, rfl⟩
        exact ⟨[], [], .here hLeaf, rfl, rfl⟩
      · rcases List.exists_of_findSome?_eq_some hTail with
          ⟨⟨edge, child⟩, hChild, hFound⟩
        rw [mem_ordered_iff] at hChild
        cases edge with
        | tail =>
            exact
              ⟨_, _, selects_open hChild rfl (by simp) hFound⟩
        | literal | capture | any => cases hFound
  | cons part parts ih =>
      rcases List.exists_of_findSome?_eq_some hSelect with
        ⟨⟨edge, child⟩, hChild, hFound⟩
      rw [mem_ordered_iff] at hChild
      cases edge with
      | literal text =>
          simp only [through] at hFound
          split at hFound
          case isFalse => cases hFound
          case isTrue hText =>
              subst hText
              rcases ih hFound with ⟨edges, trail, hSelects⟩
              exact ⟨_, _, selects_literal hChild hSelects⟩
      | capture source groups =>
          simp only [through] at hFound
          split at hFound
          case isTrue => cases hFound
          case isFalse hPart =>
              rcases Option.map_eq_some_iff.mp hFound with
                ⟨below, hBelow, rfl⟩
              rcases ih hBelow with ⟨edges, trail, hSelects⟩
              exact
                ⟨_, _, selects_capture hChild hPart hSelects⟩
      | tail | any =>
          exact
            ⟨_, _,
              selects_open hChild rfl (by simp) hFound⟩

/-
  If some child gives a value, the first one that gives any
  is this child or comes before it.
-/
theorem exists_findSome?_ordered
    {α : Type}
    {node : TreeNode}
    {f : Edge × TreeNode → Option α}
    {entry : Edge × TreeNode}
    (hEntry : entry ∈ node.children)
    {value : α}
    (hValue : f entry = some value) :
    ∃ first ∈ node.children, ∃ found,
      node.ordered.findSome? f = some found ∧
        f first = some found ∧
        first.1.rank ≤ entry.1.rank := by
  have hSome : (node.ordered.findSome? f).isSome = true :=
    List.findSome?_isSome_iff.mpr
      ⟨entry, (mem_ordered_iff _ _).mpr hEntry,
        by simp [hValue]⟩
  rcases Option.isSome_iff_exists.mp hSome with
    ⟨found, hFound⟩
  rcases List.findSome?_eq_some_iff.mp hFound with
    ⟨before, first, after, hOrdered, hFirst, hBefore⟩
  have hMember : first ∈ node.ordered := by
    simp [hOrdered]
  refine
    ⟨first, (mem_ordered_iff _ _).mp hMember, found, hFound,
      hFirst, ?_⟩
  have hSorted := node.pairwise_ordered
  have hPlace := (mem_ordered_iff _ _).mpr hEntry
  rw [hOrdered] at hSorted hPlace
  rcases List.mem_append.mp hPlace with hEarly | hLate
  · simp [hBefore entry hEarly] at hValue
  · rcases List.mem_cons.mp hLate with rfl | hAfter
    · exact Nat.le_refl _
    · have hTail := (List.pairwise_append.mp hSorted).2.1
      exact (List.pairwise_cons.mp hTail).1 entry hAfter

/- A child along an edge is the only one along it. -/
theorem IsTidy.eq_of_mem
    {node first second : TreeNode}
    (hTidy : node.IsTidy)
    {edge : Edge}
    (hFirst : (edge, first) ∈ node.children)
    (hSecond : (edge, second) ∈ node.children) :
    first = second := by
  have hFind :=
    AssocList.find?_eq_some_of_mem hTidy.keyed hFirst
  rw [AssocList.find?_eq_some_of_mem hTidy.keyed hSecond]
    at hFind
  exact (Option.some.inj hFind).symm

/- The child behind an open end has just its own leaf. -/
theorem IsOrderly.own?_of_open
    {node : TreeNode}
    (hNode : node.IsOrderly)
    {edge : Edge}
    (hOpen : edge.isOpenEnded = true)
    {edges : List Edge}
    {trail : List Nat}
    {leaf : Nat}
    (hHas : node.HasLeaf (edge :: edges) trail leaf) :
    edges = [] ∧
      ∃ child, (edge, child) ∈ node.children ∧
        child.own? = some ⟨leaf, []⟩ := by
  rcases (hasLeaf_cons_iff _ _ _ _ _).mp hHas with
    ⟨child, below, hChild, rfl, hLeaf⟩
  have hClosed : child.children = [] :=
    hNode.tidy.closed _ hChild hOpen
  cases hLeaf with
  | here hLeaf =>
      exact ⟨rfl, child, hChild, by simp [own?, hLeaf]⟩
  | child hBelow => simp [hClosed] at hBelow

/- A leaf behind an open end covers everything. -/
theorem IsOrderly.covers_of_open
    {node : TreeNode}
    (hNode : node.IsOrderly)
    {edge : Edge}
    (hOpen : edge.isOpenEnded = true)
    {edges : List Edge}
    {trail : List Nat}
    {leaf : Nat}
    (hHas : node.HasLeaf (edge :: edges) trail leaf)
    (others : List Edge) :
    Edge.Covers (edge :: edges) others := by
  rcases hNode.own?_of_open hOpen hHas with ⟨rfl, -⟩
  exact Edge.covers_open hOpen others

/- A literal child that selects something comes first. -/
theorem select_literal
    {node child : TreeNode}
    (hNode : node.IsOrderly)
    {part : Text}
    (hChild : (.literal part, child) ∈ node.children)
    {parts : List Text}
    {selected : Selected}
    (hBelow : child.select parts = some selected) :
    node.select (part :: parts) = some selected := by
  unfold select
  rcases
      exists_findSome?_ordered
        (f := fun entry =>
          entry.2.through entry.1 part
            (select parts entry.2))
        hChild (by simpa [through] using hBelow) with
    ⟨⟨edge, first⟩, hFirst, found, hFound, hGives, hRank⟩
  refine hFound.trans ?_
  cases edge with
  | capture | tail | any => simp [Edge.rank] at hRank
  | literal text =>
      simp only [through] at hGives
      split at hGives
      case isFalse => cases hGives
      case isTrue hText =>
          subst hText
          rw [hNode.tidy.eq_of_mem hFirst hChild, hBelow]
            at hGives
          exact hGives.symm

/- A capture child that selects something comes first. -/
theorem select_capture
    {node child : TreeNode}
    (hNode : node.IsOrderly)
    {source : Text}
    {groups : Nat}
    (hChild :
      (.capture source groups, child) ∈ node.children)
    {part : Text}
    (hPart : part ≠ [])
    {parts : List Text}
    {selected : Selected}
    (hBelow : child.select parts = some selected) :
    node.select (part :: parts) =
      some (selected.behind child.id part) := by
  unfold select
  rcases
      exists_findSome?_ordered
        (f := fun entry =>
          entry.2.through entry.1 part
            (select parts entry.2))
        hChild (by simp [through, hPart, hBelow]; rfl) with
    ⟨⟨edge, first⟩, hFirst, found, hFound, hGives, hRank⟩
  refine hFound.trans ?_
  have hTidy := hNode.tidy
  have hEdge : .capture source groups ∈ node.edges :=
    List.mem_map_of_mem (f := Prod.fst) hChild
  have hOther : edge ∈ node.edges :=
    List.mem_map_of_mem (f := Prod.fst) hFirst
  cases edge with
  | tail | any => simp [Edge.rank] at hRank
  | literal text => cases hTidy.apart hEdge hOther rfl
  | capture other count =>
      have hSame := hTidy.alone hOther hEdge rfl rfl
      rw [hSame] at hFirst
      simp only [through, hPart, if_false] at hGives
      rw [hTidy.eq_of_mem hFirst hChild, hBelow] at hGives
      exact hGives.symm

/- Where an open end fits, something is selected. -/
theorem exists_select_open
    {node : TreeNode}
    (hNode : node.IsOrderly)
    {edge : Edge}
    (hOpen : edge.isOpenEnded = true)
    {edges : List Edge}
    {trail : List Nat}
    {leaf : Nat}
    (hHas : node.HasLeaf (edge :: edges) trail leaf)
    {parts : List Text}
    (hFits : Edge.Fits (edge :: edges) parts) :
    edges = [] ∧
      ∃ selected, node.select parts = some selected := by
  rcases hNode.own?_of_open hOpen hHas with
    ⟨hLast, child, hChild, hOwn⟩
  refine ⟨hLast, ?_⟩
  have hOrdered := (mem_ordered_iff node _).mpr hChild
  rw [← Option.isSome_iff_exists]
  cases parts with
  | nil =>
      simp only [select, Option.isSome_or, Bool.or_eq_true,
        List.findSome?_isSome_iff]
      refine Or.inr ⟨(edge, child), hOrdered, ?_⟩
      cases edge with
      | literal | capture => cases hOpen
      | any => exact absurd rfl hFits
      | tail => simp [atEnd, hOwn]
  | cons part parts =>
      simp only [select, List.findSome?_isSome_iff]
      refine ⟨(edge, child), hOrdered, ?_⟩
      cases edge with
      | literal | capture => cases hOpen
      | any | tail => simp [through, hOwn]

/-
  In an orderly tree, wherever some leaf fits, a leaf is
  selected whose edges the edges of the former cover.
-/
theorem exists_select
    {node : TreeNode}
    (hNode : node.IsOrderly)
    {edges : List Edge}
    {trail : List Nat}
    {leaf : Nat}
    (hHas : node.HasLeaf edges trail leaf)
    {parts : List Text}
    (hFits : Edge.Fits edges parts) :
    ∃ selected found way,
      node.select parts = some selected ∧
        node.Selects parts found way selected ∧
        Edge.Covers edges found := by
  induction edges generalizing node trail parts with
  | nil =>
      have hParts : parts = [] := by
        cases parts with
        | nil => rfl
        | cons => cases hFits
      subst hParts
      rcases (hasLeaf_nil_iff _ _ _).mp hHas with
        ⟨rfl, hLeaf⟩
      exact
        ⟨⟨leaf, []⟩, [], [],
          by simp [select, own?, hLeaf],
          ⟨hHas, rfl, rfl⟩, Or.inl rfl⟩
  | cons edge edges ih =>
      rcases (hasLeaf_cons_iff _ _ _ _ _).mp hHas with
        ⟨child, below, hChild, -, hLeaf⟩
      have hOrderly := hNode.child hChild
      cases edge with
      | tail | any =>
          rcases exists_select_open hNode rfl hHas hFits with
            ⟨rfl, selected, hSelect⟩
          rcases exists_selects_of_select hSelect with
            ⟨found, way, hSelects⟩
          exact
            ⟨selected, found, way, hSelect, hSelects,
              Edge.covers_open rfl found⟩
      | literal text =>
          cases parts with
          | nil => exact hFits.elim
          | cons part parts =>
              rcases hFits with ⟨rfl, hFits⟩
              rcases ih hOrderly hLeaf hFits with
                ⟨selected, found, way, hSelect, hSelects,
                  hCovers⟩
              exact
                ⟨_, _, _, select_literal hNode hChild hSelect,
                  selects_literal hChild hSelects,
                  Edge.covers_cons hCovers _⟩
      | capture source groups =>
          cases parts with
          | nil => exact hFits.elim
          | cons part parts =>
              rcases hFits with ⟨hPart, hFits⟩
              rcases ih hOrderly hLeaf hFits with
                ⟨selected, found, way, hSelect, hSelects,
                  hCovers⟩
              exact
                ⟨_, _, _,
                  select_capture hNode hChild hPart hSelect,
                  selects_capture hChild hPart hSelects,
                  Edge.covers_cons hCovers _⟩

end TreeNode

end RequestRouter
