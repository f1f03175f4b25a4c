import RequestRouter.Proofs.Regex.Openings
import RequestRouter.Proofs.SegmentTree.Spelling

/-
  The parentheses of a flattened tree.

  The source of a tree is a row of pieces, and each of its
  parentheses has an owner: a leaf for a marker, or the node
  behind a capture. The tables of the emission hold what is
  counted along this row; if the captures of the tree are
  counted, each number is that of its own parenthesis.

  Key definitions include:
    * `GroupOwner`
    * `Emission.ofRow`
    * `TreeNode.row`
    * `SegmentTree.HasOwnNumbers`

  Main statements:
    * `TreeNode.flatten_eq_ofRow`
    * `SegmentTree.hasOwnNumbers_of_parse`
-/

------------------------------------------------------------
-- Rows of Pieces
------------------------------------------------------------

namespace RequestRouter

open Regex

/-
  What the parentheses in the source of a tree stand for:
  the marker of a leaf, or the node behind a capture.
-/
inductive GroupOwner where
  | leaf (number : Nat)
  | node (id : Nat)
  deriving DecidableEq, Repr

namespace GroupOwner

/- The leaf that is marked. -/
def leaf? : GroupOwner → Option Nat
  | .leaf number => some number
  | .node _ => none

/- The node behind a capture. -/
def node? : GroupOwner → Option Nat
  | .leaf _ => none
  | .node id => some id

end GroupOwner

namespace Regex

namespace Piece

variable {α : Type}

/- Several rows as an alternation; one stands for itself. -/
def alternation :
    List (List (Piece α)) → List (Piece α)
  | [] => []
  | [row] => row
  | rows =>
      .text ['(', '?', ':'] ::
        [.text ['|']].intercalate rows ++ [.text [')']]

/- Either end of the text is readable. -/
theorem isReadable_anchor
    {sign : Char}
    (hSign : sign = '^' ∨ sign = '$') :
    (text [sign] : Piece α).IsReadable := by
  constructor
  · apply takesGroups_of_isReadAs
    intro first
    exact ⟨_, isReadAs_anchor hSign first⟩
  · rcases hSign with rfl | rfl <;> simp

/- Two rows or more stand in a group without a number. -/
theorem alternation_cons_cons
    (one other : List (Piece α))
    (more : List (List (Piece α))) :
    alternation (one :: other :: more) =
      .text ['(', '?', ':'] ::
        [.text ['|']].intercalate (one :: other :: more) ++
          [.text [')']] :=
  rfl

/- A row of rows is written row by row. -/
theorem rowSource_append
    (row others : List (Piece α)) :
    rowSource (row ++ others) =
      rowSource row ++ rowSource others :=
  List.flatMap_append

/- Rows between bars are written between bars. -/
theorem rowSource_intercalate
    (rows : List (List (Piece α))) :
    rowSource ([.text ['|']].intercalate rows) =
      ['|'].intercalate (rows.map rowSource) := by
  induction rows with
  | nil => rfl
  | cons row rest ih =>
      cases rest with
      | nil => simp [List.intercalate_singleton]
      | cons second more =>
          rw [List.intercalate_cons_cons, List.map_cons,
            List.map_cons, List.intercalate_cons_cons,
            ← List.map_cons, ← ih]
          simp [rowSource, source]

/- An alternation is written as one. -/
theorem rowSource_alternation
    (rows : List (List (Piece α))) :
    rowSource (alternation rows) =
      Emission.alternation (rows.map rowSource) := by
  match rows with
  | [] => rfl
  | [row] => rfl
  | first :: second :: more =>
      have hRows :=
        rowSource_intercalate (first :: second :: more)
      have hOpen : "(?:".toList = ['(', '?', ':'] := rfl
      simp only [List.map_cons] at hRows
      simp only [alternation, Emission.alternation,
        List.map_cons, rowSource_append, hOpen, ← hRows]
      simp [rowSource, source]

/- Bars between rows are not counted. -/
theorem numbers_intercalate
    (first : Nat)
    (rows : List (List (Piece α))) :
    numbers first ([.text ['|']].intercalate rows) =
        numbers first rows.flatten ∧
      (([.text ['|']].intercalate rows).map width).sum =
        (rows.flatten.map width).sum := by
  induction rows generalizing first with
  | nil => exact ⟨rfl, rfl⟩
  | cons row rest ih =>
      cases rest with
      | nil => simp [List.intercalate_singleton]
      | cons second more =>
          rcases ih (first + (row.map width).sum) with
            ⟨hNumbers, hWidth⟩
          rw [List.intercalate_cons_cons, List.flatten_cons]
          constructor
          · unfold numbers at hNumbers ⊢
            rw [List.append_assoc, tally_append,
              tally_append width first row, ← hNumbers]
            simp [tally, owner?, width]
          · rw [List.map_append, List.map_append,
              List.map_append, List.sum_append,
              List.sum_append, List.sum_append, hWidth]
            simp [width]

/- An alternation is counted like its rows. -/
theorem numbers_alternation
    (first : Nat)
    (rows : List (List (Piece α))) :
    numbers first (alternation rows) =
        numbers first rows.flatten ∧
      ((alternation rows).map width).sum =
        (rows.flatten.map width).sum := by
  match rows with
  | [] => exact ⟨rfl, rfl⟩
  | [row] => simp [alternation]
  | one :: other :: more =>
      rcases
          numbers_intercalate first (one :: other :: more)
        with ⟨hNumbers, hWidth⟩
      rw [← hNumbers, ← hWidth, alternation_cons_cons]
      constructor
      · unfold numbers
        rw [tally_append]
        simp [tally, owner?, width]
      · simp [width]

/- An alternation of readable rows is readable. -/
theorem isReadable_alternation
    {rows : List (List (Piece α))}
    (hRows :
      ∀ row ∈ rows, ∀ piece ∈ row, piece.IsReadable) :
    ∀ piece ∈ alternation rows, piece.IsReadable := by
  have hBetween :
      ∀ piece ∈ [.text ['|']].intercalate rows,
        piece.IsReadable := by
    induction rows with
    | nil => simp
    | cons row rest ih =>
        rcases List.forall_mem_cons.mp hRows with
          ⟨hRow, hRest⟩
        cases rest with
        | nil =>
            rw [List.intercalate_singleton]
            exact hRow
        | cons second more =>
            rw [List.intercalate_cons_cons]
            intro piece hPiece
            rw [List.mem_append, List.mem_append] at hPiece
            rcases hPiece with (hOwn | hBar) | hLater
            · exact hRow piece hOwn
            · rw [List.mem_singleton.mp hBar]
              exact ⟨takesGroups_bar, by simp⟩
            · exact ih hRest piece hLater
  match rows, hRows, hBetween with
  | [], _, _ => simp [alternation]
  | [row], hRow, _ => exact hRow row List.mem_cons_self
  | one :: other :: more, _, hBetween =>
      intro piece hPiece
      rw [alternation_cons_cons, List.mem_append,
        List.mem_cons] at hPiece
      rcases hPiece with (rfl | hInner) | hClose
      · exact ⟨takesGroups_open, by simp⟩
      · exact hBetween piece hInner
      · rw [List.mem_singleton.mp hClose]
        exact ⟨takesGroups_close, by simp⟩

end Piece

end Regex

end RequestRouter

------------------------------------------------------------
-- Emissions of Rows
------------------------------------------------------------

namespace RequestRouter

open Regex

namespace Emission

variable {first : Nat}

/-
  What a row emits: its text, and in the tables the numbers
  that are counted along it from a first one on.
-/
def ofRow
    (first : Nat)
    (row : List (Piece GroupOwner)) : Emission where
  source := Piece.rowSource row
  leafGroups :=
    (Piece.numbers first row).filterMap fun entry =>
      entry.1.leaf?.map (entry.2, ·)
  captureGroups :=
    (Piece.numbers first row).filterMap fun entry =>
      entry.1.node?.map (·, entry.2)
  next := first + (row.map Piece.width).sum

/- What rows emit, each behind the one before. -/
def ofRows
    (first : Nat) :
    List (List (Piece GroupOwner)) → List Emission
  | [] => []
  | row :: rest =>
      ofRow first row :: ofRows (ofRow first row).next rest

/- A row of rows emits what they emit in turn. -/
theorem ofRow_append
    (first : Nat)
    (row others : List (Piece GroupOwner)) :
    ofRow first (row ++ others) =
      let front := ofRow first row
      let behind := ofRow front.next others
      ⟨front.source ++ behind.source,
        front.leafGroups ++ behind.leafGroups,
        front.captureGroups ++ behind.captureGroups,
        behind.next⟩ := by
  simp [ofRow, Piece.rowSource_append, Piece.numbers,
    Piece.tally_append, Nat.add_assoc]

/- The tables of rows are those of one row of all of them. -/
theorem ofRow_flatten
    (first : Nat)
    (rows : List (List (Piece GroupOwner))) :
    (ofRow first rows.flatten).leafGroups =
        (ofRows first rows).flatMap (·.leafGroups) ∧
      (ofRow first rows.flatten).captureGroups =
        (ofRows first rows).flatMap (·.captureGroups) ∧
      (ofRow first rows.flatten).next =
        ((ofRows first rows).getLast?.map (·.next)).getD
          first := by
  induction rows generalizing first with
  | nil => exact ⟨rfl, rfl, rfl⟩
  | cons row rest ih =>
      rcases ih (ofRow first row).next with
        ⟨hLeaves, hCaptures, hNext⟩
      rw [List.flatten_cons, ofRow_append, ofRows]
      refine ⟨?_, ?_, ?_⟩
      · rw [List.flatMap_cons, ← hLeaves]
      · rw [List.flatMap_cons, ← hCaptures]
      · refine hNext.trans ?_
        cases rest with
        | nil => rfl
        | cons second more =>
            simp [ofRows, List.getLast?_eq_some_getLast]

/- The alternatives of rows are what an alternation emits. -/
theorem ofAlternatives_ofRows
    (first : Nat)
    (rows : List (List (Piece GroupOwner))) :
    ofAlternatives first (ofRows first rows) =
      ofRow first (Piece.alternation rows) := by
  have hSources :
      (ofRows first rows).map (·.source) =
        rows.map Piece.rowSource := by
    induction rows generalizing first with
    | nil => rfl
    | cons row rest ih =>
        rw [ofRows, List.map_cons, List.map_cons, ih]
        rfl
  rcases ofRow_flatten first rows with
    ⟨hLeaves, hCaptures, hNext⟩
  rcases Piece.numbers_alternation first rows with
    ⟨hNumbers, hWidth⟩
  rw [ofAlternatives, hSources, ← hLeaves, ← hCaptures,
    ← hNext, ← Piece.rowSource_alternation]
  simp only [ofRow, hNumbers, hWidth]

end Emission

end RequestRouter

------------------------------------------------------------
-- Rows of Trees
------------------------------------------------------------

namespace RequestRouter

open Regex

namespace Edge

/-
  What is written for the edge to a node, with the source of
  a capture in parentheses.
-/
def row
    (separator : Text)
    (id : Nat) : Edge → List (Piece GroupOwner)
  | .capture source groups =>
      [.text separator, .group (.node id) source groups]
  | edge => [.text (edge.source separator)]

/- What stands behind an edge is emitted behind its row. -/
theorem ofRow_row_append
    (edge : Edge)
    (separator : Text)
    (id group : Nat)
    (behind : List (Piece GroupOwner)) :
    Emission.ofRow group (edge.row separator id ++ behind) =
      let below :=
        Emission.ofRow (edge.groupAfter group) behind
      ⟨edge.source separator ++ below.source,
        below.leafGroups,
        edge.ownGroup id group ++ below.captureGroups,
        below.next⟩ := by
  rw [Emission.ofRow_append]
  cases edge with
  | literal | tail | any =>
      simp [row, Emission.ofRow, groupAfter, ownGroup,
        Piece.rowSource, Piece.source, Piece.numbers,
        Piece.tally, Piece.owner?, Piece.width]
  | capture source groups =>
      have hNext :
          group + (groups + 1) = group + 1 + groups := by
        omega
      simp [row, Emission.ofRow, groupAfter, ownGroup,
        Edge.source, Piece.rowSource, Piece.source,
        Piece.numbers, Piece.tally, Piece.owner?,
        Piece.width, GroupOwner.leaf?, GroupOwner.node?,
        hNext]

/- A separator is readable. -/
theorem isReadable_separator
    {α : Type}
    {separator : Text}
    (hSeparator : separator = [] ∨ separator = ['/']) :
    (Piece.text separator : Piece α).IsReadable := by
  constructor
  · apply takesGroups_of_isReadAs
    intro first
    exact ⟨_, isReadAs_separator hSeparator first⟩
  · rcases hSeparator with rfl | rfl <;> simp

/- A counted source in parentheses is readable. -/
theorem IsCounted.isReadable
    {α : Type}
    {source : Text}
    {groups : Nat}
    (hCounted : (capture source groups).IsCounted)
    (owner : α) :
    (Piece.group owner source groups).IsReadable := by
  rcases hCounted.exists_body with ⟨body, hClosed⟩
  rcases exists_readBody_of_closedBody hClosed with
    ⟨final, hBody, -, -⟩
  exact
    ⟨takesGroups_closed hClosed,
      Builder.head?_of_readBody hBody⟩

/- The row of a counted edge is readable. -/
theorem isReadable_row
    {edge : Edge}
    (hCounted : edge.IsCounted)
    {separator : Text}
    (hSeparator : separator = [] ∨ separator = ['/'])
    (id : Nat) :
    ∀ piece ∈ edge.row separator id, piece.IsReadable := by
  have hPlain :
      edge.isCapture = false →
        (Piece.text (edge.source separator) :
          Piece GroupOwner).IsReadable := by
    intro hKind
    refine
      ⟨takesGroups_of_isReadAs fun first => ?_,
        edge.head?_source hSeparator⟩
    rcases
        exists_isReadAs Expr.isPreference_ways
          (isReadWell_of_isCounted hCounted) hSeparator first
      with ⟨last, items, hAfter, hItems, -⟩
    have hLast : last = first := by
      cases edge with
      | literal | tail | any =>
          simpa [groupAfter] using hAfter.symm
      | capture => cases hKind
    exact ⟨items, hLast ▸ hItems⟩
  cases edge with
  | literal | tail | any =>
      exact List.forall_mem_singleton.mpr (hPlain rfl)
  | capture source groups =>
      refine
        List.forall_mem_cons.mpr
          ⟨isReadable_separator hSeparator, ?_⟩
      exact
        List.forall_mem_singleton.mpr
          (hCounted.isReadable (GroupOwner.node id))

end Edge

namespace TreeNode

/- What is written for the marker of a leaf. -/
def markerRow
    (leaf : Nat) : List (Piece GroupOwner) :=
  [.group (.leaf leaf) ['$'] 0]

mutual

/-
  What is written for a node: its own marker, and then its
  children in the order of their edges.
-/
def row
    (separator : Text) :
    TreeNode → List (Piece GroupOwner)
  | ⟨_, _, leaf, children⟩ =>
      Piece.alternation
        ((leaf.map markerRow).toList ++
          ((childRows separator children).mergeSort
            fun a b => a.1.precedes b.1).map Prod.snd)

/- Children by their edges, with what is written for them. -/
def childRows
    (separator : Text) :
    List (Edge × TreeNode) →
      List (Edge × List (Piece GroupOwner))
  | [] => []
  | (edge, child) :: rest =>
      (edge, edge.row separator child.id ++
          row ['/'] child) ::
        childRows separator rest

end

/- What is written for a child behind its edge. -/
def entryRow
    (separator : Text)
    (entry : Edge × TreeNode) : List (Piece GroupOwner) :=
  entry.1.row separator entry.2.id ++ entry.2.row ['/']

/- A node is written as an alternation of rows. -/
theorem row_eq
    (separator : Text)
    (node : TreeNode) :
    node.row separator =
      Piece.alternation
        ((node.leaf.map markerRow).toList ++
          node.ordered.map (entryRow separator)) := by
  have hRows :
      ∀ children,
        childRows separator children =
          children.map fun entry =>
            (entry.1, entryRow separator entry) := by
    intro children
    induction children with
    | nil => rfl
    | cons entry rest ih => simp [childRows, entryRow, ih]
  have hSorted :
      ((childRows separator node.children).mergeSort
          fun a b => a.1.precedes b.1).map Prod.snd =
        node.ordered.map (entryRow separator) := by
    have hOrder :
        node.ordered.map
            (fun entry => (entry.1, entryRow separator entry)) =
          (childRows separator node.children).mergeSort
            fun a b => a.1.precedes b.1 := by
      rw [hRows, ordered]
      exact List.map_mergeSort fun a _ b _ => rfl
    rw [← hOrder, List.map_map]
    rfl
  rw [← hSorted]
  cases node
  rfl

/- Children in a row emit what is written for them. -/
theorem flattenAll_eq_ofRows
    {entries : List (Edge × TreeNode)}
    (hEntries :
      ∀ entry ∈ entries, ∀ group,
        entry.2.flatten ['/'] group =
          .ofRow group (entry.2.row ['/']))
    (separator : Text)
    (group : Nat) :
    Branch.flattenAll separator group
        (entries.map branchOf) =
      Emission.ofRows group
        (entries.map (entryRow separator)) := by
  induction entries generalizing group with
  | nil => rfl
  | cons entry rest ih =>
      have hFirst :
          (branchOf entry).flatten separator group =
            .ofRow group (entryRow separator entry) := by
        rw [Branch.flatten_eq, entryRow,
          Edge.ofRow_row_append]
        dsimp only [branchOf]
        rw [hEntries entry List.mem_cons_self]
      rw [List.map_cons, List.map_cons, Branch.flattenAll,
        Emission.ofRows, hFirst,
        ih fun later hLater =>
          hEntries later (List.mem_cons_of_mem _ hLater)]

/-
  A flattened node is what its row emits: its source, and
  the numbers that are counted along it.
-/
theorem flatten_eq_ofRow
    (node : TreeNode)
    (separator : Text)
    (group : Nat) :
    node.flatten separator group =
      .ofRow group (node.row separator) := by
  induction node using induct generalizing separator group with
  | hNode node ih =>
      have hEntries :
          ∀ entry ∈ node.ordered, ∀ group,
            entry.2.flatten ['/'] group =
              .ofRow group (entry.2.row ['/']) :=
        fun entry hEntry =>
          ih entry ((mem_ordered_iff _ _).mp hEntry) ['/']
      rw [flatten_eq, row_eq,
        ← Emission.ofAlternatives_ofRows, alternatives]
      congr 1
      cases node.leaf with
      | none => exact flattenAll_eq_ofRows hEntries _ _
      | some leaf =>
          exact
            congrArg (Emission.marker group leaf :: ·)
              (flattenAll_eq_ofRows hEntries _ _)

/- What is written for a counted node is readable. -/
theorem isReadable_row
    {node : TreeNode}
    (hNode : node.IsOrderly)
    (hCounted : node.AllEdges Edge.IsCounted)
    {separator : Text}
    (hSeparator : separator = [] ∨ separator = ['/']) :
    ∀ piece ∈ node.row separator, piece.IsReadable := by
  induction node using induct generalizing separator with
  | hNode node ih =>
      rw [row_eq]
      apply Piece.isReadable_alternation
      intro row hRow
      rcases List.mem_append.mp hRow with hMarker | hChild
      · rcases
            Option.map_eq_some_iff.mp
              (Option.mem_toList.mp hMarker) with
          ⟨leaf, -, rfl⟩
        refine List.forall_mem_singleton.mpr ⟨?_, by simp⟩
        apply takesGroups_of_isReadAs
        intro first
        exact
          ⟨_, isReadAs_capture (by simp)
            (isReadAs_anchor (Or.inr rfl) (first + 1))⟩
      · rcases List.mem_map.mp hChild with
          ⟨entry, hEntry, rfl⟩
        rw [mem_ordered_iff] at hEntry
        intro piece hPiece
        rcases List.mem_append.mp hPiece with hEdge | hBelow
        · exact
            Edge.isReadable_row (hCounted.edge hNode hEntry)
              hSeparator entry.2.id piece hEdge
        · exact
            ih entry hEntry (hNode.child hEntry)
              (hCounted.child hEntry) (Or.inr rfl) piece
              hBelow

end TreeNode

end RequestRouter

------------------------------------------------------------
-- Numbers of a Tree
------------------------------------------------------------

namespace RequestRouter

open Regex

namespace SegmentTree

/- What is written for a tree. -/
def row
    (tree : SegmentTree) : List (Piece GroupOwner) :=
  .text ['^'] :: tree.root.row []

/- The leaves with the positions of their markers. -/
def markerPositions
    (tree : SegmentTree) : List (Nat × Nat) :=
  (Piece.parentheses tree.row).filterMap fun entry =>
    entry.1.leaf?.map (·, entry.2)

/- The nodes with the positions of their captures. -/
def capturePositions
    (tree : SegmentTree) : List (Nat × Nat) :=
  (Piece.parentheses tree.row).filterMap fun entry =>
    entry.1.node?.map (·, entry.2)

/-
  Whether a tree is written as its row, and its tables hold
  the numbers of its own parentheses: each leaf that of its
  marker, and each node that of the capture in front of it.
-/
structure HasOwnNumbers
    (tree : SegmentTree) : Prop where
  source : tree.flatten.source = Piece.rowSource tree.row
  leaves :
    AreOwn tree.flatten.source
      (tree.flatten.leafGroups.map Prod.swap)
      tree.markerPositions
  nodes :
    AreOwn tree.flatten.source tree.flatten.captureGroups
      tree.capturePositions

/- A flattened tree is what its row emits. -/
theorem flatten_eq_ofRow
    (tree : SegmentTree) :
    tree.flatten = .ofRow 1 tree.row := by
  rw [flatten, TreeNode.flatten_eq_ofRow]
  simp [row, Branch.behind, Emission.ofRow,
    Piece.rowSource, Piece.source, Piece.numbers,
    Piece.tally, Piece.owner?, Piece.width]

/-
  A tree with counted captures, the source of which can be
  read, has its own numbers.
-/
theorem hasOwnNumbers_of_parse
    {tree : SegmentTree}
    (hTree : tree.root.IsOrderly)
    (hCounted : tree.root.AllEdges Edge.IsCounted)
    {e : Expr}
    (hParse : parse tree.flatten.source = .ok e) :
    tree.HasOwnNumbers := by
  have hRow : ∀ piece ∈ tree.row, piece.IsReadable :=
    List.forall_mem_cons.mpr
      ⟨Piece.isReadable_anchor (Or.inl rfl),
        TreeNode.isReadable_row hTree hCounted (Or.inl rfl)⟩
  rw [flatten_eq_ofRow] at hParse
  have hOwn := Piece.areOwn_of_parse hRow hParse
  refine ⟨?_, ?_, ?_⟩
  · rw [flatten_eq_ofRow, Emission.ofRow]
  · rw [flatten_eq_ofRow, Emission.ofRow,
      List.map_filterMap, markerPositions]
    simpa [Option.map_map, Function.comp_def] using
      hOwn.filterMap GroupOwner.leaf?
  · rw [flatten_eq_ofRow]
    exact hOwn.filterMap GroupOwner.node?

end SegmentTree

end RequestRouter
