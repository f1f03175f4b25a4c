import RequestRouter.Proofs.Regex.Matching
import RequestRouter.Proofs.Regex.Reading
import RequestRouter.Proofs.SegmentTree.Numbering

/-
  The expression that the source of a flattened tree is
  read as.

  Every edge has ways to match, and a tree the ways of its
  leaves and children, in order. The source of a flattened
  tree is read as an expression with just these ways, if
  the source of each capture is read as one group.

  Key definitions include:
    * `Edge.ways`
    * `Edge.IsReadWell`
    * `TreeNode.ways`

  Main statements:
    * `TreeNode.ways_eq`
    * `TreeNode.denotes_flatten`
-/

------------------------------------------------------------
-- Edges
------------------------------------------------------------

namespace RequestRouter

open Regex

namespace Edge

/- The text of an edge behind a separator. -/
def source
    (separator : Text) : Edge → Text
  | .literal text => separator ++ Regex.escape text
  | .capture source _ => separator ++ '(' :: source ++ [')']
  | .tail => ['(', '?', ':', '/', '.', '*', ')', '?']
  | .any => ['.', '*']

/- The first free group behind an edge. -/
def groupAfter
    (group : Nat) : Edge → Nat
  | .capture _ groups => group + 1 + groups
  | _ => group

/- The entry of an edge in the table of captures. -/
def ownGroup
    (id group : Nat) : Edge → List (Nat × Nat)
  | .capture _ _ => [(id, group)]
  | _ => []

/- Any number of characters that do not end a line. -/
def lineWays : Ways :=
  Ways.unrecorded
    (Ways.repetition 0 none true
      (Ways.pass (CharSet.allBut ['\n']).contains))

/-
  The ways of an edge behind a separator. The ways of the
  source of a capture, with the number of its group, are
  given by `inner`.
-/
def ways
    (inner : Text → Nat → Ways)
    (separator : Text)
    (group : Nat) : Edge → Ways
  | .literal text => Ways.text (separator ++ text)
  | .capture source _ =>
      Ways.andThen (Ways.text separator)
        (Ways.capture group (inner source group))
  | .tail =>
      Ways.unrecorded
        (Ways.repetition 0 (some 1) true
          (Ways.andThen (Ways.pass (· == '/')) lineWays))
  | .any => lineWays

/-
  Whether an edge is read as it is meant: a capture as one
  group that contains as many groups as it is said to.
-/
def IsReadWell
    (preferred : Expr → Ways)
    (inner : Text → Nat → Ways) : Edge → Prop
  | .capture source groups =>
      ∀ first, ∃ body,
        IsReadAs ('(' :: source ++ [')']) first
            (first + 1 + groups)
            [.group (first + 1) none body] ∧
          preferred body = inner source (first + 1)
  | _ => True

end Edge

namespace Branch

/- What a branch emits is its child's behind its edge. -/
theorem flatten_eq
    (branch : Branch)
    (separator : Text)
    (group : Nat) :
    branch.flatten separator group =
      ⟨branch.edge.source separator ++
          (branch.emit (branch.edge.groupAfter group)).source,
        (branch.emit
          (branch.edge.groupAfter group)).leafGroups,
        branch.edge.ownGroup branch.id group ++
          (branch.emit
            (branch.edge.groupAfter group)).captureGroups,
        (branch.emit (branch.edge.groupAfter group)).next⟩ := by
  rcases branch with ⟨edge, id, emit⟩
  cases edge with
  | literal | any => rfl
  | capture source groups =>
      simp [flatten, Edge.source, Edge.groupAfter,
        Edge.ownGroup]
  | tail =>
      have hText :
          "(?:/.*)?".toList =
            ['(', '?', ':', '/', '.', '*', ')', '?'] := rfl
      simp only [flatten, behind, hText, Edge.source,
        Edge.groupAfter, Edge.ownGroup, List.nil_append]

end Branch

namespace Edge

variable {preferred : Expr → Ways}
variable {inner : Text → Nat → Ways}

/- A separator is read as its characters. -/
theorem isReadAs_separator
    {separator : Text}
    (hSeparator : separator = [] ∨ separator = ['/'])
    (groups : Nat) :
    IsReadAs separator groups groups
      (separator.map .char) := by
  rcases hSeparator with rfl | rfl
  · exact isReadAs_nil groups
  · exact isReadAs_plain (by decide) groups

/- The source of an edge is read with the ways of the edge. -/
theorem exists_isReadAs
    (hPreferred : IsPreference preferred)
    {edge : Edge}
    (hEdge : edge.IsReadWell preferred inner)
    {separator : Text}
    (hSeparator : separator = [] ∨ separator = ['/'])
    (first : Nat) :
    ∃ last items,
      edge.groupAfter (first + 1) = last + 1 ∧
        IsReadAs (edge.source separator) first last items ∧
        Ways.sequence (items.map preferred) =
          edge.ways inner separator (first + 1) ∧
        ∀ id, ∀ entry ∈ edge.ownGroup id (first + 1),
          entry.2 ∈ Expr.listOuterGroups items := by
  have hFront := isReadAs_separator hSeparator first
  have hLine :
      preferred
          (.repetition 0 none true
            (.set (.allBut ['\n']))) = lineWays := by
    rw [hPreferred.repetition rfl, hPreferred.set]
    rfl
  cases edge with
  | literal text =>
      refine
        ⟨first, (separator ++ text).map .char, rfl, ?_, ?_,
          by simp [ownGroup]⟩
      · rw [List.map_append]
        exact
          isReadAs_append hFront (head?_escape text)
            (isReadAs_escape text first)
      · exact hPreferred.chars _
  | capture source groups =>
      rcases hEdge first with ⟨body, hBody, hWays⟩
      refine
        ⟨first + 1 + groups,
          separator.map .char ++
            [.group (first + 1) none body], ?_, ?_, ?_, ?_⟩
      · simp only [groupAfter]
        omega
      · have hRead := isReadAs_append hFront (by simp) hBody
        simpa [Edge.source] using hRead
      · rw [List.map_append, Ways.sequence_append,
          hPreferred.chars, ways, ← hWays]
        simp [Ways.sequence, Ways.andThen_stay,
          hPreferred.group]
      · intro id entry hEntry
        rw [List.mem_singleton.mp hEntry,
          Expr.listOuterGroups_append]
        simp [Expr.listOuterGroups, Expr.outerGroups]
  | tail =>
      have hDots :=
        isReadAs_repeated '*' (Or.inl rfl)
          (isReadAs_dot first)
      have hInner :=
        isReadAs_append
          (isReadAs_plain (c := '/') (by decide) first)
          (by simp) hDots
      refine
        ⟨first, _, rfl, isReadAs_optional hInner, ?_,
          by simp [ownGroup]⟩
      simp only [List.singleton_append, List.map_cons,
        List.map_nil, Ways.sequence, Ways.andThen_stay, ways]
      rw [hPreferred.repetition (by rfl),
        hPreferred.sequence]
      simp [Ways.sequence, Ways.andThen_stay, hLine,
        hPreferred.char]
  | any =>
      have hDots :=
        isReadAs_repeated '*' (Or.inl rfl)
          (isReadAs_dot first)
      refine
        ⟨first, _, rfl, hDots, ?_, by simp [ownGroup]⟩
      simp [Ways.sequence, Ways.andThen_stay, hLine, ways]

end Edge

end RequestRouter

------------------------------------------------------------
-- Ways of Trees
------------------------------------------------------------

namespace RequestRouter

open Regex

namespace TreeNode

/- The ways of a leaf's marker. -/
def markerWays
    (group : Nat) : Ways :=
  Ways.capture group (Ways.check .textEnd)

/-
  The ways of children in a row, each behind its edge and
  with the groups behind those of the one before.
-/
def siblingWays
    (inner : Text → Nat → Ways)
    (separator : Text)
    (group : Nat) :
    List ((Edge × TreeNode) × (Nat → Ways)) → List Ways
  | [] => []
  | ((edge, child), below) :: rest =>
      Ways.andThen (edge.ways inner separator group)
          (below (edge.groupAfter group)) ::
        siblingWays inner separator
          (child.flatten ['/'] (edge.groupAfter group)).next
          rest

mutual

/-
  The ways of a flattened node: those of its own marker, and
  then those of its children in their order.
-/
def ways
    (inner : Text → Nat → Ways)
    (separator : Text) :
    TreeNode → Nat → Ways
  | ⟨_, _, leaf, children⟩, group =>
      .choice
        ((leaf.map fun _ => markerWays group).toList ++
          siblingWays inner separator
            (if leaf.isSome then group + 1 else group)
            ((childWays inner children).mergeSort fun a b =>
              a.1.1.precedes b.1.1))

/- Children with their ways. -/
def childWays
    (inner : Text → Nat → Ways) :
    List (Edge × TreeNode) →
      List ((Edge × TreeNode) × (Nat → Ways))
  | [] => []
  | (edge, child) :: rest =>
      ((edge, child), ways inner ['/'] child) ::
        childWays inner rest

end

/- A child with its ways. -/
def withWays
    (inner : Text → Nat → Ways)
    (entry : Edge × TreeNode) :
    (Edge × TreeNode) × (Nat → Ways) :=
  (entry, entry.2.ways inner ['/'])

/- Children with their ways are theirs, one by one. -/
theorem childWays_eq
    (inner : Text → Nat → Ways)
    (children : List (Edge × TreeNode)) :
    childWays inner children =
      children.map (withWays inner) := by
  induction children with
  | nil => rfl
  | cons entry rest ih => simp [childWays, withWays, ih]

/- The ways that a node is the choice of. -/
def alternativeWays
    (inner : Text → Nat → Ways)
    (separator : Text)
    (group : Nat)
    (node : TreeNode) : List Ways :=
  (node.leaf.map fun _ => markerWays group).toList ++
    siblingWays inner separator
      (if node.leaf.isSome then group + 1 else group)
      (node.ordered.map (withWays inner))

/- The ways of a node are the choice of these. -/
theorem ways_eq
    (inner : Text → Nat → Ways)
    (separator : Text)
    (node : TreeNode)
    (group : Nat) :
    node.ways inner separator group =
      .choice
        (node.alternativeWays inner separator group) := by
  have hSorted :
      (childWays inner node.children).mergeSort
          (fun a b => a.1.1.precedes b.1.1) =
        node.ordered.map (withWays inner) := by
    rw [childWays_eq, ordered]
    refine (List.map_mergeSort ?_).symm
    intro a ha b hb
    rfl
  rw [alternativeWays, ← hSorted]
  cases node
  rfl

end TreeNode

end RequestRouter

------------------------------------------------------------
-- Reading Flattened Trees
------------------------------------------------------------

namespace RequestRouter

open Regex

namespace TreeNode

/- Whether all edges on the way to leaves have a property. -/
def AllEdges
    (holds : Edge → Prop)
    (node : TreeNode) : Prop :=
  ∀ edges trail leaf, node.HasLeaf edges trail leaf →
    ∀ edge ∈ edges, holds edge

namespace AllEdges

variable {holds : Edge → Prop}
variable {node : TreeNode}

/- What all edges have, those below a child have. -/
theorem child
    (hAll : node.AllEdges holds)
    {entry : Edge × TreeNode}
    (hEntry : entry ∈ node.children) :
    entry.2.AllEdges holds := by
  intro edges trail leaf hHas edge hEdge
  exact
    hAll (entry.1 :: edges) (entry.2.id :: trail) leaf
      (.child hEntry hHas) edge
      (List.mem_cons_of_mem _ hEdge)

/- In an orderly tree every edge is on the way to a leaf. -/
theorem edge
    (hAll : node.AllEdges holds)
    (hNode : node.IsOrderly)
    {entry : Edge × TreeNode}
    (hEntry : entry ∈ node.children) :
    holds entry.1 := by
  rcases
      exists_hasLeaf entry.2 (hNode.child hEntry)
        (hNode.tidy.used entry hEntry) with
    ⟨edges, trail, leaf, hHas⟩
  exact
    hAll (entry.1 :: edges) (entry.2.id :: trail) leaf
      (.child hEntry hHas) entry.1 (by simp)

end AllEdges

end TreeNode

namespace Emission

variable {preferred : Expr → Ways}

/-
  Whether an emission is read up to its next free group, as
  items that match in the given ways, with all groups of its
  tables outside repetitions.
-/
def Denotes
    (preferred : Expr → Ways)
    (first : Nat)
    (emission : Emission)
    (ways : Ways) : Prop :=
  ∃ last items,
    emission.next = last + 1 ∧
      emission.source.head? ≠ some '?' ∧
      IsReadAs emission.source first last items ∧
      Ways.sequence (items.map preferred) = ways ∧
      emission.groups ⊆ Expr.listOuterGroups items

/- Whether emissions denote ways, each behind the other. -/
inductive AllDenote
    (preferred : Expr → Ways) :
    Nat → List Emission → Nat → List Ways → Prop where
  | nil (groups : Nat) :
      AllDenote preferred groups [] groups []
  | cons
      {first middle last emission emissions items waysList}
      (hNext : emission.next = middle + 1)
      (hHead : emission.source.head? ≠ some '?')
      (hRead : IsReadAs emission.source first middle items)
      (hGroups :
        emission.groups ⊆ Expr.listOuterGroups items)
      (hRest :
        AllDenote preferred middle emissions last waysList) :
      AllDenote preferred first (emission :: emissions) last
        (Ways.sequence (items.map preferred) :: waysList)

namespace AllDenote

/- The sources are read in turn, with the given ways. -/
theorem exists_areReadAs
    {first last : Nat}
    {emissions : List Emission}
    {waysList : List Ways}
    (hAll :
      AllDenote preferred first emissions last waysList) :
    ∃ lists,
      AreReadAs (emissions.map (·.source)) first last
          lists ∧
        lists.map
            (fun items =>
              Ways.sequence (items.map preferred)) =
          waysList ∧
        emissions.flatMap groups ⊆
          Expr.listOuterGroups
            (lists.map Expr.sequence) := by
  induction hAll with
  | nil => exact ⟨[], .nil _, rfl, by simp⟩
  | cons hNext hHead hRead hGroups _ ih =>
      rcases ih with ⟨lists, hLists, rfl, hOthers⟩
      refine
        ⟨_ :: lists, .cons hHead hRead hLists, rfl, ?_⟩
      simp only [List.flatMap_cons, List.map_cons,
        Expr.listOuterGroups, Expr.outerGroups_sequence]
      exact
        List.append_subset.mpr
          ⟨List.subset_append_of_subset_left _ hGroups,
            List.subset_append_of_subset_right _ hOthers⟩

/- The next free group stands behind the last one. -/
theorem getLast?_next
    {first last : Nat}
    {emissions : List Emission}
    {waysList : List Ways}
    (hAll :
      AllDenote preferred first emissions last waysList) :
    (emissions.getLast?.map (·.next)).getD (first + 1) =
      last + 1 := by
  induction hAll with
  | nil => rfl
  | @cons first middle last emission emissions items
      waysList hNext hHead hRead hGroups hRest ih =>
      cases emissions with
      | nil =>
          cases hRest
          exact hNext
      | cons second more =>
          rw [List.getLast?_cons_cons, ← ih]
          simp [List.getLast?_eq_some_getLast]

/- Several emissions denote the choice of their ways. -/
theorem denotes
    (hPreferred : IsPreference preferred)
    {first last : Nat}
    {emissions : List Emission}
    {waysList : List Ways}
    (hAll :
      AllDenote preferred first emissions last waysList)
    (hSome : emissions ≠ []) :
    (ofAlternatives (first + 1) emissions).Denotes preferred
      first (.choice waysList) := by
  have hLast := hAll.getLast?_next
  match emissions, hSome, hAll with
  | [emission], _, hAll =>
      cases hAll with
      | cons hNext hHead hRead hGroups hRest =>
          cases hRest
          refine ⟨_, _, hLast, hHead, hRead, ?_, ?_⟩
          · funext place
            simp [Ways.choice]
          · intro group hGroup
            have hOwn :=
              (groups_ofAlternatives (first + 1)
                [emission]).mem_iff.mp hGroup
            exact hGroups (by simpa using hOwn)
  | one :: other :: more, _, hAll =>
      rcases hAll.exists_areReadAs with
        ⟨lists, hLists, rfl, hGroups⟩
      refine
        ⟨_, _, hLast, ?_,
          isReadAs_alternation hLists (by simp), ?_, ?_⟩
      · simp [ofAlternatives, alternation]
      · simp only [List.map_cons, List.map_nil,
          Ways.sequence, Ways.andThen_stay]
        rw [hPreferred.alternation, List.map_map]
        congr 1
        apply List.map_congr_left
        intro items hItems
        exact hPreferred.sequence items
      · intro group hGroup
        have hOwn :=
          (groups_ofAlternatives (first + 1)
            (one :: other :: more)).mem_iff.mp hGroup
        simpa [Expr.listOuterGroups, Expr.outerGroups]
          using hGroups hOwn

end AllDenote

end Emission

end RequestRouter

------------------------------------------------------------
-- Flattened Trees
------------------------------------------------------------

namespace RequestRouter

open Regex

variable {preferred : Expr → Ways}
variable {inner : Text → Nat → Ways}

namespace Edge

/- No edge starts with a question mark. -/
theorem head?_source
    (edge : Edge)
    {separator : Text}
    (hSeparator : separator = [] ∨ separator = ['/']) :
    (edge.source separator).head? ≠ some '?' := by
  rcases hSeparator with rfl | rfl <;>
    cases edge <;> simp [source, head?_escape]

end Edge

namespace Branch

/- A branch denotes the ways of its edge and child in a row. -/
theorem exists_denotes_flatten
    (hPreferred : IsPreference preferred)
    (branch : Branch)
    (hEdge : branch.edge.IsReadWell preferred inner)
    {below : Nat → Ways}
    (hEmit :
      ∀ first,
        (branch.emit (first + 1)).Denotes preferred first
          (below (first + 1)))
    {separator : Text}
    (hSeparator : separator = [] ∨ separator = ['/'])
    (first : Nat) :
    (branch.flatten separator (first + 1)).Denotes preferred
      first
      (Ways.andThen
        (branch.edge.ways inner separator (first + 1))
        (below (branch.edge.groupAfter (first + 1)))) := by
  rcases
      Edge.exists_isReadAs hPreferred hEdge hSeparator
        first with
    ⟨middle, items, hAfter, hItems, hWays, hOwn⟩
  rcases hEmit middle with
    ⟨last, others, hNext, hHead, hOthers, hBelow, hGroups⟩
  rw [flatten_eq, hAfter]
  refine
    ⟨last, items ++ others, hNext, ?_,
      isReadAs_append hItems hHead hOthers, ?_, ?_⟩
  · have hFront := branch.edge.head?_source hSeparator
    cases hSource : branch.edge.source separator with
    | nil => simpa using hHead
    | cons c rest => simpa [hSource] using hFront
  · rw [List.map_append, Ways.sequence_append, hWays, hBelow]
  · intro group hGroup
    rw [Expr.listOuterGroups_append, List.mem_append]
    simp only [Emission.groups, List.map_append,
      List.mem_append] at hGroup
    rcases hGroup with hMarker | hFront | hCapture
    · exact Or.inr (hGroups (by simp [Emission.groups, hMarker]))
    · rcases List.mem_map.mp hFront with
        ⟨entry, hEntry, rfl⟩
      exact Or.inl (hOwn branch.id entry hEntry)
    · exact Or.inr (hGroups (by simp [Emission.groups, hCapture]))

end Branch

namespace TreeNode

/- The marker of a leaf denotes its ways. -/
theorem denotes_marker
    (hPreferred : IsPreference preferred)
    (first leaf : Nat) :
    (Emission.marker (first + 1) leaf).Denotes preferred
      first (markerWays (first + 1)) := by
  have hInner : ['$'].head? ≠ some '?' := by simp
  have hRead :
      IsReadAs ['(', '$', ')'] first (first + 1)
        [.group (first + 1) none (.assertion .textEnd)] :=
    isReadAs_capture hInner
      (isReadAs_anchor (Or.inr rfl) (first + 1))
  refine
    ⟨first + 1, _, rfl, by simp [Emission.marker], hRead, ?_,
      ?_⟩
  · simp [Ways.sequence, Ways.andThen_stay, hPreferred.group,
      hPreferred.assertion, markerWays]
  · simp [Emission.groups, Emission.marker,
      Expr.listOuterGroups, Expr.outerGroups]

/- Children in a row denote their ways in a row. -/
theorem exists_allDenote_flattenAll
    (hPreferred : IsPreference preferred)
    {entries : List (Edge × TreeNode)}
    (hEntries :
      ∀ entry ∈ entries,
        entry.1.IsReadWell preferred inner ∧
          ∀ first,
            (entry.2.flatten ['/'] (first + 1)).Denotes
              preferred first
              (entry.2.ways inner ['/'] (first + 1)))
    {separator : Text}
    (hSeparator : separator = [] ∨ separator = ['/'])
    (first : Nat) :
    ∃ last,
      Emission.AllDenote preferred first
        (Branch.flattenAll separator (first + 1)
          (entries.map branchOf)) last
        (siblingWays inner separator (first + 1)
          (entries.map (withWays inner))) := by
  induction entries generalizing first with
  | nil => exact ⟨first, .nil first⟩
  | cons entry rest ih =>
      rcases hEntries entry (by simp) with ⟨hEdge, hChild⟩
      rcases
          Branch.exists_denotes_flatten hPreferred
            (branchOf entry) hEdge hChild
            hSeparator first with
        ⟨middle, items, hNext, hHead, hRead, hWays,
          hGroups⟩
      rcases
          ih (fun later hLater =>
            hEntries later (List.mem_cons_of_mem _ hLater))
            middle with
        ⟨last, hRest⟩
      have hAfter :
          (entry.2.flatten ['/']
              (entry.1.groupAfter (first + 1))).next =
            middle + 1 := by
        rw [← hNext, Branch.flatten_eq]
        rfl
      refine ⟨last, ?_⟩
      simp only [List.map_cons, Branch.flattenAll,
        siblingWays, withWays, hNext, hAfter]
      have hBoth :=
        Emission.AllDenote.cons hNext hHead hRead hGroups
          hRest
      rw [hWays] at hBoth
      exact hBoth

/-
  A flattened node is read with the ways of the node, if it
  is orderly, not barren, and its captures are read well.
-/
theorem denotes_flatten
    (hPreferred : IsPreference preferred)
    (node : TreeNode)
    (hNode : node.IsOrderly)
    (hUsed : node.IsUsed)
    (hEdges : node.AllEdges (·.IsReadWell preferred inner))
    {separator : Text}
    (hSeparator : separator = [] ∨ separator = ['/'])
    (first : Nat) :
    (node.flatten separator (first + 1)).Denotes preferred
      first (node.ways inner separator (first + 1)) := by
  induction node using induct
    generalizing separator first with
  | hNode node ih =>
      have hEntries :
          ∀ entry ∈ node.ordered,
            entry.1.IsReadWell preferred inner ∧
              ∀ first,
                (entry.2.flatten ['/'] (first + 1)).Denotes
                  preferred first
                  (entry.2.ways inner ['/'] (first + 1)) := by
        intro entry hEntry
        rw [mem_ordered_iff] at hEntry
        exact
          ⟨hEdges.edge hNode hEntry,
            ih entry hEntry (hNode.child hEntry)
              (hNode.tidy.used entry hEntry)
              (hEdges.child hEntry) (Or.inr rfl)⟩
      rw [flatten_eq, ways_eq, alternatives, alternativeWays]
      cases hLeaf : node.leaf with
      | none =>
          rcases
              exists_allDenote_flattenAll hPreferred hEntries
                hSeparator first with
            ⟨last, hAll⟩
          have hChildren : node.children ≠ [] := by
            simpa [IsUsed, hLeaf] using hUsed
          refine hAll.denotes hPreferred ?_
          intro hNone
          have hOrdered : node.ordered ≠ [] := fun hEmpty =>
            hChildren (hEmpty ▸ node.ordered_perm).symm.eq_nil
          rcases List.exists_cons_of_ne_nil hOrdered with
            ⟨entry, rest, hList⟩
          simp [hList, Branch.flattenAll] at hNone
      | some leaf =>
          rcases
              exists_allDenote_flattenAll hPreferred hEntries
                hSeparator (first + 1) with
            ⟨last, hAll⟩
          rcases denotes_marker hPreferred first leaf with
            ⟨middle, items, hNext, hHead, hRead, hWays,
              hGroups⟩
          cases hNext
          have hNext :
              (Emission.marker (first + 1) leaf).next =
                first + 1 + 1 := rfl
          have hBoth :=
            Emission.AllDenote.cons hNext hHead hRead hGroups
              hAll
          rw [hWays] at hBoth
          exact hBoth.denotes hPreferred (by simp)

end TreeNode

end RequestRouter
