import RequestRouter.SegmentTree.Basic

/-
  One regular expression for a whole segment tree.

  Siblings become the branches of an alternation, in a fixed
  order. Each leaf has a marker, an empty group at the end
  of the text, and each capture edge a group of its own;
  groups are numbered in the order of the text.

  Key definitions include:
    * `Emission`
    * `TreeNode.flatten`
    * `SegmentTree.flatten`
-/

------------------------------------------------------------
-- Emissions
------------------------------------------------------------

namespace RequestRouter

/-
  The source of a subtree with the groups in it: the group
  and leaf of each marker, the node and group of each
  capture, and the next free group.
-/
structure Emission where
  source : Text
  leafGroups : List (Nat × Nat)
  captureGroups : List (Nat × Nat)
  next : Nat
  deriving DecidableEq, Repr

/- A child whose emission waits for its first group. -/
structure Branch where
  edge : Edge
  id : Nat
  emit : Nat → Emission

namespace Branch

/- Put the text of an edge in front of a child's emission. -/
def behind
    (front : Text)
    (emission : Emission) : Emission :=
  { emission with source := front ++ emission.source }

/- The emission of a branch behind a separator. -/
def flatten
    (separator : Text)
    (group : Nat)
    (branch : Branch) : Emission :=
  match branch.edge with
  | .literal text =>
      behind (separator ++ Regex.escape text)
        (branch.emit group)
  | .capture source groups =>
      let inner := branch.emit (group + 1 + groups)
      { inner with
        source :=
          separator ++ '(' :: source ++ ')' :: inner.source
        captureGroups :=
          (branch.id, group) :: inner.captureGroups }
  | .tail =>
      behind "(?:/.*)?".toList (branch.emit group)
  | .any =>
      behind ['.', '*'] (branch.emit group)

/- The emissions of branches, each behind the one before. -/
def flattenAll
    (separator : Text)
    (group : Nat) :
    List Branch → List Emission
  | [] => []
  | branch :: rest =>
      let emission := branch.flatten separator group
      emission :: flattenAll separator emission.next rest

/- Branches in the order of their edges. -/
def sorted
    (branches : List Branch) : List Branch :=
  branches.mergeSort fun a b => a.edge.precedes b.edge

end Branch

namespace Emission

/- The alternation of sources; one needs no parentheses. -/
def alternation : List Text → Text
  | [] => []
  | [source] => source
  | sources =>
      "(?:".toList ++ ['|'].intercalate sources ++ [')']

/- The marker of a leaf. -/
def marker
    (group leaf : Nat) : Emission :=
  ⟨['(', '$', ')'], [(group, leaf)], [], group + 1⟩

/- The emission of alternatives, from a first free group. -/
def ofAlternatives
    (group : Nat)
    (alternatives : List Emission) : Emission :=
  ⟨alternation (alternatives.map (·.source)),
    alternatives.flatMap (·.leafGroups),
    alternatives.flatMap (·.captureGroups),
    (alternatives.getLast?.map (·.next)).getD group⟩

end Emission

end RequestRouter

------------------------------------------------------------
-- Flattening
------------------------------------------------------------

namespace RequestRouter

namespace TreeNode

mutual

/-
  The emission of a node from a first free group. The
  separator stands in front of the segments below it.
-/
def flatten
    (separator : Text) :
    TreeNode → Nat → Emission
  | ⟨_, _, leaf, children⟩, group =>
      let own := (leaf.map (Emission.marker group)).toList
      let first := if leaf.isSome then group + 1 else group
      .ofAlternatives group
        (own ++ Branch.flattenAll separator first
          (Branch.sorted (branches children)))

/- The children of a node as branches. -/
def branches :
    List (Edge × TreeNode) → List Branch
  | [] => []
  | (edge, child) :: rest =>
      ⟨edge, child.id, flatten ['/'] child⟩ ::
        branches rest

end

end TreeNode

namespace SegmentTree

/- The anchored expression of a tree, with its groups. -/
def flatten
    (tree : SegmentTree) : Emission :=
  Branch.behind ['^'] (tree.root.flatten [] 1)

end SegmentTree

end RequestRouter
