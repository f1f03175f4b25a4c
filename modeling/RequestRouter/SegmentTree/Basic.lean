import RequestRouter.AssocList
import RequestRouter.SegmentTree.Edge

/-
  The segment tree of a route set.

  Paths that share leading edges share nodes. A path is
  refused where the tree would become ambiguous: next to a
  capture there is room for neither a literal nor another
  capture, and a node behind an edge that may span segments
  has one continuation only.

  Key definitions include:
    * `TreeNode`
    * `SegmentTree`
    * `SegmentTree.insert`
    * `SegmentTree.admits`
-/

------------------------------------------------------------
-- Nodes
------------------------------------------------------------

namespace RequestRouter

/-
  A node with its number, whether the edge to it may span
  segments, the leaf that ends here, and its children.
-/
structure TreeNode where
  id : Nat
  spans : Bool
  leaf : Option Nat
  children : List (Edge × TreeNode)

namespace TreeNode

/- A node without leaf and children. -/
def fresh
    (id : Nat)
    (spans : Bool) : TreeNode :=
  ⟨id, spans, none, []⟩

/- The child along an edge. -/
def child?
    (node : TreeNode)
    (edge : Edge) : Option TreeNode :=
  AssocList.find? (· == edge) node.children

/- Whether some child is reached by a capture. -/
def hasCapture
    (node : TreeNode) : Bool :=
  node.children.any (·.1.isCapture)

/- Whether a new child along an edge clashes with siblings. -/
def clashes
    (node : TreeNode) : Edge → Bool
  | .literal _ => node.hasCapture
  | .capture _ _ =>
      node.children.any fun entry =>
        entry.1.isLiteral || entry.1.isCapture
  | .tail | .any => false

/- Whether a node has a continuation that must stay alone. -/
def isTaken
    (node : TreeNode) : Bool :=
  node.spans &&
    (node.leaf.isSome || !node.children.isEmpty)

/- Put a node along an edge, in place of one there. -/
def setChild
    (node : TreeNode)
    (edge : Edge)
    (child : TreeNode) : TreeNode :=
  { node with
    children :=
      AssocList.upsert (· == edge) edge child
        (fun _ => child) node.children }

end TreeNode

end RequestRouter

------------------------------------------------------------
-- Insertion
------------------------------------------------------------

namespace RequestRouter

/-
  The outcome of an insertion below a node: the node, the
  next free number, and the numbers of the nodes along the
  steps, or none for a conflict. Nodes made before a
  conflict stay.
-/
structure Insertion where
  node : TreeNode
  next : Nat
  trail : Option (List Nat)

namespace TreeNode

/- Let a leaf end at a node. -/
def insertLeaf
    (node : TreeNode)
    (leaf next : Nat) : Insertion :=
  match node.leaf with
  | some other =>
      ⟨node, next, if other = leaf then some [] else none⟩
  | none =>
      if node.spans && !node.children.isEmpty then
        ⟨node, next, none⟩
      else
        ⟨{ node with leaf := some leaf }, next, some []⟩

/- Insert a leaf along steps below a node. -/
def insert
    (leaf : Nat) :
    List Step → TreeNode → Nat → Insertion
  | [], node, next => node.insertLeaf leaf next
  | step :: rest, node, next =>
      match node.child? step.edge with
      | some child =>
          let below := insert leaf rest child next
          ⟨node.setChild step.edge below.node, below.next,
            below.trail.map (child.id :: ·)⟩
      | none =>
          if node.clashes step.edge || node.isTaken then
            ⟨node, next, none⟩
          else
            let below :=
              insert leaf rest
                (fresh next step.edge.spans) (next + 1)
            ⟨node.setChild step.edge below.node, below.next,
              below.trail.map (next :: ·)⟩

/-
  Whether a literal path may be kept beside the tree: its
  walk does not end where a capture branches off.
-/
def admits :
    List Step → TreeNode → Bool
  | [], _ => true
  | step :: rest, node =>
      match node.child? step.edge with
      | some child => admits rest child
      | none => !node.hasCapture

end TreeNode

/- A tree with the next free number; the root has number 0. -/
structure SegmentTree where
  root : TreeNode
  size : Nat

namespace SegmentTree

/- The tree without paths. -/
def empty : SegmentTree :=
  ⟨.fresh 0 false, 1⟩

/- Insert a leaf; the trail is absent for a conflict. -/
def insert
    (tree : SegmentTree)
    (steps : List Step)
    (leaf : Nat) :
    SegmentTree × Option (List Nat) :=
  let outcome := tree.root.insert leaf steps tree.size
  (⟨outcome.node, outcome.next⟩, outcome.trail)

/- Whether a literal path may be kept beside the tree. -/
def admits
    (tree : SegmentTree)
    (steps : List Step) : Bool :=
  tree.root.admits steps

end SegmentTree

end RequestRouter
