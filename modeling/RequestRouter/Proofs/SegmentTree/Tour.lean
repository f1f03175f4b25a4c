import RequestRouter.Proofs.SegmentTree.Reports

/-
  The nodes that are visited to flatten a tree.

  A tree is flattened by a tour of its nodes. Siblings are
  visited in order, each from the first group that the one
  before it leaves free, and with a node all that lies below
  it. Tours follow the recursion of the emission rule by
  rule, so that what holds along every tour holds of what a
  tree is flattened to.

  Key definitions include:
    * `TreeNode.gather`
    * `TreeNode.Tour`
    * `SegmentTree.Visits`

  Main statements:
    * `TreeNode.exists_tour`
    * `TreeNode.Tour.perm`
    * `SegmentTree.exists_visits`
    * `SegmentTree.Visits.eq_flatten`
    * `SegmentTree.Visits.perm`
-/

------------------------------------------------------------
-- Tours
------------------------------------------------------------

namespace RequestRouter

namespace TreeNode

/- What a node emits, made of what its children emit. -/
def gather
    (node : TreeNode)
    (group : Nat)
    (below : List Emission) : Emission :=
  .ofAlternatives group
    ((node.leaf.map (Emission.marker group)).toList ++ below)

/-
  What the branch of a child emits, made of what the
  children of the child emit. The edge puts its text in
  front and, if it is a capture, its own group with the
  number of the child.
-/
def gatherBranch
    (separator : Text)
    (group : Nat)
    (entry : Edge × TreeNode)
    (below : List Emission) : Emission :=
  let inner :=
    entry.2.gather (entry.1.groupAfter group) below
  ⟨entry.1.source separator ++ inner.source,
    inner.leafGroups,
    entry.1.ownGroup entry.2.id group ++ inner.captureGroups,
    inner.next⟩

/- The first free group for the children of a child. -/
def groupBelow
    (group : Nat)
    (entry : Edge × TreeNode) : Nat :=
  entry.2.groupBehind (entry.1.groupAfter group)

/-
  A tour of siblings from a first free group on: what each
  of them emits, and the numbers of the nodes that are
  visited, every node in front of those below it.
-/
inductive Tour :
    Text → Nat → List (Edge × TreeNode) → List Emission →
      List Nat → Prop where
  | nil (separator : Text) (group : Nat) :
      Tour separator group [] [] []
  | cons {separator group entry rest below inner emissions
      visited}
      (hBelow :
        Tour ['/'] (groupBelow group entry) entry.2.ordered
          below inner)
      (hRest :
        Tour separator
          (gatherBranch separator group entry below).next
          rest emissions visited) :
      Tour separator group (entry :: rest)
        (gatherBranch separator group entry below ::
          emissions)
        (entry.2.id :: (inner ++ visited))

end TreeNode

end RequestRouter

------------------------------------------------------------
-- Tours and Emissions
------------------------------------------------------------

namespace RequestRouter

namespace TreeNode

/- The emissions of siblings from a first free group on. -/
def emissions
    (separator : Text)
    (group : Nat)
    (entries : List (Edge × TreeNode)) : List Emission :=
  Branch.flattenAll separator group (entries.map branchOf)

/- A flattened node is gathered from its children. -/
theorem flatten_eq_gather
    (node : TreeNode)
    (separator : Text)
    (group : Nat) :
    node.flatten separator group =
      node.gather group
        (emissions separator (node.groupBehind group)
          node.ordered) := by
  rw [flatten_eq]
  rfl

/- So is the branch of a child. -/
theorem flatten_branchOf
    (entry : Edge × TreeNode)
    (separator : Text)
    (group : Nat) :
    (branchOf entry).flatten separator group =
      gatherBranch separator group entry
        (emissions ['/'] (groupBelow group entry)
          entry.2.ordered) := by
  have hChild :=
    entry.2.flatten_eq_gather ['/'] (entry.1.groupAfter group)
  rw [Branch.flatten_eq, gatherBranch]
  dsimp only [branchOf]
  rw [hChild]
  rfl

/- The emissions of siblings come one behind the other. -/
theorem emissions_cons
    (separator : Text)
    (group : Nat)
    (entry : Edge × TreeNode)
    (rest : List (Edge × TreeNode)) :
    emissions separator group (entry :: rest) =
      (branchOf entry).flatten separator group ::
        emissions separator
          ((branchOf entry).flatten separator group).next
          rest :=
  rfl

/- Siblings have a tour if the children of each have one. -/
theorem exists_tour_siblings
    {entries : List (Edge × TreeNode)}
    (hEntries :
      ∀ entry ∈ entries, ∀ group, ∃ visited,
        Tour ['/'] group entry.2.ordered
          (emissions ['/'] group entry.2.ordered) visited)
    (separator : Text)
    (group : Nat) :
    ∃ visited,
      Tour separator group entries
        (emissions separator group entries) visited := by
  induction entries generalizing group with
  | nil => exact ⟨[], .nil separator group⟩
  | cons entry rest ih =>
      rcases
          hEntries entry List.mem_cons_self
            (groupBelow group entry) with
        ⟨inner, hInner⟩
      rcases
          ih (fun later hLater =>
              hEntries later (List.mem_cons_of_mem _ hLater))
            ((branchOf entry).flatten separator group).next
        with ⟨visited, hRest⟩
      rw [emissions_cons]
      rw [flatten_branchOf] at hRest ⊢
      exact ⟨_, .cons hInner hRest⟩

/- There is a tour for what the children of a node emit. -/
theorem exists_tour
    (node : TreeNode)
    (separator : Text)
    (group : Nat) :
    ∃ visited,
      Tour separator group node.ordered
        (emissions separator group node.ordered) visited := by
  induction node using induct generalizing separator group with
  | hNode node ih =>
      apply exists_tour_siblings
      intro entry hEntry first
      exact
        ih entry ((mem_ordered_iff _ _).mp hEntry) ['/'] first

/- Children in order have the numbers of the children. -/
theorem childIds_ordered_perm
    (node : TreeNode) :
    (childIds node.ordered).Perm node.ids := by
  rw [ids_eq]
  exact childIds_perm node.ordered_perm

namespace Tour

variable {separator : Text}
variable {group : Nat}
variable {entries : List (Edge × TreeNode)}
variable {gathered : List Emission}
variable {visited : List Nat}

/- There is no tour for anything else. -/
theorem eq_emissions
    (hTour :
      Tour separator group entries gathered visited) :
    gathered = emissions separator group entries := by
  induction hTour with
  | nil => rfl
  | cons hBelow hRest ihBelow ihRest =>
      rw [emissions_cons, flatten_branchOf, ← ihBelow,
        ← ihRest]

/- A tour visits all nodes of the siblings, each once. -/
theorem perm
    (hTour :
      Tour separator group entries gathered visited) :
    visited.Perm (childIds entries) := by
  induction hTour with
  | nil => exact List.Perm.refl _
  | @cons separator group entry rest below inner emissions
      visited hBelow hRest ihBelow ihRest =>
      apply List.Perm.cons
      exact
        (ihBelow.trans entry.2.childIds_ordered_perm).append
          ihRest

end Tour

end TreeNode

namespace SegmentTree

/-
  Whether an emission of a whole tree is made by visiting
  nodes, the root in front of all others.
-/
inductive Visits
    (tree : SegmentTree) : Emission → List Nat → Prop where
  | mk {below visited}
      (hTour :
        TreeNode.Tour [] (tree.root.groupBehind 1)
          tree.root.ordered below visited) :
      Visits tree
        (Branch.behind ['^'] (tree.root.gather 1 below))
        (tree.root.id :: visited)

/- A tree is flattened by visiting nodes. -/
theorem exists_visits
    (tree : SegmentTree) :
    ∃ visited, tree.Visits tree.flatten visited := by
  rcases tree.root.exists_tour [] (tree.root.groupBehind 1)
    with ⟨visited, hTour⟩
  refine ⟨tree.root.id :: visited, ?_⟩
  rw [flatten, TreeNode.flatten_eq_gather]
  exact .mk hTour

namespace Visits

variable {tree : SegmentTree}
variable {emission : Emission}
variable {visited : List Nat}

/- Visiting nodes makes what the tree is flattened to. -/
theorem eq_flatten
    (hVisits : tree.Visits emission visited) :
    emission = tree.flatten := by
  cases hVisits with
  | mk hTour =>
      rw [flatten, TreeNode.flatten_eq_gather,
        ← hTour.eq_emissions]

/- All nodes of the tree are visited, each once. -/
theorem perm
    (hVisits : tree.Visits emission visited) :
    visited.Perm (tree.root.id :: tree.root.ids) := by
  cases hVisits with
  | mk hTour =>
      apply List.Perm.cons
      exact
        hTour.perm.trans tree.root.childIds_ordered_perm

end Visits

end SegmentTree

end RequestRouter
