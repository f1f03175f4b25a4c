import RequestRouter.Proofs.SegmentTree.Reports

/-
  Which leaf the first way through a tree reports.

  If all edges of a tree are counted, the first way through
  its expression reports the foremost of the leaves whose
  edges spell what follows: no alternative that is emitted
  in front of it, at any node on the way, has such a leaf.
  Where some leaf spells what follows there is a way.

  Key definitions include:
    * `TreeNode.IsForemost`

  Main statements:
    * `TreeNode.exists_way_of_spells`
    * `TreeNode.exists_foremost`
-/

------------------------------------------------------------
-- Ways of Branches
------------------------------------------------------------

namespace RequestRouter

open Regex

namespace TreeNode

/- The ways of a child behind its edge. -/
def branchWays
    (inner : Text → Nat → Ways)
    (separator : Text)
    (number : Nat)
    (entry : Edge × TreeNode) : Ways :=
  Ways.andThen (entry.1.ways inner separator number)
    (entry.2.ways inner ['/'] (entry.1.groupAfter number))

/-
  Children that have a way in a row have one whose branch is
  the first with a way. It has the numbers of an emission,
  and no other emission has any of these.
-/
theorem exists_first_branch
    {inner : Text → Nat → Ways}
    {separator : Text}
    {group last : Nat}
    {entries : List (Edge × TreeNode)}
    (hAll :
      Emission.AreNumbered group
        (Branch.flattenAll separator group
          (entries.map branchOf)) last)
    {start : Place}
    {way : Way}
    (hFirst :
      (Ways.choice
        (siblingWays inner separator group
          (entries.map (withWays inner))) start).head? =
        some way) :
    ∃ before entry after number,
      entries = before ++ entry :: after ∧
        (∀ earlier ∈ before, ∃ other,
          branchWays inner separator other earlier start =
            []) ∧
        (branchWays inner separator number entry
          start).head? = some way ∧
        (branchOf entry).flatten separator number ∈
          Branch.flattenAll separator group
            (entries.map branchOf) ∧
        group ≤ number ∧
        ((branchOf entry).flatten separator number).next ≤
          last ∧
        ∀ other ∈
            (Branch.flattenAll separator group
              (entries.map branchOf)).flatMap Emission.groups,
          number ≤ other →
            other <
              ((branchOf entry).flatten separator
                number).next →
            other ∈
              ((branchOf entry).flatten separator
                number).groups := by
  induction entries generalizing group with
  | nil => simp [siblingWays, Ways.choice] at hFirst
  | cons entry rest ih =>
      have hNext :
          (entry.2.flatten ['/']
              (entry.1.groupAfter group)).next =
            ((branchOf entry).flatten separator group).next := by
        rw [Branch.flatten_eq]
        rfl
      rw [List.map_cons, Branch.flattenAll] at hAll ⊢
      cases hAll with
      | cons hOwn hRest =>
          rw [List.map_cons] at hFirst
          simp only [withWays, siblingWays, Ways.choice,
            List.head?_append, hNext] at hFirst
          rcases Option.or_eq_some_iff.mp hFirst with
            hHead | ⟨hNone, hLater⟩
          · refine
              ⟨[], entry, rest, group, rfl, by simp, hHead,
                by simp, Nat.le_refl _, hRest.le, ?_⟩
            intro other hOther hAbove hBelow
            rw [List.flatMap_cons, List.mem_append] at hOther
            rcases hOther with hSame | hOther
            · exact hSame
            · have hBounds := hRest.bounds other hOther
              omega
          · rcases ih hRest hLater with
              ⟨before, found, after, number, rfl, hBefore,
                hHead, hMember, hLe, hLast, hGroups⟩
            have hStart := hOwn.le
            refine
              ⟨entry :: before, found, after, number, rfl,
                ?_, hHead, List.mem_cons_of_mem _ hMember,
                by omega, hLast, ?_⟩
            · rw [List.forall_mem_cons]
              exact
                ⟨⟨group, List.head?_eq_none_iff.mp hNone⟩,
                  hBefore⟩
            · intro other hOther hAbove hBelow
              rw [List.flatMap_cons, List.mem_append]
                at hOther
              rcases hOther with hSame | hOther
              · have hBounds := hOwn.bounds other hSame
                omega
              · exact hGroups other hOther hAbove hBelow

/- Each child has its place in the row. -/
theorem exists_branchWays_mem
    {inner : Text → Nat → Ways}
    {separator : Text}
    {entries : List (Edge × TreeNode)}
    {entry : Edge × TreeNode}
    (hEntry : entry ∈ entries)
    (group : Nat) :
    ∃ number,
      branchWays inner separator number entry ∈
        siblingWays inner separator group
          (entries.map (withWays inner)) := by
  induction entries generalizing group with
  | nil => cases hEntry
  | cons first rest ih =>
      rw [List.map_cons]
      rcases List.mem_cons.mp hEntry with rfl | hRest
      · exact ⟨group, List.mem_cons_self⟩
      · rcases
            ih hRest
              (first.2.flatten ['/']
                (first.1.groupAfter group)).next with
          ⟨number, hNumber⟩
        exact ⟨number, List.mem_cons_of_mem _ hNumber⟩

end TreeNode

end RequestRouter

------------------------------------------------------------
-- Ways of Spelled Leaves
------------------------------------------------------------

namespace RequestRouter

open Regex

namespace TreeNode

variable {preferred : Expr → Ways}
variable {separator : Text}
variable {start : Place}

/- Behind an edge that is passed, a child's way goes on. -/
theorem exists_branchWay_of_passes
    (hPreferred : IsPreference preferred)
    (entry : Edge × TreeNode)
    {middle : Place}
    {caught : Option Text}
    (hPass : entry.1.Passes separator start middle caught)
    (hBelow :
      ∀ group, ∃ later,
        later ∈
          entry.2.ways (Edge.closedWays preferred) ['/'] group
            middle)
    (number : Nat) :
    ∃ way,
      way ∈
        branchWays (Edge.closedWays preferred) separator
          number entry start := by
  rcases
      Edge.leads_ways_of_passes hPreferred hPass number with
    ⟨front, hFront, rfl⟩
  rcases hBelow (entry.1.groupAfter number) with
    ⟨later, hLater⟩
  refine ⟨⟨later.place, front.record ++ later.record⟩, ?_⟩
  exact
    List.mem_flatMap.mpr
      ⟨front, hFront, List.mem_map_of_mem hLater⟩

/-
  Where the edges of a leaf spell what follows, a tree has a
  way.
-/
theorem exists_way_of_spells
    (hPreferred : IsPreference preferred)
    {node : TreeNode}
    {edges : List Edge}
    {trail : List Nat}
    {leaf : Nat}
    (hHas : node.HasLeaf edges trail leaf)
    {texts : List (Option Text)}
    (hSpells : Edge.Spells separator edges start texts)
    (group : Nat) :
    ∃ way,
      way ∈
        node.ways (Edge.closedWays preferred) separator group
          start := by
  induction hHas generalizing separator start texts group with
  | @here node leaf hLeaf =>
      cases hSpells with
      | nil hEnd =>
          rw [ways_eq]
          refine ⟨⟨start, [(group, [])]⟩, ?_⟩
          apply (Ways.mem_choice_iff _ _ _).mpr
          refine ⟨markerWays group, ?_, ?_⟩
          · simp [alternativeWays, hLeaf]
          · rw [markerWays_eq, if_pos hEnd]
            rcases start with ⟨before, rest⟩
            cases hEnd
            exact List.mem_singleton_self _
  | @child node edge child edges trail leaf hEntry _ ih =>
      cases hSpells with
      | cons hPass hRest =>
          have hOrdered :=
            (mem_ordered_iff node (edge, child)).mpr hEntry
          rcases
              exists_branchWays_mem hOrdered
                (node.groupBehind group) with
            ⟨number, hNumber⟩
          rcases
              exists_branchWay_of_passes hPreferred
                (edge, child) hPass (ih hRest) number with
            ⟨way, hWay⟩
          refine ⟨way, ?_⟩
          rw [ways_eq, Ways.mem_choice_iff]
          exact
            ⟨_, List.mem_append_right _ hNumber, hWay⟩

end TreeNode

end RequestRouter

------------------------------------------------------------
-- The Foremost Leaf
------------------------------------------------------------

namespace RequestRouter

open Regex

namespace TreeNode

/-
  Whether behind the edge to a child there is a leaf whose
  edges spell what follows a place.
-/
def GoesOn
    (separator : Text)
    (start : Place)
    (entry : Edge × TreeNode) : Prop :=
  ∃ edges trail leaf texts,
    entry.2.HasLeaf edges trail leaf ∧
      Edge.Spells separator (entry.1 :: edges) start texts

/-
  Whether edges lead to the foremost leaf that spells what
  follows a place: at each node on the way, neither its own
  leaf nor a child in front has such a leaf.
-/
inductive IsForemost :
    TreeNode → Text → Place → List Edge → Prop where
  | here {node separator start leaf}
      (hLeaf : node.leaf = some leaf)
      (hEnd : start.rest = []) :
      IsForemost node separator start []
  | child {node separator start middle before after edge
        child caught edges}
      (hOrdered :
        node.ordered = before ++ (edge, child) :: after)
      (hOwn : node.leaf.isSome = true → start.rest ≠ [])
      (hBefore :
        ∀ earlier ∈ before,
          ¬ GoesOn separator start earlier)
      (hPass : edge.Passes separator start middle caught)
      (hBelow : IsForemost child ['/'] middle edges) :
      IsForemost node separator start (edge :: edges)

variable {preferred : Expr → Ways}
variable {separator : Text}
variable {start : Place}

/- A branch without ways does not go on. -/
theorem not_goesOn_of_eq_nil
    (hPreferred : IsPreference preferred)
    {number : Nat}
    {entry : Edge × TreeNode}
    (hNone :
      branchWays (Edge.closedWays preferred) separator number
        entry start = []) :
    ¬ GoesOn separator start entry := by
  intro hGoesOn
  rcases hGoesOn with ⟨edges, trail, leaf, texts, hHas, hSpells⟩
  cases hSpells with
  | cons hPass hRest =>
      rcases
          exists_branchWay_of_passes hPreferred entry hPass
            (exists_way_of_spells hPreferred hHas hRest)
            number with
        ⟨way, hWay⟩
      rw [hNone] at hWay
      cases hWay

/- The first way in a row is the first behind a first way. -/
theorem head?_andThen
    {first next : Ways}
    {way : Way}
    (hFirst :
      (Ways.andThen first next start).head? = some way) :
    ∃ front ∈ first start, ∃ later,
      (next front.place).head? = some later ∧
        way =
          ⟨later.place, front.record ++ later.record⟩ := by
  rw [Ways.andThen, List.head?_flatMap] at hFirst
  rcases List.exists_of_findSome?_eq_some hFirst with
    ⟨front, hFront, hLater⟩
  rw [List.head?_map] at hLater
  rcases Option.map_eq_some_iff.mp hLater with
    ⟨later, hHead, rfl⟩
  exact ⟨front, hFront, later, hHead, rfl⟩

/- A way of the marker ends the path, and reports its leaf. -/
theorem reports_marker
    {node : TreeNode}
    {leaf : Nat}
    (hLeaf : node.leaf = some leaf)
    {group : Nat}
    {way : Way}
    (hWay : way ∈ markerWays group start) :
    start.rest = [] ∧
      (node.flatten separator group).IsWithin group
        way.record ∧
      (node.flatten separator group).Reports way.record
        ⟨leaf, []⟩ := by
  rw [markerWays_eq] at hWay
  split at hWay
  case isFalse => cases hWay
  case isTrue hEnd =>
      rw [List.mem_singleton] at hWay
      have hRecords :
          (Emission.marker group leaf).Reports way.record
            ⟨leaf, []⟩ := by
        refine ⟨group, [], ?_, by simp [Emission.marker], .nil⟩
        simp [hWay, Emission.groups, Emission.marker]
      have hWithin :
          (Emission.marker group leaf).IsWithin group
            way.record := by
        simp [hWay, Emission.IsWithin, Emission.marker]
      exact
        ⟨hEnd,
          (isPart_marker hLeaf separator group).reports
            hWithin hRecords⟩

/-
  The first way of a counted tree spells what follows with
  the edges of its foremost leaf, and reports this leaf and
  all that its edges catch.
-/
theorem exists_foremost
    (hPreferred : IsPreference preferred)
    (node : TreeNode)
    (hNode : node.IsOrderly)
    (hCounted : node.AllEdges Edge.IsCounted)
    {group : Nat}
    {way : Way}
    (hFirst :
      (node.ways (Edge.closedWays preferred) separator group
        start).head? = some way) :
    ∃ edges trail leaf texts,
      node.HasLeaf edges trail leaf ∧
        Edge.Spells separator edges start texts ∧
        IsForemost node separator start edges ∧
        (node.flatten separator group).IsWithin group
          way.record ∧
        (node.flatten separator group).Reports way.record
          ⟨leaf, Edge.caughtAt trail texts⟩ := by
  induction node using induct
    generalizing separator group start way with
  | hNode node ih =>
      rw [ways_eq, Ways.head?_choice, alternativeWays,
        List.findSome?_append] at hFirst
      rcases Option.or_eq_some_iff.mp hFirst with
        hMarker | ⟨hNone, hSibling⟩
      · cases hLeaf : node.leaf with
        | none => simp [hLeaf] at hMarker
        | some leaf =>
            have hWay : way ∈ markerWays group start := by
              apply List.mem_of_head?
              simpa [hLeaf] using hMarker
            rcases reports_marker hLeaf hWay with
              ⟨hEnd, hWithin, hReports⟩
            exact
              ⟨[], [], leaf, [], .here hLeaf, .nil hEnd,
                .here hLeaf hEnd, hWithin, hReports⟩
      · have hOwn :
            node.leaf.isSome = true → start.rest ≠ [] := by
          intro hSome hEnd
          rcases Option.isSome_iff_exists.mp hSome with
            ⟨leaf, hLeaf⟩
          rcases start with ⟨before, rest⟩
          cases hEnd
          simp [hLeaf, markerWays_eq] at hNone
        rw [← Ways.head?_choice] at hSibling
        rcases
            exists_first_branch
              (node.areNumbered_alternatives separator group)
              hSibling with
          ⟨before, ⟨edge, child⟩, after, number, hOrdered,
            hBefore, hHead, hMember, hLe, hLast, hGroups⟩
        have hEntry : (edge, child) ∈ node.children := by
          rw [← mem_ordered_iff, hOrdered]
          simp
        rcases head?_andThen hHead with
          ⟨front, hFront, later, hLater, rfl⟩
        rcases
            Edge.exists_passes_of_mem_ways hPreferred
              (hCounted.edge hNode hEntry) hFront with
          ⟨caught, inner, hPass, hRecord, hInner⟩
        rcases
            ih _ hEntry (hNode.child hEntry)
              (hCounted.child hEntry) hLater with
          ⟨edges, trail, leaf, texts, hHas, hSpells,
            hForemost, hWithin, hReports⟩
        rcases
            reports_branch hPass hInner hWithin hReports with
          ⟨hBranch, hTold⟩
        have hPart := isPart_branch hMember hLe hLast hGroups
        rcases hPart.reports hBranch hTold with
          ⟨hAll, hWhole⟩
        have hFree :
            ∀ earlier ∈ before,
              ¬ GoesOn separator start earlier := by
          intro earlier hEarlier
          rcases hBefore earlier hEarlier with
            ⟨other, hEmpty⟩
          exact not_goesOn_of_eq_nil hPreferred hEmpty
        refine
          ⟨edge :: edges, child.id :: trail, leaf,
            caught :: texts, .child hEntry hHas,
            .cons hPass hSpells,
            .child hOrdered hOwn hFree hPass hForemost,
            ?_, ?_⟩
        · rw [hRecord]
          exact hAll
        · rw [hRecord, Edge.caughtAt_cons]
          exact hWhole

end TreeNode

end RequestRouter
