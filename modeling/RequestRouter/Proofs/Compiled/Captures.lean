import Mathlib.Data.List.Nodup
import RequestRouter.Compiled.MethodProgram
import RequestRouter.Proofs.SegmentTree.Matching

/-
  What an engine captures for a flattened tree.

  A leftmost-first engine finds the first way of the tree
  from the start of a text. By the tables of the emission,
  the captures name the leaf that was selected and give each
  node the part that was caught there.

  Key definitions include:
    * `Emission.IsAnsweredBy`
    * `SegmentTree.IsPlain`

  Main statements:
    * `Regex.Expr.rel_finds_textStart`
    * `SegmentTree.rel_finds_flatten`
    * `Emission.exists_marker`
    * `Emission.find?_leafGroups`
    * `Emission.bind_lookup_captureGroups`
    * `SegmentTree.rel_find_select`
-/

------------------------------------------------------------
-- Searching a Flattened Tree
------------------------------------------------------------

namespace RequestRouter

open Regex

namespace Regex

namespace Place

/- Behind a character every place has one in front. -/
theorem isSome_before
    {before : Char}
    {rest : Text}
    {place : Place}
    (hPlace : place ∈ andLater (some before) rest) :
    place.before.isSome = true := by
  induction rest generalizing before with
  | nil =>
      rw [List.mem_singleton.mp hPlace]
      rfl
  | cons c rest ih =>
      rcases List.mem_cons.mp hPlace with rfl | hLater
      · rfl
      · exact ih hLater

end Place

namespace Expr

/- An expression tied to the start matches there only. -/
theorem ways_whole_textStart
    {preferred : Expr → Ways}
    (hPreferred : IsPreference preferred)
    (items : List Expr)
    (place : Place) :
    preferred
        (sequence (.assertion .textStart :: items)).whole
        place =
      if place.before.isNone then
        Ways.capture 0
          (Ways.sequence (items.map preferred)) place
      else [] := by
  rw [whole, hPreferred.group, hPreferred.sequence]
  split
  case isTrue hStart =>
      simp [Ways.sequence, hPreferred.assertion, Ways.check,
        Assertion.holds, hStart, Ways.capture, Ways.andThen]
  case isFalse hInside =>
      simp [Ways.sequence, hPreferred.assertion, Ways.check,
        Assertion.holds, hInside, Ways.capture, Ways.andThen]

/- A search for it looks at the start only. -/
theorem search_textStart
    {preferred : Expr → Ways}
    (hPreferred : IsPreference preferred)
    (items : List Expr)
    (text : Text) :
    (sequence (.assertion .textStart :: items)).search
        preferred text =
      (Ways.sequence (items.map preferred)
        (Place.start text)).head?.map fun way =>
          ⟨way.place,
            (0, (Place.start text).textTo way.place) ::
              way.record⟩ := by
  have hNone :
      ∀ place : Place, place.before.isSome = true →
        (preferred
          (sequence (.assertion .textStart :: items)).whole
          place).head? = none := by
    intro place hBefore
    rw [ways_whole_textStart hPreferred, if_neg]
    · rfl
    · cases hPlace : place.before <;> simp_all
  have hFirst :
      (preferred
          (sequence (.assertion .textStart :: items)).whole
          (Place.start text)).head? =
        (Ways.sequence (items.map preferred)
          (Place.start text)).head?.map fun way =>
            ⟨way.place,
              (0, (Place.start text).textTo way.place) ::
                way.record⟩ := by
    rw [ways_whole_textStart hPreferred]
    simp [Place.start, Ways.capture]
  rw [← hFirst]
  unfold search
  cases text with
  | nil => simp [Place.andLater, Place.start]
  | cons c rest =>
      have hLater :
          (Place.andLater (some c) rest).findSome?
              (fun place =>
                (preferred
                  (sequence
                    (.assertion .textStart :: items)).whole
                  place).head?) = none := by
        rw [List.findSome?_eq_none_iff]
        intro place hPlace
        exact hNone place (Place.isSome_before hPlace)
      simp only [Place.andLater, List.findSome?_cons, hLater,
        Place.start]
      split <;> simp_all

/-
  What is found for it is the first way of its items, with
  the texts of all its groups outside repetitions.
-/
theorem rel_finds_textStart
    {preferred : Expr → Ways}
    (hPreferred : IsPreference preferred)
    {items : List Expr}
    {text : Text}
    {found : Option Captures}
    (hFinds :
      (sequence (.assertion .textStart :: items)).Finds
        preferred text found) :
    Option.Rel
      (fun captures (way : Way) =>
        ∀ group ∈ listOuterGroups items, 0 < group →
          captures.group? group = way.record.lookup group)
      found
      (Ways.sequence (items.map preferred)
        (Place.start text)).head? := by
  have hSearch := search_textStart hPreferred items text
  cases found with
  | none =>
      have hNone := hSearch.symm.trans hFinds
      rw [Option.map_eq_none_iff.mp hNone]
      exact .none
  | some captures =>
      rcases hFinds with ⟨way, hWay, hGroups⟩
      rcases
          Option.map_eq_some_iff.mp (hSearch.symm.trans hWay)
        with ⟨inner, hInner, rfl⟩
      rw [hInner]
      refine .some fun group hGroup hPositive => ?_
      have hOuter :
          group ∈
            (sequence
              (.assertion .textStart :: items)).whole.outerGroups
          := by
        simp [whole, outerGroups, outerGroups_sequence,
          listOuterGroups, hGroup]
      rw [hGroups group hOuter, List.lookup_cons,
        beq_false_of_ne (by omega)]

end Expr

/- A source that is tied to the start is read as its items. -/
theorem eq_sequence_of_parse
    {source : Text}
    {last : Nat}
    {items : List Expr}
    (hHead : source.head? ≠ some '?')
    (hRead : IsReadAs source 0 last items)
    {e : Expr}
    (hParse : parse ('^' :: source) = .ok e) :
    e = .sequence (.assertion .textStart :: items) := by
  have hSource :
      IsReadAs ('^' :: source) 0 last
        ([.assertion .textStart] ++ items) :=
    isReadAs_append (isReadAs_anchor (Or.inl rfl) 0) hHead
      hRead
  have hReads := Builder.reads_of_parse hParse
  rw [← List.append_nil ('^' :: source)] at hReads
  rcases hSource hReads rfl rfl (by simp) with
    ⟨names, hEnd⟩
  have hFinish := Builder.finish_of_reads_nil hEnd
  simpa [Builder.finish, Builder.body, Expr.choice]
    using hFinish.symm

end Regex

end RequestRouter

------------------------------------------------------------
-- Reading the Tables
------------------------------------------------------------

namespace RequestRouter

open Regex

/-
  Along pairs of keys from a table, what stands under one
  key of a pair stands under the other.
-/
theorem lookup_eq_of_forall₂
    {table : List (Nat × Nat)}
    (hNodes : (table.map Prod.fst).Nodup)
    (hGroups : (table.map Prod.snd).Nodup)
    {caught taken : List (Nat × Text)}
    (hTaken :
      List.Forall₂
        (fun caught group =>
          (caught.1, group.1) ∈ table ∧ group.2 = caught.2)
        caught taken)
    {node group : Nat}
    (hEntry : (node, group) ∈ table) :
    taken.lookup group = caught.lookup node := by
  induction hTaken with
  | nil => rfl
  | @cons first other _ _ hBoth _ ih =>
      rcases first with ⟨firstNode, part⟩
      rcases other with ⟨firstGroup, text⟩
      rcases hBoth with ⟨hFirst, rfl⟩
      have hSame : group = firstGroup ↔ node = firstNode := by
        constructor
        · intro hEq
          have hPair :=
            List.inj_on_of_nodup_map hGroups hEntry hFirst hEq
          exact congrArg Prod.fst hPair
        · intro hEq
          have hPair :=
            List.inj_on_of_nodup_map hNodes hEntry hFirst hEq
          exact congrArg Prod.snd hPair
      have hTests : (group == firstGroup) = (node == firstNode) :=
        decide_eq_decide.mpr hSame
      rw [List.lookup_cons, List.lookup_cons, ih, hTests]

namespace Emission

/-
  Whether captures answer with a record: every group of the
  tables has the text that is recorded for it.
-/
def IsAnsweredBy
    (emission : Emission)
    (captures : Captures)
    (record : List (Nat × Text)) : Prop :=
  ∀ group ∈ emission.groups,
    captures.group? group = record.lookup group

section Answers

variable {emission : Emission}
variable {captures : Captures}
variable {record : List (Nat × Text)}
variable {selected : Selected}

/- A marker and a capture have different numbers. -/
theorem ne_of_mem_groups
    (hGroups : emission.groups.Nodup)
    {marker leaf node group : Nat}
    (hMarker : (marker, leaf) ∈ emission.leafGroups)
    (hCapture : (node, group) ∈ emission.captureGroups) :
    marker ≠ group := by
  have hApart := (List.nodup_append.mp hGroups).2.2
  exact
    hApart marker (List.mem_map_of_mem hMarker) group
      (List.mem_map_of_mem (f := Prod.snd) hCapture)

/- Exactly one marker took part: one of the selected leaf. -/
theorem exists_marker
    (hGroups : emission.groups.Nodup)
    (hRecords : emission.Records record selected)
    (hAnswered : emission.IsAnsweredBy captures record) :
    ∃ marker,
      (marker, selected.leaf) ∈ emission.leafGroups ∧
        ∀ entry ∈ emission.leafGroups,
          (captures.group? entry.1).isSome = true ↔
            entry = (marker, selected.leaf) := by
  rcases hRecords with
    ⟨marker, taken, rfl, hMarker, hTaken⟩
  refine ⟨marker, hMarker, ?_⟩
  intro entry hEntry
  have hTook :
      ∀ pair ∈ taken, pair.1 ≠ entry.1 := by
    intro pair hPair hSame
    rcases List.mem_iff_getElem.mp hPair with
      ⟨index, hIndex, rfl⟩
    have hBound : index < selected.caught.length := by
      rw [hTaken.length_eq]
      exact hIndex
    exact
      ne_of_mem_groups hGroups hEntry
        (hTaken.get hBound hIndex).1 hSame.symm
  have hKeys := (List.nodup_append.mp hGroups).1
  rw [hAnswered entry.1
    (List.mem_append_left _ (List.mem_map_of_mem hEntry)),
    List.lookup_append]
  have hNone : taken.lookup entry.1 = none := by
    rw [List.lookup_eq_none_iff]
    intro pair hPair
    simpa using (hTook pair hPair).symm
  rw [hNone, Option.none_or, List.lookup_cons]
  constructor
  · intro hSome
    have hSame : entry.1 = marker := by
      cases hEq : entry.1 == marker with
      | true => exact beq_iff_eq.mp hEq
      | false => simp [hEq] at hSome
    exact List.inj_on_of_nodup_map hKeys hEntry hMarker hSame
  · rintro rfl
    simp

/-
  The first marker that took part is that of the selected
  leaf.
-/
theorem find?_leafGroups
    (hGroups : emission.groups.Nodup)
    (hRecords : emission.Records record selected)
    (hAnswered : emission.IsAnsweredBy captures record) :
    ∃ marker,
      emission.leafGroups.find? (fun entry =>
          (captures.group? entry.1).isSome) =
        some (marker, selected.leaf) := by
  rcases exists_marker hGroups hRecords hAnswered with
    ⟨marker, hMarker, hOnly⟩
  refine ⟨marker, ?_⟩
  cases hFind :
      emission.leafGroups.find? fun entry =>
        (captures.group? entry.1).isSome with
  | none =>
      have hNone := List.find?_eq_none.mp hFind _ hMarker
      exact absurd ((hOnly _ hMarker).mpr rfl) hNone
  | some entry =>
      have hEntry := List.mem_of_find?_eq_some hFind
      have hSome := List.find?_some hFind
      rw [(hOnly entry hEntry).mp hSome]

/- The captures give each node what was caught there. -/
theorem bind_lookup_captureGroups
    (hGroups : emission.groups.Nodup)
    (hNodes : emission.nodes.Nodup)
    (hRecords : emission.Records record selected)
    (hAnswered : emission.IsAnsweredBy captures record)
    (node : Nat) :
    (emission.captureGroups.lookup node).bind
        captures.group? =
      selected.caught.lookup node := by
  rcases hRecords with
    ⟨marker, taken, rfl, hMarker, hTaken⟩
  cases hLookup : emission.captureGroups.lookup node with
  | none =>
      refine (List.lookup_eq_none_iff.mpr ?_).symm
      intro caught hCaught
      rcases List.mem_iff_getElem.mp hCaught with
        ⟨index, hIndex, rfl⟩
      have hBound : index < taken.length := by
        rw [← hTaken.length_eq]
        exact hIndex
      exact
        List.lookup_eq_none_iff.mp hLookup _
          (hTaken.get hIndex hBound).1
  | some group =>
      have hEntry :
          (node, group) ∈ emission.captureGroups := by
        rcases List.lookup_eq_some_iff.mp hLookup with
          ⟨before, after, hTable, -⟩
        simp [hTable]
      have hOther :=
        ne_of_mem_groups hGroups hMarker hEntry
      have hTexts :=
        lookup_eq_of_forall₂ hNodes
          (List.nodup_append.mp hGroups).2.1 hTaken hEntry
      rw [Option.bind_some,
        hAnswered group
          (List.mem_append_right _
            (List.mem_map_of_mem (f := Prod.snd) hEntry)),
        List.lookup_append, hTexts, List.lookup_cons,
        beq_false_of_ne hOther.symm]
      simp

end Answers

end Emission

end RequestRouter

------------------------------------------------------------
-- Plain Trees
------------------------------------------------------------

namespace RequestRouter

open Regex

namespace SegmentTree

/- Whether a tree is built from routes without constraints. -/
structure IsPlain
    (tree : SegmentTree) : Prop where
  orderly : tree.root.IsOrderly
  nodup : tree.root.ids.Nodup
  plain :
    ∀ {edges trail leaf},
      tree.root.HasLeaf edges trail leaf →
        Edge.ArePlain edges

namespace IsPlain

variable {tree : SegmentTree}

/- No leaf ends at the root. -/
theorem leaf_eq_none
    (hTree : tree.IsPlain) :
    tree.root.leaf = none := by
  cases hLeaf : tree.root.leaf with
  | none => rfl
  | some leaf =>
      rcases hTree.plain (.here hLeaf) with
        hAny | ⟨hEmpty, -⟩
      · cases hAny
      · exact absurd rfl hEmpty

/- The edges behind an edge of the root. -/
theorem plain_child
    (hTree : tree.IsPlain)
    {entry : Edge × TreeNode}
    (hEntry : entry ∈ tree.root.children)
    {edges : List Edge}
    {trail : List Nat}
    {leaf : Nat}
    (hHas : entry.2.HasLeaf edges trail leaf) :
    entry.1 = .any ∧ edges = [] ∨
      entry.1.IsPlain ∧ entry.1 ≠ .tail ∧
        ∀ edge ∈ edges, edge.IsPlain := by
  rcases hTree.plain (.child hEntry hHas) with
    hAny | ⟨-, hHead, hPlain⟩
  · simp only [List.cons.injEq] at hAny
    exact Or.inl hAny
  · refine Or.inr ⟨hPlain _ (by simp), ?_, ?_⟩
    · rintro hTail
      simp [hTail] at hHead
    · exact fun edge hEdge =>
        hPlain edge (List.mem_cons_of_mem _ hEdge)

/- The root has plain edges and perhaps a lone wildcard. -/
theorem edge_root
    (hTree : tree.IsPlain)
    {entry : Edge × TreeNode}
    (hEntry : entry ∈ tree.root.children) :
    entry.1.IsPlain ∧ entry.1 ≠ .tail ∨
      entry.1 = .any := by
  rcases
      TreeNode.exists_hasLeaf entry.2
        (hTree.orderly.child hEntry)
        (hTree.orderly.tidy.used entry hEntry) with
    ⟨edges, trail, leaf, hHas⟩
  rcases hTree.plain_child hEntry hHas with
    ⟨hAny, -⟩ | ⟨hPlain, hTail, -⟩
  · exact Or.inr hAny
  · exact Or.inl ⟨hPlain, hTail⟩

/- Below an edge that is not open-ended all is plain. -/
theorem edges_below
    (hTree : tree.IsPlain)
    {entry : Edge × TreeNode}
    (hEntry : entry ∈ tree.root.children)
    (hClosed : entry.1.isOpenEnded = false) :
    entry.2.AllEdges Edge.IsPlain := by
  intro edges trail leaf hHas
  rcases hTree.plain_child hEntry hHas with
    ⟨hAny, -⟩ | ⟨-, -, hPlain⟩
  · simp [hAny, Edge.isOpenEnded] at hClosed
  · exact hPlain

/- All captures of a plain tree are read as they should. -/
theorem isReadWell
    {preferred : Expr → Ways}
    (hPreferred : IsPreference preferred)
    (hTree : tree.IsPlain) :
    tree.root.AllEdges
      (·.IsReadWell preferred Edge.plainWays) := by
  intro edges trail leaf hHas edge hEdge
  refine Edge.isReadWell_of_isPlain hPreferred ?_
  rcases hTree.plain hHas with rfl | ⟨-, -, hPlain⟩
  · exact Or.inr (List.mem_singleton.mp hEdge)
  · exact Or.inl (hPlain edge hEdge)

end IsPlain

/-
  What is found for the expression of a flattened tree is
  the first way of its root, with all groups of its tables.
-/
theorem rel_finds_flatten
    {preferred : Expr → Ways}
    (hPreferred : IsPreference preferred)
    {tree : SegmentTree}
    {ways : Ways}
    (hDenotes :
      (tree.root.flatten [] 1).Denotes preferred 0 ways)
    {e : Expr}
    (hParse : parse tree.flatten.source = .ok e)
    {text : Text}
    {found : Option Captures}
    (hFinds : e.Finds preferred text found) :
    Option.Rel
      (fun captures (way : Way) =>
        tree.flatten.IsAnsweredBy captures way.record)
      found (ways (Place.start text)).head? := by
  rcases hDenotes with
    ⟨last, items, -, hHead, hRead, rfl, hGroups⟩
  cases eq_sequence_of_parse hHead hRead hParse
  have hNumbered := tree.root.isNumbered_flatten [] 1
  have hFound := Expr.rel_finds_textStart hPreferred hFinds
  revert hFound
  generalize
    (Ways.sequence (items.map preferred)
      (Place.start text)).head? = way
  intro hFound
  cases hFound with
  | none => exact .none
  | some hAnswers =>
      exact
        .some fun group hGroup =>
          hAnswers group (hGroups hGroup)
            (hNumbered.bounds group hGroup).1

/-
  A leftmost-first engine finds what a plain tree selects,
  and captures what the selection caught.
-/
theorem rel_find_select
    {E : Engine}
    (hE : E.IsLeftmostFirst)
    {tree : SegmentTree}
    (hTree : tree.IsPlain)
    (hUsed : tree.root.IsUsed)
    {program : E.Program}
    (hCompile : E.compile tree.flatten.source = .ok program)
    {part : Text}
    {parts : List Text}
    (hParts :
      ∀ other ∈ part :: parts, Path.IsPart other) :
    Option.Rel
      (fun captures selected =>
        ∃ record,
          tree.flatten.Records record selected ∧
            tree.flatten.IsAnsweredBy captures record)
      (E.find program (part ++ Path.behindSlashes parts))
      (tree.root.select (part :: parts)) := by
  rcases hE with ⟨preferred, hPreferred, hEngine⟩
  rcases hEngine hCompile with ⟨e, hParse, -, hFinds⟩
  have hDenotes :=
    TreeNode.denotes_flatten hPreferred tree.root
      hTree.orderly hUsed (hTree.isReadWell hPreferred)
      (Or.inl rfl) 0
  have hAgrees :=
    TreeNode.agrees_select_root hTree.orderly
      hTree.leaf_eq_none (fun _ => hTree.edge_root)
      (fun _ => hTree.edges_below) hParts 1 none
  have hFound :=
    rel_finds_flatten hPreferred hDenotes hParse
      (hFinds (part ++ Path.behindSlashes parts))
  simp only [Place.start] at hFound
  revert hAgrees hFound
  generalize
    E.find program (part ++ Path.behindSlashes parts) = found
  generalize tree.root.select (part :: parts) = selection
  generalize
    (tree.root.ways Edge.plainWays [] (0 + 1)
      ⟨none, part ++ Path.behindSlashes parts⟩).head? = way
  intro hAgrees hFound
  cases hAgrees with
  | none =>
      cases hFound
      exact .none
  | some hRecords =>
      cases hFound with
      | some hAnswers => exact .some ⟨_, hRecords, hAnswers⟩

end SegmentTree

end RequestRouter
