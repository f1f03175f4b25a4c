import RequestRouter.Proofs.Path.Braceless
import RequestRouter.Proofs.SegmentTree.Expression

/-
  A flattened tree of plain routes matches what is selected.

  In a tree whose captures each take one segment, the first
  way to match a path leads to the marker of the leaf that
  the selection takes for the parts of the path, and records
  the parts that it caught.

  Key definitions include:
    * `Edge.IsPlain`
    * `Edge.ArePlain`
    * `Path.IsPart`
    * `Emission.Records`
    * `Emission.Agrees`

  Main statements:
    * `Edge.isReadWell_of_isPlain`
    * `TreeNode.awaitsSlash_ways`
    * `TreeNode.agrees_select`
    * `TreeNode.agrees_select_root`
-/

------------------------------------------------------------
-- Plain Edges
------------------------------------------------------------

namespace RequestRouter

open Regex

namespace Edge

/- The ways of a nonempty segment. -/
def segmentWays : Ways :=
  Ways.unrecorded
    (Ways.repetition 1 none true
      (Ways.pass (CharSet.allBut ['/']).contains))

/- Every capture has the ways of a segment. -/
def plainWays
    (_source : Text)
    (_group : Nat) : Ways :=
  segmentWays

/-
  Whether an edge stays inside a segment or is the tail of a
  path.
-/
def IsPlain : Edge → Prop
  | .literal text => '/' ∉ text
  | .capture source groups =>
      source = Pattern.segmentSource ∧ groups = 0
  | .tail => True
  | .any => False

/-
  Whether edges are those of a route without constraints: a
  wildcard alone, or plain edges that do not start with the
  tail.
-/
def ArePlain
    (edges : List Edge) : Prop :=
  edges = [.any] ∨
    edges ≠ [] ∧ edges.head? ≠ some .tail ∧
      ∀ edge ∈ edges, edge.IsPlain

/- A plain capture is read as the capture of a segment. -/
theorem isReadWell_of_isPlain
    {preferred : Expr → Ways}
    (hPreferred : IsPreference preferred)
    {edge : Edge}
    (hPlain : edge.IsPlain ∨ edge = .any) :
    edge.IsReadWell preferred plainWays := by
  cases edge with
  | literal | tail | any => exact trivial
  | capture source groups =>
      rcases hPlain with ⟨rfl, rfl⟩ | hAny
      case inr => cases hAny
      intro first
      have hSegment :=
        isReadAs_repeated '+' (Or.inr rfl)
          (isReadAs_allBut_slash (first + 1))
      refine
        ⟨_, isReadAs_capture (by decide) hSegment, ?_⟩
      change preferred (.repetition 1 none true _) = _
      rw [hPreferred.repetition rfl, hPreferred.set]
      rfl

end Edge

end RequestRouter

------------------------------------------------------------
-- Ends of Paths
------------------------------------------------------------

namespace RequestRouter

open Regex

namespace Regex

namespace Ways

/- What a step that records nothing is followed by. -/
theorem andThen_unrecorded
    (first next : Ways)
    (place : Place) :
    andThen (unrecorded first) next place =
      (first place).flatMap fun way => next way.place := by
  simp [andThen, unrecorded, List.flatMap_map]

/- At most one round, if possible, comes before staying. -/
theorem repetition_optional
    (round : Ways) :
    repetition 0 (some 1) true round =
      fun place => round place ++ stay place := by
  funext place
  change
    andThen stay (upTo true round 1) place = _
  rw [stay_andThen]
  simp [upTo, andThen_stay, prefer]

/- A choice without ways has parts without ways. -/
theorem choice_eq_nil
    {list : List Ways}
    {place : Place}
    (hNone : ∀ ways ∈ list, ways place = []) :
    choice list place = [] := by
  induction list with
  | nil => rfl
  | cons ways rest ih =>
      have hRest :=
        ih fun later hLater =>
          hNone later (List.mem_cons_of_mem _ hLater)
      simp [choice, hNone ways, hRest]

/- The first way of a choice is that of its first part. -/
theorem head?_choice
    (list : List Ways)
    (place : Place) :
    (choice list place).head? =
      list.findSome? fun ways => (ways place).head? := by
  induction list with
  | nil => rfl
  | cons ways rest ih =>
      rw [choice, List.head?_append, ih, List.findSome?_cons]
      cases (ways place).head? <;> rfl

end Ways

end Regex

namespace TreeNode

/- A marker matches at the end only. -/
theorem markerWays_eq
    (group : Nat)
    (before : Option Char)
    (rest : Text) :
    markerWays group ⟨before, rest⟩ =
      if rest = [] then
        [⟨⟨before, []⟩, [(group, [])]⟩]
      else [] := by
  cases rest with
  | nil =>
      simp [markerWays, Ways.capture, Ways.check,
        Assertion.holds, Place.textTo]
  | cons c rest =>
      simp [markerWays, Ways.capture, Ways.check,
        Assertion.holds]

/- A node without children has the ways of its marker. -/
theorem ways_of_children_eq_nil
    {node : TreeNode}
    (hClosed : node.children = [])
    (inner : Text → Nat → Ways)
    (separator : Text)
    (group : Nat) :
    node.ways inner separator group =
      .choice
        (node.leaf.map fun _ => markerWays group).toList := by
  have hOrdered : node.ordered = [] :=
    (hClosed ▸ node.ordered_perm).eq_nil
  simp [ways_eq, alternativeWays, hOrdered, siblingWays]

/- It matches nothing in front of a character. -/
theorem ways_eq_nil_of_children_eq_nil
    {node : TreeNode}
    (hClosed : node.children = [])
    (inner : Text → Nat → Ways)
    (separator : Text)
    (group : Nat)
    (before : Option Char)
    (c : Char)
    (rest : Text) :
    node.ways inner separator group ⟨before, c :: rest⟩ =
      [] := by
  rw [ways_of_children_eq_nil hClosed]
  cases node.leaf <;>
    simp [Ways.choice, markerWays_eq]

end TreeNode

end RequestRouter

------------------------------------------------------------
-- Edges in Front of Parts
------------------------------------------------------------

namespace RequestRouter

open Regex

namespace Path

/- Whether a text is one part of a path on one line. -/
def IsPart
    (part : Text) : Prop :=
  '/' ∉ part ∧ '\n' ∉ part

/- The text of parts, each behind a slash. -/
def behindSlashes
    (parts : List Text) : Text :=
  parts.flatMap ('/' :: ·)

/- The first of parts stands behind a slash. -/
theorem behindSlashes_cons
    (part : Text)
    (parts : List Text) :
    behindSlashes (part :: parts) =
      '/' :: (part ++ behindSlashes parts) :=
  rfl

/- The text of parts is empty or starts with a slash. -/
theorem head?_behindSlashes
    (parts : List Text) :
    ∀ c ∈ (behindSlashes parts).head?, c = '/' := by
  cases parts <;> simp [behindSlashes]

/- A text without slashes that starts parts is in the first. -/
theorem prefix_part
    {text part : Text}
    {parts : List Text}
    (hText : '/' ∉ text)
    (hStart : text <+: part ++ behindSlashes parts) :
    text <+: part := by
  rcases
      List.prefix_or_prefix_of_prefix hStart
        (List.prefix_append part _) with
    hInside | ⟨left, rfl⟩
  · exact hInside
  · rw [List.prefix_append_right_inj] at hStart
    cases left with
    | nil => simp
    | cons c left =>
        rcases hStart with ⟨others, hOthers⟩
        have hSlash : c = '/' :=
          head?_behindSlashes parts c (by simp [← hOthers])
        exact absurd (by simp [hSlash]) hText

/- The text of parts is on one line. -/
theorem not_mem_behindSlashes
    {parts : List Text}
    (hParts : ∀ part ∈ parts, IsPart part) :
    '\n' ∉ behindSlashes parts := by
  intro hMember
  rcases List.mem_flatMap.mp hMember with
    ⟨part, hPart, hLine⟩
  have hPart : '\n' ∈ part := by simpa using hLine
  exact (hParts part ‹_›).2 hPart

/- Joined parts are the first and the others behind slashes. -/
theorem intercalate_cons_eq
    (part : Text)
    (parts : List Text) :
    ['/'].intercalate (part :: parts) =
      part ++ behindSlashes parts := by
  induction parts generalizing part with
  | nil => simp [behindSlashes]
  | cons second rest ih =>
      rw [List.intercalate_cons_cons, ih, behindSlashes_cons]
      simp

/- A path is its first segment and the others behind slashes. -/
theorem eq_append_behindSlashes
    {path part : Text}
    {parts : List Text}
    (hSplit : path.splitOn '/' = part :: parts) :
    path = part ++ behindSlashes parts := by
  rw [← intercalate_cons_eq, ← hSplit,
    List.intercalate_splitOn]

/- The segments of a path on one line are parts. -/
theorem isPart_of_mem_splitOn
    {path : Text}
    (hLine : '\n' ∉ path)
    {part : Text}
    (hPart : part ∈ path.splitOn '/') :
    IsPart part :=
  ⟨slash_not_mem hPart, fun hBreak =>
    hLine (mem_of_mem_splitOn hPart hBreak).1⟩

end Path

namespace Regex

namespace Ways

/- Whether nothing but the end or a slash may come next. -/
def AwaitsSlash
    (ways : Ways) : Prop :=
  ∀ before c rest, c ≠ '/' →
    ways ⟨before, c :: rest⟩ = []

/- Whether nothing but the end may come next. -/
def AwaitsEnd
    (ways : Ways) : Prop :=
  ∀ before c rest, ways ⟨before, c :: rest⟩ = []

end Ways

end Regex

namespace Edge

variable {next : Ways}

/- What follows a capture whose inside records nothing. -/
theorem capture_unrecorded_andThen
    (group : Nat)
    (body : Ways)
    (place : Place) :
    Ways.andThen
        (Ways.capture group (Ways.unrecorded body)) next
        place =
      (body place).flatMap fun way =>
        (next way.place).map fun later =>
          ⟨later.place,
            (group, place.textTo way.place) ::
              later.record⟩ := by
  simp [Ways.andThen, Ways.capture, Ways.unrecorded,
    List.flatMap_map]

/-
  A literal without slashes takes the part that equals it,
  and no other.
-/
theorem literal_andThen
    {text : Text}
    (hText : '/' ∉ text)
    (hNext : next.AwaitsSlash)
    (inner : Text → Nat → Ways)
    (separator : Text)
    (group : Nat)
    {part : Text}
    (hPart : Path.IsPart part)
    (parts : List Text)
    (before : Option Char) :
    Ways.andThen
        (ways inner separator group (.literal text)) next
        ⟨before,
          separator ++ (part ++ Path.behindSlashes parts)⟩ =
      if text = part then
        next
          (Place.behind before (separator ++ part)
            (Path.behindSlashes parts))
      else [] := by
  simp only [ways]
  split
  case isTrue hSame =>
      subst hSame
      have hWord :=
        Ways.text_append_rest (separator ++ text) before
          (Path.behindSlashes parts)
      rw [← List.append_assoc,
        Ways.andThen_of_eq_singleton hWord]
      simp
  case isFalse hOther =>
      by_cases hStart :
          text <+: part ++ Path.behindSlashes parts
      case neg =>
          refine Ways.andThen_of_eq_nil ?_ next
          apply Ways.text_eq_nil
          simpa [List.prefix_append_right_inj] using hStart
      case pos =>
          -- The text ends inside the part.
          rcases Path.prefix_part hText hStart with ⟨left, rfl⟩
          cases left with
          | nil => simp at hOther
          | cons c left =>
              have hWord :=
                Ways.text_append_rest (separator ++ text)
                  before
                  (c :: left ++ Path.behindSlashes parts)
              have hSlash : c ≠ '/' := by
                rintro rfl
                exact hPart.1 (by simp)
              rw [← List.append_assoc, ← List.append_assoc,
                List.append_assoc (separator ++ text),
                Ways.andThen_of_eq_singleton hWord]
              simp [Place.behind, hNext _ c _ hSlash]

/-
  A segment takes a whole part that is not empty, if what
  follows does not match in front of a character of a part.
-/
theorem flatMap_segment
    {α : Type}
    {part : Text}
    (hPart : Path.IsPart part)
    (parts : List Text)
    (next : Way → List α)
    (hNext :
      ∀ before c later, c ≠ '/' →
        next ⟨⟨before, c :: later⟩, []⟩ = [])
    (before : Option Char) :
    (Ways.repetition 1 none true
        (Ways.pass (CharSet.allBut ['/']).contains)
        ⟨before, part ++ Path.behindSlashes parts⟩).flatMap
          next =
      if part = [] then []
      else
        next
          ⟨Place.behind before part
            (Path.behindSlashes parts), []⟩ := by
  rw [Ways.repetition_plus]
  cases part with
  | nil =>
      have hSlash := Path.head?_behindSlashes parts
      cases hTail : Path.behindSlashes parts with
      | nil => simp [Ways.andThen, Ways.pass]
      | cons c rest =>
          have hFirst : c = '/' := hSlash c (by simp [hTail])
          have hSet :
              (CharSet.allBut ['/']).contains '/' = false :=
            rfl
          simp [Ways.andThen, Ways.pass, hFirst, hSet]
  | cons c word =>
      have hFirst : c ≠ '/' := by
        rintro rfl
        exact hPart.1 (by simp)
      have hWord :
          ∀ d ∈ word,
            (CharSet.allBut ['/']).contains d = true := by
        intro d hMember
        refine (CharSet.contains_allBut_iff '/' d).mpr ?_
        rintro rfl
        exact hPart.1 (List.mem_cons_of_mem _ hMember)
      have hEnd :
          ∀ d ∈ (Path.behindSlashes parts).head?,
            (CharSet.allBut ['/']).contains d = false := by
        intro d hHead
        rw [Path.head?_behindSlashes parts d hHead]
        rfl
      have hPass :
          Ways.pass (CharSet.allBut ['/']).contains
              ⟨before,
                c :: (word ++ Path.behindSlashes parts)⟩ =
            [⟨⟨some c, word ++ Path.behindSlashes parts⟩,
              []⟩] := by
        have hSet :=
          (CharSet.contains_allBut_iff '/' c).mpr hFirst
        simp [Ways.pass, hSet]
      have hRuns :=
        Ways.flatMap_runs hWord _ hEnd next
          (fun before d later hWanted =>
            hNext before d later
              ((CharSet.contains_allBut_iff '/' d).mp
                hWanted))
          (some c)
      rw [if_neg (by simp), List.cons_append,
        Ways.andThen_of_eq_singleton hPass,
        List.flatMap_map, Place.behind_cons, ← hRuns]
      rfl

/-
  A capture of a segment takes a whole part that is not
  empty, and records it.
-/
theorem capture_andThen
    {source : Text}
    {groups : Nat}
    (hNext : next.AwaitsSlash)
    (separator : Text)
    (group : Nat)
    {part : Text}
    (hPart : Path.IsPart part)
    (parts : List Text)
    (before : Option Char) :
    Ways.andThen
        (ways plainWays separator group
          (.capture source groups)) next
        ⟨before,
          separator ++ (part ++ Path.behindSlashes parts)⟩ =
      if part = [] then []
      else
        (next
            (Place.behind before (separator ++ part)
              (Path.behindSlashes parts))).map
          fun later =>
            ⟨later.place, (group, part) :: later.record⟩ := by
  have hSeparator :=
    Ways.text_append_rest separator before
      (part ++ Path.behindSlashes parts)
  rw [ways, Ways.andThen_assoc,
    Ways.andThen_of_eq_singleton hSeparator]
  simp only [List.nil_append, List.map_id']
  rw [plainWays, segmentWays, capture_unrecorded_andThen]
  refine
    (flatMap_segment hPart parts _ ?_ _).trans ?_
  · intro before c later hSlash
    simp [hNext before c later hSlash]
  · have hText :
        (Place.behind before separator
            (part ++ Path.behindSlashes parts)).textTo
          (Place.behind (separator.getLast?.or before) part
            (Path.behindSlashes parts)) = part :=
      Place.textTo_append _ _ part _
    simp only [hText, Place.behind_append]

/-
  Any number of characters takes a whole line if what
  follows matches at the end only.
-/
theorem lineWays_andThen
    (hNext : next.AwaitsEnd)
    {line : Text}
    (hLine : '\n' ∉ line)
    (before : Option Char) :
    Ways.andThen lineWays next ⟨before, line⟩ =
      next (Place.behind before line []) := by
  rw [lineWays, Ways.andThen_unrecorded,
    Ways.repetition_star]
  have hWord :
      ∀ c ∈ line,
        (CharSet.allBut ['\n']).contains c = true := by
    intro c hMember
    have hOther : c ≠ '\n' := by
      rintro rfl
      exact hLine hMember
    exact (CharSet.contains_allBut_iff '\n' c).mpr hOther
  have hRuns :=
    Ways.flatMap_runs hWord [] (by simp)
      (fun way => next way.place)
      (fun before c later _ => hNext before c later) before
  rwa [List.append_nil] at hRuns

/- The tail goes on behind a slash and a line, or at once. -/
theorem tail_andThen_eq
    (next : Ways)
    (inner : Text → Nat → Ways)
    (separator : Text)
    (group : Nat)
    (place : Place) :
    Ways.andThen (ways inner separator group .tail) next
        place =
      (Ways.andThen (Ways.pass (· == '/')) lineWays
          place).flatMap
        (fun way => next way.place) ++ next place := by
  rw [ways, Ways.andThen_unrecorded,
    Ways.repetition_optional, List.flatMap_append]
  simp [Ways.stay]

/- The tail takes all parts that are left. -/
theorem tail_andThen
    (hNext : next.AwaitsEnd)
    (inner : Text → Nat → Ways)
    (separator : Text)
    (group : Nat)
    (parts : List Text)
    (hParts : ∀ part ∈ parts, Path.IsPart part)
    (before : Option Char) :
    ∃ last,
      Ways.andThen (ways inner separator group .tail) next
          ⟨before, Path.behindSlashes parts⟩ =
        next ⟨last, []⟩ := by
  rw [tail_andThen_eq]
  cases parts with
  | nil =>
      refine ⟨before, ?_⟩
      simp [Path.behindSlashes, Ways.andThen, Ways.pass]
  | cons part parts =>
      have hLine :
          '\n' ∉ part ++ Path.behindSlashes parts := by
        have hAll := Path.not_mem_behindSlashes hParts
        simpa [Path.behindSlashes] using hAll
      have hSlash :
          Ways.pass (· == '/')
              ⟨before, '/' ::
                (part ++ Path.behindSlashes parts)⟩ =
            [⟨⟨some '/', part ++ Path.behindSlashes parts⟩,
              []⟩] := by
        simp [Ways.pass]
      have hRest :=
        lineWays_andThen hNext hLine (some '/')
      rw [lineWays, Ways.andThen_unrecorded] at hRest
      refine ⟨_, Eq.trans ?_ hRest⟩
      rw [Path.behindSlashes_cons,
        Ways.andThen_of_eq_singleton hSlash, hNext,
        List.append_nil]
      simp [lineWays, Ways.unrecorded, List.flatMap_map]

end Edge

end RequestRouter

------------------------------------------------------------
-- Records of Selections
------------------------------------------------------------

namespace RequestRouter

open Regex

namespace Emission

/-
  Whether a record is that of a selection by the tables of
  an emission: the groups of the captures with what they
  caught, and last the marker of the leaf.
-/
def Records
    (emission : Emission)
    (record : List (Nat × Text))
    (selected : Selected) : Prop :=
  ∃ marker taken,
    record = taken ++ [(marker, [])] ∧
      (marker, selected.leaf) ∈ emission.leafGroups ∧
      List.Forall₂
        (fun caught group =>
          (caught.1, group.1) ∈ emission.captureGroups ∧
            group.2 = caught.2)
        selected.caught taken

/- Whether a way, if there is one, records a selection. -/
abbrev Agrees
    (emission : Emission) :
    Option Way → Option Selected → Prop :=
  Option.Rel fun way selected =>
    emission.Records way.record selected

/- Larger tables record the same. -/
theorem Records.mono
    {small large : Emission}
    {record : List (Nat × Text)}
    {selected : Selected}
    (hLeaves : small.leafGroups ⊆ large.leafGroups)
    (hCaptures : small.captureGroups ⊆ large.captureGroups)
    (hRecords : small.Records record selected) :
    large.Records record selected := by
  rcases hRecords with
    ⟨marker, taken, hRecord, hMarker, hTaken⟩
  refine
    ⟨marker, taken, hRecord, hLeaves hMarker, ?_⟩
  exact
    hTaken.imp fun _ _ hBoth =>
      ⟨hCaptures hBoth.1, hBoth.2⟩

/- What a capture catches is recorded in front. -/
theorem Records.behind
    {emission : Emission}
    {record : List (Nat × Text)}
    {selected : Selected}
    (hRecords : emission.Records record selected)
    {node group : Nat}
    (hGroup : (node, group) ∈ emission.captureGroups)
    (part : Text) :
    emission.Records ((group, part) :: record)
      (selected.behind node part) := by
  rcases hRecords with
    ⟨marker, taken, rfl, hMarker, hTaken⟩
  exact
    ⟨marker, (group, part) :: taken, rfl, hMarker,
      .cons ⟨hGroup, rfl⟩ hTaken⟩

/- Agreement carries over to larger tables. -/
theorem Agrees.mono
    {small large : Emission}
    {way : Option Way}
    {selected : Option Selected}
    (hLeaves : small.leafGroups ⊆ large.leafGroups)
    (hCaptures : small.captureGroups ⊆ large.captureGroups)
    (hAgrees : small.Agrees way selected) :
    large.Agrees way selected := by
  cases hAgrees with
  | none => exact .none
  | some hRecords =>
      exact .some (hRecords.mono hLeaves hCaptures)

/- Agreement carries over behind a capture. -/
theorem Agrees.behind
    {emission : Emission}
    {way : Option Way}
    {selected : Option Selected}
    (hAgrees : emission.Agrees way selected)
    {node group : Nat}
    (hGroup : (node, group) ∈ emission.captureGroups)
    (part : Text) :
    emission.Agrees
      (way.map fun later =>
        ⟨later.place, (group, part) :: later.record⟩)
      (selected.map (·.behind node part)) := by
  cases hAgrees with
  | none => exact .none
  | some hRecords =>
      exact .some (hRecords.behind hGroup part)

/- The tables of alternatives contain those of each. -/
theorem subset_ofAlternatives
    {emissions : List Emission}
    {small : Emission}
    (hMember : small ∈ emissions)
    (group : Nat) :
    small.leafGroups ⊆
        (ofAlternatives group emissions).leafGroups ∧
      small.captureGroups ⊆
        (ofAlternatives group emissions).captureGroups :=
  ⟨fun _ hEntry =>
      List.mem_flatMap.mpr ⟨small, hMember, hEntry⟩,
    fun _ hEntry =>
      List.mem_flatMap.mpr ⟨small, hMember, hEntry⟩⟩

end Emission

namespace TreeNode

/- At the end a childless node records its own leaf. -/
theorem agrees_own?
    {node : TreeNode}
    (hClosed : node.children = [])
    (inner : Text → Nat → Ways)
    (separator : Text)
    (group : Nat)
    (before : Option Char) :
    (node.flatten separator group).Agrees
      (node.ways inner separator group ⟨before, []⟩).head?
      node.own? := by
  rw [ways_of_children_eq_nil hClosed, flatten_eq]
  cases hLeaf : node.leaf with
  | none =>
      simp only [Option.map_none, Option.toList_none,
        Ways.choice, List.head?_nil, own?, hLeaf]
      exact .none
  | some leaf =>
      simp only [Option.map_some, Option.toList_some,
        Ways.choice, markerWays_eq, if_true,
        List.append_nil, List.head?_cons, own?, hLeaf]
      refine
        .some ⟨group, [], rfl, ?_, .nil⟩
      simp [Emission.ofAlternatives, alternatives, hLeaf,
        Emission.marker]

/-
  Where each branch of siblings agrees with what is found
  through its edge, the first way agrees with the first find.
-/
theorem agrees_siblings
    {entries : List (Edge × TreeNode)}
    {separator : Text}
    {place : Place}
    {find : Edge × TreeNode → Option Selected}
    (hEach :
      ∀ entry ∈ entries, ∀ group,
        ((branchOf entry).flatten separator group).Agrees
          (Ways.andThen
            (entry.1.ways Edge.plainWays separator group)
            (entry.2.ways Edge.plainWays ['/']
              (entry.1.groupAfter group)) place).head?
          (find entry))
    (group : Nat)
    (emission : Emission)
    (hTables :
      ∀ small ∈
          Branch.flattenAll separator group
            (entries.map branchOf),
        small.leafGroups ⊆ emission.leafGroups ∧
          small.captureGroups ⊆ emission.captureGroups) :
    emission.Agrees
      ((siblingWays Edge.plainWays separator group
        (entries.map (withWays Edge.plainWays))).findSome?
          fun ways => (ways place).head?)
      (entries.findSome? find) := by
  induction entries generalizing group with
  | nil => exact .none
  | cons entry rest ih =>
      have hFirst := hEach entry (by simp) group
      have hSmall := hTables _ List.mem_cons_self
      have hRest :=
        ih (fun later hLater =>
            hEach later (List.mem_cons_of_mem _ hLater))
          ((branchOf entry).flatten separator group).next
          (fun small hMember =>
            hTables small (List.mem_cons_of_mem _ hMember))
      have hNext :
          ((branchOf entry).flatten separator group).next =
            (entry.2.flatten ['/']
              (entry.1.groupAfter group)).next := by
        rw [Branch.flatten_eq]
        rfl
      rw [hNext] at hRest
      simp only [List.map_cons, withWays, siblingWays,
        List.findSome?_cons]
      revert hFirst
      generalize
        (Ways.andThen
          (entry.1.ways Edge.plainWays separator group)
          (entry.2.ways Edge.plainWays ['/']
            (entry.1.groupAfter group)) place).head? = first
      generalize find entry = found
      intro hFirst
      cases hFirst with
      | none => exact hRest
      | some hRecords =>
          exact .some (hRecords.mono hSmall.1 hSmall.2)

end TreeNode

end RequestRouter

------------------------------------------------------------
-- Trees in Front of Parts
------------------------------------------------------------

namespace RequestRouter

open Regex

namespace TreeNode

/-
  A node whose branches agree with what is found through
  their edges agrees with its own leaf at the end, and else
  with the first find.
-/
theorem agrees_ways
    {node : TreeNode}
    {separator : Text}
    (place : Place)
    (find : Edge × TreeNode → Option Selected)
    (hEach :
      ∀ entry ∈ node.children, ∀ group,
        ((branchOf entry).flatten separator group).Agrees
          (Ways.andThen
            (entry.1.ways Edge.plainWays separator group)
            (entry.2.ways Edge.plainWays ['/']
              (entry.1.groupAfter group)) place).head?
          (find entry))
    (group : Nat) :
    (node.flatten separator group).Agrees
      (node.ways Edge.plainWays separator group place).head?
      ((if place.rest = [] then node.own? else none).or
        (node.ordered.findSome? find)) := by
  have hOrdered :
      ∀ entry ∈ node.ordered, ∀ group,
        ((branchOf entry).flatten separator group).Agrees
          (Ways.andThen
            (entry.1.ways Edge.plainWays separator group)
            (entry.2.ways Edge.plainWays ['/']
              (entry.1.groupAfter group)) place).head?
          (find entry) :=
    fun entry hEntry =>
      hEach entry ((mem_ordered_iff _ _).mp hEntry)
  have hTables :
      ∀ small ∈ node.alternatives separator group,
        small.leafGroups ⊆
            (node.flatten separator group).leafGroups ∧
          small.captureGroups ⊆
            (node.flatten separator group).captureGroups := by
    intro small hMember
    rw [flatten_eq]
    exact Emission.subset_ofAlternatives hMember group
  rw [ways_eq, Ways.head?_choice, alternativeWays,
    List.findSome?_append]
  rcases place with ⟨before, rest⟩
  cases hLeaf : node.leaf with
  | none =>
      have hNone :
          (if rest = [] then node.own? else none) = none := by
        simp [own?, hLeaf]
      rw [hNone]
      refine
        agrees_siblings hOrdered group _ fun small hMember =>
          hTables small ?_
      simpa [alternatives, hLeaf] using hMember
  | some leaf =>
      have hSiblings :=
        agrees_siblings hOrdered (group + 1)
          (node.flatten separator group)
          fun small hMember =>
            hTables small (by
              simp only [alternatives, hLeaf,
                Option.map_some, Option.toList_some,
                Option.isSome_some, if_true,
                List.mem_append]
              exact Or.inr hMember)
      cases rest with
      | cons c rest =>
          simpa [markerWays_eq] using hSiblings
      | nil =>
          simp only [Option.map_some, Option.toList_some,
            List.findSome?_cons, markerWays_eq, if_true,
            List.head?_cons, own?, hLeaf, Option.some_or]
          refine .some ⟨group, [], rfl, ?_, .nil⟩
          have hMarker :=
            hTables (Emission.marker group leaf)
              (by simp [alternatives, hLeaf])
          exact hMarker.1 (by simp [Emission.marker])

/- The ways of siblings are those of their edges, in a row. -/
theorem exists_of_mem_siblingWays
    {inner : Text → Nat → Ways}
    {separator : Text}
    {group : Nat}
    {entries : List (Edge × TreeNode)}
    {ways : Ways}
    (hWays :
      ways ∈ siblingWays inner separator group
        (entries.map (withWays inner))) :
    ∃ entry ∈ entries, ∃ group,
      ways =
        Ways.andThen (entry.1.ways inner separator group)
          (entry.2.ways inner ['/']
            (entry.1.groupAfter group)) := by
  induction entries generalizing group with
  | nil => simp [siblingWays] at hWays
  | cons entry rest ih =>
      rcases List.mem_cons.mp hWays with rfl | hRest
      · exact ⟨entry, by simp, group, rfl⟩
      · rcases ih hRest with
          ⟨later, hLater, number, hEq⟩
        exact
          ⟨later, List.mem_cons_of_mem _ hLater, number, hEq⟩

/- Behind a plain node only the end or a slash may follow. -/
theorem awaitsSlash_ways
    {node : TreeNode}
    (hNode : node.IsOrderly)
    (hPlain : node.AllEdges Edge.IsPlain)
    (group : Nat) :
    (node.ways Edge.plainWays ['/'] group).AwaitsSlash := by
  intro before c rest hSlash
  have hText :
      ∀ text,
        Ways.text ('/' :: text) ⟨before, c :: rest⟩ =
          [] := by
    intro text
    apply Ways.text_eq_nil
    intro hStart
    exact hSlash (List.cons_prefix_cons.mp hStart).1.symm
  rw [ways_eq]
  apply Ways.choice_eq_nil
  intro ways hWays
  rcases List.mem_append.mp hWays with hOwn | hSibling
  · rcases Option.mem_toList.mp hOwn with hOwn
    rcases Option.map_eq_some_iff.mp hOwn with
      ⟨leaf, -, rfl⟩
    simp [markerWays_eq]
  · rcases exists_of_mem_siblingWays hSibling with
      ⟨⟨edge, child⟩, hEntry, number, rfl⟩
    rw [mem_ordered_iff] at hEntry
    have hEdge := hPlain.edge hNode hEntry
    cases edge with
    | any => exact hEdge.elim
    | literal text =>
        exact Ways.andThen_of_eq_nil (hText text) _
    | capture source groups =>
        exact
          Ways.andThen_of_eq_nil
            (Ways.andThen_of_eq_nil (hText []) _) _
    | tail =>
        have hClosed : child.children = [] :=
          hNode.tidy.closed _ hEntry rfl
        rw [Edge.tail_andThen_eq,
          ways_eq_nil_of_children_eq_nil hClosed]
        simp [Ways.andThen, Ways.pass, hSlash]

/-
  Through an edge, a branch agrees with what is selected
  behind the edge for the parts that follow.
-/
theorem agrees_through
    {node : TreeNode}
    (hNode : node.IsOrderly)
    {edge : Edge}
    {child : TreeNode}
    (hEntry : (edge, child) ∈ node.children)
    (separator : Text)
    (hEdge :
      edge.IsPlain ∧ (edge = .tail → separator = ['/']) ∨
        edge = .any)
    (hSeparator : '\n' ∉ separator)
    {part : Text}
    {parts : List Text}
    (hParts :
      ∀ other ∈ part :: parts, Path.IsPart other)
    (hBelow :
      edge.isOpenEnded = false →
        ∀ group,
          (child.ways Edge.plainWays ['/']
            group).AwaitsSlash ∧
          ∀ before,
            (child.flatten ['/'] group).Agrees
              (child.ways Edge.plainWays ['/'] group
                ⟨before, Path.behindSlashes parts⟩).head?
              (child.select parts))
    (group : Nat)
    (before : Option Char) :
    ((branchOf (edge, child)).flatten separator
        group).Agrees
      (Ways.andThen
        (edge.ways Edge.plainWays separator group)
        (child.ways Edge.plainWays ['/']
          (edge.groupAfter group))
        ⟨before,
          separator ++
            (part ++ Path.behindSlashes parts)⟩).head?
      (child.through edge part (child.select parts)) := by
  have hPart : Path.IsPart part := hParts part (by simp)
  have hLine :
      '\n' ∉
        separator ++ (part ++ Path.behindSlashes parts) := by
    have hRest :=
      Path.not_mem_behindSlashes fun other hOther =>
        hParts other (List.mem_cons_of_mem _ hOther)
    simp [hSeparator, hPart.2, hRest]
  rw [Branch.flatten_eq]
  cases edge with
  | literal text =>
      have hText : '/' ∉ text := by
        rcases hEdge with hPlain | hAny
        · exact hPlain.1
        · cases hAny
      rcases
          hBelow rfl
            (Edge.groupAfter group (.literal text)) with
        ⟨hAwaits, hAgrees⟩
      dsimp only [through]
      rw [Edge.literal_andThen hText hAwaits _ _ _ hPart]
      split
      case isFalse => exact .none
      case isTrue => exact hAgrees _
  | capture source groups =>
      rcases
          hBelow rfl
            (Edge.groupAfter group
              (.capture source groups)) with
        ⟨hAwaits, hAgrees⟩
      dsimp only [through]
      rw [Edge.capture_andThen hAwaits _ _ hPart]
      split
      case isTrue => exact .none
      case isFalse =>
          rw [List.head?_map]
          refine Emission.Agrees.behind ?_ ?_ part
          · refine (hAgrees _).mono ?_ ?_
            · exact List.Subset.refl _
            · exact List.subset_append_right _ _
          · simp [Edge.ownGroup, branchOf]
  | tail =>
      have hSlash : separator = ['/'] := by
        rcases hEdge with hPlain | hAny
        · exact hPlain.2 rfl
        · cases hAny
      have hClosed : child.children = [] :=
        hNode.tidy.closed _ hEntry rfl
      subst hSlash
      rcases
          Edge.tail_andThen
            (ways_eq_nil_of_children_eq_nil hClosed
              Edge.plainWays ['/'] group)
            Edge.plainWays ['/'] group (part :: parts) hParts
            before with
        ⟨last, hLast⟩
      rw [Path.behindSlashes_cons] at hLast
      simp only [List.singleton_append, Edge.groupAfter,
        hLast]
      exact agrees_own? hClosed _ _ group last
  | any =>
      have hClosed : child.children = [] :=
        hNode.tidy.closed _ hEntry rfl
      simp only [Edge.groupAfter, Edge.ways]
      rw [Edge.lineWays_andThen
        (ways_eq_nil_of_children_eq_nil hClosed
          Edge.plainWays ['/'] group) hLine before]
      exact agrees_own? hClosed _ _ group _

/- At the end only the tail goes on, and takes nothing. -/
theorem agrees_at_end
    {node : TreeNode}
    (hNode : node.IsOrderly)
    (hPlain : node.AllEdges Edge.IsPlain)
    {edge : Edge}
    {child : TreeNode}
    (hEntry : (edge, child) ∈ node.children)
    (group : Nat)
    (before : Option Char) :
    ((branchOf (edge, child)).flatten ['/'] group).Agrees
      (Ways.andThen
        (edge.ways Edge.plainWays ['/'] group)
        (child.ways Edge.plainWays ['/']
          (edge.groupAfter group)) ⟨before, []⟩).head?
      (child.atEnd edge) := by
  have hText :
      ∀ text, Ways.text ('/' :: text) ⟨before, []⟩ = [] := by
    intro text
    apply Ways.text_eq_nil
    simp
  rw [Branch.flatten_eq]
  cases edge with
  | any => exact (hPlain.edge hNode hEntry).elim
  | literal text =>
      simp only [Edge.ways, List.singleton_append]
      rw [Ways.andThen_of_eq_nil (hText text)]
      exact .none
  | capture source groups =>
      simp only [Edge.ways]
      rw [Ways.andThen_assoc,
        Ways.andThen_of_eq_nil (hText [])]
      exact .none
  | tail =>
      have hClosed : child.children = [] :=
        hNode.tidy.closed _ hEntry rfl
      rcases
          Edge.tail_andThen
            (ways_eq_nil_of_children_eq_nil hClosed
              Edge.plainWays ['/'] group)
            Edge.plainWays ['/'] group [] (by simp)
            before with
        ⟨last, hLast⟩
      simp only [Path.behindSlashes, List.flatMap_nil]
        at hLast
      simp only [Edge.groupAfter, hLast]
      exact agrees_own? hClosed _ _ group last

/-
  In front of parts behind slashes, the first way of a plain
  tree records what the tree selects for the parts.
-/
theorem agrees_select
    (node : TreeNode)
    (hNode : node.IsOrderly)
    (hPlain : node.AllEdges Edge.IsPlain)
    {parts : List Text}
    (hParts : ∀ part ∈ parts, Path.IsPart part)
    (group : Nat)
    (before : Option Char) :
    (node.flatten ['/'] group).Agrees
      (node.ways Edge.plainWays ['/'] group
        ⟨before, Path.behindSlashes parts⟩).head?
      (node.select parts) := by
  induction node using induct
    generalizing parts group before with
  | hNode node ih =>
      cases parts with
      | nil =>
          exact
            agrees_ways ⟨before, []⟩
              (fun entry => entry.2.atEnd entry.1)
              (fun _ hEntry group =>
                agrees_at_end hNode hPlain hEntry group
                  before)
              group
      | cons part parts =>
          have hRest :
              ∀ other ∈ parts, Path.IsPart other :=
            fun other hOther =>
              hParts other (List.mem_cons_of_mem _ hOther)
          have hNode' :=
            agrees_ways
              ⟨before, Path.behindSlashes (part :: parts)⟩
              (fun entry =>
                entry.2.through entry.1 part
                  (entry.2.select parts))
              (fun _ hEntry group =>
                agrees_through hNode hEntry ['/']
                  (Or.inl
                    ⟨hPlain.edge hNode hEntry, fun _ => rfl⟩)
                  (by decide) hParts
                  (fun _ group =>
                    ⟨awaitsSlash_ways (hNode.child hEntry)
                        (hPlain.child hEntry) group,
                      fun before =>
                        ih _ hEntry (hNode.child hEntry)
                          (hPlain.child hEntry) hRest group
                          before⟩)
                  group before)
              group
          simpa [Path.behindSlashes_cons, select] using hNode'

/-
  In front of a whole path, the first way of a tree that
  starts with plain edges or wildcards records what the tree
  selects for the parts of the path.
-/
theorem agrees_select_root
    {node : TreeNode}
    (hNode : node.IsOrderly)
    (hLeaf : node.leaf = none)
    (hEdges :
      ∀ entry ∈ node.children,
        entry.1.IsPlain ∧ entry.1 ≠ .tail ∨ entry.1 = .any)
    (hBelow :
      ∀ entry ∈ node.children,
        entry.1.isOpenEnded = false →
          entry.2.AllEdges Edge.IsPlain)
    {part : Text}
    {parts : List Text}
    (hParts :
      ∀ other ∈ part :: parts, Path.IsPart other)
    (group : Nat)
    (before : Option Char) :
    (node.flatten [] group).Agrees
      (node.ways Edge.plainWays [] group
        ⟨before, part ++ Path.behindSlashes parts⟩).head?
      (node.select (part :: parts)) := by
  have hRest : ∀ other ∈ parts, Path.IsPart other :=
    fun other hOther =>
      hParts other (List.mem_cons_of_mem _ hOther)
  have hRoot :=
    agrees_ways
      ⟨before, part ++ Path.behindSlashes parts⟩
      (fun entry =>
        entry.2.through entry.1 part (entry.2.select parts))
      (fun _ hEntry group =>
        agrees_through hNode hEntry []
          ((hEdges _ hEntry).imp
            (fun hPlain =>
              ⟨hPlain.1, fun hTail => (hPlain.2 hTail).elim⟩)
            fun hAny => hAny)
          (by simp) hParts
          (fun hClosed group =>
            ⟨awaitsSlash_ways (hNode.child hEntry)
                (hBelow _ hEntry hClosed) group,
              fun before =>
                agrees_select _ (hNode.child hEntry)
                  (hBelow _ hEntry hClosed) hRest group
                  before⟩)
          group before)
      group
  simpa [own?, hLeaf, select] using hRoot

end TreeNode

end RequestRouter
