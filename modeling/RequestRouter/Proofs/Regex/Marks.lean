import Mathlib.Data.List.Forall2
import Mathlib.Data.List.Nodup
import RequestRouter.Proofs.Regex.CodeWays

/-
  What the positions saved by code say about groups.

  A group saves where it starts and where it ends. Where the
  groups of an expression have different numbers, the text
  between the two positions that were saved last for a group
  outside repetitions is the text that its way records.

  Key definitions include:
    * `Regex.Expr.groups`
    * `Regex.Passage.text?`
    * `Regex.Tells`

  Main statements:
    * `Regex.Expr.saves_block`
    * `Regex.Expr.forall₂_tells`
-/

------------------------------------------------------------
-- Groups That Are Saved
------------------------------------------------------------

namespace RequestRouter

namespace Regex

namespace Expr

mutual

/- The indices of all groups, outer and earlier ones first. -/
def groups : Expr → List Nat
  | .empty | .char _ | .set _ | .assertion _ => []
  | .group index _ body => index :: body.groups
  | .repetition _ _ _ body => body.groups
  | .concat items => listGroups items
  | .alternation branches => listGroups branches

/- The indices of all groups in a list. -/
def listGroups : List Expr → List Nat
  | [] => []
  | e :: rest => e.groups ++ listGroups rest

end

mutual

/- Groups outside repetitions are groups. -/
theorem outerGroups_subset
    (e : Expr) :
    e.outerGroups ⊆ e.groups := by
  cases e with
  | empty | char | set | assertion => exact List.Subset.refl _
  | group index name body =>
      exact List.cons_subset_cons index (outerGroups_subset body)
  | repetition => exact List.nil_subset _
  | concat items => exact listOuterGroups_subset items
  | alternation branches =>
      exact listOuterGroups_subset branches

/- So they are in a list. -/
theorem listOuterGroups_subset
    (items : List Expr) :
    listOuterGroups items ⊆ listGroups items := by
  cases items with
  | nil => exact List.Subset.refl _
  | cons e rest =>
      exact
        List.append_subset.mpr
          ⟨List.subset_append_of_subset_left _
              (outerGroups_subset e),
            List.subset_append_of_subset_right _
              (listOuterGroups_subset rest)⟩

end

end Expr

/- Whether instructions save positions of some groups only. -/
def Saves
    (groups : List Nat)
    (instructions : List Instruction) : Prop :=
  ∀ instruction ∈ instructions,
    ∀ slot ∈ instruction.slot?, slot / 2 ∈ groups

namespace Saves

variable {groups others : List Nat}
variable {first second : List Instruction}

/- With more groups they do so, too. -/
theorem mono
    (hSaves : Saves groups first)
    (hMore : groups ⊆ others) :
    Saves others first := by
  intro instruction hInstruction slot hSlot
  exact hMore (hSaves instruction hInstruction slot hSlot)

/- So do the instructions of two lists. -/
theorem append
    (hFirst : Saves groups first)
    (hSecond : Saves groups second) :
    Saves groups (first ++ second) := by
  intro instruction hInstruction
  rcases List.mem_append.mp hInstruction with hIn | hIn
  · exact hFirst instruction hIn
  · exact hSecond instruction hIn

/- Other names for the targets do not change the slots. -/
theorem renamed
    {part : Part}
    (hPart : Saves groups part.body)
    (next offset : Nat) :
    Saves groups (part.renamed next offset) := by
  intro instruction hInstruction slot hSlot
  rcases List.mem_map.mp hInstruction with ⟨own, hOwn, rfl⟩
  apply hPart own hOwn slot
  cases own <;> exact hSlot

/- A choice saves nothing. -/
theorem choice
    (groups : List Nat)
    (greedy : Bool)
    (inside outside : Nat) :
    Saves groups
      [Fragment.prefer greedy inside outside] := by
  intro instruction hInstruction slot hSlot
  rw [List.mem_singleton.mp hInstruction] at hSlot
  cases hSlot

/- Blocks in a row save what each of them saves. -/
theorem andThen
    {block next : Block}
    (hBlock : Saves groups block.body)
    (hNext : Saves groups next.body) :
    Saves groups (Block.andThen block next).body :=
  hNext.append (hBlock.renamed _ _)

/- To do nothing is to save nothing. -/
theorem stay
    (groups : List Nat) :
    Saves groups Block.stay.body := by
  intro instruction hInstruction
  cases hInstruction

variable {round : Block}

/- Several rounds save what one of them does. -/
theorem times
    (hRound : Saves groups round.body)
    (count : Nat) :
    Saves groups (round.times count).body := by
  induction count with
  | zero => exact stay groups
  | succ count ih => exact hRound.andThen ih

/- So do rounds that may be left out. -/
theorem upTo
    (hRound : Saves groups round.body)
    (greedy : Bool)
    (count : Nat) :
    Saves groups (round.upTo greedy count).body := by
  induction count with
  | zero => exact stay groups
  | succ count ih =>
      exact (hRound.andThen ih).append (choice _ _ _ _)

/- So do one round or more. -/
theorem loop
    (hRound : Saves groups round.body)
    (greedy : Bool) :
    Saves groups (round.loop greedy).body :=
  (choice groups greedy _ _).append (hRound.renamed 1 2)

/- So does any repetition. -/
theorem repetition
    (hRound : Saves groups round.body)
    (min : Nat)
    (max : Option Nat)
    (greedy canBeEmpty : Bool) :
    Saves groups
      (round.repetition min max greedy canBeEmpty).body := by
  match min, max with
  | 0, none =>
      cases canBeEmpty with
      | true =>
          exact (hRound.loop greedy).append (choice _ _ _ _)
      | false => exact hRound.loop greedy
  | least + 1, none =>
      exact
        (hRound.times least).andThen
          (Saves.loop hRound greedy)
  | 0, some most | least + 1, some most =>
      exact (hRound.times _).andThen (hRound.upTo greedy _)

end Saves

namespace Expr

/- One instruction that is no save saves nothing. -/
theorem saves_single
    (groups : List Nat)
    {instruction : Instruction}
    (hSlot : instruction.slot? = none) :
    Saves groups [instruction] := by
  intro own hOwn slot hOwnSlot
  rw [List.mem_singleton.mp hOwn, hSlot] at hOwnSlot
  cases hOwnSlot

mutual

/- The code of an expression saves positions of its groups. -/
theorem saves_block
    (e : Expr) :
    Saves e.groups e.block.body := by
  cases e with
  | empty => exact .stay _
  | char | set | assertion => exact saves_single _ rfl
  | group index name body =>
      have hSave :
          ∀ slot, slot / 2 = index →
            Saves (index :: body.groups)
              (Block.save slot).body := by
        rintro slot rfl own hOwn other hOther
        rw [List.mem_singleton.mp hOwn] at hOther
        cases hOther
        exact List.mem_cons_self
      have hBody :=
        (saves_block body).mono (List.subset_cons_self index _)
      exact
        (hSave (2 * index) (by omega)).andThen
          (hBody.andThen (hSave (2 * index + 1) (by omega)))
  | repetition min max greedy body =>
      exact (saves_block body).repetition min max greedy _
  | concat items => exact saves_sequenceBlock items
  | alternation branches =>
      exact
        (saves_branchFork branches).append
          (saves_single _ rfl)

/- So does the code of expressions in a row. -/
theorem saves_sequenceBlock
    (items : List Expr) :
    Saves (listGroups items) (sequenceBlock items).body := by
  cases items with
  | nil => exact .stay _
  | cons e rest =>
      exact
        ((saves_block e).mono
            (List.subset_append_left _ _)).andThen
          ((saves_sequenceBlock rest).mono
            (List.subset_append_right _ _))

/- So does the code of branches. -/
theorem saves_branchFork
    (branches : List Expr) :
    Saves (listGroups branches)
      (branchFork branches).body := by
  cases branches with
  | nil => exact .stay _
  | cons e rest =>
      exact
        ((saves_block e).mono
            (List.subset_append_left _ _)).append
          (((saves_branchFork rest).mono
            (List.subset_append_right _ _)).renamed _ _)

end

end Expr

end Regex

end RequestRouter

------------------------------------------------------------
-- Texts of Groups
------------------------------------------------------------

namespace RequestRouter

namespace Regex

namespace Passage

/- The position that was saved last in a slot. -/
def saved?
    (passage : Passage)
    (slot : Nat) : Option Place :=
  passage.marks.reverse.lookup slot

/- The text between the positions saved for a group. -/
def text?
    (passage : Passage)
    (index : Nat) : Option Text :=
  match passage.saved? (2 * index),
    passage.saved? (2 * index + 1) with
  | some first, some last => some (first.textTo last)
  | _, _ => none

/- What is saved later counts. -/
theorem saved?_behind
    (marks : List (Nat × Place))
    (passage : Passage)
    (slot : Nat) :
    (passage.behind marks).saved? slot =
      (passage.saved? slot).or
        (marks.reverse.lookup slot) := by
  simp [saved?, behind, List.lookup_append]

/- A slot where nothing is saved has no position. -/
theorem saved?_eq_none
    {passage : Passage}
    {slot : Nat}
    (hNone : ∀ mark ∈ passage.marks, mark.1 ≠ slot) :
    passage.saved? slot = none := by
  apply List.lookup_eq_none_iff.mpr
  intro mark hMark
  have hOther := hNone mark (List.mem_reverse.mp hMark)
  simpa using hOther.symm

end Passage

/- A passage saves positions of groups of its part only. -/
theorem Part.mem_groups_of_mem_marks
    {part : Part}
    {groups : List Nat}
    (hSaves : Saves groups part.body)
    {index : Nat}
    {place : Place}
    {passage : Passage}
    (hPassage : passage ∈ part.passages index place)
    {mark : Nat × Place}
    (hMark : mark ∈ passage.marks) :
    mark.1 / 2 ∈ groups := by
  rcases List.mem_map.mp hPassage with ⟨trail, -, rfl⟩
  rcases List.mem_flatMap.mp hMark with
    ⟨⟨own, place⟩, -, hMark⟩
  unfold Code.marksAt at hMark
  cases hCode : part.code[own]? with
  | none =>
      simp [hCode] at hMark
  | some instruction =>
      rw [hCode] at hMark
      rcases List.mem_map.mp hMark with ⟨slot, hSlot, rfl⟩
      have hOwn : slot ∈ instruction.slot? :=
        Option.mem_toList.mp hSlot
      cases own with
      | zero =>
          have hAccept : instruction = .accept := by
            simpa [Part.code, eq_comm] using hCode
          rw [hAccept] at hOwn
          cases hOwn
      | succ own =>
          rw [Part.getElem?_code_succ] at hCode
          exact
            hSaves instruction
              (List.mem_of_getElem? hCode) slot hOwn

/-
  Whether a passage leads to where a way does, and has the
  texts that the way records if no two groups share a
  number.
-/
structure Tells
    (groups outer : List Nat)
    (passage : Passage)
    (way : Way) : Prop where
  place : passage.place = way.place
  texts :
    groups.Nodup → ∀ index ∈ outer,
      passage.text? index = way.record.lookup index

/- Whether a passage saves positions of some groups only. -/
def Passage.MarksOnly
    (passage : Passage)
    (groups : List Nat) : Prop :=
  ∀ mark ∈ passage.marks, mark.1 / 2 ∈ groups

/- Whether a way records texts of some groups only. -/
def Way.RecordsOnly
    (way : Way)
    (groups : List Nat) : Prop :=
  ∀ entry ∈ way.record, entry.1 ∈ groups

namespace Passage

variable {passage other : Passage}
variable {groups : List Nat}
variable {index : Nat}

/- The slots of a group determine its text. -/
theorem text?_congr
    (hSame :
      ∀ slot, slot / 2 = index →
        passage.saved? slot = other.saved? slot) :
    passage.text? index = other.text? index := by
  unfold text?
  rw [hSame (2 * index) (by omega),
    hSame (2 * index + 1) (by omega)]

/- Nothing is saved for a group of something else. -/
theorem MarksOnly.saved?_eq_none
    (hMarks : passage.MarksOnly groups)
    (hIndex : index ∉ groups)
    {slot : Nat}
    (hSlot : slot / 2 = index) :
    passage.saved? slot = none := by
  apply Passage.saved?_eq_none
  rintro mark hMark rfl
  exact hIndex (hSlot ▸ hMarks mark hMark)

/- So there is no text for it. -/
theorem MarksOnly.text?_eq_none
    (hMarks : passage.MarksOnly groups)
    (hIndex : index ∉ groups) :
    passage.text? index = none := by
  unfold text?
  rw [hMarks.saved?_eq_none hIndex (by omega)]

/- Nothing in front matters for a group behind. -/
theorem text?_behind_of_not_mem
    {front : Passage}
    (hFront : front.MarksOnly groups)
    (hIndex : index ∉ groups) :
    (passage.behind front.marks).text? index =
      passage.text? index := by
  apply text?_congr
  intro slot hSlot
  have hNone : front.marks.reverse.lookup slot = none :=
    hFront.saved?_eq_none hIndex hSlot
  rw [saved?_behind, hNone, Option.or_none]

/- Nothing behind matters for a group in front. -/
theorem text?_of_not_mem_behind
    {front : Passage}
    (hPassage : passage.MarksOnly groups)
    (hIndex : index ∉ groups) :
    (passage.behind front.marks).text? index =
      front.text? index := by
  apply text?_congr
  intro slot hSlot
  rw [saved?_behind,
    hPassage.saved?_eq_none hIndex hSlot, Option.none_or]
  rfl

end Passage

/- A way has no text for a group of something else. -/
theorem Way.RecordsOnly.lookup_eq_none
    {way : Way}
    {groups : List Nat}
    (hRecord : way.RecordsOnly groups)
    {index : Nat}
    (hIndex : index ∉ groups) :
    way.record.lookup index = none := by
  apply List.lookup_eq_none_iff.mpr
  intro entry hEntry
  have hOther : index ≠ entry.1 := by
    rintro rfl
    exact hIndex (hRecord entry hEntry)
  simpa using hOther

namespace Tells

variable {groups outer others more : List Nat}
variable {passage next : Passage}
variable {way later : Way}

/- A group is told by the positions around its body. -/
theorem group
    (hBody : Tells groups outer passage way)
    (hMarks : passage.MarksOnly groups)
    (hOuter : outer ⊆ groups)
    (index : Nat)
    (start : Place) :
    Tells (index :: groups) (index :: outer)
      ⟨passage.place,
        (2 * index, start) :: passage.marks ++
          [(2 * index + 1, passage.place)]⟩
      ⟨way.place,
        (index, start.textTo way.place) :: way.record⟩ := by
  refine ⟨hBody.place, ?_⟩
  intro hDistinct own hOwn
  rcases List.nodup_cons.mp hDistinct with ⟨hFresh, hGroups⟩
  rcases List.mem_cons.mp hOwn with rfl | hInner
  · have hFirst :=
      hMarks.saved?_eq_none hFresh
        (show 2 * own / 2 = own by omega)
    have hSlots : (2 * own == 2 * own + 1) = false :=
      beq_eq_false_iff_ne.mpr (Nat.ne_of_lt (Nat.lt_succ_self _))
    unfold Passage.saved? at hFirst
    simp [Passage.text?, Passage.saved?, List.lookup_append,
      List.lookup_cons, hFirst, hSlots, hBody.place]
  · have hOther : own ≠ index := by
      rintro rfl
      exact hFresh (hOuter hInner)
    have hText :
        Passage.text?
            ⟨passage.place,
              (2 * index, start) :: passage.marks ++
                [(2 * index + 1, passage.place)]⟩ own =
          passage.text? own := by
      apply Passage.text?_congr
      intro slot hSlot
      have hStart : (slot == 2 * index) = false :=
        beq_eq_false_iff_ne.mpr (by omega)
      have hEnd : (slot == 2 * index + 1) = false :=
        beq_eq_false_iff_ne.mpr (by omega)
      simp [Passage.saved?, List.lookup_append,
        List.lookup_cons, hStart, hEnd]
    rw [hText, hBody.texts hGroups own hInner,
      List.lookup_cons, beq_eq_false_iff_ne.mpr hOther]

/- In a row both parts tell about their own groups. -/
theorem andThen
    (hFirst : Tells groups outer passage way)
    (hNext : Tells others more next later)
    (hMarks : passage.MarksOnly groups)
    (hNextMarks : next.MarksOnly others)
    (hRecord : way.RecordsOnly groups)
    (hNextRecord : later.RecordsOnly others)
    (hOuter : outer ⊆ groups)
    (hMore : more ⊆ others) :
    Tells (groups ++ others) (outer ++ more)
      (next.behind passage.marks)
      ⟨later.place, way.record ++ later.record⟩ := by
  refine ⟨hNext.place, ?_⟩
  intro hDistinct index hIndex
  rcases List.nodup_append'.mp hDistinct with
    ⟨hGroups, hOthers, hDisjoint⟩
  rw [List.lookup_append]
  rcases List.mem_append.mp hIndex with hOwn | hLater
  · have hFresh : index ∉ others := hDisjoint (hOuter hOwn)
    rw [Passage.text?_of_not_mem_behind hNextMarks hFresh,
      hNextRecord.lookup_eq_none hFresh, Option.or_none,
      hFirst.texts hGroups index hOwn]
  · have hFresh : index ∉ groups := by
      intro hGroup
      exact hDisjoint hGroup (hMore hLater)
    rw [Passage.text?_behind_of_not_mem hMarks hFresh,
      hRecord.lookup_eq_none hFresh, Option.none_or,
      hNext.texts hOthers index hLater]

/- A branch tells that the groups behind took no part. -/
theorem first
    (hFirst : Tells groups outer passage way)
    (hMarks : passage.MarksOnly groups)
    (hRecord : way.RecordsOnly groups)
    (hMore : more ⊆ others) :
    Tells (groups ++ others) (outer ++ more) passage way := by
  refine ⟨hFirst.place, ?_⟩
  intro hDistinct index hIndex
  rcases List.nodup_append'.mp hDistinct with
    ⟨hGroups, -, hDisjoint⟩
  rcases List.mem_append.mp hIndex with hOwn | hOther
  · exact hFirst.texts hGroups index hOwn
  · have hFresh : index ∉ groups := by
      intro hGroup
      exact hDisjoint hGroup (hMore hOther)
    rw [hMarks.text?_eq_none hFresh,
      hRecord.lookup_eq_none hFresh]

/- It tells the same of the groups in front. -/
theorem second
    (hSecond : Tells others more passage way)
    (hMarks : passage.MarksOnly others)
    (hRecord : way.RecordsOnly others)
    (hOuter : outer ⊆ groups) :
    Tells (groups ++ others) (outer ++ more) passage way := by
  refine ⟨hSecond.place, ?_⟩
  intro hDistinct index hIndex
  rcases List.nodup_append'.mp hDistinct with
    ⟨-, hOthers, hDisjoint⟩
  rcases List.mem_append.mp hIndex with hOther | hOwn
  · have hFresh : index ∉ others := hDisjoint (hOuter hOther)
    rw [hMarks.text?_eq_none hFresh,
      hRecord.lookup_eq_none hFresh]
  · exact hSecond.texts hOthers index hOwn

end Tells

namespace Expr

variable {place : Place}

/- The code of an expression marks its own groups. -/
theorem marksOnly
    (e : Expr)
    {passage : Passage}
    (hPassage : passage ∈ e.block.passages place) :
    passage.MarksOnly e.groups :=
  fun _ hMark =>
    Part.mem_groups_of_mem_marks e.saves_block hPassage hMark

/- So does the code of expressions in a row. -/
theorem marksOnly_sequence
    (items : List Expr)
    {passage : Passage}
    (hPassage :
      passage ∈ (sequenceBlock items).passages place) :
    passage.MarksOnly (listGroups items) :=
  fun _ hMark =>
    Part.mem_groups_of_mem_marks (saves_sequenceBlock items)
      hPassage hMark

/- So does the code of branches. -/
theorem marksOnly_branches
    (branches : List Expr)
    {passage : Passage}
    (hPassage :
      passage ∈ (branchFork branches).passages place) :
    passage.MarksOnly (listGroups branches) := by
  rcases List.mem_flatMap.mp hPassage with
    ⟨start, -, hPassage⟩
  exact fun _ hMark =>
    Part.mem_groups_of_mem_marks (saves_branchFork branches)
      hPassage hMark

/- The ways of an expression record its own groups. -/
theorem recordsOnly
    (e : Expr)
    {way : Way}
    (hWay : way ∈ e.codeWays place) :
    way.RecordsOnly e.groups := by
  intro entry hEntry
  exact
    e.outerGroups_subset
      (isPreference_codeWays.mem_outerGroups e hWay hEntry)

/- So do the ways of expressions in a row. -/
theorem recordsOnly_sequence
    (items : List Expr)
    {way : Way}
    (hWay :
      way ∈ Ways.sequence (listCodeWays items) place) :
    way.RecordsOnly (listGroups items) := by
  intro entry hEntry
  rw [listCodeWays_eq] at hWay
  exact
    listOuterGroups_subset items
      (isPreference_codeWays.mem_outerGroups_sequence items
        hWay hEntry)

/- So do the ways of branches. -/
theorem recordsOnly_choice
    (branches : List Expr)
    {way : Way}
    (hWay :
      way ∈ Ways.choice (listCodeWays branches) place) :
    way.RecordsOnly (listGroups branches) := by
  intro entry hEntry
  rw [listCodeWays_eq] at hWay
  exact
    listOuterGroups_subset branches
      (isPreference_codeWays.mem_outerGroups_choice branches
        hWay hEntry)

end Expr

end Regex

end RequestRouter

------------------------------------------------------------
-- Passages and Ways
------------------------------------------------------------

namespace RequestRouter

namespace Regex

/- Members of lists that correspond are members. -/
theorem forall₂_and_mem
    {α β : Type}
    {related : α → β → Prop}
    {first : List α}
    {second : List β}
    (hRelated : List.Forall₂ related first second) :
    List.Forall₂
      (fun a b => related a b ∧ a ∈ first ∧ b ∈ second)
      first second := by
  induction hRelated with
  | nil => exact .nil
  | cons hFirst hRest ih =>
      refine
        .cons
          ⟨hFirst, List.mem_cons_self, List.mem_cons_self⟩
          (ih.imp ?_)
      rintro a b ⟨hBoth, ha, hb⟩
      exact
        ⟨hBoth, List.mem_cons_of_mem _ ha,
          List.mem_cons_of_mem _ hb⟩

namespace Expr

mutual

/-
  The passages of the code of an expression tell, one by
  one, of the ways that it takes.
-/
theorem forall₂_tells
    (e : Expr)
    (place : Place) :
    List.Forall₂ (Tells e.groups e.outerGroups)
      (e.block.passages place) (e.codeWays place) := by
  have hSimple :
      ∀ (ways : Ways),
        List.Forall₂ (Tells [] [])
          ((ways place).map fun way => ⟨way.place, []⟩)
          (ways place) := by
    intro ways
    apply List.forall₂_map_left_iff.mpr
    apply List.forall₂_same.mpr
    intro way _
    exact ⟨rfl, by simp⟩
  cases e with
  | empty =>
      rw [block, Block.passages_stay]
      exact .cons ⟨rfl, by simp [outerGroups]⟩ .nil
  | char c =>
      rw [passages_char]
      exact hSimple _
  | set chars =>
      rw [passages_set]
      exact hSimple _
  | assertion condition =>
      rw [passages_assertion]
      exact hSimple _
  | group index name body =>
      rw [passages_group, codeWays, Ways.capture]
      apply
        List.rel_map _
          (forall₂_and_mem (forall₂_tells body place))
      rintro passage way ⟨hTells, hPassage, hWay⟩
      exact
        hTells.group (body.marksOnly hPassage)
          body.outerGroups_subset index place
  | repetition min max greedy body =>
      rw [block, codeWays, Block.ways]
      apply List.forall₂_map_right_iff.mpr
      apply List.forall₂_same.mpr
      intro passage _
      exact ⟨rfl, by simp [outerGroups]⟩
  | concat items => exact forall₂_tells_sequence items place
  | alternation branches =>
      rw [block, Fork.passages_choice]
      exact forall₂_tells_branches branches place

/- So it is for expressions in a row. -/
theorem forall₂_tells_sequence
    (items : List Expr)
    (place : Place) :
    List.Forall₂
      (Tells (listGroups items) (listOuterGroups items))
      ((sequenceBlock items).passages place)
      (Ways.sequence (listCodeWays items) place) := by
  cases items with
  | nil =>
      rw [sequenceBlock, Block.passages_stay]
      exact .cons ⟨rfl, by simp [listOuterGroups]⟩ .nil
  | cons e rest =>
      rw [sequenceBlock, Block.passages_andThen, listCodeWays,
        Ways.sequence, Ways.andThen]
      apply
        List.rel_flatMap
          (forall₂_and_mem (forall₂_tells e place))
      rintro passage way ⟨hTells, hPassage, hWay⟩
      dsimp only
      rw [hTells.place]
      apply
        List.rel_map _
          (forall₂_and_mem
            (forall₂_tells_sequence rest way.place))
      rintro next later ⟨hRest, hNext, hLater⟩
      exact
        hTells.andThen hRest (e.marksOnly hPassage)
          (marksOnly_sequence rest hNext) (e.recordsOnly hWay)
          (recordsOnly_sequence rest hLater)
          e.outerGroups_subset (listOuterGroups_subset rest)

/- So it is for branches. -/
theorem forall₂_tells_branches
    (branches : List Expr)
    (place : Place) :
    List.Forall₂
      (Tells (listGroups branches)
        (listOuterGroups branches))
      ((branchFork branches).passages place)
      (Ways.choice (listCodeWays branches) place) := by
  cases branches with
  | nil => exact .nil
  | cons e rest =>
      rw [branchFork, Fork.passages_cons]
      apply List.rel_append
      · apply (forall₂_and_mem (forall₂_tells e place)).imp
        rintro passage way ⟨hTells, hPassage, hWay⟩
        exact
          hTells.first (e.marksOnly hPassage)
            (e.recordsOnly hWay) (listOuterGroups_subset rest)
      · apply
          (forall₂_and_mem
            (forall₂_tells_branches rest place)).imp
        rintro passage way ⟨hTells, hPassage, hWay⟩
        exact
          hTells.second (marksOnly_branches rest hPassage)
            (recordsOnly_choice rest hWay)
            e.outerGroups_subset

end

end Expr

end Regex

end RequestRouter
