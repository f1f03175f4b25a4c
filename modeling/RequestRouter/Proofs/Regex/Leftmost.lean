import RequestRouter.Proofs.Regex.Numbering
import RequestRouter.Proofs.Regex.Running

/-
  The engine of this library is leftmost-first.

  A run finds the first passage through the code from the
  earliest place that has one. The passages correspond to
  the ways of the expression, and the positions they save to
  the texts that the ways record, since no two groups of a
  source share a number.

  Key definitions include:
    * `Regex.Expr.machine`

  Main statements:
    * `Regex.Expr.find_program`
    * `Regex.Expr.finds_program`
    * `Regex.isLeftmostFirst_engine`
-/

------------------------------------------------------------
-- Places in Turn
------------------------------------------------------------

namespace RequestRouter

namespace Regex

namespace Machine

/- From a place on, the places are those of the positions. -/
theorem andLater_place
    (machine : Machine)
    {position : Nat}
    {rest : Text}
    (hRest : (machine.place position).rest = rest) :
    Place.andLater (machine.place position).before rest =
      (List.range' position (rest.length + 1)).map
        machine.place := by
  induction rest generalizing position with
  | nil =>
      have hPlace :
          (⟨(machine.place position).before, []⟩ : Place) =
            machine.place position := by
        rw [← hRest]
      simp [Place.andLater, hPlace]
  | cons c rest ih =>
      have hNext := (place_succ hRest).2
      have hLater := ih (congrArg Place.rest hNext)
      rw [hNext] at hLater
      rw [Place.andLater, List.length_cons, List.range'_succ,
        List.map_cons, hLater, ← hRest]

/- A search tries the places of all positions in turn. -/
theorem andLater_eq
    (machine : Machine) :
    Place.andLater none machine.text.toList =
      (List.range (machine.text.size + 1)).map
        machine.place := by
  have hStart :
      (machine.place 0).rest = machine.text.toList :=
    rfl
  rw [List.range_eq_range', ← Array.length_toList]
  exact machine.andLater_place hStart

variable {machine : Machine}

/- The slots hold the texts of a passage through the text. -/
theorem text?_mark
    {groups : Nat}
    {passage : Passage}
    (hMarks :
      ∀ mark ∈ passage.marks, machine.Has mark.2)
    {index : Nat}
    (hIndex : index ≤ groups) :
    (machine.mark
        (Array.replicate (2 * (groups + 1)) none)
        passage.marks).text? machine.text index =
      passage.text? index := by
  have hSlot :
      ∀ slot, slot < 2 * (groups + 1) →
        (machine.mark
            (Array.replicate (2 * (groups + 1)) none)
            passage.marks)[slot]?.join =
          (passage.saved? slot).map machine.position := by
    intro slot hSlot
    have hSize :
        slot <
          (Array.replicate (2 * (groups + 1))
            (none : Option Nat)).size := by
      simpa using hSlot
    rw [getElem?_mark machine passage.marks hSize]
    simp [Passage.saved?, hSlot]
  have hHas :
      ∀ slot place, passage.saved? slot = some place →
        machine.Has place := by
    intro slot place hSaved
    rcases List.lookup_eq_some_iff.mp hSaved with
      ⟨later, earlier, hMarked, -⟩
    have hMember : (slot, place) ∈ passage.marks.reverse := by
      rw [hMarked]
      exact List.mem_append_right _ List.mem_cons_self
    exact hMarks _ (List.mem_reverse.mp hMember)
  unfold Slots.text? Passage.text?
  rw [hSlot (2 * index) (by omega),
    hSlot (2 * index + 1) (by omega)]
  cases hFirst : passage.saved? (2 * index) with
  | none => rfl
  | some first =>
      cases hLast : passage.saved? (2 * index + 1) with
      | none => rfl
      | some last =>
          exact
            congrArg some
              (toList_extract (hHas _ _ hFirst)
                (hHas _ _ hLast))

end Machine

end Regex

end RequestRouter

------------------------------------------------------------
-- Searches
------------------------------------------------------------

namespace RequestRouter

namespace Regex

namespace Part

/- The code of a part accepts at its end only. -/
theorem getElem?_code_eq_accept_iff
    (part : Part)
    (index : Nat) :
    part.code[index]? = some .accept ↔ index = 0 := by
  cases index with
  | zero => simp [code]
  | succ index =>
      rw [getElem?_code_succ]
      constructor
      · intro hAccept
        exact
          absurd (List.mem_of_getElem? hAccept) part.goes_on
      · intro hZero
        cases hZero

end Part

namespace Expr

/-
  The first passage from the earliest place that has one
  tells of the way that a search finds.
-/
theorem findSome?_tells
    (e : Expr)
    (places : List Place) :
    (places.findSome? fun place =>
          (e.block.passages place).head?) =
        none ∧
      (places.findSome? fun place =>
          (e.codeWays place).head?) =
        none ∨
      ∃ place ∈ places,
        ∃ passage ∈ e.block.passages place, ∃ way,
          (places.findSome? fun place =>
              (e.block.passages place).head?) =
            some passage ∧
          (places.findSome? fun place =>
              (e.codeWays place).head?) =
            some way ∧
          Tells e.groups e.outerGroups passage way := by
  induction places with
  | nil => exact Or.inl ⟨rfl, rfl⟩
  | cons place rest ih =>
      have hTells := e.forall₂_tells place
      rw [List.findSome?_cons, List.findSome?_cons]
      cases hPassages : e.block.passages place with
      | nil =>
          rw [hPassages, List.forall₂_nil_left_iff] at hTells
          rw [hTells]
          rcases ih with hNone | ⟨later, hLater, hFound⟩
          · exact Or.inl hNone
          · exact
              Or.inr
                ⟨later, List.mem_cons_of_mem _ hLater, hFound⟩
      | cons passage others =>
          rw [hPassages] at hTells
          cases hWays : e.codeWays place with
          | nil =>
              rw [hWays] at hTells
              cases hTells
          | cons way more =>
              rw [hWays, List.forall₂_cons] at hTells
              refine
                Or.inr
                  ⟨place, List.mem_cons_self, passage, ?_, way,
                    rfl, rfl, hTells.1⟩
              rw [hPassages]
              exact List.mem_cons_self

/- The machine that an expression searches a text with. -/
def machine
    (e : Expr)
    (text : Text) : Machine :=
  ⟨e.whole.block.code, text.toArray⟩

/- A text has the places that the machine goes through. -/
theorem andLater_eq
    (e : Expr)
    (text : Text) :
    Place.andLater none text =
      (List.range ((e.machine text).text.size + 1)).map
        (e.machine text).place :=
  (e.machine text).andLater_eq

/- The slots of an expression, before a search. -/
def emptySlots
    (e : Expr) : Slots :=
  Array.replicate (2 * (e.lastGroup + 1)) none

/-
  A search saves the positions of the first passage from the
  earliest place that has one.
-/
theorem find_program
    (e : Expr)
    (text : Text) :
    e.program.find text =
      ((Place.andLater none text).findSome? fun place =>
        (e.whole.block.passages place).head?).map
        fun passage =>
          ((e.machine text).mark e.emptySlots
            passage.marks).captures text.toArray
              e.lastGroup := by
  have hRun :
      (e.machine text).run (e.machine text).fuel
          ((List.range ((e.machine text).text.size + 1)).map
            (.enter e.whole.block.start ·)) {} e.emptySlots =
        ((Place.andLater none text).findSome? fun place =>
          (e.whole.block.passages place).head?).map
          fun passage =>
            (e.machine text).mark e.emptySlots
              passage.marks := by
    rw [(e.machine text).run_starts
        (fun index =>
          e.whole.block.getElem?_code_eq_accept_iff index),
      e.andLater_eq, List.findSome?_map, List.map_findSome?]
    congr 1
    funext position
    simp only [Function.comp_apply, Block.passages,
      Part.passages, List.head?_map, Option.map_map]
    rfl
  have hFind :
      e.program.find text =
        ((e.machine text).run (e.machine text).fuel
          ((List.range ((e.machine text).text.size + 1)).map
            (.enter e.whole.block.start ·)) {}
              e.emptySlots).map
          (·.captures text.toArray e.lastGroup) := by
    rw [program_eq]
    rfl
  rw [hFind, hRun, Option.map_map]
  rfl

/- The slots hold the texts of any passage through a text. -/
theorem group?_captures
    {e : Expr}
    {text : Text}
    {place : Place}
    (hPlace : place ∈ Place.andLater none text)
    {passage : Passage}
    (hPassage : passage ∈ e.whole.block.passages place)
    {index : Nat}
    (hIndex : index ≤ e.lastGroup) :
    (((e.machine text).mark e.emptySlots
        passage.marks).captures text.toArray
          e.lastGroup).group? index =
      passage.text? index := by
  have hHas : (e.machine text).Has place := by
    rw [e.andLater_eq] at hPlace
    rcases List.mem_map.mp hPlace with
      ⟨position, hPosition, rfl⟩
    exact
      ⟨position,
        Nat.le_of_lt_succ (List.mem_range.mp hPosition), rfl⟩
  have hMarks :
      ∀ mark ∈ passage.marks,
        (e.machine text).Has mark.2 := by
    rcases List.mem_map.mp hPassage with
      ⟨trail, hTrail, rfl⟩
    intro mark hMark
    exact hHas.of_mem_marks hTrail hMark
  have hText :
      ((e.machine text).mark e.emptySlots
          passage.marks).text? text.toArray index =
        passage.text? index :=
    Machine.text?_mark hMarks hIndex
  rw [← hText]
  simp [Slots.captures, Captures.group?,
    Nat.lt_succ_of_le hIndex]

/-
  The program of an expression finds the first way from the
  earliest place that has one.
-/
theorem finds_program
    {e : Expr}
    (hDistinct : e.whole.groups.Nodup)
    (text : Text) :
    e.Finds codeWays text (e.program.find text) := by
  rw [find_program]
  rcases e.whole.findSome?_tells (Place.andLater none text)
    with ⟨hNone, hWays⟩ |
      ⟨place, hPlace, passage, hPassage, way, hFound, hWays,
        hTells⟩
  · rw [hNone]
    exact hWays
  rw [hFound]
  refine ⟨way, hWays, ?_⟩
  intro index hIndex
  have hLast : index ≤ e.lastGroup := by
    have hBound := e.whole.le_lastGroup hIndex
    simpa [whole, lastGroup] using hBound
  rw [← hTells.texts hDistinct index hIndex]
  exact group?_captures hPlace hPassage hLast

end Expr

/- The engine of this library is leftmost-first. -/
theorem isLeftmostFirst_engine :
    engine.IsLeftmostFirst := by
  refine ⟨Expr.codeWays, Expr.isPreference_codeWays, ?_⟩
  intro source program hCompile
  rcases (Sequence.bind_eq_ok_iff _ _ _).mp hCompile with
    ⟨e, hParse, hLimit⟩
  split at hLimit
  case isTrue => cases hLimit
  case isFalse =>
      cases hLimit
      refine ⟨e, hParse, rfl, ?_⟩
      intro text
      exact
        Expr.finds_program (nodup_groups_of_parse hParse) text

end Regex

end RequestRouter
