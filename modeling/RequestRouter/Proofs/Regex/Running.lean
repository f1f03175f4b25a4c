import Mathlib.Algebra.BigOperators.Group.Finset.Sigma
import Std.Data.HashSet.Lemmas
import RequestRouter.Proofs.Regex.Passages

/-
  What a run of a program finds.

  A machine enters every pair of instruction and position at
  most once. What it finds is nevertheless the first trail,
  in order of preference, from the earliest start that has
  one: a pair that was entered without success has no trail,
  so that nothing is lost when it is passed by.

  Key definitions include:
    * `Regex.Machine.place`
    * `Regex.Machine.results`
    * `Regex.Machine.left`

  Main statements:
    * `Regex.Machine.run_eq_head?`
    * `Regex.Machine.run_starts`
-/

------------------------------------------------------------
-- Positions
------------------------------------------------------------

namespace RequestRouter

namespace Regex

namespace Machine

/- The place at a position of the text. -/
def place
    (machine : Machine)
    (position : Nat) : Place :=
  ⟨machine.before position,
    machine.text.toList.drop position⟩

/- The position of a place of the text. -/
def position
    (machine : Machine)
    (place : Place) : Nat :=
  machine.text.size - place.rest.length

variable {machine : Machine}
variable {position : Nat}

/- A place stands at its position. -/
theorem position_place
    (hPosition : position ≤ machine.text.size) :
    machine.position (machine.place position) = position := by
  simp [Machine.position, place]
  omega

/- Different positions have different places. -/
theorem place_inj
    {other : Nat}
    (hPosition : position ≤ machine.text.size)
    (hOther : other ≤ machine.text.size) :
    machine.place position = machine.place other ↔
      position = other := by
  constructor
  · intro hSame
    rw [← position_place hPosition, hSame,
      position_place hOther]
  · rintro rfl
    rfl

/- The text behind a place starts with the character there. -/
theorem head?_rest_place
    (machine : Machine)
    (position : Nat) :
    (machine.place position).rest.head? =
      machine.after position := by
  simp [place, after]

/- Behind a character stands the next place. -/
theorem place_succ
    {c : Char}
    {rest : Text}
    (hRest : (machine.place position).rest = c :: rest) :
    position < machine.text.size ∧
      machine.place (position + 1) = ⟨some c, rest⟩ := by
  have hDrop : machine.text.toList.drop position = c :: rest :=
    hRest
  have hBound : position < machine.text.size := by
    by_contra hBeyond
    rw [List.drop_of_length_le (by simpa using hBeyond)] at hDrop
    cases hDrop
  have hHead : machine.text[position]? = some c := by
    have hFirst := head?_rest_place machine position
    rw [hRest] at hFirst
    exact hFirst.symm
  refine ⟨hBound, ?_⟩
  have hTail :
      machine.text.toList.drop (position + 1) = rest := by
    rw [← List.drop_drop, hDrop]
    rfl
  simp [place, before, hHead, hTail]

/- The task of entering a node. -/
def enter
    (machine : Machine)
    (node : Node) : Task :=
  .enter node.1 (machine.position node.2)

/- The tasks of passing over a wanted character. -/
theorem enter_pass
    (machine : Machine)
    (wanted : Char → Bool)
    (position next : Nat) :
    ((Ways.pass wanted (machine.place position)).map
        ((next, ·.place))).map machine.enter =
      if (machine.after position).any wanted then
        [.enter next (position + 1)]
      else [] := by
  rw [← head?_rest_place]
  unfold Ways.pass
  cases hRest : (machine.place position).rest with
  | nil => rfl
  | cons c rest =>
      rcases place_succ hRest with ⟨hBound, hNext⟩
      have hPosition :
          machine.position ⟨some c, rest⟩ = position + 1 := by
        rw [← hNext]
        exact position_place hBound
      by_cases hWanted : wanted c = true
      · simp [hWanted, enter, hPosition]
      · simp [hWanted]

/-
  The tasks that an instruction leaves are its successors,
  and for a save the value to put back.
-/
theorem successors_eq
    (machine : Machine)
    (slots : Slots)
    (hPosition : position ≤ machine.text.size)
    (instruction : Instruction) :
    machine.successors slots position instruction =
      (instruction.successors
          (machine.place position)).map machine.enter ++
        instruction.slot?.toList.map fun slot =>
          .restore slot slots[slot]?.join := by
  have hStay := position_place hPosition
  cases instruction with
  | char c next =>
      have hPass :=
        enter_pass machine (· == c) position next
      simp only [Instruction.successors, hPass, successors,
        Instruction.slot?]
      cases machine.after position <;> simp
  | set chars next =>
      have hPass :=
        enter_pass machine chars.contains position next
      simp only [Instruction.successors, hPass, successors,
        Instruction.slot?]
      simp
  | assertion condition next =>
      have hBefore :
          (machine.place position).before =
            machine.before position :=
        rfl
      simp only [Instruction.successors, successors,
        Ways.check, hBefore, head?_rest_place,
        Instruction.slot?]
      split <;> simp [enter, hStay]
  | save slot next =>
      simp [Instruction.successors, successors,
        Instruction.slot?, enter, hStay]
  | split targets =>
      simp [Instruction.successors, successors,
        Instruction.slot?, enter, hStay]
  | accept => rfl

/- Whether a place belongs to the text. -/
def Has
    (machine : Machine)
    (place : Place) : Prop :=
  ∃ position ≤ machine.text.size,
    machine.place position = place

/- A place of the text stands at its position. -/
theorem Has.place_position
    {place : Place}
    (hPlace : machine.Has place) :
    machine.position place ≤ machine.text.size ∧
      machine.place (machine.position place) = place := by
  rcases hPlace with ⟨position, hPosition, rfl⟩
  rw [position_place hPosition]
  exact ⟨hPosition, rfl⟩

/- Instructions lead from places of the text to others. -/
theorem Has.next
    {node next : Node}
    (hPlace : machine.Has node.2)
    (hNext : next ∈ machine.code.successors node) :
    machine.Has next.2 := by
  rcases Code.exists_of_mem_successors hNext with
    ⟨_, -, hInstruction⟩
  rcases Instruction.place_of_mem_successors hInstruction with
    hSame | ⟨c, rest, hRest, hBehind⟩
  · rw [hSame]
    exact hPlace
  · rcases hPlace with ⟨position, -, hPosition⟩
    rw [← hPosition] at hRest
    rcases place_succ hRest with ⟨hBound, hPlace⟩
    exact ⟨position + 1, hBound, hPlace.trans hBehind.symm⟩

end Machine

end Regex

end RequestRouter

------------------------------------------------------------
-- Results
------------------------------------------------------------

namespace RequestRouter

namespace Regex

namespace Machine

/- Save positions in slots, one after the other. -/
def mark
    (machine : Machine)
    (slots : Slots)
    (marks : List (Nat × Place)) : Slots :=
  marks.foldl
    (fun slots mark =>
      slots.setIfInBounds mark.1
        (some (machine.position mark.2)))
    slots

/- What a trail leaves in the slots. -/
def finish
    (machine : Machine)
    (slots : Slots)
    (trail : Trail) : Slots :=
  machine.mark slots (machine.code.passage trail).marks

/-
  What the trails of all tasks leave in the slots, in order
  of preference.
-/
def results
    (machine : Machine)
    (passed : Finset Node) :
    List Task → Slots → List Slots
  | [], _ => []
  | .restore slot value :: tasks, slots =>
      machine.results passed tasks
        (slots.setIfInBounds slot value)
  | .enter index position :: tasks, slots =>
      (machine.code.trails 0 passed
          (index, machine.place position)).map
          (machine.finish slots) ++
        machine.results passed tasks slots

variable {machine : Machine}
variable {passed : Finset Node}
variable {position : Nat}

/- The results of nodes come in front of those of the rest. -/
theorem results_map_enter
    {nodes : List Node}
    (hNodes : ∀ node ∈ nodes, machine.Has node.2)
    (tasks : List Task)
    (slots : Slots) :
    machine.results passed
        (nodes.map machine.enter ++ tasks) slots =
      (nodes.flatMap fun node =>
          (machine.code.trails 0 passed node).map
            (machine.finish slots)) ++
        machine.results passed tasks slots := by
  induction nodes with
  | nil => rfl
  | cons node rest ih =>
      have hPlace :=
        (hNodes node List.mem_cons_self).place_position.2
      rw [List.map_cons, List.cons_append, enter, results,
        hPlace, List.flatMap_cons, List.append_assoc,
        ih fun other hOther =>
          hNodes other (List.mem_cons_of_mem _ hOther)]

/- An instruction records what it marks. -/
theorem record_eq
    (slots : Slots)
    (hPosition : position ≤ machine.text.size)
    (instruction : Instruction) :
    record slots position instruction =
      machine.mark slots
        (instruction.marks (machine.place position)) := by
  have hStay := position_place hPosition
  cases instruction <;>
    simp [record, mark, Instruction.marks, Instruction.slot?,
      hStay]

/- A slot can be set and put back. -/
theorem setIfInBounds_setIfInBounds
    (slots : Slots)
    (slot : Nat)
    (value : Option Nat) :
    (slots.setIfInBounds slot value).setIfInBounds slot
        slots[slot]?.join =
      slots := by
  apply Array.ext_getElem?
  intro other
  simp only [Array.getElem?_setIfInBounds,
    Array.size_setIfInBounds]
  split
  case isTrue hSame =>
      subst hSame
      cases hSlot : slots[slot]? with
      | none =>
          have hBeyond := Array.getElem?_eq_none_iff.mp hSlot
          rw [if_neg (Nat.not_lt_of_le hBeyond)]
      | some old =>
          rcases Array.getElem?_eq_some_iff.mp hSlot with
            ⟨hBound, -⟩
          rw [if_pos hBound]
          rfl
  case isFalse => rfl

/- To put back what was recorded changes nothing. -/
theorem results_restore
    (slots : Slots)
    (instruction : Instruction)
    (tasks : List Task) :
    machine.results passed
        ((instruction.slot?.toList.map fun slot =>
            .restore slot slots[slot]?.join) ++ tasks)
        (record slots position instruction) =
      machine.results passed tasks slots := by
  cases instruction with
  | save slot next =>
      simp only [Instruction.slot?, Option.toList_some,
        List.map_singleton, List.singleton_append, results,
        record, setIfInBounds_setIfInBounds]
  | char | set | assertion | split | accept => rfl

/- To mark in two steps is to mark at once. -/
theorem mark_append
    (machine : Machine)
    (slots : Slots)
    (first second : List (Nat × Place)) :
    machine.mark slots (first ++ second) =
      machine.mark (machine.mark slots first) second :=
  List.foldl_append

/-
  The results behind an instruction are those of its node,
  and then those of the other tasks.
-/
theorem results_successors
    {instruction : Instruction}
    {index : Nat}
    (hIndex : index ≠ 0)
    (hCode : machine.code[index]? = some instruction)
    (hPosition : position ≤ machine.text.size)
    (hFresh : (index, machine.place position) ∉ passed)
    (tasks : List Task)
    (slots : Slots) :
    machine.results
        (insert (index, machine.place position) passed)
        (machine.successors slots position instruction ++
          tasks)
        (record slots position instruction) =
      (machine.code.trails 0 passed
          (index, machine.place position)).map
          (machine.finish slots) ++
        machine.results
          (insert (index, machine.place position) passed)
          tasks slots := by
  have hSuccessors :
      machine.code.successors
          (index, machine.place position) =
        instruction.successors (machine.place position) := by
    simp [Code.successors, hCode]
  have hMarks :
      [((index, machine.place position) : Node)].flatMap
          machine.code.marksAt =
        instruction.marks (machine.place position) := by
    simp [Code.marksAt, hCode]
  have hHas :
      ∀ node ∈
          instruction.successors (machine.place position),
        machine.Has node.2 := by
    intro node hNode
    rw [← hSuccessors] at hNode
    exact Has.next ⟨position, hPosition, rfl⟩ hNode
  rw [successors_eq machine slots hPosition,
    List.append_assoc, results_map_enter hHas,
    results_restore, Code.trails_enter hIndex hFresh,
    hSuccessors, List.map_flatMap]
  congr 1
  apply List.flatMap_congr
  intro node hNode
  rw [List.map_map]
  apply List.map_congr_left
  intro trail hTrail
  rw [Function.comp_apply, finish, finish,
    Code.passage_behind, hMarks, record_eq slots hPosition]
  exact (mark_append _ _ _ _).symm

/- Where a node has no trail, nothing is lost behind it. -/
theorem results_insert_of_eq_nil
    {node : Node}
    (hNone : machine.code.trails 0 passed node = [])
    (tasks : List Task)
    (slots : Slots) :
    machine.results (insert node passed) tasks slots =
      machine.results passed tasks slots := by
  induction tasks generalizing slots with
  | nil => rfl
  | cons task tasks ih =>
      cases task with
      | restore slot value => rw [results, results, ih]
      | enter index position =>
          rw [results, results, ih,
            Code.trails_insert_of_eq_nil hNone]

/- To enter an instruction does not change what is found. -/
theorem head?_results_enter
    {instruction : Instruction}
    {index : Nat}
    (hIndex : index ≠ 0)
    (hCode : machine.code[index]? = some instruction)
    (hPosition : position ≤ machine.text.size)
    (hFresh : (index, machine.place position) ∉ passed)
    (tasks : List Task)
    (slots : Slots) :
    (machine.results passed (.enter index position :: tasks)
        slots).head? =
      (machine.results
        (insert (index, machine.place position) passed)
        (machine.successors slots position instruction ++
          tasks)
        (record slots position instruction)).head? := by
  rw [results_successors hIndex hCode hPosition hFresh,
    results]
  cases hTrails :
      machine.code.trails 0 passed
        (index, machine.place position) with
  | nil => rw [results_insert_of_eq_nil hTrails]
  | cons trail rest => rfl

end Machine

end Regex

end RequestRouter

------------------------------------------------------------
-- Runs
------------------------------------------------------------

namespace RequestRouter

namespace Regex

/- Whether a task stands in a text of some length. -/
def Task.IsWithin
    (length : Nat) : Task → Prop
  | .enter _ position => position ≤ length
  | .restore _ _ => True

namespace Machine

/- The steps that an instruction may cost. -/
def weightAt
    (machine : Machine)
    (index : Nat) : Nat :=
  machine.code[index]?.elim 0 (·.weight)

/- The pairs of instruction and position not yet entered. -/
def unentered
    (machine : Machine)
    (passed : Finset Node) : Finset (Nat × Nat) :=
  (Finset.range machine.code.size ×ˢ
      Finset.range (machine.text.size + 1)).filter
    fun pair => (pair.1, machine.place pair.2) ∉ passed

/- The steps that all of them may cost. -/
def left
    (machine : Machine)
    (passed : Finset Node) : Nat :=
  ∑ pair ∈ machine.unentered passed, machine.weightAt pair.1

/-
  Whether the pairs that were entered are the nodes that
  were passed, and the end is not among them.
-/
structure IsKept
    (machine : Machine)
    (entered : Entered)
    (passed : Finset Node) : Prop where
  contains_iff :
    ∀ index position, position ≤ machine.text.size →
      (entered.contains (index, position) = true ↔
        (index, machine.place position) ∈ passed)
  goes_on : ∀ node ∈ passed, node.1 ≠ 0

variable {machine : Machine}
variable {passed : Finset Node}
variable {entered : Entered}
variable {index position : Nat}

/- At first nothing was entered. -/
theorem isKept_empty
    (machine : Machine) :
    machine.IsKept {} ∅ where
  contains_iff index position hPosition := by simp
  goes_on node hNode := absurd hNode (Finset.notMem_empty node)

/- To enter a pair is to pass its node. -/
theorem IsKept.insert
    (hKept : machine.IsKept entered passed)
    (hIndex : index ≠ 0)
    (hPosition : position ≤ machine.text.size) :
    machine.IsKept (entered.insert (index, position))
      (insert (index, machine.place position) passed) where
  contains_iff other place hPlace := by
    rw [Std.HashSet.contains_insert, Bool.or_eq_true,
      beq_iff_eq, hKept.contains_iff other place hPlace,
      Finset.mem_insert, Prod.mk.injEq, Prod.mk.injEq,
      place_inj hPlace hPosition, eq_comm, @eq_comm _ position]
  goes_on node hNode := by
    rcases Finset.mem_insert.mp hNode with rfl | hOld
    · exact hIndex
    · exact hKept.goes_on node hOld

/- To pass a node leaves fewer steps by what it costs. -/
theorem left_insert
    {instruction : Instruction}
    (hCode : machine.code[index]? = some instruction)
    (hPosition : position ≤ machine.text.size)
    (hFresh : (index, machine.place position) ∉ passed) :
    instruction.weight +
        machine.left
          (insert (index, machine.place position) passed) =
      machine.left passed := by
  rcases Array.getElem?_eq_some_iff.mp hCode with ⟨hIndex, -⟩
  have hMember :
      (index, position) ∈ machine.unentered passed := by
    simp only [unentered, Finset.mem_filter,
      Finset.mem_product, Finset.mem_range]
    exact ⟨⟨hIndex, Nat.lt_succ_of_le hPosition⟩, hFresh⟩
  have hErase :
      machine.unentered
          (insert (index, machine.place position) passed) =
        (machine.unentered passed).erase (index, position) := by
    ext ⟨own, place⟩
    simp only [unentered, Finset.mem_filter,
      Finset.mem_product, Finset.mem_range, Finset.mem_insert,
      Finset.mem_erase, not_or, Prod.mk.injEq, ne_eq]
    constructor
    · rintro ⟨⟨hOwn, hPlace⟩, hOther, hNew⟩
      rw [place_inj (Nat.le_of_lt_succ hPlace) hPosition]
        at hOther
      exact ⟨hOther, ⟨hOwn, hPlace⟩, hNew⟩
    · rintro ⟨hOther, ⟨hOwn, hPlace⟩, hNew⟩
      rw [← place_inj (Nat.le_of_lt_succ hPlace) hPosition]
        at hOther
      exact ⟨⟨hOwn, hPlace⟩, hOther, hNew⟩
  have hWeight : machine.weightAt index = instruction.weight := by
    simp [weightAt, hCode]
  rw [left, left, hErase, ← hWeight]
  exact
    Finset.add_sum_erase (machine.unentered passed)
      (fun pair => machine.weightAt pair.1) hMember

/- An instruction leaves as many tasks as it may cost. -/
theorem length_successors_le
    (machine : Machine)
    (slots : Slots)
    (position : Nat)
    (instruction : Instruction) :
    (machine.successors slots position instruction).length ≤
      instruction.weight := by
  cases instruction with
  | char | set | assertion =>
      rw [successors]
      split <;> simp [Instruction.weight]
  | save | split | accept =>
      simp [successors, Instruction.weight]

/- The tasks that an instruction leaves stand in the text. -/
theorem isWithin_of_mem_successors
    {slots : Slots}
    {instruction : Instruction}
    (hCode : machine.code[index]? = some instruction)
    (hPosition : position ≤ machine.text.size)
    {task : Task}
    (hTask :
      task ∈ machine.successors slots position instruction) :
    task.IsWithin machine.text.size := by
  rw [successors_eq machine slots hPosition] at hTask
  rcases List.mem_append.mp hTask with hEnter | hRestore
  · rcases List.mem_map.mp hEnter with ⟨node, hNode, rfl⟩
    have hNext :
        node ∈ machine.code.successors
          (index, machine.place position) := by
      simpa [Code.successors, hCode] using hNode
    exact
      (Has.next ⟨position, hPosition, rfl⟩
        hNext).place_position.1
  · rcases List.mem_map.mp hRestore with ⟨slot, -, rfl⟩
    exact trivial

/- The tasks in front and behind stand in the text. -/
theorem isWithin_successors_append
    {slots : Slots}
    {instruction : Instruction}
    (hCode : machine.code[index]? = some instruction)
    (hPosition : position ≤ machine.text.size)
    {tasks : List Task}
    (hTasks :
      ∀ task ∈ tasks, task.IsWithin machine.text.size) :
    ∀ task ∈
        machine.successors slots position instruction ++ tasks,
      task.IsWithin machine.text.size := by
  intro task hTask
  rcases List.mem_append.mp hTask with hNew | hOld
  · exact isWithin_of_mem_successors hCode hPosition hNew
  · exact hTasks task hOld

/- A pair that was entered is left out. -/
theorem run_of_contains
    (hEntered : entered.contains (index, position) = true)
    (fuel : Nat)
    (tasks : List Task)
    (slots : Slots) :
    machine.run (fuel + 1) (.enter index position :: tasks)
        entered slots =
      machine.run fuel tasks entered slots := by
  rw [run, if_pos hEntered]

/- Where there is no instruction, nothing is done. -/
theorem run_of_eq_none
    (hNew : ¬ entered.contains (index, position) = true)
    (hCode : machine.code[index]? = none)
    (fuel : Nat)
    (tasks : List Task)
    (slots : Slots) :
    machine.run (fuel + 1) (.enter index position :: tasks)
        entered slots =
      machine.run fuel tasks entered slots := by
  rw [run, if_neg hNew, hCode]

/- At the end the slots are found. -/
theorem run_of_eq_accept
    (hNew : ¬ entered.contains (index, position) = true)
    (hCode : machine.code[index]? = some .accept)
    (fuel : Nat)
    (tasks : List Task)
    (slots : Slots) :
    machine.run (fuel + 1) (.enter index position :: tasks)
        entered slots =
      some slots := by
  rw [run, if_neg hNew, hCode]

/- Any other instruction is entered, and leaves its tasks. -/
theorem run_of_ne_accept
    (hNew : ¬ entered.contains (index, position) = true)
    {instruction : Instruction}
    (hCode : machine.code[index]? = some instruction)
    (hGoesOn : instruction ≠ .accept)
    (fuel : Nat)
    (tasks : List Task)
    (slots : Slots) :
    machine.run (fuel + 1) (.enter index position :: tasks)
        entered slots =
      machine.run fuel
        (machine.successors slots position instruction ++
          tasks)
        (entered.insert (index, position))
        (record slots position instruction) := by
  rw [run, if_neg hNew, hCode]
  cases instruction with
  | accept => exact absurd rfl hGoesOn
  | char | set | assertion | save | split => rfl

/-
  A run finds the first result of its tasks. The induction
  is on the fuel, which the tasks and the pairs not yet
  entered stay below.
-/
theorem run_eq_head?
    (hAccept :
      ∀ index, machine.code[index]? = some .accept ↔
        index = 0)
    (hKept : machine.IsKept entered passed)
    {tasks : List Task}
    (hTasks :
      ∀ task ∈ tasks, task.IsWithin machine.text.size)
    {fuel : Nat}
    (hFuel : tasks.length + machine.left passed < fuel)
    (slots : Slots) :
    machine.run fuel tasks entered slots =
      (machine.results passed tasks slots).head? := by
  induction fuel generalizing tasks entered passed slots with
  | zero => exact absurd hFuel (Nat.not_lt_zero _)
  | succ fuel ih =>
      rcases tasks with - | ⟨⟨index, position⟩ |
        ⟨slot, value⟩, tasks⟩
      · rfl
      case cons.restore =>
          rcases List.forall_mem_cons.mp hTasks with
            ⟨-, hOthers⟩
          rw [List.length_cons] at hFuel
          rw [run, results]
          exact ih hKept hOthers (by omega) _
      rcases List.forall_mem_cons.mp hTasks with
        ⟨hPosition, hOthers⟩
      rw [List.length_cons] at hFuel
      have hSkip :
          machine.run fuel tasks entered slots =
            (machine.results passed tasks slots).head? :=
        ih hKept hOthers (by omega) slots
      by_cases hEntered :
          entered.contains (index, position) = true
      · have hPassed :=
          (hKept.contains_iff index position hPosition).mp
            hEntered
        rw [run_of_contains hEntered, hSkip, results,
          Code.trails_of_mem (hKept.goes_on _ hPassed) hPassed]
        rfl
      have hFresh :
          (index, machine.place position) ∉ passed := by
        intro hPassed
        exact
          hEntered
            ((hKept.contains_iff index position
              hPosition).mpr hPassed)
      have hGoesOn :
          machine.code[index]? ≠ some .accept → index ≠ 0 :=
        mt (hAccept index).mpr
      cases hCode : machine.code[index]? with
      | none =>
          have hNone :
              machine.code.successors
                  (index, machine.place position) =
                [] := by
            simp [Code.successors, hCode]
          rw [run_of_eq_none hEntered hCode, hSkip, results,
            Code.trails_enter (hGoesOn (by simp [hCode]))
              hFresh,
            hNone]
          rfl
      | some instruction =>
          by_cases hEnd : instruction = .accept
          · subst hEnd
            have hIndex : index = 0 := (hAccept index).mp hCode
            subst hIndex
            rw [run_of_eq_accept hEntered hCode, results,
              Code.trails_self]
            rfl
          · have hIndex : index ≠ 0 :=
              hGoesOn (by simp [hCode, hEnd])
            have hLength :=
              length_successors_le machine slots position
                instruction
            have hLeft := left_insert hCode hPosition hFresh
            rw [run_of_ne_accept hEntered hCode hEnd,
              head?_results_enter hIndex hCode hPosition
                hFresh]
            apply
              ih (hKept.insert hIndex hPosition)
                (isWithin_successors_append hCode hPosition
                  hOthers)
            rw [List.length_append]
            omega

/- What all instructions may cost, added up. -/
theorem foldl_weight_eq_sum
    (instructions : List Instruction)
    (first : Nat) :
    instructions.foldl (· + ·.weight) first =
      first +
        ∑ index ∈ Finset.range instructions.length,
          instructions[index]?.elim 0 (·.weight) := by
  induction instructions generalizing first with
  | nil => rfl
  | cons instruction rest ih =>
      rw [List.foldl_cons, ih, List.length_cons,
        Finset.sum_range_succ', Nat.add_assoc]
      simp [Nat.add_comm]

/- The fuel is enough for all starts. -/
theorem starts_add_left_lt_fuel
    (machine : Machine) :
    machine.text.size + 1 + machine.left ∅ < machine.fuel := by
  have hUnentered :
      machine.unentered ∅ =
        Finset.range machine.code.size ×ˢ
          Finset.range (machine.text.size + 1) := by
    simp [unentered]
  have hLeft :
      machine.left ∅ =
        (machine.text.size + 1) *
          ∑ index ∈ Finset.range machine.code.size,
            machine.weightAt index := by
    have hRows :
        ∀ cost : Nat,
          ∑ _ ∈ Finset.range (machine.text.size + 1), cost =
            (machine.text.size + 1) * cost := by
      intro cost
      rw [Finset.sum_const_nat fun _ _ => rfl,
        Finset.card_range]
    rw [left, hUnentered, Finset.sum_product_right]
    exact
      hRows
        (∑ index ∈ Finset.range machine.code.size,
          machine.weightAt index)
  have hWeights :
      machine.code.foldl (· + ·.weight) 1 =
        1 +
          ∑ index ∈ Finset.range machine.code.size,
            machine.weightAt index := by
    rw [← Array.foldl_toList, foldl_weight_eq_sum]
    simp [weightAt]
  rw [fuel, hWeights, hLeft, Nat.mul_add, Nat.mul_one]
  exact Nat.lt_succ_self _

/-
  A run from all positions in turn finds the first trail
  from the earliest position that has one.
-/
theorem run_starts
    (hAccept :
      ∀ index, machine.code[index]? = some .accept ↔
        index = 0)
    (start : Nat)
    (slots : Slots) :
    machine.run machine.fuel
        ((List.range (machine.text.size + 1)).map
          (.enter start ·)) {} slots =
      (List.range (machine.text.size + 1)).findSome?
        fun position =>
          ((machine.code.trails 0 ∅
            (start, machine.place position)).map
              (machine.finish slots)).head? := by
  have hResults :
      ∀ positions : List Nat,
        machine.results ∅ (positions.map (.enter start ·))
            slots =
          positions.flatMap fun position =>
            (machine.code.trails 0 ∅
              (start, machine.place position)).map
                (machine.finish slots) := by
    intro positions
    induction positions with
    | nil => rfl
    | cons position rest ih =>
        rw [List.map_cons, results, ih, List.flatMap_cons]
  have hWithin :
      ∀ task ∈
          (List.range (machine.text.size + 1)).map
            (Task.enter start ·),
        task.IsWithin machine.text.size := by
    intro task hTask
    rcases List.mem_map.mp hTask with
      ⟨position, hPosition, rfl⟩
    exact Nat.le_of_lt_succ (List.mem_range.mp hPosition)
  have hFuel := starts_add_left_lt_fuel machine
  rw [run_eq_head? hAccept (isKept_empty machine) hWithin,
    hResults, List.head?_flatMap]
  rw [List.length_map, List.length_range]
  exact hFuel

end Machine

end Regex

end RequestRouter

------------------------------------------------------------
-- Slots
------------------------------------------------------------

namespace RequestRouter

namespace Regex

namespace Machine

variable {machine : Machine}

/- The places on a trail belong to the text. -/
theorem Has.of_mem_nodes
    {stop : Nat}
    {passed : Finset Node}
    {node : Node}
    (hPlace : machine.Has node.2)
    {trail : Trail}
    (hTrail : trail ∈ machine.code.trails stop passed node)
    {other : Node}
    (hOther : other ∈ trail.nodes) :
    machine.Has other.2 := by
  induction passed, node using
    Code.trails_induction machine.code stop
    generalizing trail with
  | hStop passed node hStop =>
      rw [Code.trails_stop hStop,
        List.mem_singleton] at hTrail
      simp [hTrail] at hOther
  | hPassed passed node hStop hPassed =>
      rw [Code.trails_of_mem hStop hPassed] at hTrail
      cases hTrail
  | hEnter passed node hStop hFresh ih =>
      rcases Code.exists_of_mem_trails hStop hTrail with
        ⟨-, next, hNext, rest, hRest, rfl⟩
      rcases List.mem_cons.mp hOther with rfl | hLater
      · exact hPlace
      · exact ih next hNext (hPlace.next hNext) hRest hLater

/- So do those that it marks. -/
theorem Has.of_mem_marks
    {stop : Nat}
    {passed : Finset Node}
    {node : Node}
    (hPlace : machine.Has node.2)
    {trail : Trail}
    (hTrail : trail ∈ machine.code.trails stop passed node)
    {mark : Nat × Place}
    (hMark : mark ∈ (machine.code.passage trail).marks) :
    machine.Has mark.2 := by
  rcases List.mem_flatMap.mp hMark with
    ⟨other, hOther, hMark⟩
  have hSame : mark.2 = other.2 := by
    unfold Code.marksAt at hMark
    cases hCode : machine.code[other.1]? with
    | none => simp [hCode] at hMark
    | some instruction =>
        rw [hCode] at hMark
        rcases List.mem_map.mp hMark with ⟨slot, -, rfl⟩
        rfl
  rw [hSame]
  exact hPlace.of_mem_nodes hTrail hOther

/- A slot holds the position that was marked last. -/
theorem getElem?_mark
    (machine : Machine)
    (marks : List (Nat × Place))
    {slots : Slots}
    {slot : Nat}
    (hSlot : slot < slots.size) :
    (machine.mark slots marks)[slot]?.join =
      ((marks.reverse.lookup slot).map machine.position).or
        slots[slot]?.join := by
  induction marks generalizing slots with
  | nil => rfl
  | cons mark rest ih =>
      rcases mark with ⟨own, place⟩
      have hSize :
          slot <
            (slots.setIfInBounds own
              (some (machine.position place))).size := by
        simpa using hSlot
      have hRest := ih hSize
      rw [Machine.mark, List.foldl_cons]
      rw [Machine.mark] at hRest
      rw [hRest, List.reverse_cons, List.lookup_append,
        Array.getElem?_setIfInBounds]
      cases rest.reverse.lookup slot with
      | some later => rfl
      | none =>
          by_cases hSame : own = slot
          · subst hSame
            simp [hSlot]
          · have hOther : (slot == own) = false :=
              beq_eq_false_iff_ne.mpr (Ne.symm hSame)
            simp [hSame, List.lookup_cons, hOther]

/-
  The text between two places of the text is the one between
  their positions.
-/
theorem toList_extract
    {first last : Place}
    (hFirst : machine.Has first)
    (hLast : machine.Has last) :
    (machine.text.extract (machine.position first)
        (machine.position last)).toList =
      first.textTo last := by
  rcases hFirst with ⟨start, hStart, rfl⟩
  rcases hLast with ⟨stop, hStop, rfl⟩
  rw [position_place hStart, position_place hStop]
  have hLength :
      machine.text.size - start - (machine.text.size - stop) =
        stop - start := by
    omega
  simp [Place.textTo, place, hLength]

end Machine

end Regex

end RequestRouter
