import RequestRouter.Regex.Program
import Std.Data.HashSet.Basic

/-
  Running a program over a text.

  The search goes through the alternatives in order of
  preference and gives the first that reaches the end of the
  program, trying earlier starting positions first. A pair
  of instruction and position is entered once only: whatever
  can be reached from it has been tried when it comes up
  again.

  Key definitions include:
    * `Regex.Captures`
    * `Regex.Task`
    * `Regex.Machine.run`
    * `Regex.Program.find`
-/

------------------------------------------------------------
-- Captures
------------------------------------------------------------

namespace RequestRouter

namespace Regex

/- The texts of the groups of a match, by group index. -/
structure Captures where
  texts : List (Option Text)
  deriving DecidableEq, Repr

namespace Captures

/- The text of a group, if the group took part. -/
def group?
    (captures : Captures)
    (index : Nat) : Option Text :=
  captures.texts[index]?.join

end Captures

/- The positions recorded so far, by slot. -/
abbrev Slots :=
  Array (Option Nat)

namespace Slots

/- The text between the two positions of a group. -/
def text?
    (slots : Slots)
    (text : Array Char)
    (index : Nat) : Option Text :=
  match slots[2 * index]?.join, slots[2 * index + 1]?.join with
  | some first, some last =>
      some (text.extract first last).toList
  | _, _ => none

/- The texts of the groups up to a last one. -/
def captures
    (slots : Slots)
    (text : Array Char)
    (groups : Nat) : Captures :=
  ⟨(List.range (groups + 1)).map (slots.text? text)⟩

end Slots

end Regex

end RequestRouter

------------------------------------------------------------
-- Search
------------------------------------------------------------

namespace RequestRouter

namespace Regex

/-
  What is left to do: enter an instruction at a position, or
  put back an older value of a slot.
-/
inductive Task where
  | enter (index position : Nat)
  | restore (slot : Nat) (value : Option Nat)

/- The pairs of instruction and position entered so far. -/
abbrev Entered :=
  Std.HashSet (Nat × Nat)

/- A program together with the text it runs over. -/
structure Machine where
  code : Code
  text : Array Char

namespace Machine

/- The character in front of a position. -/
def before
    (machine : Machine)
    (position : Nat) : Option Char :=
  if position = 0 then none
  else machine.text[position - 1]?

/- The character behind a position. -/
def after
    (machine : Machine)
    (position : Nat) : Option Char :=
  machine.text[position]?

/- The tasks that an instruction leaves, first one first. -/
def successors
    (machine : Machine)
    (slots : Slots)
    (position : Nat) :
    Instruction → List Task
  | .char c next =>
      if machine.after position == some c then
        [.enter next (position + 1)]
      else []
  | .set chars next =>
      if (machine.after position).any chars.contains then
        [.enter next (position + 1)]
      else []
  | .assertion condition next =>
      if condition.holds (machine.before position)
          (machine.after position) then
        [.enter next position]
      else []
  | .save slot next =>
      [.enter next position,
        .restore slot slots[slot]?.join]
  | .split targets =>
      targets.map (.enter · position)
  | .accept => []

/- The slots behind an instruction at a position. -/
def record
    (slots : Slots)
    (position : Nat) :
    Instruction → Slots
  | .save slot _ =>
      slots.setIfInBounds slot (some position)
  | _ => slots

/-
  Work through the tasks until the program accepts. The
  number of steps is bounded by the fuel.
-/
def run
    (machine : Machine) :
    Nat → List Task → Entered → Slots → Option Slots
  | 0, _, _, _ => none
  | _ + 1, [], _, _ => none
  | fuel + 1, .restore slot value :: tasks, entered, slots =>
      machine.run fuel tasks entered
        (slots.setIfInBounds slot value)
  | fuel + 1, .enter index position :: tasks, entered,
      slots =>
      if entered.contains (index, position) then
        machine.run fuel tasks entered slots
      else
        match machine.code[index]? with
        | none => machine.run fuel tasks entered slots
        | some .accept => some slots
        | some instruction =>
            machine.run fuel
              (machine.successors slots position instruction
                ++ tasks)
              (entered.insert (index, position))
              (record slots position instruction)

/- Enough steps for every pair and its successors. -/
def fuel
    (machine : Machine) : Nat :=
  (machine.text.size + 1) *
    (machine.code.foldl (· + ·.weight) 1) + 1

end Machine

namespace Program

/-
  The captures of the preferred match among those that start
  earliest, anywhere in the text.
-/
def find
    (program : Program)
    (text : Text) : Option Captures :=
  let machine : Machine := ⟨program.code, text.toArray⟩
  let starts := (List.range (machine.text.size + 1)).map
    (.enter program.start ·)
  let slots : Slots :=
    Array.replicate (2 * (program.groups + 1)) none
  (machine.run machine.fuel starts {} slots).map
    (·.captures machine.text program.groups)

end Program

end Regex

end RequestRouter
