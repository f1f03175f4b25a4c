import RequestRouter.Regex.Parse

/-
  Programs for regular expressions.

  An expression becomes a list of instructions that name
  their successors by index. Code is written back to front:
  the code of an expression is given the index at which to
  go on, and returns the index at which to start.

  Key definitions include:
    * `Regex.Instruction`
    * `Regex.Program`
    * `Regex.Expr.code`
    * `Regex.compile`
-/

------------------------------------------------------------
-- Instructions
------------------------------------------------------------

namespace RequestRouter

namespace Regex

/-
  One instruction. Targets of a split are tried in order; a
  save records the position in a slot.
-/
inductive Instruction where
  | char (c : Char) (next : Nat)
  | set (chars : CharSet) (next : Nat)
  | assertion (condition : Assertion) (next : Nat)
  | save (slot : Nat) (next : Nat)
  | split (targets : List Nat)
  | accept
  deriving Repr

/- Instructions, by index. -/
abbrev Code :=
  Array Instruction

/- A program with its first index and its last group. -/
structure Program where
  code : Code
  start : Nat
  groups : Nat
  deriving Repr

namespace Instruction

/- The number of successors, counting at least two. -/
def weight : Instruction → Nat
  | .split targets => targets.length + 2
  | _ => 2

end Instruction

end Regex

end RequestRouter

------------------------------------------------------------
-- Code
------------------------------------------------------------

namespace RequestRouter

namespace Regex

/- Code that goes on at an index, with its own first index. -/
abbrev Fragment :=
  Nat → Code → Nat × Code

namespace Fragment

/- Write one instruction. -/
def emit
    (instruction : Nat → Instruction) : Fragment :=
  fun next code => (code.size, code.push (instruction next))

/- A choice in order of preference. -/
def prefer
    (greedy : Bool)
    (inside outside : Nat) : Instruction :=
  .split
    (if greedy then [inside, outside]
    else [outside, inside])

/- One round or none. -/
def atMostOnce
    (greedy : Bool)
    (round : Fragment) : Fragment :=
  fun next code =>
    let (inside, code) := round next code
    (code.size, code.push (prefer greedy inside next))

/-
  One round or more. The result is the start of the round;
  the second index is the choice behind it.
-/
def loop
    (greedy : Bool)
    (round : Fragment)
    (next : Nat)
    (code : Code) : Nat × Nat × Code :=
  let choice := code.size
  let (inside, code) :=
    round choice (code.push (.split []))
  (inside, choice,
    code.setIfInBounds choice (prefer greedy inside next))

/- One round or more, as a fragment. -/
def atLeastOnce
    (greedy : Bool)
    (round : Fragment) : Fragment :=
  fun next code =>
    let (inside, _, code) := loop greedy round next code
    (inside, code)

/-
  Any number of rounds. A round that can be empty is entered
  through a choice of its own, so that its emptiness does
  not end the loop.
-/
def anyTimes
    (greedy canBeEmpty : Bool)
    (round : Fragment) : Fragment :=
  fun next code =>
    if canBeEmpty then
      atMostOnce greedy (atLeastOnce greedy round) next code
    else
      let (_, choice, code) := loop greedy round next code
      (choice, code)

/- A fragment several times in a row. -/
def times
    (round : Fragment) : Nat → Fragment
  | 0 => fun next code => (next, code)
  | count + 1 => fun next code =>
      let (later, code) := times round count next code
      round later code

/- Up to so many rounds; leaving leads to the same place. -/
def upTo
    (greedy : Bool)
    (round : Fragment)
    (exit : Nat) : Nat → Fragment
  | 0 => fun next code => (next, code)
  | count + 1 => fun next code =>
      let (later, code) :=
        upTo greedy round exit count next code
      let (inside, code) := round later code
      (code.size, code.push (prefer greedy inside exit))

/- A repetition between two counts. -/
def repetition
    (min : Nat)
    (max : Option Nat)
    (greedy canBeEmpty : Bool)
    (round : Fragment) : Fragment :=
  match min, max with
  | 0, none => anyTimes greedy canBeEmpty round
  | least + 1, none => fun next code =>
      let (later, code) :=
        atLeastOnce greedy round next code
      times round least later code
  | least, some most => fun next code =>
      let (later, code) :=
        upTo greedy round next (most - least) next code
      times round least later code

end Fragment

namespace Expr

mutual

/- The code of an expression. -/
def code : Expr → Fragment
  | .empty => fun next code => (next, code)
  | .char c => Fragment.emit (.char c)
  | .set chars => Fragment.emit (.set chars)
  | .assertion condition =>
      Fragment.emit (.assertion condition)
  | .group index _ body => fun next code =>
      let (last, code) :=
        Fragment.emit (.save (2 * index + 1)) next code
      let (inside, code) := body.code last code
      Fragment.emit (.save (2 * index)) inside code
  | .repetition min max greedy body =>
      Fragment.repetition min max greedy body.canBeEmpty
        body.code
  | .concat items => sequenceCode items
  | .alternation branches => fun next code =>
      let (targets, code) := branchCode branches next code
      (code.size, code.push (.split targets))

/- The code of expressions in a row. -/
def sequenceCode : List Expr → Fragment
  | [] => fun next code => (next, code)
  | e :: rest => fun next code =>
      let (later, code) := sequenceCode rest next code
      e.code later code

/- The code of branches, and where each of them starts. -/
def branchCode :
    List Expr → Nat → Code → List Nat × Code
  | [], _, code => ([], code)
  | e :: rest, next, code =>
      let (first, code) := e.code next code
      let (others, code) := branchCode rest next code
      (first :: others, code)

end

/- The program of an expression. -/
def program
    (e : Expr) : Program :=
  let (start, code) :=
    (Expr.group 0 none e).code 0 #[.accept]
  ⟨code, start, e.lastGroup⟩

end Expr

/- The program of a pattern. -/
def compile
    (pattern : Text) :
    Except Fault Program := do
  let e ← parse pattern
  if maxStorage < e.programStorage then .error .tooLarge
  .ok e.program

end Regex

end RequestRouter
