import RequestRouter.Regex.CharSet

/-
  Regular expressions as trees, and the measures that limit
  them.

  Key definitions include:
    * `Regex.Assertion`
    * `Regex.Expr`
    * `Regex.Expr.height`
    * `Regex.Expr.canBeEmpty`
    * `Regex.Expr.lastGroup`
    * `Regex.Expr.programStorage`
-/

------------------------------------------------------------
-- Assertions
------------------------------------------------------------

namespace RequestRouter

namespace Regex

/- A condition on a position between two characters. -/
inductive Assertion where
  | textStart
  | textEnd
  | lineStart
  | lineEnd
  | lineStartCrlf
  | lineEndCrlf
  | wordBoundary
  | notWordBoundary
  | wordStart
  | wordEnd
  | wordStartHalf
  | wordEndHalf
  deriving DecidableEq, Repr

namespace Assertion

/-
  Whether an assertion holds between two characters; `none`
  stands for either end of the text.
-/
def holds
    (before after : Option Char) :
    Assertion → Bool
  | .textStart => before.isNone
  | .textEnd => after.isNone
  | .lineStart => before.isNone || before == some '\n'
  | .lineEnd => after.isNone || after == some '\n'
  | .lineStartCrlf =>
      before.isNone || before == some '\n' ||
        (before == some '\r' && after != some '\n')
  | .lineEndCrlf =>
      after.isNone || after == some '\r' ||
        (after == some '\n' && before != some '\r')
  | .wordBoundary =>
      before.any isWordChar != after.any isWordChar
  | .notWordBoundary =>
      before.any isWordChar == after.any isWordChar
  | .wordStart =>
      !before.any isWordChar && after.any isWordChar
  | .wordEnd =>
      before.any isWordChar && !after.any isWordChar
  | .wordStartHalf => !before.any isWordChar
  | .wordEndHalf => !after.any isWordChar

end Assertion

end Regex

end RequestRouter

------------------------------------------------------------
-- Expressions
------------------------------------------------------------

namespace RequestRouter

namespace Regex

/-
  A regular expression. A repetition without a maximum is
  unbounded; a greedy one prefers more rounds. Earlier
  branches of an alternation are preferred.
-/
inductive Expr where
  | empty
  | char (c : Char)
  | set (chars : CharSet)
  | assertion (condition : Assertion)
  | group (index : Nat) (name : Option Text) (body : Expr)
  | repetition
      (min : Nat)
      (max : Option Nat)
      (greedy : Bool)
      (body : Expr)
  | concat (items : List Expr)
  | alternation (branches : List Expr)
  deriving Repr

namespace Expr

/- Join items in sequence; a single item stands for itself. -/
def sequence : List Expr → Expr
  | [] => .empty
  | [item] => item
  | items => .concat items

/- Offer branches; a single branch stands for itself. -/
def choice : List Expr → Expr
  | [branch] => branch
  | branches => .alternation branches

/-
  Repeat an expression. Zero rounds are the empty
  expression and exactly one round is the expression.
-/
def rounds
    (min : Nat)
    (max : Option Nat)
    (greedy : Bool)
    (body : Expr) : Expr :=
  if min = 0 ∧ max = some 0 then .empty
  else if min = 1 ∧ max = some 1 then body
  else .repetition min max greedy body

end Expr

end Regex

end RequestRouter

------------------------------------------------------------
-- Measures
------------------------------------------------------------

namespace RequestRouter

namespace Regex

namespace Expr

mutual

/-
  The height of a tree. Groups, repetitions, sequences and
  alternations add one level.
-/
def height : Expr → Nat
  | .empty | .char _ | .set _ | .assertion _ => 0
  | .group _ _ body => body.height + 1
  | .repetition _ _ _ body => body.height + 1
  | .concat items => listHeight items + 1
  | .alternation branches => listHeight branches + 1

/- The greatest height in a list. -/
def listHeight : List Expr → Nat
  | [] => 0
  | e :: rest => max e.height (listHeight rest)

end

mutual

/- Whether an expression matches the empty text somewhere. -/
def canBeEmpty : Expr → Bool
  | .empty | .assertion _ => true
  | .char _ | .set _ => false
  | .group _ _ body => body.canBeEmpty
  | .repetition min _ _ body => min == 0 || body.canBeEmpty
  | .concat items => allCanBeEmpty items
  | .alternation branches => anyCanBeEmpty branches

/- Whether every expression of a list can be empty. -/
def allCanBeEmpty : List Expr → Bool
  | [] => true
  | e :: rest => e.canBeEmpty && allCanBeEmpty rest

/- Whether some expression of a list can be empty. -/
def anyCanBeEmpty : List Expr → Bool
  | [] => false
  | e :: rest => e.canBeEmpty || anyCanBeEmpty rest

end

mutual

/- The highest group index of an expression, or zero. -/
def lastGroup : Expr → Nat
  | .empty | .char _ | .set _ | .assertion _ => 0
  | .group index _ body => max index body.lastGroup
  | .repetition _ _ _ body => body.lastGroup
  | .concat items => listLastGroup items
  | .alternation branches => listLastGroup branches

/- The highest group index in a list, or zero. -/
def listLastGroup : List Expr → Nat
  | [] => 0
  | e :: rest => max e.lastGroup (listLastGroup rest)

end

/-
  The bytes of a repetition whose body takes `body` bytes
  and may or may not be empty.
-/
def repetitionStorage
    (min : Nat)
    (max : Option Nat)
    (bodyEmpty : Bool)
    (body : Nat) : Nat :=
  match min, max with
  | 0, some 1 => body + 72
  | 0, none => if bodyEmpty then body + 112 else body + 40
  | _, none => min * body + 40
  | _, some most =>
      (if min = 0 then 32 else min * body) +
        (if most ≤ min then 0
        else 32 + (most - min) * (body + 40))

mutual

/-
  The bytes that the program of an expression takes: 32 a
  state, 4 a jump target and 8 a character range.
-/
def storage : Expr → Nat
  | .empty | .char _ | .assertion _ => 32
  | .set chars => 32 + 8 * chars.spans
  | .group _ _ body => 64 + body.storage
  | .repetition min max _ body =>
      repetitionStorage min max body.canBeEmpty body.storage
  | .concat items => listStorage items
  | .alternation branches =>
      64 + 4 * branches.length + listStorage branches

/- The bytes of all expressions of a list. -/
def listStorage : List Expr → Nat
  | [] => 0
  | e :: rest => e.storage + listStorage rest

end

/-
  The bytes of a whole program: the expression inside the
  group of the whole match, the final state, and 16 for each
  group.
-/
def programStorage
    (e : Expr) : Nat :=
  e.storage + 96 + 16 * (e.lastGroup + 1)

end Expr

end Regex

end RequestRouter
