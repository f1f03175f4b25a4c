import RequestRouter.Regex.Search

/-
  Regular expression engines.

  Routes are matched by any engine that turns patterns into
  programs and programs into captures; the one that reads
  patterns as this library does is `Regex.engine`.

  Key definitions include:
    * `Regex.Engine`
    * `Regex.Engine.isMatch`
    * `Regex.engine`
-/

------------------------------------------------------------
-- Engines
------------------------------------------------------------

namespace RequestRouter

namespace Regex

/-
  An engine: how a pattern becomes a program, the index of
  the last group of a program, and the captures of a match
  somewhere in a text.
-/
structure Engine where
  Program : Type
  compile : Text → Except Fault Program
  groups : Program → Nat
  find : Program → Text → Option Captures

namespace Engine

/- Whether a program matches somewhere in a text. -/
def isMatch
    (engine : Engine)
    (program : engine.Program)
    (text : Text) : Bool :=
  (engine.find program text).isSome

end Engine

/- The engine of this library. -/
def engine : Engine where
  Program := Program
  compile := compile
  groups := Program.groups
  find := Program.find

end Regex

end RequestRouter
