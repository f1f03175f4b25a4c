import RequestRouter.Regex.Expr
import RequestRouter.Regex.Fault
import RequestRouter.Regex.Flags

/-
  Repetition operators: `*`, `+`, `?` and counted ones such
  as `{2,5}`, each with an optional `?` behind it.

  Key definitions include:
    * `Regex.readDecimal`
    * `Regex.readCounts`
    * `Regex.readQuantifier`
-/

------------------------------------------------------------
-- Numbers
------------------------------------------------------------

namespace RequestRouter

namespace Regex

/- The digits at the front of a text, and what follows. -/
def readDigits
    (flags : Flags) :
    Text → List Char × Text
  | [] => ([], [])
  | c :: rest =>
      if c.isDigit then
        let (digits, behind) :=
          readDigits flags (flags.skip rest)
        (c :: digits, behind)
      else
        ([], c :: rest)
  termination_by text => text.length
  decreasing_by
    exact Nat.lt_succ_of_le (flags.length_skip_le rest)

/- The value of a list of decimal digits. -/
def decimalValue
    (digits : List Char) : Nat :=
  digits.foldl
    (fun value c => 10 * value + (c.toNat - '0'.toNat)) 0

/- Pass over blanks, and over comments in extended mode. -/
def skipAround
    (flags : Flags)
    (text : Text) : Text :=
  match text with
  | c :: rest =>
      if Text.isBlank c then
        if flags.extended then skipBlank false rest
        else rest.dropWhile Text.isBlank
      else text
  | [] => []

/- Read a number of at most 32 bits; blanks may surround it. -/
def readDecimal
    (flags : Flags)
    (text : Text) :
    Except Fault (Nat × Text) :=
  let (digits, rest) :=
    readDigits flags (text.dropWhile Text.isBlank)
  let behind := skipAround flags rest
  if digits.isEmpty then .error .decimalEmpty
  else if 4294967296 ≤ decimalValue digits then
    .error .decimalInvalid
  else .ok (decimalValue digits, behind)

end Regex

end RequestRouter

------------------------------------------------------------
-- Operators
------------------------------------------------------------

namespace RequestRouter

namespace Regex

/- How often, and in which preference, something repeats. -/
structure Quantifier where
  min : Nat
  max : Option Nat
  greedy : Bool
  deriving DecidableEq, Repr

/- Read the counts behind an opening brace, with the `}`. -/
def readCounts
    (flags : Flags)
    (text : Text) :
    Except Fault (Nat × Option Nat × Text) := do
  let text := flags.skip text
  if text.isEmpty then .error .countedUnclosed
  let (min, text) ← readDecimal flags text
  let (max, text) ←
    match text with
    | [] => .error .countedIncomplete
    | ',' :: rest =>
        match flags.skip rest with
        | [] => .error .countedCommaUnclosed
        | '}' :: behind => .ok (none, '}' :: behind)
        | text => do
            let (max, rest) ← readDecimal flags text
            if rest.isEmpty then
              .error .countedMaxUnclosed
            .ok (some max, rest)
    | text => .ok (some min, text)
  match text with
  | '}' :: rest => .ok (min, max, flags.skip rest)
  | _ => .error .countedBrace

/- Read the question mark of a lazy operator. -/
def readGreed
    (flags : Flags) :
    Text → Bool × Text
  | '?' :: rest => (flags.swapGreed, rest)
  | text => (!flags.swapGreed, text)

/-
  Read an operator behind its first character. The operator
  is refused where there is nothing to repeat.
-/
def readQuantifier
    (flags : Flags)
    (nothing : Bool)
    (sign : Char)
    (text : Text) :
    Except Fault (Quantifier × Text) :=
  if sign = '{' then
    if nothing then .error .countedMissing
    else do
      let (min, max, rest) ← readCounts flags text
      let (greedy, rest) := readGreed flags rest
      if max.any (· < min) then .error .countedOrder
      .ok (⟨min, max, greedy⟩, rest)
  else if nothing then .error .repetitionMissing
  else
    let (greedy, rest) := readGreed flags text
    let min := if sign = '+' then 1 else 0
    let max := if sign = '?' then some 1 else none
    .ok (⟨min, max, greedy⟩, rest)

end Regex

end RequestRouter
