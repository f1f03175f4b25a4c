import RequestRouter.Text.Blank

/-
  The flags that govern how a pattern is read, and the
  blanks and comments that the extended mode passes over.

  Key definitions include:
    * `Regex.Flags`
    * `Regex.Flags.set?`
    * `Regex.Flags.skip`
    * `Regex.Flags.peek`
-/

------------------------------------------------------------
-- Flags
------------------------------------------------------------

namespace RequestRouter

namespace Regex

/- The modes in force while a pattern is read. -/
structure Flags where
  ignoreCase : Bool := false
  multiLine : Bool := false
  dotAll : Bool := false
  swapGreed : Bool := false
  crlf : Bool := false
  extended : Bool := false
  deriving DecidableEq, Repr

namespace Flags

/- Set the flag of a letter; the letter `u` has no effect. -/
def set?
    (flags : Flags)
    (value : Bool) :
    Char → Option Flags
  | 'i' => some { flags with ignoreCase := value }
  | 'm' => some { flags with multiLine := value }
  | 's' => some { flags with dotAll := value }
  | 'U' => some { flags with swapGreed := value }
  | 'R' => some { flags with crlf := value }
  | 'x' => some { flags with extended := value }
  | 'u' => some flags
  | _ => none

end Flags

end Regex

end RequestRouter

------------------------------------------------------------
-- Blanks and Comments
------------------------------------------------------------

namespace RequestRouter

namespace Regex

/-
  Pass over blanks and comments. A comment runs from `#` to
  the end of its line.
-/
def skipBlank
    (inComment : Bool) :
    Text → Text
  | [] => []
  | c :: rest =>
      if inComment then skipBlank (c != '\n') rest
      else if Text.isBlank c then skipBlank false rest
      else if c = '#' then skipBlank true rest
      else c :: rest

/- Passing over blanks never makes a text longer. -/
theorem length_skipBlank_le
    (inComment : Bool)
    (text : Text) :
    (skipBlank inComment text).length ≤ text.length := by
  induction text generalizing inComment with
  | nil => simp [skipBlank]
  | cons c rest ih =>
      unfold skipBlank
      split
      · exact Nat.le_succ_of_le (ih _)
      · split
        · exact Nat.le_succ_of_le (ih _)
        · split
          · exact Nat.le_succ_of_le (ih _)
          · exact Nat.le_refl _

/-
  The next character that is neither blank nor the start of
  a comment. What follows a comment sign is looked at as if
  it were in front of it.
-/
def peekBlank
    (inComment : Bool) :
    Text → Option Char
  | [] => none
  | c :: rest =>
      if Text.isBlank c then peekBlank inComment rest
      else if c = '#' ∧ inComment = false then
        peekBlank true rest
      else some c

namespace Flags

/- Pass over blanks and comments in extended mode. -/
def skip
    (flags : Flags)
    (text : Text) : Text :=
  if flags.extended then skipBlank false text else text

/- The next significant character, without reading it. -/
def peek
    (flags : Flags)
    (text : Text) : Option Char :=
  if flags.extended then peekBlank false text
  else text.head?

/- Skipping never makes a text longer. -/
theorem length_skip_le
    (flags : Flags)
    (text : Text) :
    (flags.skip text).length ≤ text.length := by
  unfold skip
  split
  · exact length_skipBlank_le false text
  · exact Nat.le_refl _

end Flags

end Regex

end RequestRouter
