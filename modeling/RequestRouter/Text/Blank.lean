import RequestRouter.Text

/-
  White space of the Unicode standard.

  Main statement:
    * `Text.isBlank_of_isWhitespace`
-/

------------------------------------------------------------
-- White Space
------------------------------------------------------------

namespace RequestRouter

namespace Text

/- Whether a character has the property White_Space. -/
def isBlank
    (c : Char) : Bool :=
  let n := c.toNat
  (9 ≤ n && n ≤ 13) || n == 32 || n == 0x85 || n == 0xa0 ||
    n == 0x1680 || (0x2000 ≤ n && n ≤ 0x200a) ||
    n == 0x2028 || n == 0x2029 || n == 0x202f ||
    n == 0x205f || n == 0x3000

/- The ASCII white space characters are blank. -/
theorem isBlank_of_isWhitespace
    {c : Char}
    (hSpace : c.isWhitespace = true) :
    isBlank c = true := by
  simp only [Char.isWhitespace, Bool.or_eq_true,
    decide_eq_true_eq] at hSpace
  rcases hSpace with ((rfl | rfl) | rfl) | rfl <;> decide

end Text

end RequestRouter
