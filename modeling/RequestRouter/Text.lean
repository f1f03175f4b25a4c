/-
  Text is a list of characters, so that paths, patterns and
  files are taken apart by matching on their first character.

  Key definitions include:
    * `Text`
    * `Text.startsWith`
    * `Text.endsWith`
    * `Text.stripSuffix?`
-/

------------------------------------------------------------
-- Text
------------------------------------------------------------

namespace RequestRouter

/- A text is the list of its characters. -/
abbrev Text :=
  List Char

namespace Text

/- Whether a text has `c` as its first character. -/
def startsWith
    (c : Char)
    (text : Text) : Bool :=
  text.head? == some c

/- Whether a text has `c` as its last character. -/
def endsWith
    (c : Char)
    (text : Text) : Bool :=
  text.getLast? == some c

/- The text before a last character `c`, if it ends in one. -/
def stripSuffix?
    (c : Char)
    (text : Text) : Option Text :=
  if endsWith c text then some text.dropLast else none

/- A text is its stripped form followed by the character. -/
theorem eq_append_of_stripSuffix?
    {c : Char}
    {text stem : Text}
    (hStrip : stripSuffix? c text = some stem) :
    text = stem ++ [c] := by
  unfold stripSuffix? endsWith at hStrip
  split at hStrip
  case isTrue hLast =>
      have hGet : text.getLast? = some c := by
        simpa using hLast
      obtain ⟨init, rfl⟩ :=
        List.getLast?_eq_some_iff.mp hGet
      have hInit : init = stem := by
        simpa using hStrip
      rw [hInit]
  case isFalse => simp at hStrip

end Text

end RequestRouter
