import RequestRouter.Regex.Fault
import RequestRouter.Regex.Flags
import RequestRouter.Text.Alphabetic

/-
  What stands behind an opening parenthesis: the name of a
  capture group, inline flags, or nothing.

  Key definitions include:
    * `Regex.GroupOpening`
    * `Regex.readFlags`
    * `Regex.readGroupName`
    * `Regex.readGroupOpening`
-/

------------------------------------------------------------
-- Inline Flags
------------------------------------------------------------

namespace RequestRouter

namespace Regex

/- The three ways to open a group. -/
inductive GroupOpening where
  | capture (name : Option Text)
  | scoped (flags : Flags)
  | directive (flags : Flags)
  deriving DecidableEq, Repr

/- Where the reading of inline flags stands. -/
structure FlagReader where
  flags : Flags
  negating : Bool
  dangling : Bool
  seen : List Char

/-
  Read inline flags up to a colon or closing parenthesis,
  which is read as well.
-/
def readFlags
    (reader : FlagReader) :
    Text → Except Fault (GroupOpening × Text)
  | [] => .error .flagsUnclosed
  | c :: rest =>
      if c = ':' ∨ c = ')' then
        if reader.dangling then .error .flagNegationDangling
        else if c = ':' then
          .ok (.scoped reader.flags, rest)
        else if reader.seen.isEmpty then .error .emptyFlags
        else .ok (.directive reader.flags, rest)
      else if c = '-' then
        if reader.negating then .error .flagNegationRepeated
        else
          readFlags { reader with
            negating := true, dangling := true } rest
      else
        match reader.flags.set? (!reader.negating) c with
        | none => .error .flagUnrecognized
        | some flags =>
            if reader.seen.contains c then
              .error .flagDuplicate
            else
              readFlags { reader with
                flags := flags
                dangling := false
                seen := c :: reader.seen } rest

end Regex

end RequestRouter

------------------------------------------------------------
-- Group Names
------------------------------------------------------------

namespace RequestRouter

namespace Regex

/- Whether a character may stand in a group name. -/
def isNameChar
    (first : Bool)
    (c : Char) : Bool :=
  if first then c == '_' || Text.isAlphabetic c
  else
    c == '_' || c == '.' || c == '[' || c == ']' ||
      Text.isAlphanumeric c

/- Read the characters of a name up to the closing sign. -/
def readNameChars
    (first : Bool) :
    Text → Except Fault (Text × Text)
  | [] => .error .groupNameUnclosed
  | c :: rest =>
      if c = '>' then .ok ([], rest)
      else if isNameChar first c then do
        let (name, behind) ← readNameChars false rest
        .ok (c :: name, behind)
      else .error .groupNameInvalid

/- Read a name that is not among those given before. -/
def readGroupName
    (taken : List Text)
    (text : Text) :
    Except Fault (Text × Text) :=
  if text.isEmpty then .error .groupNameMissing
  else do
    let (name, rest) ← readNameChars true text
    if name.isEmpty then .error .groupNameEmpty
    if taken.contains name then .error .duplicateGroupName
    .ok (name, rest)

end Regex

end RequestRouter

------------------------------------------------------------
-- Openings
------------------------------------------------------------

namespace RequestRouter

namespace Regex

/- Read what stands behind an opening parenthesis. -/
def readGroupOpening
    (flags : Flags)
    (taken : List Text)
    (text : Text) :
    Except Fault (GroupOpening × Text) :=
  let named (rest : Text) := do
    let (name, rest) ← readGroupName taken rest
    .ok (.capture (some name), rest)
  match flags.skip text with
  | '?' :: '=' :: _ => .error .lookAround
  | '?' :: '!' :: _ => .error .lookAround
  | '?' :: '<' :: '=' :: _ => .error .lookAround
  | '?' :: '<' :: '!' :: _ => .error .lookAround
  | '?' :: 'P' :: '<' :: rest => named rest
  | '?' :: '<' :: rest => named rest
  | ['?'] => .error .unclosedGroupQuestion
  | '?' :: rest => readFlags ⟨flags, false, false, []⟩ rest
  | text => .ok (.capture none, text)

end Regex

end RequestRouter
