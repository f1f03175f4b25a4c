/-
  JSON values and their text.

  Key definitions include:
    * `JsonValue`
    * `JsonValue.pretty`
    * `JsonValue.compact`
-/

------------------------------------------------------------
-- Values
------------------------------------------------------------

namespace RequestRouter

/- A JSON value; the members of a record keep their order. -/
inductive JsonValue where
  | text (value : String)
  | count (value : Nat)
  | flag (value : Bool)
  | list (items : List JsonValue)
  | record (members : List (String × JsonValue))
  deriving Repr

end RequestRouter

------------------------------------------------------------
-- Strings
------------------------------------------------------------

namespace RequestRouter

namespace JsonValue

/- A hexadecimal digit. -/
def hexDigit
    (n : Nat) : Char :=
  if n < 10 then Char.ofNat ('0'.toNat + n)
  else Char.ofNat ('a'.toNat + (n - 10))

/- A character as it is written inside of a string. -/
def escapeCharacter
    (c : Char) : List Char :=
  if c = '"' then ['\\', '"']
  else if c = '\\' then ['\\', '\\']
  else if c = '\n' then ['\\', 'n']
  else if c = '\r' then ['\\', 'r']
  else if c = '\t' then ['\\', 't']
  else if c.toNat = 8 then ['\\', 'b']
  else if c.toNat = 12 then ['\\', 'f']
  else if c.toNat < 32 then
    ['\\', 'u', '0', '0', hexDigit (c.toNat / 16),
      hexDigit (c.toNat % 16)]
  else [c]

/- A string in quotes. -/
def quote
    (value : String) : String :=
  "\"" ++ String.ofList
    (value.toList.flatMap escapeCharacter) ++ "\""

end JsonValue

end RequestRouter

------------------------------------------------------------
-- Layouts
------------------------------------------------------------

namespace RequestRouter

namespace JsonValue

/- Two blanks for each level of nesting. -/
def indentation
    (depth : Nat) : String :=
  String.ofList (List.replicate (2 * depth) ' ')

/- Parts on lines of their own between two brackets. -/
def block
    (left right : String)
    (depth : Nat)
    (parts : List String) : String :=
  if parts.isEmpty then left ++ right
  else
    let line := "\n" ++ indentation (depth + 1)
    left ++ line ++ ("," ++ line).intercalate parts ++
      "\n" ++ indentation depth ++ right

mutual

/- A value on several lines, inside of outer values. -/
def prettyAt
    (depth : Nat) : JsonValue → String
  | .text value => quote value
  | .count value => toString value
  | .flag value => toString value
  | .list items =>
      block "[" "]" depth (prettyItems (depth + 1) items)
  | .record members =>
      block "\x7b" "\x7d" depth
        (prettyMembers (depth + 1) members)

/- The items of a list. -/
def prettyItems
    (depth : Nat) : List JsonValue → List String
  | [] => []
  | item :: rest =>
      prettyAt depth item :: prettyItems depth rest

/- The members of a record. -/
def prettyMembers
    (depth : Nat) :
    List (String × JsonValue) → List String
  | [] => []
  | (name, value) :: rest =>
      (quote name ++ ": " ++ prettyAt depth value) ::
        prettyMembers depth rest

end

/- A value on several lines. -/
def pretty
    (value : JsonValue) : String :=
  prettyAt 0 value

mutual

/- A value on one line. -/
def compact : JsonValue → String
  | .text value => quote value
  | .count value => toString value
  | .flag value => toString value
  | .list items =>
      "[" ++ ",".intercalate (compactItems items) ++ "]"
  | .record members =>
      "\x7b" ++ ",".intercalate (compactMembers members) ++
        "\x7d"

/- The items of a list. -/
def compactItems : List JsonValue → List String
  | [] => []
  | item :: rest => compact item :: compactItems rest

/- The members of a record. -/
def compactMembers :
    List (String × JsonValue) → List String
  | [] => []
  | (name, value) :: rest =>
      (quote name ++ ":" ++ compact value) ::
        compactMembers rest

end

end JsonValue

end RequestRouter
