import RequestRouter.Yaml.Scalar

/-
  The state of reading YAML nodes: the text ahead with its
  position, and the anchored nodes so far.

  Blanks, comments, properties and scalars are read here;
  they are the same inside and outside of flow collections.

  Key definitions include:
    * `Yaml.Reader`
    * `Yaml.Reading`
    * `Yaml.Reading.skip`
    * `Yaml.Reading.properties`
    * `Yaml.Reading.scalar`
-/

------------------------------------------------------------
-- Readers
------------------------------------------------------------

namespace RequestRouter

namespace Yaml

/-
  The text ahead, the number of its line, the number of
  characters before it on that line, and the anchors.
-/
structure Reader where
  rest : Text
  line : Nat := 0
  column : Nat := 0
  anchors : List (Text × Node) := []

namespace Reader

/- The reader one character further. -/
def next
    (r : Reader)
    (c : Char) : Reader :=
  if isBreak c then
    { r with rest := r.rest.tail, line := r.line + 1
             column := 0 }
  else
    { r with rest := r.rest.tail, column := r.column + 1 }

/- The reader behind a text that it is at. -/
def pass
    (r : Reader)
    (passed : Text) : Reader :=
  passed.foldl next r

/- The reader at a text that ends the one ahead. -/
def moveTo
    (r : Reader)
    (text : Text) : Reader :=
  r.pass (r.rest.take (r.rest.length - text.length))

/- Whether a document ends here. -/
def atEnd
    (r : Reader) : Bool :=
  r.rest.isEmpty || (r.column == 0 && atMarker r.rest)

/- Whether a character with a blank behind it is ahead. -/
def atIndicator
    (r : Reader)
    (c : Char) : Bool :=
  r.rest.head? == some c && atBlank r.rest.tail

/-
  Whether what was read since an earlier state can be a key:
  it is on one line and short.
-/
def isKeySince
    (r earlier : Reader) : Bool :=
  r.line == earlier.line &&
    earlier.rest.length - r.rest.length ≤ 1024

end Reader

/- The readings of a text that may fail. -/
abbrev Reading :=
  StateT Reader (Except Fault)

end Yaml

end RequestRouter

------------------------------------------------------------
-- Separation
------------------------------------------------------------

namespace RequestRouter

namespace Yaml

/-
  The text behind blanks, comments and line breaks. Tabs
  count as blanks if `tabs` holds, and on further lines if
  `inner` does.
-/
def skipSeparation
    (inner tabs comment : Bool) : Text → Text
  | [] => []
  | c :: rest =>
      if isBreak c then
        skipSeparation inner inner false rest
      else if comment || c == ' ' || (c == '\t' && tabs) then
        skipSeparation inner tabs comment rest
      else if c = '#' then
        skipSeparation inner tabs true rest
      else c :: rest

namespace Reading

/- Go to a text that ends the one ahead. -/
def moveTo
    (text : Text) : Reading Unit :=
  modify (·.moveTo text)

/- Pass one character. -/
def passOne : Reading Unit := do
  let r ← get
  moveTo r.rest.tail

/-
  Pass over blanks, comments and line breaks outside of flow
  collections, and tell whether a line was left.
-/
def skip
    (tabs : Bool) : Reading Bool := do
  let r ← get
  moveTo (skipSeparation false tabs false r.rest)
  return (← get).line != r.line

/- Pass over separation inside of flow collections. -/
def skipInner : Reading Unit := do
  let r ← get
  moveTo (skipSeparation true true false r.rest)

/- Pass over blanks. -/
def skipBlanks : Reading Unit := do
  let r ← get
  moveTo (r.rest.dropWhile isBlank)

end Reading

end Yaml

end RequestRouter

------------------------------------------------------------
-- Properties and Aliases
------------------------------------------------------------

namespace RequestRouter

namespace Yaml

/- Whether a character may be in the name of an anchor. -/
def isNameCharacter
    (c : Char) : Bool :=
  c.isAlphanum || c == '_' || c == '-'

/- Whether the name of an anchor ends before a text. -/
def endsName
    (text : Text) : Bool :=
  atBlank text ||
    text.head?.any
      (['?', ':', ',', ']', '}', '%', '@', '\u0060'].contains ·)

/- Whether a character ends a tag. -/
def endsTag
    (c : Char) : Bool :=
  isBlank c || isBreak c || c == ',' || c == ']' || c == '}'

namespace Reading

/- Read a name behind its sign. -/
def name : Reading Text := do
  let r ← get
  let name := r.rest.tail.takeWhile isNameCharacter
  let behind := r.rest.tail.dropWhile isNameCharacter
  if name.isEmpty || !endsName behind then
    throw .anchorName
  moveTo behind
  return name

/- Read the tag ahead, if there is one. -/
def tag : Reading Bool := do
  let r ← get
  if r.rest.head? = some '!' then
    moveTo (r.rest.dropWhile (!endsTag ·))
    return true
  return false

/- Read the anchor ahead, if there is one. -/
def anchor : Reading (Option Text) := do
  if (← get).rest.head? = some '&' then
    return some (← name)
  return none

/-
  Read the properties ahead, which are a tag, an anchor or
  both, with the blanks behind them. The result is whether
  there are any, and the anchor. An alias has none.
-/
def properties : Reading (Bool × Option Text) := do
  let early ← tag
  skipBlanks
  let anchor ← anchor
  skipBlanks
  let late ← if early then pure false else tag
  skipBlanks
  let owned := early || late || anchor.isSome
  if owned && (← get).rest.head? == some '*' then
    throw .unexpectedCharacter
  return (owned, anchor)

/- Give a node the name of an anchor, if there is one. -/
def remember
    (anchor : Option Text)
    (node : Node) : Reading Node := do
  match anchor with
  | some name =>
      modify fun r =>
        { r with anchors := (name, node) :: r.anchors }
  | none => pure ()
  return node

/- Read an alias: the last node with its name. -/
def aliased : Reading Node := do
  let name ← name
  match (← get).anchors.lookup name with
  | some node => return node
  | none => throw .unknownAlias

end Reading

end Yaml

end RequestRouter

------------------------------------------------------------
-- Scalars
------------------------------------------------------------

namespace RequestRouter

namespace Yaml

/- Whether a character has a meaning at a token's start. -/
def isIndicator
    (c : Char) : Bool :=
  ['-', '?', ':', ',', '[', ']', '{', '}', '#', '&', '*',
    '!', '|', '>', '\'', '"', '%', '@', '\u0060'].contains c

/- Whether a plain scalar starts with a text. -/
def startsPlain
    (flow : Bool) : Text → Bool
  | [] => false
  | c :: rest =>
      if c = '-' then !atBlank rest
      else if c = '?' ∨ c = ':' then !flow && !atBlank rest
      else !isBlank c && !isBreak c && !isIndicator c

namespace Reading

/- Read with the reader of a scalar that is ahead. -/
def scalarBy
    (plain : Bool)
    (read : Except Fault (Text × Text)) :
    Reading Node := do
  let (value, behind) ← read
  moveTo behind
  return .scalar plain value

/-
  Read the scalar or alias ahead, whose further lines have
  at least the given indentation.
-/
def scalar
    (flow : Bool)
    (least : Nat) : Reading Node := do
  let r ← get
  if r.rest.head? = some '*' then aliased
  else if r.rest.head? = some '\'' then
    scalarBy false (readSingleQuoted r.rest.tail)
  else if r.rest.head? = some '"' then
    scalarBy false (readDoubleQuoted r.rest.tail)
  else if startsPlain flow r.rest then
    scalarBy true (readPlain flow least r.rest)
  else throw .unexpectedCharacter

end Reading

end Yaml

end RequestRouter
