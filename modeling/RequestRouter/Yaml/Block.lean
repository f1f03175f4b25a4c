import RequestRouter.Yaml.Flow

/-
  The block collections of YAML, told by indentation.

  A node is read at a place: a block collection inside of it
  starts at one column and goes on as long as lines start
  there.

  Key definitions include:
    * `Yaml.Place`
    * `Yaml.Reading.blockMapping`
    * `Yaml.Reading.blockSequence`
    * `Yaml.Reading.blockNode`
-/

------------------------------------------------------------
-- Places
------------------------------------------------------------

namespace RequestRouter

namespace Yaml

/-
  Where a node stands: the least column of its lines,
  whether a block collection may start on the line at hand,
  and whether the dashes of a sequence may stand one column
  further left.
-/
structure Place where
  least : Nat
  starting : Bool
  outdented : Bool

/- The readers of nested nodes. -/
abbrev NodeReader :=
  Place → Reading Node

namespace Place

/- The place of a document. -/
def document
    (starting : Bool) : Place :=
  ⟨0, starting, false⟩

/- The place of an item of a sequence at a column. -/
def item
    (column : Nat) : Place :=
  ⟨column + 1, true, false⟩

/- The place of a value on the line of its key. -/
def value
    (column : Nat) : Place :=
  ⟨column + 1, false, true⟩

/- The place of an explicit key or its value. -/
def explicit
    (column : Nat) : Place :=
  ⟨column + 1, true, true⟩

end Place

end Yaml

end RequestRouter

------------------------------------------------------------
-- Sequences
------------------------------------------------------------

namespace RequestRouter

namespace Yaml

namespace Reading

/-
  Read the items of a sequence whose dashes stand at a
  column. An outdented sequence ends before another text at
  that column.
-/
def blockItemsFrom
    (nested : NodeReader)
    (column : Nat)
    (outdented : Bool) :
    Nat → List Node → Reading (List Node)
  | 0, _ => throw .indentation
  | fuel + 1, items => do
      let _ ← skip true
      let r ← get
      if r.atEnd || r.column < column then return items
      else if r.column = column ∧ r.atIndicator '-' then
        passOne
        let item ← nested (.item column)
        blockItemsFrom nested column outdented fuel
          (items ++ [item])
      else if r.column = column ∧ outdented then return items
      else throw .indentation

/- Read the sequence whose first dash is ahead. -/
def blockSequence
    (nested : NodeReader)
    (outdented : Bool) : Reading Node := do
  let r ← get
  let items ← blockItemsFrom nested r.column outdented
    (r.rest.length + 1) []
  return .sequence items

end Reading

end Yaml

end RequestRouter

------------------------------------------------------------
-- Mappings
------------------------------------------------------------

namespace RequestRouter

namespace Yaml

namespace Reading

/- The depth to which flow collections ahead may nest. -/
def flowDepth : Reading Nat := do
  return (← get).rest.length + 1

/- Read the key ahead, or another node of its kind. -/
def blockInline
    (owned : Bool)
    (least : Nat) : Reading Node := do
  if owned && (← get).atIndicator ':' then return .absent
  inlineNode false (flowNode least (← flowDepth)) least

/-
  Pass the colon of a key that started at an earlier state,
  if there is one.
-/
def passColon
    (earlier : Reader) : Reading Bool := do
  let before ← get
  if before.line != earlier.line then return false
  skipBlanks
  let r ← get
  if r.atIndicator ':' && r.isKeySince earlier then
    passOne
    return true
  return false

/- Read an entry that starts with a question mark. -/
def explicitEntry
    (nested : NodeReader)
    (column : Nat) : Reading (Node × Node) := do
  passOne
  let key ← nested (.explicit column)
  let _ ← skip true
  let r ← get
  if !r.atEnd && r.column == column && r.atIndicator ':' then
    passOne
    return (key, ← nested (.explicit column))
  return (key, .absent)

/- Read another entry of a mapping at a column. -/
def simpleEntry
    (nested : NodeReader)
    (column : Nat) : Reading (Node × Node) := do
  let start ← get
  let (owned, anchor) ← properties
  let key ← blockInline owned (column + 1)
  let key ← remember anchor key
  if ← passColon start then
    return (key, ← nested (.value column))
  throw .missingColon

/- Read the further entries of a mapping at a column. -/
def blockEntriesFrom
    (nested : NodeReader)
    (column : Nat) :
    Nat → List (Node × Node) → Reading (List (Node × Node))
  | 0, _ => throw .indentation
  | fuel + 1, entries => do
      let _ ← skip true
      let r ← get
      if r.atEnd || r.column < column then return entries
      else if r.column ≠ column then throw .indentation
      else if r.atIndicator '-' then
        throw .sequenceNotAllowed
      else do
        let entry ←
          if r.atIndicator '?' then explicitEntry nested column
          else simpleEntry nested column
        blockEntriesFrom nested column fuel
          (entries ++ [entry])

/-
  Read the entries of a mapping at a column behind the first
  ones.
-/
def blockMapping
    (nested : NodeReader)
    (column : Nat)
    (first : List (Node × Node)) : Reading Node := do
  let entries ← blockEntriesFrom nested column
    ((← get).rest.length + 1) first
  return .mapping entries

end Reading

end Yaml

end RequestRouter

------------------------------------------------------------
-- Nodes
------------------------------------------------------------

namespace RequestRouter

namespace Yaml

namespace Reading

/-
  Read the node ahead, which is no sequence, behind its
  properties. `start` is the state before these, and
  `starting` tells whether a mapping may start there. The
  properties of a first key belong to the key.
-/
def keyOrNode
    (nested : NodeReader)
    (least : Nat)
    (starting owned : Bool)
    (anchor : Option Text)
    (start : Reader) : Reading Node := do
  let node ← blockInline owned least
  let node ← remember anchor node
  if !(← passColon start) then return node
  else if !starting then throw .mappingNotAllowed
  else
    let value ← nested (.value start.column)
    blockMapping nested start.column [(node, value)]

/- Read a block scalar behind its sign. -/
def blockScalar
    (folded : Bool)
    (least : Nat) : Reading Node := do
  let r ← get
  scalarBy false (readBlockScalar folded least r.rest.tail)

/-
  Read the node that is on the line at hand. Its properties
  may be followed by a line break and then by content that
  `nested` reads.
-/
def nodeOnLine
    (nested : NodeReader)
    (place : Place) : Reading Node := do
  let start ← get
  if start.atIndicator '-' then
    if place.starting then blockSequence nested false
    else throw .sequenceNotAllowed
  else if start.atIndicator '?' then
    if place.starting then
      blockMapping nested start.column []
    else throw .mappingNotAllowed
  else
    let (owned, anchor) ← properties
    let r ← get
    let ended := r.rest.isEmpty || atBreak r.rest ||
      r.rest.head? == some '#'
    if owned && ended then
      let node ← nested { place with starting := false }
      remember anchor node
    else if r.atIndicator '-' then throw .sequenceNotAllowed
    else if r.atIndicator '?' then throw .mappingNotAllowed
    else if r.rest.head? = some '|' then
      remember anchor (← blockScalar false place.least)
    else if r.rest.head? = some '>' then
      remember anchor (← blockScalar true place.least)
    else
      keyOrNode nested place.least place.starting owned
        anchor start

/-
  Read the node at a place, where nodes may be nested up to
  a depth. Nothing further left than the place belongs to
  the node.
-/
def blockNode : Nat → NodeReader
  | 0, _ => throw .nesting
  | depth + 1, place => do
      let left ← skip (!place.starting)
      let starting := place.starting || left
      let r ← get
      if r.atEnd then return .absent
      else if r.column < place.least then
        if place.outdented && r.column + 1 == place.least &&
            r.atIndicator '-' && starting then
          blockSequence (blockNode depth) true
        else return .absent
      else
        nodeOnLine (blockNode depth)
          { place with starting := starting }

end Reading

end Yaml

end RequestRouter
