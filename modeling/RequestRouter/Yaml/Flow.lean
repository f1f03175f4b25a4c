import RequestRouter.Yaml.Reader

/-
  The flow collections of YAML, in brackets and braces.

  Both kinds are lists of items, each a key that may have a
  value: `Reading.flowItems` reads them with a reader of the
  nodes inside. In a sequence an item with a value is a
  mapping of that one entry, and in a mapping an item
  without one has an absent value.

  Key definitions include:
    * `Yaml.Reading.flowItems`
    * `Yaml.Reading.flowNode`
-/

------------------------------------------------------------
-- Items
------------------------------------------------------------

namespace RequestRouter

namespace Yaml

/- An item of a flow collection. -/
structure FlowItem where
  key : Node
  value? : Option Node := none

namespace FlowItem

/- The item of a sequence. -/
def inSequence : FlowItem → Node
  | ⟨key, some value⟩ => .mapping [(key, value)]
  | ⟨key, none⟩ => key

/- The entry of a mapping. -/
def inMapping : FlowItem → Node × Node
  | ⟨key, some value⟩ => (key, value)
  | ⟨key, none⟩ => (key, .absent)

end FlowItem

namespace Reading

/- Whether a character is ahead. -/
def isAt
    (c : Char) : Reading Bool := do
  return (← get).rest.head? == some c

/- Whether an item or one of its parts ends here. -/
def atItemEnd
    (close : Char) : Reading Bool := do
  return (← isAt ',') || (← isAt close)

/- Read a value behind its colon. -/
def flowValue
    (nested : Reading Node)
    (close : Char) : Reading Node := do
  passOne
  skipInner
  if ← atItemEnd close then return .absent
  nested

/- Read an item that starts with a question mark. -/
def flowExplicitItem
    (nested : Reading Node)
    (close : Char) : Reading FlowItem := do
  passOne
  skipInner
  let key ←
    if (← isAt ':') || (← atItemEnd close) then
      pure Node.absent
    else nested
  skipInner
  if ← isAt ':' then
    return ⟨key, some (← flowValue nested close)⟩
  return ⟨key, some .absent⟩

/- Read another item: the colon is on the line of its key. -/
def flowSimpleItem
    (nested : Reading Node)
    (close : Char) : Reading FlowItem := do
  let start ← get
  let key ← nested
  skipInner
  if (← isAt ':') && (← get).isKeySince start then
    return ⟨key, some (← flowValue nested close)⟩
  return ⟨key, none⟩

/-
  Read items up to a closing character. Every round passes
  one character at least, so the length of the text is
  enough fuel.
-/
def flowItemsFrom
    (nested : Reading Node)
    (close : Char) :
    Nat → List FlowItem → Reading (List FlowItem)
  | 0, _ => throw .unclosedFlow
  | fuel + 1, items => do
      skipInner
      if (← get).atEnd then throw .unclosedFlow
      if ← isAt close then
        passOne
        return items
      let item ←
        if ← isAt '?' then flowExplicitItem nested close
        else flowSimpleItem nested close
      skipInner
      if ← isAt ',' then passOne
      else if !(← isAt close) then throw .missingComma
      flowItemsFrom nested close fuel (items ++ [item])

/- Read the items behind an opening character. -/
def flowItems
    (nested : Reading Node)
    (close : Char) : Reading (List FlowItem) := do
  passOne
  flowItemsFrom nested close ((← get).rest.length + 1) []

end Reading

end Yaml

end RequestRouter

------------------------------------------------------------
-- Nodes
------------------------------------------------------------

namespace RequestRouter

namespace Yaml

namespace Reading

/-
  Read a node that is no block: a flow collection, whose
  nodes `nested` reads, a scalar or an alias.
-/
def inlineNode
    (flow : Bool)
    (nested : Reading Node)
    (least : Nat) : Reading Node := do
  if ← isAt '[' then
    let items ← flowItems nested ']'
    return .sequence (items.map FlowItem.inSequence)
  else if ← isAt '{' then
    let items ← flowItems nested '\x7d'
    return .mapping (items.map FlowItem.inMapping)
  else scalar flow least

/-
  Read a node inside of a flow collection, where collections
  may be nested up to a depth.
-/
def flowNode
    (least : Nat) : Nat → Reading Node
  | 0 => throw .nesting
  | depth + 1 => do
      skipInner
      let (owned, anchor) ← properties
      skipInner
      if (← get).atEnd then throw .unclosedFlow
      let node ←
        if owned && ((← atItemEnd ']') || (← isAt '\x7d') ||
            (← isAt ':')) then
          pure Node.absent
        else inlineNode true (flowNode least depth) least
      remember anchor node

end Reading

end Yaml

end RequestRouter
