import RequestRouter.Yaml.Block

/-
  YAML documents.

  A text is one document: directives, which need a marker
  behind them, the root node, and markers of its end.

  Key definitions include:
    * `Yaml.normalize`
    * `Yaml.parse`
-/

------------------------------------------------------------
-- Characters
------------------------------------------------------------

namespace RequestRouter

namespace Yaml

/- Whether a character may be in a document. -/
def isAllowed
    (c : Char) : Bool :=
  c == '\t' || c == '\n' || c == '\u0085' ||
    (' ' ≤ c && c ≤ '~') ||
    ('\u00a0' ≤ c && c.toNat < 0xfffe && c != '\ufeff') ||
    0x10000 ≤ c.toNat

/- The text with line feeds for the breaks of its lines. -/
def joinBreaks : Text → Text
  | '\r' :: '\n' :: rest => '\n' :: joinBreaks rest
  | '\r' :: rest => '\n' :: joinBreaks rest
  | '\u0085' :: rest => '\n' :: joinBreaks rest
  | c :: rest => c :: joinBreaks rest
  | [] => []

/- The text without the byte order mark it starts with. -/
def dropByteOrderMark : Text → Text
  | '\ufeff' :: rest => rest
  | text => text

/- The text as it is read, if its characters are allowed. -/
def normalize
    (text : Text) : Except Fault Text :=
  let text := joinBreaks (dropByteOrderMark text)
  if text.all isAllowed then .ok text
  else .error .controlCharacter

end Yaml

end RequestRouter

------------------------------------------------------------
-- Directives
------------------------------------------------------------

namespace RequestRouter

namespace Yaml

/- The words of a line before its comment. -/
def lineWords
    (line : Text) : List Text :=
  ((line.splitBy fun a b => isBlank a == isBlank b).filter
    (!·.any isBlank)).takeWhile (·.head? != some '#')

/- Whether a line is a directive that is understood. -/
def isDirective
    (line : Text) : Bool :=
  match lineWords line with
  | [name, version] =>
      name == "%YAML".toList &&
        (version == "1.1".toList || version == "1.2".toList)
  | [name, handle, _] =>
      name == "%TAG".toList && handle.head? == some '!' &&
        handle.getLast? == some '!'
  | _ => false

namespace Reading

/-
  Read the directives ahead, and tell whether there are any.
  Each takes a line.
-/
def directivesFrom : Nat → Bool → Reading Bool
  | 0, found => return found
  | fuel + 1, found => do
      let _ ← skip false
      let r ← get
      if r.column = 0 ∧ r.rest.head? = some '%' then
        if !isDirective (r.rest.takeWhile (!isBreak ·)) then
          throw .directive
        moveTo (r.rest.dropWhile (!isBreak ·))
        directivesFrom fuel true
      else return found

/- Whether a text stands at the start of a line here. -/
def atMark
    (mark : Text) : Reading Bool := do
  let r ← get
  return r.column == 0 && mark.isPrefixOf r.rest &&
    atBlank (r.rest.drop mark.length)

/- Pass a marker at the start of a line, if there is one. -/
def passMark
    (mark : Text) : Reading Bool := do
  if ← atMark mark then
    moveTo ((← get).rest.drop mark.length)
    return true
  return false

end Reading

end Yaml

end RequestRouter

------------------------------------------------------------
-- Documents
------------------------------------------------------------

namespace RequestRouter

namespace Yaml

namespace Reading

/- Read markers of a document's end up to the text's. -/
def endFrom : Nat → Reading Unit
  | 0 => throw .severalDocuments
  | fuel + 1 => do
      let _ ← skip true
      if (← get).rest.isEmpty then return ()
      if ← passMark "...".toList then endFrom fuel
      else throw .severalDocuments

/- Read a document and nothing behind it. -/
def document : Reading Node := do
  let length := (← get).rest.length
  let directed ← directivesFrom (length + 1) false
  let marked ← passMark "---".toList
  if directed && !marked then throw .directive
  if !marked && (← atMark "...".toList) then
    throw .unexpectedCharacter
  let root ← blockNode (length + 1) (.document (!marked))
  endFrom (length + 1)
  return root

end Reading

/-
  The root of the document that a text is. An empty document
  has an absent root.
-/
def parse
    (text : Text) : Except Fault Node := do
  let text ← normalize text
  let (root, _) ← Reading.document.run { rest := text }
  return root

end Yaml

end RequestRouter
