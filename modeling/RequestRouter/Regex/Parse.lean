import RequestRouter.Regex.Bracket
import RequestRouter.Regex.GroupOpening
import RequestRouter.Regex.Quantifier

/-
  Reading a pattern into an expression tree.

  The reader keeps the sequence and the branches of the
  innermost open group, and a stack of those around it. It
  takes one item of the pattern at a time.

  Key definitions include:
    * `Regex.Scope`
    * `Regex.Builder`
    * `Regex.Builder.read`
    * `Regex.parse`
-/

------------------------------------------------------------
-- Partial Trees
------------------------------------------------------------

namespace RequestRouter

namespace Regex

/-
  An open group. Items and branches are those read before
  it, last first; the flags are restored behind it.
-/
structure Scope where
  capture : Option (Nat × Option Text)
  flags : Flags
  items : List Expr
  branches : List Expr

/- What has been read so far; items and branches last first. -/
structure Builder where
  flags : Flags := {}
  groups : Nat := 0
  names : List Text := []
  items : List Expr := []
  branches : List Expr := []
  scopes : List Scope := []

/- The greatest height of an expression. -/
def maxHeight : Nat := 50

/- The greatest number of bytes of a program. -/
def maxStorage : Nat := 10485760

namespace Scope

/- The expression of a group with the given body. -/
def close
    (scope : Scope)
    (body : Expr) : Expr :=
  match scope.capture with
  | some (index, name) => .group index name body
  | none => body

end Scope

namespace Builder

/- The expression of the innermost open group. -/
def body
    (builder : Builder) : Expr :=
  .choice
    ((Expr.sequence builder.items.reverse ::
      builder.branches).reverse)

/- Put an item behind those read. -/
def push
    (builder : Builder)
    (item : Expr) : Builder :=
  { builder with items := item :: builder.items }

/- Start a new branch. -/
def branch
    (builder : Builder) : Builder :=
  { builder with
    items := []
    branches :=
      Expr.sequence builder.items.reverse ::
        builder.branches }

/- Open a group; only so many may be open at a time. -/
def openGroup
    (builder : Builder)
    (capture : Option (Nat × Option Text))
    (flags : Flags) :
    Except Fault Builder :=
  if maxHeight ≤ builder.scopes.length then
    .error .tooMuchNesting
  else
    .ok { builder with
      flags := flags
      items := []
      branches := []
      scopes :=
        ⟨capture, builder.flags, builder.items,
          builder.branches⟩ :: builder.scopes }

/- Close the innermost group. -/
def closeGroup
    (builder : Builder) :
    Except Fault Builder :=
  match builder.scopes with
  | [] => .error .unopenedGroup
  | scope :: outer =>
      .ok { builder with
        flags := scope.flags
        items := scope.close builder.body :: scope.items
        branches := scope.branches
        scopes := outer }

/- Replace the last item by its repetition. -/
def quantify
    (builder : Builder)
    (quantifier : Quantifier) : Builder :=
  match builder.items with
  | [] => builder
  | item :: items =>
      { builder with
        items :=
          .rounds quantifier.min quantifier.max
            quantifier.greedy item :: items }

/- The whole expression, once every group is closed. -/
def finish
    (builder : Builder) :
    Except Fault Expr :=
  if builder.scopes.isEmpty then .ok builder.body
  else .error .unclosedGroup

end Builder

end Regex

end RequestRouter

------------------------------------------------------------
-- Reading
------------------------------------------------------------

namespace RequestRouter

namespace Regex

/- The expression of an unescaped character. -/
def plainExpr
    (flags : Flags)
    (c : Char) : Expr :=
  if c = '.' then
    .set (if flags.dotAll then .full
      else if flags.crlf then .allBut ['\r', '\n']
      else .allBut ['\n'])
  else if c = '^' then
    .assertion (if !flags.multiLine then .textStart
      else if flags.crlf then .lineStartCrlf
      else .lineStart)
  else if c = '$' then
    .assertion (if !flags.multiLine then .textEnd
      else if flags.crlf then .lineEndCrlf
      else .lineEnd)
  else
    charExpr flags c

namespace Builder

/- Read the opening of a group behind its parenthesis. -/
def readGroup
    (builder : Builder)
    (text : Text) :
    Except Fault (Builder × Text) := do
  let (opening, rest) ←
    readGroupOpening builder.flags builder.names text
  match opening with
  | .directive flags =>
      .ok ({ builder with flags := flags }, rest)
  | .scoped flags => do
      let opened ← builder.openGroup none flags
      .ok (opened, rest)
  | .capture name => do
      let index := builder.groups + 1
      let named := { builder with
        groups := index
        names := name.toList ++ builder.names }
      let opened ←
        named.openGroup (some (index, name)) builder.flags
      .ok (opened, rest)

/- Read one item of the pattern that starts with `c`. -/
def readItem
    (builder : Builder)
    (c : Char)
    (rest : Text) :
    Except Fault (Builder × Text) :=
  if c = '(' then builder.readGroup rest
  else if c = ')' then do
    let closed ← builder.closeGroup
    .ok (closed, rest)
  else if c = '|' then .ok (builder.branch, rest)
  else if c = '[' then do
    let (chars, rest) ← readBracket builder.flags rest
    .ok (builder.push (.set chars), rest)
  else if c = '?' ∨ c = '*' ∨ c = '+' ∨ c = '{' then do
    let (quantifier, rest) ←
      readQuantifier builder.flags builder.items.isEmpty c
        rest
    .ok (builder.quantify quantifier, rest)
  else if c = '\\' then do
    let (item, rest) ← readEscape builder.flags rest
    .ok (builder.push item, rest)
  else
    .ok (builder.push (plainExpr builder.flags c), rest)

/-
  Read all items of a pattern. Each of them takes at least
  one character, so the length of the text is enough fuel.
-/
def read
    (builder : Builder) :
    Nat → Text → Except Fault Expr
  | 0, _ => builder.finish
  | fuel + 1, text =>
      match builder.flags.skip text with
      | [] => builder.finish
      | c :: rest => do
          let (next, behind) ← builder.readItem c rest
          next.read fuel behind

end Builder

/- The expression of a pattern. -/
def parse
    (pattern : Text) :
    Except Fault Expr := do
  let e ← ({} : Builder).read (pattern.length + 1) pattern
  if maxHeight < e.height then .error .tooMuchNesting
  .ok e

end Regex

end RequestRouter
