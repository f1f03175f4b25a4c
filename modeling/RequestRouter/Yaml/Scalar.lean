import RequestRouter.Yaml.Node

/-
  The scalars of YAML: plain, quoted and block scalars.

  Each reader takes the text from the scalar on and returns
  its value with the text behind it. Every line break is one
  character.

  Key definitions include:
    * `Yaml.readPlain`
    * `Yaml.readSingleQuoted`
    * `Yaml.readDoubleQuoted`
    * `Yaml.readBlockScalar`
-/

------------------------------------------------------------
-- Characters
------------------------------------------------------------

namespace RequestRouter

namespace Yaml

/- Whether a character is a space or a tab. -/
def isBlank
    (c : Char) : Bool :=
  c == ' ' || c == '\t'

/- Whether a character breaks lines. -/
def isBreak
    (c : Char) : Bool :=
  c == '\n' || c == '\u2028' || c == '\u2029'

/- Whether a text is at a blank, a line break or its end. -/
def atBlank : Text → Bool
  | [] => true
  | c :: _ => isBlank c || isBreak c

/- Whether a text is at a line break. -/
def atBreak
    (text : Text) : Bool :=
  text.head?.any isBreak

/- Whether a character delimits flow collections. -/
def isFlowSign
    (c : Char) : Bool :=
  c == ',' || c == '[' || c == ']' || c == '{' || c == '}'

/- Whether a line starts with a document marker. -/
def atMarker
    (line : Text) : Bool :=
  (['-', '-', '-'].isPrefixOf line ||
      ['.', '.', '.'].isPrefixOf line) &&
    atBlank (line.drop 3)

/- The text without the blanks at its end. -/
def trimBlanks
    (text : Text) : Text :=
  (text.reverse.dropWhile isBlank).reverse

/-
  What stands for the line breaks between words: a space for
  a single line feed, and otherwise the breaks without the
  line feed they start with.
-/
def foldBreaks : Text → Text
  | ['\n'] => [' ']
  | '\n' :: breaks => breaks
  | breaks => breaks

/- Pass over blanks and line breaks, keeping the latter. -/
def skipBreaks
    (breaks : Text) :
    Text → Text × Text
  | [] => (breaks, [])
  | c :: rest =>
      if isBreak c then skipBreaks (breaks ++ [c]) rest
      else if isBlank c then skipBreaks breaks rest
      else (breaks, c :: rest)

end Yaml

end RequestRouter

------------------------------------------------------------
-- Plain Scalars
------------------------------------------------------------

namespace RequestRouter

namespace Yaml

/- Read a plain scalar to the end of its line at most. -/
def readPlainLine
    (flow : Bool) :
    Text → Except Fault (Text × Text)
  | [] => .ok ([], [])
  | c :: rest =>
      let take : Except Fault (Text × Text) := do
        let (taken, behind) ← readPlainLine flow rest
        .ok (c :: taken, behind)
      if isBreak c then .ok ([], c :: rest)
      else if c = ':' then
        if atBlank rest then .ok ([], c :: rest)
        else if flow && rest.head?.any
            (fun d => isFlowSign d || d == '?') then
          .error .unexpectedCharacter
        else take
      else if flow && isFlowSign c then .ok ([], c :: rest)
      else if isBlank c && rest.head? == some '#' then
        .ok ([], c :: rest)
      else take

/-
  Go from a line break to the next line that is not blank:
  the breaks passed, its indentation, and its text.
-/
def nextLine
    (indent : Nat)
    (breaks : Text)
    (column : Nat) :
    Text → Except Fault (Text × Nat × Text)
  | [] => .ok (breaks, column, [])
  | c :: rest =>
      if isBreak c then
        nextLine indent (breaks ++ [c]) 0 rest
      else if c = '\t' ∧ column < indent ∧ breaks ≠ [] then
        .error .tabIndentation
      else if isBlank c then
        nextLine indent breaks (column + 1) rest
      else .ok (breaks, column, c :: rest)

/-
  Read a plain scalar whose further lines have at least the
  given indentation. Each round reads a line, so the length
  of the text is enough fuel.
-/
def readPlainFrom
    (flow : Bool)
    (indent : Nat)
    (before between : Text) :
    Nat → Text → Except Fault (Text × Text)
  | 0, text => .ok (before, text)
  | fuel + 1, text => do
      let (taken, rest) ← readPlainLine flow text
      let words := trimBlanks taken
      if words.isEmpty then .ok (before, text)
      else
        let value := before ++ between ++ words
        if !atBreak rest then .ok (value, rest)
        else do
          let (breaks, column, line) ←
            nextLine indent [] 0 rest
          if line.isEmpty || line.head? == some '#' ||
              (column == 0 && atMarker line) ||
              (!flow && column < indent) then
            .ok (value, line)
          else
            readPlainFrom flow indent value
              (foldBreaks breaks) fuel line

/-
  Read a plain scalar. The blank lines behind it belong to
  what is read.
-/
def readPlain
    (flow : Bool)
    (indent : Nat)
    (text : Text) :
    Except Fault (Text × Text) :=
  readPlainFrom flow indent [] [] (text.length + 1) text

end Yaml

end RequestRouter

------------------------------------------------------------
-- Quoted Scalars
------------------------------------------------------------

namespace RequestRouter

namespace Yaml

/-
  The blanks and breaks between the words of a quoted
  scalar, folded; and the text behind them. A document
  marker may not start a line.
-/
def readQuotedBlanks
    (blanks breaks : Text) :
    Text → Except Fault (Text × Text)
  | [] => .error .unclosedQuote
  | c :: rest =>
      if isBreak c then
        if atMarker rest then .error .unclosedQuote
        else readQuotedBlanks [] (breaks ++ [c]) rest
      else if isBlank c then
        readQuotedBlanks (blanks ++ [c]) breaks rest
      else if breaks = [] then .ok (blanks, c :: rest)
      else .ok (foldBreaks breaks, c :: rest)

/- Read a single-quoted scalar behind its quote. -/
def readSingleQuotedFrom :
    Nat → Text → Except Fault (Text × Text)
  | 0, _ => .error .unclosedQuote
  | _ + 1, [] => .error .unclosedQuote
  | fuel + 1, c :: rest =>
      if c = '\'' then
        match rest with
        | '\'' :: behind => do
            let (value, text) ←
              readSingleQuotedFrom fuel behind
            .ok ('\'' :: value, text)
        | _ => .ok ([], rest)
      else if isBlank c || isBreak c then do
        let (blanks, behind) ←
          readQuotedBlanks [] [] (c :: rest)
        let (value, text) ← readSingleQuotedFrom fuel behind
        .ok (blanks ++ value, text)
      else do
        let (value, text) ← readSingleQuotedFrom fuel rest
        .ok (c :: value, text)

/- Read a single-quoted scalar behind its quote. -/
def readSingleQuoted
    (text : Text) :
    Except Fault (Text × Text) :=
  readSingleQuotedFrom (text.length + 1) text

/- The character of a one-letter escape. -/
def escapedCharacter? : Char → Option Char
  | '0' => some '\x00'
  | 'a' => some '\x07'
  | 'b' => some '\x08'
  | 't' => some '\t'
  | '\t' => some '\t'
  | 'n' => some '\n'
  | 'v' => some '\x0b'
  | 'f' => some '\x0c'
  | 'r' => some '\r'
  | 'e' => some '\x1b'
  | ' ' => some ' '
  | '"' => some '"'
  | '/' => some '/'
  | '\\' => some '\\'
  | 'N' => some '\u0085'
  | '_' => some '\u00a0'
  | 'L' => some '\u2028'
  | 'P' => some '\u2029'
  | _ => none

/- The number of digits of a hexadecimal escape. -/
def escapeDigits? : Char → Option Nat
  | 'x' => some 2
  | 'u' => some 4
  | 'U' => some 8
  | _ => none

/- The value of a hexadecimal digit. -/
def hexDigit?
    (c : Char) : Option Nat :=
  if c.isDigit then some (c.toNat - '0'.toNat)
  else if 'a' ≤ c ∧ c ≤ 'f' then
    some (c.toNat - 'a'.toNat + 10)
  else if 'A' ≤ c ∧ c ≤ 'F' then
    some (c.toNat - 'A'.toNat + 10)
  else none

/- The character of a number of hexadecimal digits. -/
def hexCharacter?
    (count : Nat)
    (text : Text) : Option Char := do
  let digits ← (text.take count).mapM hexDigit?
  let value := digits.foldl (fun n d => 16 * n + d) 0
  if digits.length = count ∧ value.isValidChar then
    some (Char.ofNat value)
  else none

/- Read an escape behind its backslash. -/
def readEscape :
    Text → Except Fault (Text × Text)
  | [] => .error .unclosedQuote
  | c :: rest =>
      match escapeDigits? c with
      | some count =>
          match hexCharacter? count rest with
          | some d => .ok ([d], rest.drop count)
          | none => .error .escape
      | none =>
          match escapedCharacter? c with
          | some d => .ok ([d], rest)
          | none => .error .escape

/- Read a double-quoted scalar behind its quote. -/
def readDoubleQuotedFrom :
    Nat → Text → Except Fault (Text × Text)
  | 0, _ => .error .unclosedQuote
  | _ + 1, [] => .error .unclosedQuote
  | fuel + 1, c :: rest =>
      if c = '"' then .ok ([], rest)
      else do
        let (piece, behind) ←
          if c = '\\' then
            if atBreak rest then
              .ok (skipBreaks [] rest.tail)
            else readEscape rest
          else if isBlank c || isBreak c then
            readQuotedBlanks [] [] (c :: rest)
          else .ok ([c], rest)
        let (value, text) ← readDoubleQuotedFrom fuel behind
        .ok (piece ++ value, text)

/- Read a double-quoted scalar behind its quote. -/
def readDoubleQuoted
    (text : Text) :
    Except Fault (Text × Text) :=
  readDoubleQuotedFrom (text.length + 1) text

end Yaml

end RequestRouter

------------------------------------------------------------
-- Block Scalars
------------------------------------------------------------

namespace RequestRouter

namespace Yaml

/- What happens to the line breaks at a block scalar's end. -/
inductive Chomping where
  | strip
  | clip
  | keep
  deriving DecidableEq, Repr

/- The header of a block scalar. -/
structure BlockHeader where
  chomping : Chomping := .clip
  increment : Option Nat := none

namespace BlockHeader

/- Read one indicator, if there is one. -/
def readIndicator
    (header : BlockHeader) :
    Text → Except Fault (BlockHeader × Text)
  | [] => .ok (header, [])
  | c :: rest =>
      if c = '-' then
        .ok ({ header with chomping := .strip }, rest)
      else if c = '+' then
        .ok ({ header with chomping := .keep }, rest)
      else if c = '0' then .error .blockHeader
      else if c.isDigit then
        .ok ({ header with
          increment := some (c.toNat - '0'.toNat) }, rest)
      else .ok (header, c :: rest)

/- Read a header with the line break behind it. -/
def read
    (text : Text) :
    Except Fault (BlockHeader × Text) := do
  let (header, text) ← readIndicator {} text
  let (header, text) ← header.readIndicator text
  let text := text.dropWhile isBlank
  let text :=
    if text.head? == some '#' then
      text.dropWhile (!isBreak ·)
    else text
  if text.isEmpty || atBreak text then
    .ok (header, text.tail)
  else .error .blockHeader

end BlockHeader

/-
  Pass over blank lines: their breaks, the widest
  indentation, the column reached and the text there. Spaces
  are passed up to the indentation, or all if it is unknown.
-/
def readBlankLines
    (indent : Option Nat)
    (breaks : Text)
    (widest column : Nat) :
    Text → Except Fault (Text × Nat × Nat × Text)
  | [] => .ok (breaks, max widest column, column, [])
  | c :: rest =>
      let within := indent.all (column < ·)
      if c = ' ' ∧ within then
        readBlankLines indent breaks widest (column + 1) rest
      else if c = '\t' ∧ within then
        .error .tabIndentation
      else if isBreak c then
        readBlankLines indent (breaks ++ [c])
          (max widest column) 0 rest
      else
        .ok (breaks, max widest column, column, c :: rest)

/-
  Read the lines of a block scalar. `ending` is the break of
  the last line read, `blanked` tells whether that line began
  with a blank, and `breaks` are the blank lines behind it.
-/
def readBlockLines
    (folded : Bool)
    (chomping : Chomping)
    (indent : Nat) :
    Nat → Text → Text → Bool → Text → Nat → Text →
      Except Fault (Text × Text)
  | 0, value, _, _, _, _, text => .ok (value, text)
  | fuel + 1, value, ending, blanked, breaks, column, text =>
      if column ≠ indent ∨ text.isEmpty then
        let last := if chomping = .strip then [] else ending
        let more := if chomping = .keep then breaks else []
        .ok (value ++ last ++ more, text)
      else do
        let blank := text.head?.any isBlank
        let joint : Text :=
          if folded && ending == ['\n'] &&
              !blanked && !blank then
            if breaks.isEmpty then [' '] else []
          else ending
        let line := text.takeWhile (!isBreak ·)
        let value := value ++ joint ++ breaks ++ line
        let behind := text.dropWhile (!isBreak ·)
        let (breaks, _, column, next) ←
          readBlankLines (some indent) [] 0 0 behind.tail
        readBlockLines folded chomping indent fuel value
          (behind.take 1) blank breaks column next

/-
  Read a block scalar behind its sign, where nested content
  starts at the given column or further right.
-/
def readBlockScalar
    (folded : Bool)
    (least : Nat)
    (text : Text) :
    Except Fault (Text × Text) := do
  let (header, body) ← BlockHeader.read text
  let known := header.increment.map (least - 1 + ·)
  let (breaks, widest, column, behind) ←
    readBlankLines known [] 0 0 body
  let indent := known.getD (max widest (max least 1))
  readBlockLines folded header.chomping indent
    (text.length + 2) [] [] false breaks column behind

end Yaml

end RequestRouter
