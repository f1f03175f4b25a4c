import RequestRouter.Regex.Expr
import RequestRouter.Regex.Fault
import RequestRouter.Regex.Flags

/-
  Escape sequences, and the escaping of literal text.

  Key definitions include:
    * `Regex.escape`
    * `Regex.charExpr`
    * `Regex.readEscape`
-/

------------------------------------------------------------
-- Escaping Literal Text
------------------------------------------------------------

namespace RequestRouter

namespace Regex

/- The characters that have a meaning of their own. -/
def metaCharacters : List Char :=
  ['\\', '.', '+', '*', '?', '(', ')', '|', '[', ']',
    '{', '}', '^', '$', '#', '&', '-', '~']

/- A text as a pattern that matches just this text. -/
def escape
    (text : Text) : Text :=
  text.flatMap fun c =>
    if metaCharacters.contains c then ['\\', c] else [c]

/-
  Whether a backslash in front of an ASCII character gives
  the character itself.
-/
def isEscapable
    (c : Char) : Bool :=
  c.toNat < 128 && !c.isAlphanum && c != '<' && c != '>'

/- Every character with a meaning of its own is escapable. -/
theorem isEscapable_of_mem_metaCharacters
    {c : Char}
    (hMeta : c ∈ metaCharacters) :
    isEscapable c = true :=
  List.all_eq_true.mp
    (show metaCharacters.all isEscapable = true by decide)
    c hMeta

end Regex

end RequestRouter

------------------------------------------------------------
-- Single Characters
------------------------------------------------------------

namespace RequestRouter

namespace Regex

/- The expression of one character under the given flags. -/
def charExpr
    (flags : Flags)
    (c : Char) : Expr :=
  if flags.ignoreCase && c.isAlpha then
    .set (.bothCases c)
  else
    .char c

/- The character of a code point, if it is a scalar value. -/
def scalar?
    (n : Nat) : Option Char :=
  if n.isValidChar then some (Char.ofNat n) else none

/- The control character of an escape letter. -/
def controlCharacter? : Char → Option Char
  | 'a' => some '\x07'
  | 'f' => some '\x0c'
  | 't' => some '\t'
  | 'n' => some '\n'
  | 'r' => some '\r'
  | 'v' => some '\x0b'
  | _ => none

/- The assertion of an escape letter. -/
def assertionEscape? : Char → Option Assertion
  | 'A' => some .textStart
  | 'z' => some .textEnd
  | 'B' => some .notWordBoundary
  | '<' => some .wordStart
  | '>' => some .wordEnd
  | _ => none

/- The class of an escape letter; capitals are complements. -/
def classEscape? : Char → Option ClassItem
  | 'd' => some ⟨false, digitRanges⟩
  | 'D' => some ⟨true, digitRanges⟩
  | 's' => some ⟨false, spaceRanges⟩
  | 'S' => some ⟨true, spaceRanges⟩
  | 'w' => some ⟨false, wordRanges⟩
  | 'W' => some ⟨true, wordRanges⟩
  | _ => none

end Regex

end RequestRouter

------------------------------------------------------------
-- Hexadecimal Escapes
------------------------------------------------------------

namespace RequestRouter

namespace Regex

/- The value of a hexadecimal digit. -/
def hexValue?
    (c : Char) : Option Nat :=
  if c.isDigit then some (c.toNat - '0'.toNat)
  else if 'a' ≤ c ∧ c ≤ 'f' then
    some (c.toNat - 'a'.toNat + 10)
  else if 'A' ≤ c ∧ c ≤ 'F' then
    some (c.toNat - 'A'.toNat + 10)
  else none

/- Read a fixed number of digits behind the value so far. -/
def readFixedHex
    (flags : Flags) :
    Nat → Nat → Text → Except Fault (Nat × Text)
  | 0, value, text => .ok (value, text)
  | _ + 1, _, [] => .error .hexFixedUnclosed
  | count + 1, value, c :: rest =>
      match hexValue? c with
      | none => .error .hexFixedDigit
      | some digit =>
          readFixedHex flags count (16 * value + digit)
            (flags.skip rest)

/- Read digits up to a closing brace. -/
def readBracedHex
    (flags : Flags)
    (value : Nat)
    (started : Bool) :
    Text → Except Fault (Nat × Text)
  | [] => .error .hexBraceUnclosed
  | c :: rest =>
      if c = '}' then
        if started then .ok (value, flags.skip rest)
        else .error .hexBraceEmpty
      else
        match hexValue? c with
        | none => .error .hexBraceDigit
        | some digit =>
            readBracedHex flags (16 * value + digit) true
              (flags.skip rest)
  termination_by text => text.length
  decreasing_by
    exact Nat.lt_succ_of_le (flags.length_skip_le rest)

/- Read a hexadecimal escape behind its letter. -/
def readHex
    (flags : Flags)
    (digits : Nat)
    (text : Text) :
    Except Fault (Expr × Text) :=
  match flags.skip text with
  | [] => .error .hexMissing
  | '{' :: rest => do
      let (value, rest) ←
        readBracedHex flags 0 false (flags.skip rest)
      match scalar? value with
      | none => .error .hexBraceInvalid
      | some c => .ok (charExpr flags c, rest)
  | text => do
      let (value, rest) ← readFixedHex flags digits 0 text
      match scalar? value with
      | none => .error .hexFixedInvalid
      | some c => .ok (charExpr flags c, rest)

end Regex

end RequestRouter

------------------------------------------------------------
-- Word Boundaries
------------------------------------------------------------

namespace RequestRouter

namespace Regex

/- Whether a character may stand in a boundary's name. -/
def isBoundaryChar
    (c : Char) : Bool :=
  c.isAlpha || c == '-'

/- Read the name of a word boundary and what follows it. -/
def readBoundaryName
    (flags : Flags) :
    Text → Text × Text
  | [] => ([], [])
  | c :: rest =>
      if isBoundaryChar c then
        let (name, behind) :=
          readBoundaryName flags (flags.skip rest)
        (c :: name, behind)
      else
        ([], c :: rest)
  termination_by text => text.length
  decreasing_by
    exact Nat.lt_succ_of_le (flags.length_skip_le rest)

/- The word boundary of a name. -/
def namedBoundary?
    (name : Text) : Option Assertion :=
  match String.ofList name with
  | "start" => some .wordStart
  | "end" => some .wordEnd
  | "start-half" => some .wordStartHalf
  | "end-half" => some .wordEndHalf
  | _ => none

/-
  Read what may follow `\b`. A brace without a name inside
  is left alone: it opens a counted repetition.
-/
def readBoundary
    (flags : Flags)
    (text : Text) :
    Except Fault (Expr × Text) :=
  match text with
  | '{' :: inner =>
      match flags.skip inner with
      | [] => .error .boundaryUnfinished
      | c :: rest =>
          if isBoundaryChar c then
            match readBoundaryName flags (c :: rest) with
            | (name, '}' :: behind) =>
                match namedBoundary? name with
                | some condition =>
                    .ok (.assertion condition, behind)
                | none => .error .boundaryUnrecognized
            | _ => .error .boundaryUnclosed
          else
            .ok (.assertion .wordBoundary, text)
  | _ => .ok (.assertion .wordBoundary, text)

end Regex

end RequestRouter

------------------------------------------------------------
-- Escapes
------------------------------------------------------------

namespace RequestRouter

namespace Regex

/- Read an escape sequence behind its backslash. -/
def readEscape
    (flags : Flags) :
    Text → Except Fault (Expr × Text)
  | [] => .error .escapeUnfinished
  | c :: rest =>
      if c.isDigit then .error .backreference
      else if c = 'p' ∨ c = 'P' then .error .unicodeClass
      else if c = 'x' then readHex flags 2 rest
      else if c = 'u' then readHex flags 4 rest
      else if c = 'U' then readHex flags 8 rest
      else if c = 'b' then readBoundary flags rest
      else if isEscapable c then
        .ok (charExpr flags c, rest)
      else
        match classEscape? c, controlCharacter? c,
            assertionEscape? c with
        | some item, _, _ => .ok (.set (.ofItem item), rest)
        | _, some control, _ =>
            .ok (charExpr flags control, rest)
        | _, _, some condition =>
            .ok (.assertion condition, rest)
        | _, _, _ => .error .escapeUnrecognized

end Regex

end RequestRouter
