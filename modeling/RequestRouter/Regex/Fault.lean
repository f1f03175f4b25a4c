/-
  The reasons for which a regular expression is refused, and
  the text that reports each of them.

  Key definitions include:
    * `Regex.Fault`
    * `Regex.Fault.message`
-/

------------------------------------------------------------
-- Faults
------------------------------------------------------------

namespace RequestRouter

namespace Regex

/- Why a regular expression is refused. -/
inductive Fault where
  -- Limits
  | tooMuchNesting
  | tooLarge
  -- Groups
  | duplicateGroupName
  | unclosedGroup
  | unclosedGroupQuestion
  | unopenedGroup
  | lookAround
  | emptyFlags
  | groupNameMissing
  | groupNameInvalid
  | groupNameUnclosed
  | groupNameEmpty
  -- Inline flags
  | flagUnrecognized
  | flagNegationRepeated
  | flagDuplicate
  | flagsUnclosed
  | flagNegationDangling
  -- Numbers
  | decimalEmpty
  | decimalInvalid
  | hexBraceDigit
  | hexBraceUnclosed
  | hexBraceEmpty
  | hexBraceInvalid
  | hexFixedUnclosed
  | hexFixedDigit
  | hexFixedInvalid
  | hexMissing
  -- Escapes
  | escapeUnfinished
  | backreference
  | unicodeClass
  | escapeUnrecognized
  -- Repetitions
  | repetitionMissing
  | countedMissing
  | countedUnclosed
  | countedIncomplete
  | countedCommaUnclosed
  | countedMaxUnclosed
  | countedBrace
  | countedOrder
  -- Character classes
  | classUnclosed
  | classUnclosedAfterItem
  | classUnclosedAfterDash
  | classUnclosedAfterNegation
  | classUnclosedAfterBracket
  | classRangeItem
  | classItem
  | classRangeOrder
  | classNested
  | classIntersection
  | classDifference
  | classSymmetricDifference
  -- Word boundaries
  | boundaryUnclosed
  | boundaryUnrecognized
  | boundaryUnfinished
  deriving DecidableEq, Repr

namespace Fault

/- The report of a fault. -/
def message : Fault → String
  | .tooMuchNesting =>
      "pattern has too much nesting"
  | .tooLarge =>
      "compiled regex exceeded size limit"
  | .duplicateGroupName =>
      "duplicate capture group name"
  | .unclosedGroup =>
      "found open group without closing ')'"
  | .unclosedGroupQuestion =>
      "expected closing ')', but got end of pattern"
  | .unopenedGroup =>
      "found closing ')' without matching '('"
  | .lookAround =>
      "look-around is not supported"
  | .emptyFlags =>
      "empty flag directive '(?)' is not allowed"
  | .groupNameMissing =>
      "expected capture group name, but got end of pattern"
  | .groupNameInvalid =>
      "invalid group name"
  | .groupNameUnclosed =>
      "expected end of capture group name, but got end of " ++
        "pattern"
  | .groupNameEmpty =>
      "empty capture group names are not allowed"
  | .flagUnrecognized =>
      "unrecognized inline flag"
  | .flagNegationRepeated =>
      "inline flag negation cannot be repeated"
  | .flagDuplicate =>
      "duplicate inline flag is not allowed"
  | .flagsUnclosed =>
      "expected ':' or ')' to end inline flags, but got " ++
        "end of pattern"
  | .flagNegationDangling =>
      "inline flags cannot end with negation directive"
  | .decimalEmpty =>
      "expected decimal number, but found no digits"
  | .decimalInvalid =>
      "got invalid decimal number"
  | .hexBraceDigit =>
      "expected hexadecimal number in braces, but got " ++
        "non-hex digit"
  | .hexBraceUnclosed =>
      "expected hexadecimal number, but saw end of pattern " ++
        "before closing brace"
  | .hexBraceEmpty =>
      "expected hexadecimal number in braces, but got no " ++
        "digits"
  | .hexBraceInvalid =>
      "got invalid hexadecimal number in braces"
  | .hexFixedUnclosed =>
      "expected fixed length hexadecimal number, but saw " ++
        "end of pattern first"
  | .hexFixedDigit =>
      "expected fixed length hexadecimal number, but got " ++
        "non-hex digit"
  | .hexFixedInvalid =>
      "got invalid fixed length hexadecimal number"
  | .hexMissing =>
      "expected hexadecimal number, but saw end of pattern " ++
        "first"
  | .escapeUnfinished =>
      "saw start of escape sequence, but saw end of " ++
        "pattern before it finished"
  | .backreference =>
      "backreferences are not supported"
  | .unicodeClass =>
      "Unicode character classes are not supported"
  | .escapeUnrecognized =>
      "unrecognized escape sequence"
  | .repetitionMissing =>
      "uncounted repetition operator must be applied to a " ++
        "sub-expression"
  | .countedMissing =>
      "counted repetition operator must be applied to a " ++
        "sub-expression"
  | .countedUnclosed =>
      "found unclosed counted repetition operator"
  | .countedIncomplete =>
      "found incomplete and unclosed counted repetition " ++
        "operator"
  | .countedCommaUnclosed =>
      "found counted repetition operator with a comma that " ++
        "is unclosed"
  | .countedMaxUnclosed =>
      "found counted repetition with min and max that is " ++
        "unclosed"
  | .countedBrace =>
      "expected closing brace for counted repetition, but " ++
        "got something else"
  | .countedOrder =>
      "found counted repetition with a min bigger than its " ++
        "max"
  | .classUnclosed =>
      "found unclosed character class"
  | .classUnclosedAfterItem =>
      "non-empty character class has no closing bracket"
  | .classUnclosedAfterDash =>
      "non-empty character class has no closing bracket " ++
        "after dash"
  | .classUnclosedAfterNegation =>
      "negated character class has no closing bracket"
  | .classUnclosedAfterBracket =>
      "character class begins with literal ']' but has no " ++
        "closing bracket"
  | .classRangeItem =>
      "character class ranges must start and end with a " ++
        "single character"
  | .classItem =>
      "invalid escape sequence in character class"
  | .classRangeOrder =>
      "invalid range in character class"
  | .classNested =>
      "nested character classes are not supported"
  | .classIntersection =>
      "character class intersection is not supported"
  | .classDifference =>
      "character class difference is not supported"
  | .classSymmetricDifference =>
      "character class symmetric difference is not supported"
  | .boundaryUnclosed =>
      "special word boundary assertion is unclosed or has " ++
        "an invalid character"
  | .boundaryUnrecognized =>
      "special word boundary assertion is unrecognized"
  | .boundaryUnfinished =>
      "found start of special word boundary or repetition " ++
        "without an end"

end Fault

end Regex

end RequestRouter
