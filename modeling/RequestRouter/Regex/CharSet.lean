import RequestRouter.Text

/-
  Character sets.

  A bracket class is a union of items, each of them a union
  of ranges or the complement of one. Where case does not
  matter, the union is enlarged by the other case of its
  ASCII letters; it may then be complemented as a whole.

  Key definitions include:
    * `Regex.CharRange`
    * `Regex.ClassItem`
    * `Regex.CharSet`
    * `Regex.CharSet.ofItems`
    * `Regex.CharSet.contains`
    * `Regex.CharSet.spans`
-/

------------------------------------------------------------
-- Ranges and Items
------------------------------------------------------------

namespace RequestRouter

namespace Regex

/- All characters from `first` to `last`, ends included. -/
structure CharRange where
  first : Char
  last : Char
  deriving DecidableEq, Repr

namespace CharRange

/- Membership in a range. -/
def contains
    (range : CharRange)
    (c : Char) : Bool :=
  range.first ≤ c && c ≤ range.last

/- The range of one character. -/
def single
    (c : Char) : CharRange :=
  ⟨c, c⟩

/- A range holds both of its ends and what lies between. -/
theorem contains_iff
    (range : CharRange)
    (c : Char) :
    range.contains c = true ↔
      range.first ≤ c ∧ c ≤ range.last := by
  simp [contains]

end CharRange

/- A union of ranges, or the complement of such a union. -/
structure ClassItem where
  negated : Bool
  ranges : List CharRange
  deriving DecidableEq, Repr

namespace ClassItem

/- Membership in an item. -/
def contains
    (item : ClassItem)
    (c : Char) : Bool :=
  (item.ranges.any (·.contains c)) != item.negated

/- The item that holds the characters of one range. -/
def ofRange
    (first last : Char) : ClassItem :=
  ⟨false, [⟨first, last⟩]⟩

/- The item that holds one character. -/
def single
    (c : Char) : ClassItem :=
  ofRange c c

end ClassItem

end Regex

end RequestRouter

------------------------------------------------------------
-- Named Classes
------------------------------------------------------------

namespace RequestRouter

namespace Regex

/- The decimal digits. -/
def digitRanges : List CharRange :=
  [⟨'0', '9'⟩]

/- Horizontal and vertical ASCII white space. -/
def spaceRanges : List CharRange :=
  [⟨'\t', '\r'⟩, ⟨' ', ' '⟩]

/- The ASCII letters, the decimal digits and the underscore. -/
def wordRanges : List CharRange :=
  [⟨'0', '9'⟩, ⟨'A', 'Z'⟩, ⟨'_', '_'⟩, ⟨'a', 'z'⟩]

/- Whether a character is an ASCII word character. -/
def isWordChar
    (c : Char) : Bool :=
  wordRanges.any (·.contains c)

/- The ranges of a class that is named inside brackets. -/
def namedRanges?
    (name : Text) : Option (List CharRange) :=
  match String.ofList name with
  | "alnum" => some [⟨'0', '9'⟩, ⟨'A', 'Z'⟩, ⟨'a', 'z'⟩]
  | "alpha" => some [⟨'A', 'Z'⟩, ⟨'a', 'z'⟩]
  | "ascii" => some [⟨'\x00', '\x7f'⟩]
  | "blank" => some [⟨'\t', '\t'⟩, ⟨' ', ' '⟩]
  | "cntrl" => some [⟨'\x00', '\x1f'⟩, ⟨'\x7f', '\x7f'⟩]
  | "digit" => some digitRanges
  | "graph" => some [⟨'!', '~'⟩]
  | "lower" => some [⟨'a', 'z'⟩]
  | "print" => some [⟨' ', '~'⟩]
  | "punct" =>
      some [⟨'!', '/'⟩, ⟨':', '@'⟩, ⟨'[', '\x60'⟩,
        ⟨'\x7b', '~'⟩]
  | "space" => some spaceRanges
  | "upper" => some [⟨'A', 'Z'⟩]
  | "word" => some wordRanges
  | "xdigit" => some [⟨'0', '9'⟩, ⟨'A', 'F'⟩, ⟨'a', 'f'⟩]
  | _ => none

end Regex

end RequestRouter

------------------------------------------------------------
-- Maximal Intervals
------------------------------------------------------------

namespace RequestRouter

namespace Regex

/- A closed interval of code points. -/
abbrev Interval :=
  Nat × Nat

namespace Interval

/- Membership in an interval. -/
def contains
    (interval : Interval)
    (n : Nat) : Bool :=
  interval.1 ≤ n && n ≤ interval.2

/- Unite neighbours in a list ordered by first points. -/
def unite
    (current : Interval) :
    List Interval → List Interval
  | [] => [current]
  | next :: rest =>
      if next.1 ≤ current.2 + 1 then
        unite (current.1, max current.2 next.2) rest
      else
        current :: unite next rest

/- The maximal intervals of a union, in order. -/
def maximal
    (intervals : List Interval) : List Interval :=
  match intervals.mergeSort (fun a b => a.1 ≤ b.1) with
  | [] => []
  | first :: rest => unite first rest

/- What maximal intervals leave out from `low` upwards. -/
def complementFrom
    (low : Nat) :
    List Interval → List Interval
  | [] => if low ≤ 0x10ffff then [(low, 0x10ffff)] else []
  | (first, last) :: rest =>
      if low < first then
        (low, first - 1) :: complementFrom (last + 1) rest
      else
        complementFrom (last + 1) rest

/- The common part of two intervals. -/
def meet?
    (a b : Interval) : Option Interval :=
  if max a.1 b.1 ≤ min a.2 b.2 then
    some (max a.1 b.1, min a.2 b.2)
  else none

/-
  The other case of the letters in an interval: of its small
  letters if it has any, and else of its capital letters.
-/
def otherCase?
    (interval : Interval) : Option Interval :=
  match meet? interval ('a'.toNat, 'z'.toNat) with
  | some (first, last) => some (first - 32, last - 32)
  | none =>
      (meet? interval ('A'.toNat, 'Z'.toNat)).map
        fun (first, last) => (first + 32, last + 32)

end Interval

/- The maximal intervals of an item. -/
def ClassItem.intervals
    (item : ClassItem) : List Interval :=
  let united := Interval.maximal
    (item.ranges.map fun r => (r.first.toNat, r.last.toNat))
  if item.negated then Interval.complementFrom 0 united
  else united

end Regex

end RequestRouter

------------------------------------------------------------
-- Sets
------------------------------------------------------------

namespace RequestRouter

namespace Regex

/-
  A bracket class: a union of items and of the intervals
  that case folding adds, or the complement of that union.
-/
structure CharSet where
  negated : Bool
  items : List ClassItem
  added : List Interval
  deriving DecidableEq, Repr

namespace CharSet

/-
  The class of a list of items. Letters of the other case
  are added to each maximal interval of the union, before
  the complement is taken.
-/
def ofItems
    (negated ignoreCase : Bool)
    (items : List ClassItem) : CharSet :=
  ⟨negated, items,
    if ignoreCase then
      (Interval.maximal
        (items.flatMap ClassItem.intervals)).filterMap
        Interval.otherCase?
    else []⟩

/- The set of one item. -/
def ofItem
    (item : ClassItem) : CharSet :=
  ofItems false false [item]

/- The set of both cases of a letter. -/
def bothCases
    (c : Char) : CharSet :=
  ofItems false true [.single c]

/- Every character. -/
def full : CharSet :=
  ofItems true false []

/- Every character other than those listed. -/
def allBut
    (excluded : List Char) : CharSet :=
  ofItems true false (excluded.map .single)

/- Membership in a set. -/
def contains
    (set : CharSet)
    (c : Char) : Bool :=
  (set.items.any (·.contains c) ||
    set.added.any (·.contains c.toNat)) != set.negated

/- The number of maximal ranges of a set. -/
def spans
    (set : CharSet) : Nat :=
  let united := Interval.maximal
    (set.items.flatMap ClassItem.intervals ++ set.added)
  if set.negated then
    (Interval.complementFrom 0 united).length
  else
    united.length

end CharSet

end Regex

end RequestRouter
