import RequestRouter.Regex.Escape

/-
  Bracket classes such as `[^a-z\d[:punct:]]`.

  Key definitions include:
    * `Regex.readClassItem`
    * `Regex.readNamedClass?`
    * `Regex.readBracket`
-/

------------------------------------------------------------
-- Items
------------------------------------------------------------

namespace RequestRouter

namespace Regex

/- Read one character or escape inside brackets. -/
def readClassItem
    (flags : Flags) :
    Text → Except Fault (Expr × Text)
  | [] => .error .classUnclosed
  | '\\' :: rest => readEscape flags rest
  | c :: rest => .ok (.char c, rest)

/- The class items that an expression stands for. -/
def classItems? : Expr → Option (List ClassItem)
  | .char c => some [.single c]
  | .set chars =>
      some (chars.items ++ chars.added.map fun interval =>
        .ofRange (Char.ofNat interval.1)
          (Char.ofNat interval.2))
  | _ => none

/- The range between two expressions of one character. -/
def rangeItem
    (first last : Expr) :
    Except Fault ClassItem :=
  match first, last with
  | .char a, .char b =>
      if a ≤ b then .ok (.ofRange a b)
      else .error .classRangeOrder
  | _, _ => .error .classRangeItem

/-
  Read a character, an escape or a range. A dash in front of
  a closing bracket or of another dash makes no range.
-/
def readClassRange
    (flags : Flags)
    (text : Text) :
    Except Fault (List ClassItem × Text) := do
  let (first, rest) ← readClassItem flags text
  let plain : Text → Except Fault (List ClassItem × Text) :=
    fun behind =>
      match classItems? first with
      | some items => .ok (items, behind)
      | none => .error .classItem
  match flags.skip rest with
  | [] => .error .classUnclosedAfterItem
  | '-' :: behind =>
      if flags.peek behind == some ']' ||
          flags.peek behind == some '-' then
        plain ('-' :: behind)
      else
        match flags.skip behind with
        | [] => .error .classUnclosedAfterDash
        | second => do
            let (last, rest) ← readClassItem flags second
            let item ← rangeItem first last
            .ok ([item], rest)
  | behind => plain behind

/-
  Read a named class such as `[:alpha:]` behind its opening
  bracket, if there is one.
-/
def readNamedClass?
    (text : Text) : Option (ClassItem × Text) :=
  match text with
  | ':' :: rest =>
      let (negated, rest) :=
        match rest with
        | '^' :: behind => (true, behind)
        | _ => (false, rest)
      match rest.span (· != ':') with
      | (name, ':' :: ']' :: behind) =>
          (namedRanges? name).map fun ranges =>
            (⟨negated, ranges⟩, behind)
      | _ => none
  | _ => none

end Regex

end RequestRouter

------------------------------------------------------------
-- Brackets
------------------------------------------------------------

namespace RequestRouter

namespace Regex

/-
  Read items up to the closing bracket. Each round reads at
  least one character, so the length of the text is enough
  fuel.
-/
def readClassItems
    (flags : Flags)
    (items : List ClassItem) :
    Nat → Text → Except Fault (List ClassItem × Text)
  | 0, _ => .error .classUnclosed
  | fuel + 1, text =>
      match flags.skip text with
      | [] => .error .classUnclosed
      | ']' :: rest => .ok (items, rest)
      | '[' :: rest =>
          match readNamedClass? rest with
          | some (item, behind) =>
              readClassItems flags (items ++ [item]) fuel
                behind
          | none => .error .classNested
      | '&' :: '&' :: _ => .error .classIntersection
      | '-' :: '-' :: _ => .error .classDifference
      | '~' :: '~' :: _ => .error .classSymmetricDifference
      | text => do
          let (more, rest) ← readClassRange flags text
          readClassItems flags (items ++ more) fuel rest

/- Read the dashes that stand for themselves in front. -/
def readLeadingDashes
    (flags : Flags)
    (items : List ClassItem) :
    Text → Except Fault (List ClassItem × Text)
  | '-' :: rest =>
      match _hRest : flags.skip rest with
      | [] => .error .classUnclosedAfterDash
      | c :: behind =>
          readLeadingDashes flags (.single '-' :: items)
            (c :: behind)
  | text => .ok (items, text)
  termination_by text => text.length
  decreasing_by
    have hShort := flags.length_skip_le rest
    rw [_hRest] at hShort
    exact Nat.lt_succ_of_le hShort

/-
  Read a class behind its opening bracket. A closing bracket
  in first place stands for itself.
-/
def readBracket
    (flags : Flags)
    (text : Text) :
    Except Fault (CharSet × Text) := do
  let (negated, text) ←
    match flags.skip text with
    | [] => .error .classUnclosed
    | '^' :: rest =>
        match flags.skip rest with
        | [] => .error .classUnclosedAfterNegation
        | behind => .ok (true, behind)
    | text => .ok (false, text)
  let (dashes, text) ← readLeadingDashes flags [] text
  let (first, text) ←
    match dashes, text with
    | [], ']' :: rest =>
        match flags.skip rest with
        | [] => .error .classUnclosedAfterBracket
        | behind => .ok ([ClassItem.single ']'], behind)
    | dashes, text => .ok (dashes, text)
  let (items, rest) ←
    readClassItems flags first (text.length + 1) text
  .ok (.ofItems negated flags.ignoreCase items, rest)

end Regex

end RequestRouter
