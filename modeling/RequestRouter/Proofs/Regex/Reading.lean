import RequestRouter.Proofs.Regex.ItemLocality
import RequestRouter.Proofs.Sequence
import RequestRouter.Regex.Parse

/-
  How the pieces of emitted patterns are read.

  A piece of text is read as items if any builder with the
  default flags that reads it, whatever stands behind it,
  goes on with these items and a number of further groups.
  Pieces are put together in rows and alternations.

  Key definitions include:
    * `Regex.Builder.Reads`
    * `Regex.IsReadAs`
    * `Regex.AreReadAs`

  Main statements:
    * `Regex.isReadAs_append`
    * `Regex.isReadAs_escape`
    * `Regex.isReadAs_alternation`
-/

------------------------------------------------------------
-- Reading Step by Step
------------------------------------------------------------

namespace RequestRouter

namespace Regex

/- A pattern with the expression that it is read as. -/
structure Reading where
  pattern : Text
  result : Expr

namespace Builder

/- What the reader of a pattern reaches, item by item. -/
inductive Reaches
    (pattern : Text) : Builder → Text → Prop where
  | start : Reaches pattern {} pattern
  | item {builder text c rest next behind}
      (hSoFar : Reaches pattern builder text)
      (hSkip : builder.flags.skip text = c :: rest)
      (hItem :
        builder.readItem c rest = .ok (next, behind)) :
      Reaches pattern next behind

/-
  Whether a reading comes to a builder in front of a text,
  and from there to its end.
-/
def Reads
    (builder : Builder)
    (text : Text)
    (reading : Reading) : Prop :=
  Reaches reading.pattern builder text ∧
    ∃ fuel, text.length < fuel ∧
      builder.read fuel text = .ok reading.result

/- A pattern is read to its end, and is not too high. -/
theorem parse_eq_ok_iff
    (pattern : Text)
    (e : Expr) :
    parse pattern = .ok e ↔
      ({} : Builder).read (pattern.length + 1) pattern =
          .ok e ∧
        e.height ≤ maxHeight := by
  unfold parse
  rw [Sequence.bind_eq_ok_iff]
  constructor
  · intro hParse
    rcases hParse with ⟨found, hFound, hHeight⟩
    split at hHeight
    case isTrue => cases hHeight
    case isFalse hLow =>
        cases hHeight
        exact ⟨hFound, Nat.not_lt.mp hLow⟩
  · intro hBoth
    refine ⟨e, hBoth.1, ?_⟩
    rw [if_neg (Nat.not_lt.mpr hBoth.2)]

/- The expression of a pattern is what is read of it. -/
theorem read_of_parse
    {pattern : Text}
    {e : Expr}
    (hParse : parse pattern = .ok e) :
    ({} : Builder).read (pattern.length + 1) pattern =
      .ok e :=
  ((parse_eq_ok_iff pattern e).mp hParse).1

/- The reading of a pattern starts with an empty builder. -/
theorem reads_of_parse
    {pattern : Text}
    {e : Expr}
    (hParse : parse pattern = .ok e) :
    ({} : Builder).Reads pattern ⟨pattern, e⟩ :=
  ⟨.start, pattern.length + 1, Nat.lt_succ_self _,
    read_of_parse hParse⟩

/- At the end the whole expression is built. -/
theorem finish_of_reads_nil
    {builder : Builder}
    {reading : Reading}
    (hReads : builder.Reads [] reading) :
    builder.finish = .ok reading.result := by
  rcases hReads with ⟨-, fuel, -, hRead⟩
  cases fuel with
  | zero => exact hRead
  | succ fuel =>
      have hSkip : builder.flags.skip [] = [] := by
        simp [Flags.skip, skipBlank]
      rw [read, hSkip] at hRead
      exact hRead

/-
  What stands behind blanks is an item, and what follows the
  item is read on.
-/
theorem exists_readItem
    {builder : Builder}
    {text : Text}
    {c : Char}
    {rest : Text}
    {reading : Reading}
    (hReads : builder.Reads text reading)
    (hSkip : builder.flags.skip text = c :: rest) :
    ∃ next behind,
      builder.readItem c rest = .ok (next, behind) ∧
        next.Reads behind reading := by
  rcases hReads with ⟨hReaches, fuel, hFuel, hRead⟩
  cases fuel with
  | zero => exact absurd hFuel (Nat.not_lt_zero _)
  | succ fuel =>
      rw [read, hSkip] at hRead
      rcases (Sequence.bind_eq_ok_iff _ _ _).mp hRead with
        ⟨⟨next, behind⟩, hItem, hBehind⟩
      refine
        ⟨next, behind, hItem, hReaches.item hSkip hItem,
          fuel, ?_, hBehind⟩
      have hShort := builder.flags.length_skip_le text
      have hLength :=
        (isLocalAt_readItem builder c rest hItem).1
      rw [hSkip, List.length_cons] at hShort
      omega

/- The default flags pass over nothing. -/
theorem skip_of_default
    {builder : Builder}
    (hFlags : builder.flags = {})
    (text : Text) :
    builder.flags.skip text = text := by
  simp [hFlags, Flags.skip]

/- An item that is known is passed over. -/
theorem reads_of_readItem
    {builder next : Builder}
    {c : Char}
    {rest : Text}
    {reading : Reading}
    (behind : Text)
    (hReads : builder.Reads (c :: rest) reading)
    (hFlags : builder.flags = {})
    (hItem :
      builder.readItem c rest = .ok (next, behind)) :
    next.Reads behind reading := by
  rcases exists_readItem hReads (skip_of_default hFlags _) with
    ⟨found, left, hFound, hOn⟩
  rw [hItem] at hFound
  cases hFound
  exact hOn

end Builder

end Regex

end RequestRouter

------------------------------------------------------------
-- Pieces
------------------------------------------------------------

namespace RequestRouter

namespace Regex

/-
  Whether a piece of text is read as items when `first`
  groups stand in front of it and `last` groups in front of
  what follows. What follows must not make a repetition
  lazy.
-/
def IsReadAs
    (source : Text)
    (first last : Nat)
    (items : List Expr) : Prop :=
  ∀ ⦃builder : Builder⦄ ⦃rest : Text⦄ ⦃reading : Reading⦄,
    builder.Reads (source ++ rest) reading →
    builder.flags = {} →
    builder.groups = first →
    rest.head? ≠ some '?' →
    ∃ names,
      { builder with
        groups := last
        names := names
        items := items.reverse ++ builder.items }.Reads
          rest reading

/- No text is read as no items. -/
theorem isReadAs_nil
    (groups : Nat) :
    IsReadAs [] groups groups [] := by
  rintro builder rest reading hReads - rfl -
  exact ⟨builder.names, hReads⟩

/- Two pieces in a row are read one behind the other. -/
theorem isReadAs_append
    {source other : Text}
    {first middle last : Nat}
    {items others : List Expr}
    (hSource : IsReadAs source first middle items)
    (hHead : other.head? ≠ some '?')
    (hOther : IsReadAs other middle last others) :
    IsReadAs (source ++ other) first last
      (items ++ others) := by
  intro builder rest reading hReads hFlags hGroups hRest
  have hBehind : (other ++ rest).head? ≠ some '?' := by
    cases other with
    | nil => exact hRest
    | cons c other => exact hHead
  rw [List.append_assoc] at hReads
  rcases hSource hReads hFlags hGroups hBehind with
    ⟨between, hBetween⟩
  rcases hOther hBetween hFlags rfl hRest with
    ⟨names, hNames⟩
  refine ⟨names, ?_⟩
  simpa using hNames

/- A character without a meaning of its own is itself. -/
theorem isReadAs_plain
    {c : Char}
    (hPlain : c ∉ metaCharacters)
    (groups : Nat) :
    IsReadAs [c] groups groups [.char c] := by
  rintro builder rest reading hReads hFlags rfl -
  refine ⟨builder.names, ?_⟩
  refine Builder.reads_of_readItem _ hReads hFlags ?_
  simp only [metaCharacters, List.mem_cons, not_or] at hPlain
  simp [Builder.readItem, plainExpr, charExpr, Builder.push,
    hPlain, hFlags]

/- An escaped character is itself. -/
theorem isReadAs_escaped
    {c : Char}
    (hMeta : c ∈ metaCharacters)
    (groups : Nat) :
    IsReadAs ['\\', c] groups groups [.char c] := by
  rintro builder rest reading hReads hFlags rfl -
  refine ⟨builder.names, ?_⟩
  have hEscapable := isEscapable_of_mem_metaCharacters hMeta
  have hOther :
      c.isDigit = false ∧ c ≠ 'p' ∧ c ≠ 'P' ∧ c ≠ 'x' ∧
        c ≠ 'u' ∧ c ≠ 'U' ∧ c ≠ 'b' := by
    simp only [metaCharacters, List.mem_cons, List.not_mem_nil,
      or_false] at hMeta
    rcases hMeta with rfl | rfl | rfl | rfl | rfl | rfl |
      rfl | rfl | rfl | rfl | rfl | rfl | rfl | rfl | rfl |
      rfl | rfl | rfl <;> decide
  rcases hOther with ⟨hDigit, hp, hP, hx, hu, hU, hb⟩
  refine Builder.reads_of_readItem rest hReads hFlags ?_
  simp [Builder.readItem, readEscape, charExpr, Builder.push,
    bind, Except.bind, hDigit, hp, hP, hx, hu, hU, hb,
    hEscapable, hFlags]

/- Escaping a text gives no question mark in front. -/
theorem head?_escape
    (text : Text) :
    (escape text).head? ≠ some '?' := by
  cases text with
  | nil => simp [escape]
  | cons c rest =>
      by_cases hMeta : c ∈ metaCharacters
      · simp [escape, hMeta]
      · have hSign : c ≠ '?' := by
          rintro rfl
          exact hMeta (by decide)
        simp [escape, hMeta, hSign]

/- An escaped text is read as its characters. -/
theorem isReadAs_escape
    (text : Text)
    (groups : Nat) :
    IsReadAs (escape text) groups groups
      (text.map .char) := by
  induction text with
  | nil => exact isReadAs_nil groups
  | cons c rest ih =>
      have hFirst :
          IsReadAs
            (if metaCharacters.contains c then ['\\', c]
              else [c])
            groups groups [.char c] := by
        by_cases hMeta : c ∈ metaCharacters
        · rw [if_pos (List.contains_iff_mem.mpr hMeta)]
          exact isReadAs_escaped hMeta groups
        · rw [if_neg (mt List.contains_iff_mem.mp hMeta)]
          exact isReadAs_plain hMeta groups
      exact isReadAs_append hFirst (head?_escape rest) ih

end Regex

end RequestRouter

------------------------------------------------------------
-- Groups and Branches
------------------------------------------------------------

namespace RequestRouter

namespace Regex

namespace Builder

/- The builder inside a group that was just opened. -/
def inside
    (builder : Builder)
    (capture : Option (Nat × Option Text)) : Builder :=
  { builder with
    items := []
    branches := []
    scopes :=
      ⟨capture, builder.flags, builder.items,
        builder.branches⟩ :: builder.scopes }

/- A group that opens well has the same flags inside. -/
theorem eq_inside_of_openGroup
    {builder opened : Builder}
    {capture : Option (Nat × Option Text)}
    (hOpen :
      builder.openGroup capture builder.flags =
        .ok opened) :
    opened = builder.inside capture := by
  unfold openGroup at hOpen
  split at hOpen
  · cases hOpen
  · cases hOpen
    rfl

/- Behind an opening that is known the group is open. -/
theorem exists_afterOpening
    {builder : Builder}
    {rest behind : Text}
    {opening : GroupOpening}
    {reading : Reading}
    (hReads : builder.Reads ('(' :: rest) reading)
    (hFlags : builder.flags = {})
    (hOpening :
      readGroupOpening builder.flags builder.names rest =
        .ok (opening, behind)) :
    ∃ opened,
      builder.afterOpening opening = .ok opened ∧
        opened.Reads behind reading := by
  rcases exists_readItem hReads (skip_of_default hFlags _) with
    ⟨next, left, hItem, hOn⟩
  rw [readItem, if_pos rfl, readGroup_eq, hOpening] at hItem
  rcases (Sequence.bind_eq_ok_iff _ _ _).mp hItem with
    ⟨found, hFound, hSecond⟩
  cases hFound
  rcases (Sequence.bind_eq_ok_iff _ _ _).mp hSecond with
    ⟨opened, hOpen, hNext⟩
  cases hNext
  exact ⟨next, hOpen, hOn⟩

/- A group without a number is read on inside. -/
theorem reads_inside_of_reads
    {builder : Builder}
    (rest : Text)
    {reading : Reading}
    (hReads :
      builder.Reads ('(' :: '?' :: ':' :: rest) reading)
    (hFlags : builder.flags = {}) :
    (builder.inside none).Reads rest reading := by
  have hOpening :
      readGroupOpening builder.flags builder.names
          ('?' :: ':' :: rest) =
        .ok (.scoped builder.flags, rest) := by
    simp [readGroupOpening, Flags.skip, readFlags, hFlags]
  rcases exists_afterOpening hReads hFlags hOpening with
    ⟨opened, hOpen, hOn⟩
  rwa [eq_inside_of_openGroup hOpen] at hOn

/- A parenthesis without a sign behind it opens a capture. -/
theorem readGroupOpening_capture
    {builder : Builder}
    (names : List Text)
    {rest : Text}
    (hFlags : builder.flags = {})
    (hHead : rest.head? ≠ some '?') :
    readGroupOpening builder.flags names rest =
      .ok (.capture none, rest) := by
  cases rest with
  | nil => simp [readGroupOpening, Flags.skip, hFlags]
  | cons c rest =>
      have hSign : c ≠ '?' := by simpa using hHead
      simp [readGroupOpening, Flags.skip, hFlags, hSign]

/- A group with the next number is read on inside. -/
theorem reads_capture_of_reads
    {builder : Builder}
    {rest : Text}
    {reading : Reading}
    (hReads : builder.Reads ('(' :: rest) reading)
    (hFlags : builder.flags = {})
    (hHead : rest.head? ≠ some '?') :
    ({ builder with groups := builder.groups + 1 }.inside
      (some (builder.groups + 1, none))).Reads
        rest reading := by
  rcases
      exists_afterOpening hReads hFlags
        (readGroupOpening_capture _ hFlags hHead) with
    ⟨opened, hOpen, hOn⟩
  rw [eq_inside_of_openGroup hOpen] at hOn
  exact hOn

/- The end of a group puts its expression behind the others. -/
theorem reads_close_of_reads
    {builder : Builder}
    {scope : Scope}
    {outer : List Scope}
    {text rest : Text}
    {reading : Reading}
    (hReads : builder.Reads text reading)
    (hSkip : builder.flags.skip text = ')' :: rest)
    (hScopes : builder.scopes = scope :: outer) :
    { builder with
      flags := scope.flags
      items := scope.close builder.body :: scope.items
      branches := scope.branches
      scopes := outer }.Reads rest reading := by
  rcases exists_readItem hReads hSkip with
    ⟨next, behind, hItem, hOn⟩
  simp only [readItem, closeGroup, hScopes, bind,
    Except.bind] at hItem
  cases hItem
  exact hOn

/- A bar starts a new branch. -/
theorem reads_branch_of_reads
    {builder : Builder}
    {rest : Text}
    {reading : Reading}
    (hReads : builder.Reads ('|' :: rest) reading)
    (hFlags : builder.flags = {}) :
    builder.branch.Reads rest reading := by
  refine reads_of_readItem _ hReads hFlags ?_
  simp [readItem]

end Builder

end Regex

end RequestRouter

------------------------------------------------------------
-- Groups and Alternations as Pieces
------------------------------------------------------------

namespace RequestRouter

namespace Regex

/- A piece in parentheses is read as a group. -/
theorem isReadAs_capture
    {inner : Text}
    {first last : Nat}
    {items : List Expr}
    (hHead : inner.head? ≠ some '?')
    (hInner : IsReadAs inner (first + 1) last items) :
    IsReadAs ('(' :: inner ++ [')']) first last
      [.group (first + 1) none (.sequence items)] := by
  rintro builder rest reading hReads hFlags rfl -
  have hBehind :
      (inner ++ ')' :: rest).head? ≠ some '?' := by
    cases inner with
    | nil => simp
    | cons c inner => exact hHead
  have hInside :
      ({ builder with groups := builder.groups + 1 }.inside
          (some (builder.groups + 1, none))).Reads
        (inner ++ ')' :: rest) reading := by
    refine Builder.reads_capture_of_reads ?_ hFlags hBehind
    simpa using hReads
  rcases hInner hInside hFlags rfl (by simp) with
    ⟨names, hClose⟩
  refine ⟨names, ?_⟩
  have hDone :=
    Builder.reads_close_of_reads hClose
      (Builder.skip_of_default hFlags _) rfl
  simpa [Builder.inside, Builder.body, Scope.close,
    Expr.choice] using hDone

/- Whether pieces are read as lists of items, in turn. -/
inductive AreReadAs :
    List Text → Nat → Nat → List (List Expr) → Prop where
  | nil (groups : Nat) :
      AreReadAs [] groups groups []
  | cons {source sources first middle last items others}
      (hHead : source.head? ≠ some '?')
      (hSource : IsReadAs source first middle items)
      (hSources : AreReadAs sources middle last others) :
      AreReadAs (source :: sources) first last
        (items :: others)

/-
  Inside a group without a number, pieces between bars are
  read as the branches behind those read before.
-/
theorem reads_branches
    {sources : List Text}
    {first last : Nat}
    {lists : List (List Expr)}
    (hSources : AreReadAs sources first last lists)
    (hSome : sources ≠ [])
    {builder : Builder}
    {scope : Scope}
    {outer : List Scope}
    {rest : Text}
    {reading : Reading}
    (hReads :
      builder.Reads
        (['|'].intercalate sources ++ ')' :: rest) reading)
    (hFlags : builder.flags = {})
    (hGroups : builder.groups = first)
    (hItems : builder.items = [])
    (hScopes : builder.scopes = scope :: outer) :
    ∃ names,
      { builder with
        flags := scope.flags
        groups := last
        names := names
        items :=
          scope.close
            (.choice
              (builder.branches.reverse ++
                lists.map Expr.sequence)) :: scope.items
        branches := scope.branches
        scopes := outer }.Reads rest reading := by
  induction hSources generalizing builder with
  | nil => exact absurd rfl hSome
  | @cons source sources first middle last items others
      hHead hSource hSources ih =>
      cases sources with
      | nil =>
          cases hSources
          rw [List.intercalate_singleton] at hReads
          rcases hSource hReads hFlags hGroups (by simp) with
            ⟨names, hClose⟩
          refine ⟨names, ?_⟩
          have hDone :=
            Builder.reads_close_of_reads hClose
              (Builder.skip_of_default hFlags _) hScopes
          simpa [Builder.body, hItems] using hDone
      | cons second more =>
          have hBar :
              builder.Reads
                (source ++ '|' ::
                  (['|'].intercalate (second :: more) ++
                    ')' :: rest)) reading := by
            rw [List.intercalate_cons_cons] at hReads
            simpa using hReads
          rcases hSource hBar hFlags hGroups (by simp) with
            ⟨names, hBranch⟩
          have hNext :=
            Builder.reads_branch_of_reads hBranch hFlags
          rcases ih (by simp) hNext hFlags rfl rfl hScopes with
            ⟨names, hDone⟩
          refine ⟨names, ?_⟩
          simpa [Builder.branch, hItems] using hDone

/- Several pieces between bars are read as an alternation. -/
theorem isReadAs_alternation
    {sources : List Text}
    {first last : Nat}
    {lists : List (List Expr)}
    (hSources : AreReadAs sources first last lists)
    (hSeveral : 2 ≤ sources.length) :
    IsReadAs
      ('(' :: '?' :: ':' :: ['|'].intercalate sources ++
        [')'])
      first last [.alternation (lists.map Expr.sequence)] := by
  rintro builder rest reading hReads hFlags hGroups -
  have hSome : sources ≠ [] := by
    rintro rfl
    simp at hSeveral
  have hInside :=
    Builder.reads_inside_of_reads
      (['|'].intercalate sources ++ ')' :: rest)
      (by simpa using hReads) hFlags
  rcases
      reads_branches hSources hSome hInside hFlags hGroups
        rfl rfl with
    ⟨names, hDone⟩
  refine ⟨names, ?_⟩
  have hLists : 2 ≤ lists.length := by
    have hLength : sources.length = lists.length := by
      clear hSome hSeveral hInside hDone hReads hGroups
      induction hSources with
      | nil => rfl
      | cons _ _ _ ih => simp [ih]
    omega
  have hChoice :
      Expr.choice (lists.map Expr.sequence) =
        .alternation (lists.map Expr.sequence) := by
    match lists, hLists with
    | _ :: _ :: _, _ => rfl
  simpa [Builder.inside, Scope.close, hChoice, hFlags] using
    hDone

end Regex

end RequestRouter

------------------------------------------------------------
-- Repetitions as Pieces
------------------------------------------------------------

namespace RequestRouter

namespace Regex

/- An operator that is not made lazy repeats the last item. -/
theorem readItem_quantifier
    (builder : Builder)
    {item : Expr}
    {items : List Expr}
    {sign : Char}
    {rest : Text}
    (hSign : sign = '*' ∨ sign = '+' ∨ sign = '?')
    (hFlags : builder.flags = {})
    (hItems : builder.items = item :: items)
    (hHead : rest.head? ≠ some '?') :
    builder.readItem sign rest =
      .ok
        ({ builder with
          items :=
            .repetition
              (if sign = '+' then 1 else 0)
              (if sign = '?' then some 1 else none)
              true item :: items }, rest) := by
  have hGreed :
      readGreed builder.flags rest = (true, rest) := by
    cases rest with
    | nil => simp [readGreed, hFlags]
    | cons c rest =>
        have hNext : c ≠ '?' := by simpa using hHead
        simp [readGreed, hNext, hFlags]
  rcases hSign with rfl | rfl | rfl <;>
    simp [Builder.readItem, readQuantifier, hItems, hGreed,
      Builder.quantify, Expr.rounds, bind, Except.bind]

/- A star or plus behind an item repeats it. -/
theorem isReadAs_repeated
    {source : Text}
    {first last : Nat}
    {item : Expr}
    (sign : Char)
    (hSign : sign = '*' ∨ sign = '+')
    (hSource : IsReadAs source first last [item]) :
    IsReadAs (source ++ [sign]) first last
      [.repetition (if sign = '+' then 1 else 0) none true
        item] := by
  intro builder rest reading hReads hFlags hGroups hRest
  have hNext : sign ≠ '?' := by
    rcases hSign with rfl | rfl <;> decide
  rw [List.append_assoc] at hReads
  rcases hSource hReads hFlags hGroups (by simpa) with
    ⟨names, hItem⟩
  refine ⟨names, ?_⟩
  have hQuantifier :=
    readItem_quantifier
      { builder with
        groups := last
        names := names
        items := item :: builder.items }
      (by tauto) hFlags rfl hRest
  simpa [hNext] using
    Builder.reads_of_readItem rest hItem hFlags
      hQuantifier

/- A piece in a group behind which a question mark stands. -/
theorem isReadAs_optional
    {inner : Text}
    {first last : Nat}
    {items : List Expr}
    (hInner : IsReadAs inner first last items) :
    IsReadAs ('(' :: '?' :: ':' :: inner ++ [')', '?'])
      first last
      [.repetition 0 (some 1) true (.sequence items)] := by
  intro builder rest reading hReads hFlags hGroups hRest
  have hInside :=
    Builder.reads_inside_of_reads
      (inner ++ ')' :: '?' :: rest)
      (by simpa using hReads) hFlags
  rcases hInner hInside hFlags hGroups (by simp) with
    ⟨names, hClose⟩
  refine ⟨names, ?_⟩
  have hSign :=
    Builder.reads_close_of_reads hClose
      (Builder.skip_of_default hFlags _) rfl
  have hOptional :
      '?' = '*' ∨ '?' = '+' ∨ '?' = '?' :=
    Or.inr (Or.inr rfl)
  have hQuantifier :=
    readItem_quantifier
      { builder with
        groups := last
        names := names
        items := .sequence items :: builder.items }
      hOptional hFlags rfl hRest
  have hItem :
      { builder with
        groups := last
        names := names
        items := .sequence items :: builder.items }.Reads
          ('?' :: rest) reading := by
    simpa [Builder.inside, Builder.body, Scope.close,
      Expr.choice] using hSign
  exact
    Builder.reads_of_readItem rest hItem hFlags
      hQuantifier

/- A dot is any character but the end of a line. -/
theorem isReadAs_dot
    (groups : Nat) :
    IsReadAs ['.'] groups groups
      [.set (.allBut ['\n'])] := by
  rintro builder rest reading hReads hFlags rfl -
  refine ⟨builder.names, ?_⟩
  refine Builder.reads_of_readItem _ hReads hFlags ?_
  simp [Builder.readItem, plainExpr, Builder.push, hFlags]

/- A caret or dollar sign is an end of the text. -/
theorem isReadAs_anchor
    {sign : Char}
    (hSign : sign = '^' ∨ sign = '$')
    (groups : Nat) :
    IsReadAs [sign] groups groups
      [.assertion
        (if sign = '^' then .textStart else .textEnd)] := by
  rintro builder rest reading hReads hFlags rfl -
  refine ⟨builder.names, ?_⟩
  refine Builder.reads_of_readItem _ hReads hFlags ?_
  rcases hSign with rfl | rfl <;>
    simp [Builder.readItem, plainExpr, Builder.push, hFlags]

/- A class of all characters but one plain character. -/
theorem isReadAs_allBut_slash
    (groups : Nat) :
    IsReadAs ['[', '^', '/', ']'] groups groups
      [.set (.allBut ['/'])] := by
  rintro builder rest reading hReads hFlags rfl -
  refine ⟨builder.names, ?_⟩
  refine Builder.reads_of_readItem rest hReads hFlags ?_
  simp [Builder.readItem, readBracket, readLeadingDashes,
    readClassItems, readClassRange, readClassItem,
    classItems?, Flags.skip, Builder.push, CharSet.allBut,
    ClassItem.single, bind, Except.bind, hFlags]

end Regex

end RequestRouter
