import RequestRouter.Proofs.Regex.Ways
import RequestRouter.Proofs.Regex.Reading

/-
  Sources that can be read on their own.

  A source is closed if, behind an opening parenthesis and in
  front of a closing one, it ends just where the group does.
  A closed source is read in the same way wherever it is put
  in parentheses, up to the numbers of its groups.

  Key definitions include:
    * `Regex.Expr.shift`
    * `Regex.Builder.within`
    * `Regex.closedBody?`

  Main statements:
    * `Regex.Builder.within_of_readItem`
    * `Regex.isReadAs_closed`
    * `Regex.isReadAs_scoped`
-/

------------------------------------------------------------
-- Shifted Expressions
------------------------------------------------------------

namespace RequestRouter

namespace Regex

namespace Expr

mutual

/- An expression with greater numbers for its groups. -/
def shift
    (count : Nat) : Expr → Expr
  | .group index name body =>
      .group (index + count) name (body.shift count)
  | .repetition min max greedy body =>
      .repetition min max greedy (body.shift count)
  | .concat items => .concat (listShift count items)
  | .alternation branches =>
      .alternation (listShift count branches)
  | .empty => .empty
  | .char c => .char c
  | .set chars => .set chars
  | .assertion condition => .assertion condition

/- A list of them. -/
def listShift
    (count : Nat) : List Expr → List Expr
  | [] => []
  | e :: rest => e.shift count :: listShift count rest

end

mutual

/- Numbers that are no greater are the same. -/
theorem shift_zero
    (e : Expr) :
    e.shift 0 = e := by
  cases e with
  | empty | char | set | assertion => simp [shift]
  | group index name body | repetition min max greedy body =>
      simp [shift, shift_zero body]
  | concat items | alternation branches =>
      simp [shift, listShift_zero]

/- The same holds for a list. -/
theorem listShift_zero
    (items : List Expr) :
    listShift 0 items = items := by
  cases items with
  | nil => rfl
  | cons e rest =>
      simp [listShift, shift_zero e, listShift_zero rest]

end

/- A list is shifted one by one. -/
theorem listShift_eq
    (count : Nat)
    (items : List Expr) :
    listShift count items = items.map (shift count) := by
  induction items with
  | nil => rfl
  | cons e rest ih => simp [listShift, ih]

/- A row is shifted one by one. -/
theorem shift_sequence
    (count : Nat)
    (items : List Expr) :
    (sequence items).shift count =
      sequence (items.map (shift count)) := by
  match items with
  | [] => simp [sequence, shift]
  | [item] => rfl
  | _ :: _ :: _ =>
      simp [sequence, shift, listShift, listShift_eq]

/- A choice is shifted one by one. -/
theorem shift_choice
    (count : Nat)
    (branches : List Expr) :
    (choice branches).shift count =
      choice (branches.map (shift count)) := by
  match branches with
  | [] => simp [choice, shift, listShift]
  | [branch] => rfl
  | _ :: _ :: _ =>
      simp [choice, shift, listShift, listShift_eq]

/- Rounds of a shifted expression are shifted rounds. -/
theorem shift_rounds
    (count min : Nat)
    (max : Option Nat)
    (greedy : Bool)
    (body : Expr) :
    (rounds min max greedy body).shift count =
      rounds min max greedy (body.shift count) := by
  unfold rounds
  split
  · simp [shift]
  · split
    · rfl
    · simp [shift]

mutual

/- Shifted groups outside repetitions. -/
theorem outerGroups_shift
    (count : Nat)
    (e : Expr) :
    (e.shift count).outerGroups =
      e.outerGroups.map (· + count) := by
  cases e with
  | empty | char | set | assertion | repetition =>
      simp [shift, outerGroups]
  | group index name body =>
      simp [shift, outerGroups, outerGroups_shift count body]
  | concat items | alternation branches =>
      simp [shift, outerGroups, listOuterGroups_shift count]

/- The same holds for a list. -/
theorem listOuterGroups_shift
    (count : Nat)
    (items : List Expr) :
    listOuterGroups (listShift count items) =
      (listOuterGroups items).map (· + count) := by
  cases items with
  | nil => simp [listShift, listOuterGroups]
  | cons e rest =>
      simp [listShift, listOuterGroups,
        outerGroups_shift count e,
        listOuterGroups_shift count rest]

end

/- The expression of a character has no groups. -/
theorem shift_charExpr
    (count : Nat)
    (flags : Flags)
    (c : Char) :
    (charExpr flags c).shift count = charExpr flags c := by
  unfold charExpr
  split <;> simp [shift]

/- The expression of an unescaped character has none. -/
theorem shift_plainExpr
    (count : Nat)
    (flags : Flags)
    (c : Char) :
    (plainExpr flags c).shift count =
      plainExpr flags c := by
  unfold plainExpr
  split
  · simp [shift]
  split
  · simp [shift]
  split
  · simp [shift]
  · exact shift_charExpr count flags c

end Expr

/- A hexadecimal escape is a character. -/
theorem exists_charExpr_of_readHex
    {flags : Flags}
    {digits : Nat}
    {text behind : Text}
    {item : Expr}
    (hRead :
      readHex flags digits text = .ok (item, behind)) :
    ∃ c, item = charExpr flags c := by
  unfold readHex at hRead
  split at hRead
  case h_1 => cases hRead
  case h_2 | h_3 =>
      rcases (Sequence.bind_eq_ok_iff _ _ _).mp hRead with
        ⟨⟨value, rest⟩, -, hRest⟩
      dsimp only at hRest
      split at hRest
      · cases hRest
      · cases hRest
        exact ⟨_, rfl⟩

/- A word boundary is an assertion. -/
theorem exists_assertion_of_readBoundary
    {flags : Flags}
    {text behind : Text}
    {item : Expr}
    (hRead : readBoundary flags text = .ok (item, behind)) :
    ∃ condition, item = .assertion condition := by
  unfold readBoundary at hRead
  split at hRead
  case h_2 =>
      cases hRead
      exact ⟨_, rfl⟩
  case h_1 inner =>
      split at hRead
      case h_1 => cases hRead
      case h_2 c rest _ =>
          split at hRead
          case isFalse =>
              cases hRead
              exact ⟨_, rfl⟩
          case isTrue =>
              split at hRead
              case h_2 => cases hRead
              case h_1 =>
                  split at hRead
                  case h_2 => cases hRead
                  case h_1 =>
                      cases hRead
                      exact ⟨_, rfl⟩

/- An escape sequence has no groups. -/
theorem shift_of_readEscape
    {flags : Flags}
    {text behind : Text}
    {item : Expr}
    (hRead : readEscape flags text = .ok (item, behind))
    (count : Nat) :
    item.shift count = item := by
  have hChar :
      ∀ {item : Expr}, (∃ c, item = charExpr flags c) →
        item.shift count = item := by
    rintro _ ⟨c, rfl⟩
    exact Expr.shift_charExpr count flags c
  unfold readEscape at hRead
  split at hRead
  case h_1 => cases hRead
  case h_2 c rest =>
      split at hRead
      · cases hRead
      split at hRead
      · cases hRead
      iterate 3
        split at hRead
        · exact hChar (exists_charExpr_of_readHex hRead)
      split at hRead
      · rcases exists_assertion_of_readBoundary hRead with
          ⟨condition, rfl⟩
        simp [Expr.shift]
      split at hRead
      · cases hRead
        exact hChar ⟨c, rfl⟩
      split at hRead
      · cases hRead
        simp [Expr.shift]
      · cases hRead
        exact hChar ⟨_, rfl⟩
      · cases hRead
        simp [Expr.shift]
      · cases hRead

end Regex

end RequestRouter

------------------------------------------------------------
-- Builders in Context
------------------------------------------------------------

namespace RequestRouter

namespace Regex

namespace Scope

/- An open group with greater numbers. -/
def shift
    (count : Nat)
    (scope : Scope) : Scope :=
  ⟨scope.capture.map fun (index, name) =>
      (index + count, name),
    scope.flags,
    scope.items.map (Expr.shift count),
    scope.branches.map (Expr.shift count)⟩

/- What is closed with greater numbers is shifted. -/
theorem shift_close
    (scope : Scope)
    (count : Nat)
    (body : Expr) :
    (scope.shift count).close (body.shift count) =
      (scope.close body).shift count := by
  rcases scope with ⟨_ | ⟨index, name⟩, flags, items,
    branches⟩ <;> simp [shift, close, Expr.shift]

end Scope

namespace Builder

/-
  A builder as it is found inside other groups, behind a
  number of groups and with other names taken.
-/
def within
    (count : Nat)
    (outer : List Scope)
    (names : List Text)
    (builder : Builder) : Builder where
  flags := builder.flags
  groups := builder.groups + count
  names := names
  items := builder.items.map (Expr.shift count)
  branches := builder.branches.map (Expr.shift count)
  scopes := builder.scopes.map (Scope.shift count) ++ outer

variable {count : Nat}
variable {outer : List Scope}
variable {names : List Text}

/- The body of a builder in context is shifted. -/
theorem body_within
    (builder : Builder) :
    (builder.within count outer names).body =
      builder.body.shift count := by
  simp [body, within, Expr.shift_choice, Expr.shift_sequence,
    List.map_reverse]

/- An item without groups is put behind the others. -/
theorem push_within
    (builder : Builder)
    {item : Expr}
    (hItem : item.shift count = item) :
    (builder.within count outer names).push item =
      (builder.push item).within count outer names := by
  simp [push, within, hItem]

/- A new branch starts in context as it does alone. -/
theorem branch_within
    (builder : Builder) :
    (builder.within count outer names).branch =
      builder.branch.within count outer names := by
  simp [branch, within, Expr.shift_sequence, List.map_reverse]

/- The last item is repeated in context as it is alone. -/
theorem quantify_within
    (builder : Builder)
    (quantifier : Quantifier) :
    (builder.within count outer names).quantify quantifier =
      (builder.quantify quantifier).within count outer
        names := by
  cases hItems : builder.items <;>
    simp [quantify, within, hItems, Expr.shift_rounds]

/- There is something to repeat if there is alone. -/
theorem isEmpty_items_within
    (builder : Builder) :
    (builder.within count outer names).items.isEmpty =
      builder.items.isEmpty := by
  cases hItems : builder.items <;> simp [within, hItems]

/- A group that opens does so in context too, if at all. -/
theorem eq_within_of_openGroup
    {builder opened found : Builder}
    {capture : Option (Nat × Option Text)}
    {flags : Flags}
    (hOpen : builder.openGroup capture flags = .ok opened)
    (hFound :
      (builder.within count outer names).openGroup
          (capture.map fun (index, name) =>
            (index + count, name)) flags =
        .ok found) :
    found = opened.within count outer names := by
  unfold openGroup at hOpen hFound
  split at hOpen
  · cases hOpen
  split at hFound
  · cases hFound
  cases hOpen
  cases hFound
  rfl

/- The opening of a group does the same in context. -/
theorem exists_within_of_afterOpening
    {builder opened found : Builder}
    {opening : GroupOpening}
    (hOpen : builder.afterOpening opening = .ok opened)
    (hFound :
      (builder.within count outer names).afterOpening
          opening =
        .ok found) :
    ∃ names, found = opened.within count outer names := by
  rcases opening with ⟨name⟩ | ⟨flags⟩ | ⟨flags⟩
  · refine ⟨name.toList ++ names, ?_⟩
    refine eq_within_of_openGroup hOpen ?_
    rw [← hFound]
    simp [afterOpening, within, Nat.add_right_comm]
  · exact ⟨names, eq_within_of_openGroup hOpen hFound⟩
  · cases hOpen
    cases hFound
    exact ⟨names, rfl⟩

/- A group that closes does so in context. -/
theorem closeGroup_within
    {builder closed : Builder}
    (hClose : builder.closeGroup = .ok closed) :
    (builder.within count outer names).closeGroup =
      .ok (closed.within count outer names) := by
  unfold closeGroup at hClose
  split at hClose
  case h_1 => cases hClose
  case h_2 scope scopes hScopes =>
      cases hClose
      have hBody :
          (builder.within count outer names).body =
            builder.body.shift count :=
        builder.body_within
      simp only [closeGroup, within, hScopes, List.map_cons,
        List.cons_append]
      rw [← Scope.shift_close, ← hBody]
      simp only [within, hScopes, List.map_cons,
        List.cons_append]
      rfl

end Builder

end Regex

end RequestRouter

------------------------------------------------------------
-- Items in Context
------------------------------------------------------------

namespace RequestRouter

namespace Regex

namespace Builder

/- What the reading of one item can do. -/
inductive ReadsItem
    (builder : Builder)
    (rest : Text) :
    Char → Builder → Text → Prop where
  | group {opening next behind}
      (hOpening :
        readGroupOpening builder.flags builder.names rest =
          .ok (opening, behind))
      (hOpen : builder.afterOpening opening = .ok next) :
      ReadsItem builder rest '(' next behind
  | close {next}
      (hClose : builder.closeGroup = .ok next) :
      ReadsItem builder rest ')' next rest
  | bar :
      ReadsItem builder rest '|' builder.branch rest
  | set {chars behind}
      (hRead :
        readBracket builder.flags rest =
          .ok (chars, behind)) :
      ReadsItem builder rest '['
        (builder.push (.set chars)) behind
  | quantifier {sign quantifier behind}
      (hSign :
        sign = '?' ∨ sign = '*' ∨ sign = '+' ∨ sign = '{')
      (hRead :
        readQuantifier builder.flags builder.items.isEmpty
            sign rest =
          .ok (quantifier, behind)) :
      ReadsItem builder rest sign
        (builder.quantify quantifier) behind
  | escape {item behind}
      (hRead :
        readEscape builder.flags rest = .ok (item, behind)) :
      ReadsItem builder rest '\\'
        (builder.push item) behind
  | plain {c}
      (hPlain :
        c ∉ ['(', ')', '|', '[', '?', '*', '+', '{', '\\']) :
      ReadsItem builder rest c
        (builder.push (plainExpr builder.flags c)) rest

/- An item is read in one of these ways. -/
theorem readItem_eq_ok_iff
    (builder next : Builder)
    (c : Char)
    (rest behind : Text) :
    builder.readItem c rest = .ok (next, behind) ↔
      builder.ReadsItem rest c next behind := by
  constructor
  · intro hItem
    unfold readItem at hItem
    split at hItem
    case isTrue hOpen =>
        subst hOpen
        rw [readGroup_eq] at hItem
        rcases (Sequence.bind_eq_ok_iff _ _ _).mp hItem with
          ⟨⟨opening, left⟩, hOpening, hSecond⟩
        rcases (Sequence.bind_eq_ok_iff _ _ _).mp hSecond
          with ⟨opened, hOpened, hNext⟩
        cases hNext
        exact .group hOpening hOpened
    case isFalse hOpen =>
    split at hItem
    case isTrue hClose =>
        subst hClose
        rcases (Sequence.bind_eq_ok_iff _ _ _).mp hItem with
          ⟨closed, hClosed, hNext⟩
        cases hNext
        exact .close hClosed
    case isFalse hClose =>
    split at hItem
    case isTrue hBar =>
        subst hBar
        cases hItem
        exact .bar
    case isFalse hBar =>
    split at hItem
    case isTrue hClass =>
        subst hClass
        rcases (Sequence.bind_eq_ok_iff _ _ _).mp hItem with
          ⟨⟨chars, text⟩, hChars, hNext⟩
        cases hNext
        exact .set hChars
    case isFalse hClass =>
    split at hItem
    case isTrue hSign =>
        rcases (Sequence.bind_eq_ok_iff _ _ _).mp hItem with
          ⟨⟨quantifier, text⟩, hQuantifier, hNext⟩
        cases hNext
        exact .quantifier hSign hQuantifier
    case isFalse hSign =>
    split at hItem
    case isTrue hEscape =>
        subst hEscape
        rcases (Sequence.bind_eq_ok_iff _ _ _).mp hItem with
          ⟨⟨item, text⟩, hChar, hNext⟩
        cases hNext
        exact .escape hChar
    case isFalse hEscape =>
        cases hItem
        refine .plain ?_
        simp_all
  · intro hItem
    cases hItem with
    | group hOpening hOpen =>
        simp [readItem, readGroup_eq, hOpening, hOpen, bind,
          Except.bind]
    | close hClose =>
        simp [readItem, hClose, bind, Except.bind]
    | bar => simp [readItem]
    | set hRead => simp [readItem, hRead, bind, Except.bind]
    | quantifier hSign hRead =>
        rcases hSign with rfl | rfl | rfl | rfl <;>
          simp [readItem, hRead, bind, Except.bind]
    | escape hRead =>
        simp [readItem, hRead, bind, Except.bind]
    | plain hPlain =>
        simp only [List.mem_cons, List.not_mem_nil, or_false,
          not_or] at hPlain
        simp [readItem, hPlain]

variable {count : Nat}
variable {outer : List Scope}
variable {names : List Text}

/-
  An item that is read from a text on its own is read in
  context from the same text, if it can be read there.
-/
theorem within_of_readItem
    {builder next found : Builder}
    {c : Char}
    {rest behind left : Text}
    (hItem : builder.readItem c rest = .ok (next, behind))
    (hFound :
      (builder.within count outer names).readItem c rest =
        .ok (found, left)) :
    left = behind ∧
      ∃ names, found = next.within count outer names := by
  have hSame :
      ∀ {names},
        (builder.within count outer names).readItem c rest =
            .ok (next.within count outer names, behind) →
          (builder.within count outer names).readItem c rest =
              .ok (found, left) →
            left = behind ∧
              ∃ names,
                found = next.within count outer names := by
    intro names hNext hFound
    rw [hNext] at hFound
    cases hFound
    exact ⟨rfl, names, rfl⟩
  rw [readItem_eq_ok_iff] at hItem
  cases hItem with
  | group hOpening hOpen =>
      rw [readItem_eq_ok_iff] at hFound
      cases hFound with
      | quantifier hSign => simp at hSign
      | plain hPlain => simp at hPlain
      | group hOther hAgain =>
          cases readGroupOpening_eq_of_ok hOpening hOther
          exact
            ⟨rfl, exists_within_of_afterOpening hOpen hAgain⟩
  | close hClose =>
      refine hSame ?_ hFound
      rw [readItem_eq_ok_iff]
      exact .close (closeGroup_within hClose)
  | bar =>
      refine hSame ?_ hFound
      rw [readItem_eq_ok_iff, ← branch_within]
      exact .bar
  | @set chars behind hRead =>
      refine hSame ?_ hFound
      rw [readItem_eq_ok_iff]
      exact .set hRead
  | @quantifier sign quantifier behind hSign hRead =>
      refine hSame ?_ hFound
      rw [readItem_eq_ok_iff, ← quantify_within]
      refine .quantifier hSign ?_
      rw [isEmpty_items_within]
      exact hRead
  | @escape item behind hRead =>
      refine hSame ?_ hFound
      rw [readItem_eq_ok_iff,
        ← push_within builder (shift_of_readEscape hRead count)]
      exact .escape hRead
  | plain hPlain =>
      refine hSame ?_ hFound
      rw [readItem_eq_ok_iff,
        ← push_within builder (Expr.shift_plainExpr count _ _)]
      exact .plain hPlain

end Builder

end Regex

end RequestRouter

------------------------------------------------------------
-- Closed Sources
------------------------------------------------------------

namespace RequestRouter

namespace Regex

namespace Builder

/-
  Read items up to a closing parenthesis at the end that no
  group is left for.
-/
def readBody
    (builder : Builder) :
    Nat → Text → Except Fault Builder
  | 0, _ => .error .unclosedGroup
  | fuel + 1, text =>
      match builder.flags.skip text with
      | [] => .error .unclosedGroup
      | c :: rest =>
          if c = ')' ∧ builder.scopes.isEmpty then
            if rest.isEmpty then .ok builder
            else .error .unopenedGroup
          else do
            let (next, behind) ← builder.readItem c rest
            next.readBody fuel behind

end Builder

/-
  The body of a group with a source inside, and the number
  of groups in it, if the source is closed.
-/
def closedBody?
    (source : Text) : Option (Expr × Nat) :=
  match
    ({} : Builder).readBody (source.length + 2)
      (source ++ [')'])
  with
  | .ok builder => some (builder.body, builder.groups)
  | .error _ => none

namespace Builder

variable {count : Nat}
variable {outer : List Scope}

/- Nothing in front of a closing parenthesis is no body. -/
theorem readBody_nil
    (builder final : Builder)
    (fuel : Nat) :
    builder.readBody fuel [] ≠ .ok final := by
  have hSkip : builder.flags.skip [] = [] := by
    simp [Flags.skip, skipBlank]
  cases fuel <;> simp [readBody, hSkip]

/- Every group of a body is closed. -/
theorem scopes_of_readBody
    {builder final : Builder}
    {fuel : Nat}
    {text : Text}
    (hBody : builder.readBody fuel text = .ok final) :
    final.scopes = [] := by
  induction fuel generalizing builder text with
  | zero => cases hBody
  | succ fuel ih =>
      rw [readBody] at hBody
      split at hBody
      case h_1 => cases hBody
      case h_2 c rest hSkip =>
          split at hBody
          case isTrue hEnd =>
              split at hBody
              case isTrue =>
                  cases hBody
                  exact List.isEmpty_iff.mp hEnd.2
              case isFalse => cases hBody
          case isFalse =>
              rcases (Sequence.bind_eq_ok_iff _ _ _).mp hBody
                with ⟨⟨next, behind⟩, -, hNext⟩
              exact ih hNext

/-
  The body of a source is read in context in the same way,
  up to the closing parenthesis behind it.
-/
theorem exists_reads_of_readBody
    {builder final : Builder}
    {fuel : Nat}
    {text : Text}
    (hBody : builder.readBody fuel text = .ok final)
    {names : List Text}
    (rest : Text)
    {reading : Reading}
    (hReads :
      (builder.within count outer names).Reads
        (text ++ rest) reading) :
    ∃ names left,
      (final.within count outer names).Reads left reading ∧
        final.flags.skip left = ')' :: rest := by
  induction fuel generalizing builder text names with
  | zero => cases hBody
  | succ fuel ih =>
      rw [readBody] at hBody
      split at hBody
      case h_1 => cases hBody
      case h_2 c inner hSkip =>
          have hBoth :
              builder.flags.skip (text ++ rest) =
                c :: (inner ++ rest) :=
            builder.flags.skip_append hSkip (by simp) rest
          split at hBody
          case isTrue hEnd =>
              split at hBody
              case isFalse => cases hBody
              case isTrue hLast =>
                  cases hBody
                  have hInner := List.isEmpty_iff.mp hLast
                  refine ⟨names, text ++ rest, hReads, ?_⟩
                  rw [hBoth, hEnd.1, hInner, List.nil_append]
          case isFalse =>
              rcases (Sequence.bind_eq_ok_iff _ _ _).mp hBody
                with ⟨⟨next, behind⟩, hItem, hNext⟩
              have hSome : behind ≠ [] := by
                rintro rfl
                exact readBody_nil _ _ _ hNext
              have hOn :=
                (isLocalAt_readItem builder c inner
                  hItem).2 hSome rest
              rcases exists_readItem hReads hBoth with
                ⟨found, left, hFound, hLeft⟩
              rcases within_of_readItem hOn hFound with
                ⟨rfl, names, rfl⟩
              exact ih hNext hLeft

/- A body does not start with a question mark. -/
theorem head?_of_readBody
    {final : Builder}
    {fuel : Nat}
    {source : Text}
    (hBody :
      ({} : Builder).readBody fuel (source ++ [')']) =
        .ok final) :
    source.head? ≠ some '?' := by
  intro hHead
  cases source with
  | nil => cases hHead
  | cons c source =>
      cases hHead
      cases fuel with
      | zero => cases hBody
      | succ fuel =>
          simp [readBody, Flags.skip, readItem,
            readQuantifier, bind, Except.bind] at hBody

/- Inside of a group reading starts as it does alone. -/
theorem inside_eq_within
    {builder : Builder}
    (hFlags : builder.flags = {})
    (capture : Option (Nat × Option Text)) :
    builder.inside capture =
      ({} : Builder).within builder.groups
        (⟨capture, builder.flags, builder.items,
          builder.branches⟩ :: builder.scopes)
        builder.names := by
  simp [inside, within, hFlags]

/-
  The body of a source is read inside of a group, and the
  parenthesis behind it closes the group.
-/
theorem reads_behind_of_readBody
    {builder final : Builder}
    {capture : Option (Nat × Option Text)}
    {fuel : Nat}
    {source rest : Text}
    {reading : Reading}
    (hBody :
      ({} : Builder).readBody fuel (source ++ [')']) =
        .ok final)
    (hReads :
      (builder.inside capture).Reads (source ++ ')' :: rest)
        reading)
    (hFlags : builder.flags = {}) :
    ∃ names,
      { builder with
        groups := final.groups + builder.groups
        names := names
        items :=
          (Scope.mk capture builder.flags builder.items
              builder.branches).close
            (final.body.shift builder.groups) ::
              builder.items }.Reads rest reading := by
  have hText :
      source ++ ')' :: rest = source ++ [')'] ++ rest := by
    simp
  rw [inside_eq_within hFlags, hText] at hReads
  rcases exists_reads_of_readBody hBody rest hReads with
    ⟨names, left, hClose, hSkip⟩
  have hOuter :
      (final.within builder.groups
        (⟨capture, builder.flags, builder.items,
          builder.branches⟩ :: builder.scopes)
        names).scopes =
          ⟨capture, builder.flags, builder.items,
            builder.branches⟩ :: builder.scopes := by
    simp [within, scopes_of_readBody hBody]
  have hDone := reads_close_of_reads hClose hSkip hOuter
  rw [body_within] at hDone
  exact ⟨names, hDone⟩

end Builder

/- The body of a closed source is what is read of it. -/
theorem exists_readBody_of_closedBody
    {source : Text}
    {body : Expr}
    {groups : Nat}
    (hClosed : closedBody? source = some (body, groups)) :
    ∃ final,
      ({} : Builder).readBody (source.length + 2)
          (source ++ [')']) =
        .ok final ∧
      final.body = body ∧ final.groups = groups := by
  unfold closedBody? at hClosed
  split at hClosed
  case h_1 final hBody =>
      cases hClosed
      exact ⟨final, hBody, rfl, rfl⟩
  case h_2 => cases hClosed

/-
  A closed source in parentheses is read as a group with its
  body, and with as many groups inside, wherever it stands.
-/
theorem isReadAs_closed
    {source : Text}
    {body : Expr}
    {groups : Nat}
    (hClosed : closedBody? source = some (body, groups))
    (first : Nat) :
    IsReadAs ('(' :: source ++ [')']) first
      (first + 1 + groups)
      [.group (first + 1) none (body.shift (first + 1))] := by
  rcases exists_readBody_of_closedBody hClosed with
    ⟨final, hBody, rfl, rfl⟩
  rintro builder rest reading hReads hFlags rfl -
  have hBehind :
      (source ++ ')' :: rest).head? ≠ some '?' := by
    have hHead := Builder.head?_of_readBody hBody
    cases source with
    | nil => simp
    | cons c source => exact hHead
  have hInside :
      ({ builder with groups := builder.groups + 1 }.inside
          (some (builder.groups + 1, none))).Reads
        (source ++ ')' :: rest) reading := by
    refine Builder.reads_capture_of_reads ?_ hFlags hBehind
    simpa using hReads
  rcases
      Builder.reads_behind_of_readBody hBody hInside hFlags
    with ⟨names, hDone⟩
  refine ⟨names, ?_⟩
  simpa [Scope.close, Nat.add_comm, Nat.add_left_comm]
    using hDone

/-
  In a group without a number a closed source is read as its
  body.
-/
theorem isReadAs_scoped
    {source : Text}
    {body : Expr}
    {groups : Nat}
    (hClosed : closedBody? source = some (body, groups))
    (first : Nat) :
    IsReadAs ('(' :: '?' :: ':' :: source ++ [')']) first
      (first + groups) [body.shift first] := by
  rcases exists_readBody_of_closedBody hClosed with
    ⟨final, hBody, rfl, rfl⟩
  rintro builder rest reading hReads hFlags rfl -
  have hInside :
      (builder.inside none).Reads (source ++ ')' :: rest)
        reading := by
    refine Builder.reads_inside_of_reads _ ?_ hFlags
    simpa using hReads
  rcases
      Builder.reads_behind_of_readBody hBody hInside hFlags
    with ⟨names, hDone⟩
  refine ⟨names, ?_⟩
  simpa [Scope.close, Nat.add_comm] using hDone

end Regex

end RequestRouter
