import RequestRouter.Proofs.Regex.Locality

/-
  What stands far behind does not change how an item is
  read.

  A bracket class is read by several readers in turn, each
  of which is local: its negation, its leading dashes, and
  then one item, range or named class after the other. So
  the reader of an item is local behind its first sign.

  Key definitions include:
    * `Regex.readClassItemsFrom`
    * `Regex.readSet`
    * `Regex.Builder.afterOpening`

  Main statements:
    * `Regex.readClassRange_eq_ok_iff`
    * `Regex.isLocalAt_readBracket`
    * `Regex.Builder.isLocalAt_readItem`
-/

------------------------------------------------------------
-- Class Items
------------------------------------------------------------

namespace RequestRouter

namespace Regex

/- The reader of an item of a class is local. -/
theorem isLocalAt_readClassItem
    (flags : Flags)
    (text : Text) :
    IsLocalAt (readClassItem flags) text := by
  cases text with
  | nil => exact .nil (by simp [readClassItem])
  | cons c rest =>
      by_cases hEscape : c = '\\'
      · subst hEscape
        exact .cons (isLocalAt_readEscape flags rest)
      · refine .cons ?_
        have hPlain :
            ∀ rest,
              readClassItem flags (c :: rest) =
                .ok (.char c, rest) := by
          simp [readClassItem]
        rw [funext hPlain]
        exact .pure _

/- Behind blanks the next character stays the same. -/
theorem peekBlank_append
    {inComment : Bool}
    {text : Text}
    {c : Char}
    (hPeek : peekBlank inComment text = some c)
    (more : Text) :
    peekBlank inComment (text ++ more) = some c := by
  induction text generalizing inComment with
  | nil => simp [peekBlank] at hPeek
  | cons d rest ih =>
      simp only [List.cons_append, peekBlank] at hPeek ⊢
      split at hPeek
      case isTrue hBlank =>
          rw [if_pos hBlank]
          exact ih hPeek
      case isFalse hBlank =>
          rw [if_neg hBlank]
          split at hPeek
          case isTrue hSign =>
              rw [if_pos hSign]
              exact ih hPeek
          case isFalse hSign =>
              rw [if_neg hSign]
              exact hPeek

/- Where blanks and comments end there is a next character. -/
theorem isSome_peekBlank
    {inComment other : Bool}
    {text : Text}
    (hSome : skipBlank inComment text ≠ []) :
    (peekBlank other text).isSome = true := by
  induction text generalizing inComment other with
  | nil => simp [skipBlank] at hSome
  | cons c rest ih =>
      unfold skipBlank at hSome
      unfold peekBlank
      split
      case isTrue hBlank =>
          split at hSome
          · exact ih hSome
          · exact ih hSome
      case isFalse hBlank =>
          split
          case isFalse => rfl
          case isTrue hSign =>
              split at hSome
              · exact ih hSome
              · rw [if_pos hSign.1] at hSome
                exact ih hSome

namespace Flags

/- The next character is the same in front of further text. -/
theorem peek_append
    (flags : Flags)
    {text : Text}
    {c : Char}
    (hPeek : flags.peek text = some c)
    (more : Text) :
    flags.peek (text ++ more) = some c := by
  unfold peek at hPeek ⊢
  split
  case isTrue hExtended =>
      rw [if_pos hExtended] at hPeek
      exact peekBlank_append hPeek more
  case isFalse hExtended =>
      rw [if_neg hExtended] at hPeek
      cases text with
      | nil => cases hPeek
      | cons d rest => exact hPeek

/- Whatever is not passed over shows a next character. -/
theorem exists_peek
    (flags : Flags)
    {text : Text}
    (hSome : flags.skip text ≠ []) :
    ∃ c, flags.peek text = some c := by
  unfold skip at hSome
  unfold peek
  rw [← Option.isSome_iff_exists]
  split
  case isTrue hExtended =>
      rw [if_pos hExtended] at hSome
      exact isSome_peekBlank hSome
  case isFalse hExtended =>
      rw [if_neg hExtended] at hSome
      cases text with
      | nil => exact absurd rfl hSome
      | cons c rest => rfl

end Flags

end Regex

end RequestRouter

------------------------------------------------------------
-- Ranges of a Class
------------------------------------------------------------

namespace RequestRouter

namespace Regex

/-
  A class item is a plain one, or a range between two of
  them.
-/
theorem readClassRange_eq_ok_iff
    (flags : Flags)
    (text behind : Text)
    (items : List ClassItem) :
    readClassRange flags text = .ok (items, behind) ↔
      ∃ first rest,
        readClassItem flags text = .ok (first, rest) ∧
          (flags.skip rest = behind ∧ behind ≠ [] ∧
              classItems? first = some items ∧
              (∀ last, behind = '-' :: last →
                flags.peek last = some ']' ∨
                  flags.peek last = some '-') ∨
            ∃ last second,
              flags.skip rest = '-' :: last ∧
                flags.peek last ≠ some ']' ∧
                flags.peek last ≠ some '-' ∧
                flags.skip last ≠ [] ∧
                readClassItem flags (flags.skip last) =
                  .ok (second, behind) ∧
                ∃ item, rangeItem first second = .ok item ∧
                  items = [item]) := by
  constructor
  · intro hRead
    rcases (Sequence.bind_eq_ok_iff _ _ _).mp hRead with
      ⟨⟨first, rest⟩, hFirst, hRest⟩
    refine ⟨first, rest, hFirst, ?_⟩
    dsimp only at hRest
    split at hRest
    case h_1 => cases hRest
    case h_2 last hDash =>
        split at hRest
        case isTrue hPeek =>
            split at hRest
            case h_2 => cases hRest
            case h_1 found hItems =>
                cases hRest
                refine Or.inl ⟨hDash, by simp, hItems, ?_⟩
                rintro _ ⟨⟩
                simpa using hPeek
        case isFalse hPeek =>
            split at hRest
            case h_1 => cases hRest
            case h_2 hSkip =>
                rcases
                    (Sequence.bind_eq_ok_iff _ _ _).mp
                      hRest with
                  ⟨⟨second, left⟩, hSecond, hItem⟩
                dsimp only at hItem
                rcases
                    (Sequence.bind_eq_ok_iff _ _ _).mp
                      hItem with
                  ⟨item, hRange, hEnd⟩
                cases hEnd
                simp only [Bool.or_eq_true, beq_iff_eq,
                  not_or] at hPeek
                exact
                  Or.inr
                    ⟨last, second, hDash, hPeek.1, hPeek.2,
                      fun hNone => hSkip hNone, hSecond,
                      item, hRange, rfl⟩
    case h_3 hNil hDash =>
        split at hRest
        case h_2 => cases hRest
        case h_1 found hItems =>
            cases hRest
            refine
              Or.inl ⟨rfl, fun hNone => hNil hNone, hItems, ?_⟩
            exact fun last hLast => (hDash last hLast).elim
  · rintro ⟨first, rest, hFirst, hCases⟩
    unfold readClassRange
    rw [hFirst]
    dsimp only [bind, Except.bind]
    rcases hCases with ⟨hSkip, hSome, hItems, hDash⟩ |
      ⟨last, second, hSkip, hNot, hOther, hBehind, hSecond,
        item, hRange, rfl⟩
    · rw [hSkip]
      split
      case h_1 => exact absurd rfl hSome
      case h_2 last =>
        have hPeek := hDash last rfl
        rw [if_pos (by simpa using hPeek)]
        rw [hItems]
      case h_3 => rw [hItems]
    · rw [hSkip]
      simp only [beq_iff_eq, Bool.or_eq_true, hNot, hOther,
        or_self, if_false]
      cases hLast : flags.skip last with
      | nil => exact absurd hLast hBehind
      | cons c left =>
          rw [hLast] at hSecond
          simp only [hSecond, hRange]

/- The reader of a class item or range is local. -/
theorem isLocalAt_readClassRange
    (flags : Flags)
    (text : Text) :
    IsLocalAt (readClassRange flags) text := by
  intro items behind hRead
  rw [readClassRange_eq_ok_iff] at hRead
  rcases hRead with ⟨first, rest, hFirst, hCases⟩
  rcases isLocalAt_readClassItem flags text hFirst with
    ⟨hText, hMore⟩
  have hRest := flags.length_skip_le rest
  have hFront :
      ∀ {left : Text}, flags.skip rest = left → left ≠ [] →
        rest ≠ [] := by
    rintro left rfl hSome rfl
    exact hSome (by simp [Flags.skip, skipBlank])
  rcases hCases with ⟨hSkip, hSome, hItems, hDash⟩ |
    ⟨last, second, hSkip, hNot, hOther, hLast, hSecond, item,
      hRange, rfl⟩
  · rw [hSkip] at hRest
    refine ⟨by omega, fun _ more => ?_⟩
    rw [readClassRange_eq_ok_iff]
    refine
      ⟨first, rest ++ more, hMore (hFront hSkip hSome) more,
        Or.inl
          ⟨flags.skip_append hSkip hSome more,
            by simp [hSome], hItems, ?_⟩⟩
    intro last hLast
    cases behind with
    | nil => exact absurd rfl hSome
    | cons c left =>
        simp only [List.cons_append, List.cons.injEq]
          at hLast
        rcases hLast with ⟨rfl, rfl⟩
        exact
          (hDash left rfl).imp
            (flags.peek_append · more)
            (flags.peek_append · more)
  · rcases isLocalAt_readClassItem flags _ hSecond with
      ⟨hLength, hOn⟩
    have hShort := flags.length_skip_le last
    rw [hSkip, List.length_cons] at hRest
    refine ⟨by omega, fun hSome more => ?_⟩
    rw [readClassRange_eq_ok_iff]
    have hPeek :
        flags.peek (last ++ more) = flags.peek last := by
      rcases flags.exists_peek hLast with ⟨c, hNext⟩
      rw [hNext, flags.peek_append hNext]
    have hAgain := flags.skip_append rfl hLast more
    refine
      ⟨first, rest ++ more,
        hMore (hFront hSkip (by simp)) more,
        Or.inr
          ⟨last ++ more, second,
            flags.skip_append hSkip (by simp) more,
            by rwa [hPeek], by rwa [hPeek], ?_, ?_, item,
            hRange, rfl⟩⟩
    · simp [hAgain, hLast]
    · rw [hAgain]
      exact hOn hSome more

end Regex

end RequestRouter

------------------------------------------------------------
-- Named Classes
------------------------------------------------------------

namespace RequestRouter

namespace Regex

/- A span that ends is the same in front of further text. -/
theorem span_append
    {sign : Char}
    {text name last : Text}
    (hSpan : text.span (· != sign) = (name, sign :: last))
    (more : Text) :
    (text ++ more).span (· != sign) =
      (name, sign :: last ++ more) := by
  rw [List.span_eq_takeWhile_dropWhile, Prod.mk.injEq]
    at hSpan ⊢
  rcases hSpan with ⟨hName, hLast⟩
  have hText : text = name ++ sign :: last := by
    rw [← hName, ← hLast, List.takeWhile_append_dropWhile]
  have hAll : ∀ c ∈ name, (c != sign) = true := by
    rw [← hName]
    intro c hMember
    exact
      List.mem_takeWhile_imp (p := (· != sign)) hMember
  rw [hText, List.append_assoc,
    List.takeWhile_append_of_pos hAll,
    List.dropWhile_append_of_pos hAll]
  simp

/- Read the name of a class behind its first colon. -/
def readClassName?
    (negated : Bool)
    (text : Text) : Option (ClassItem × Text) :=
  match text.span (· != ':') with
  | (name, ':' :: ']' :: behind) =>
      (namedRanges? name).map fun ranges =>
        (⟨negated, ranges⟩, behind)
  | _ => none

/- A name is read as before in front of further text. -/
theorem readClassName?_append
    {negated : Bool}
    {text behind : Text}
    {item : ClassItem}
    (hRead :
      readClassName? negated text = some (item, behind)) :
    behind.length ≤ text.length ∧
      ∀ more,
        readClassName? negated (text ++ more) =
          some (item, behind ++ more) := by
  unfold readClassName? at hRead
  split at hRead
  case h_2 => cases hRead
  case h_1 name left hSpan =>
      rcases Option.map_eq_some_iff.mp hRead with
        ⟨ranges, hRanges, hItem⟩
      cases hItem
      constructor
      · rw [List.span_eq_takeWhile_dropWhile,
          Prod.mk.injEq] at hSpan
        have hLength :
            (text.dropWhile (· != ':')).length ≤
              text.length :=
          (List.dropWhile_sublist _).length_le
        rw [hSpan.2] at hLength
        simp only [List.length_cons] at hLength
        omega
      · intro more
        rw [readClassName?, span_append hSpan more]
        simp [hRanges]

/- A named class is read as before in front of further text. -/
theorem readNamedClass?_append
    {text behind : Text}
    {item : ClassItem}
    (hRead : readNamedClass? text = some (item, behind)) :
    behind.length ≤ text.length ∧
      ∀ more,
        readNamedClass? (text ++ more) =
          some (item, behind ++ more) := by
  cases text with
  | nil => cases hRead
  | cons c rest =>
      by_cases hColon : c = ':'
      case neg => simp [readNamedClass?, hColon] at hRead
      subst hColon
      cases rest with
      | nil => cases hRead
      | cons d inner =>
          by_cases hCaret : d = '^'
          · subst hCaret
            have hName :
                readClassName? true inner =
                  some (item, behind) := hRead
            rcases readClassName?_append hName with
              ⟨hLength, hMore⟩
            refine ⟨?_, hMore⟩
            simp only [List.length_cons]
            omega
          · have hPlain :
                ∀ inner,
                  readNamedClass? (':' :: d :: inner) =
                    readClassName? false (d :: inner) := by
              intro inner
              simp only [readNamedClass?, readClassName?]
              split <;> simp_all
            rw [hPlain] at hRead
            rcases readClassName?_append hRead with
              ⟨hLength, hMore⟩
            refine ⟨Nat.le_succ_of_le hLength, fun more => ?_⟩
            exact (hPlain (inner ++ more)).trans (hMore more)

end Regex

end RequestRouter

------------------------------------------------------------
-- Rows of Class Items
------------------------------------------------------------

namespace RequestRouter

namespace Regex

/- Read the items of a class, once blanks are passed over. -/
def readClassItemsFrom
    (flags : Flags)
    (items : List ClassItem)
    (fuel : Nat) :
    Text → Except Fault (List ClassItem × Text)
  | [] => .error .classUnclosed
  | ']' :: rest => .ok (items, rest)
  | '[' :: rest =>
      match readNamedClass? rest with
      | some (item, behind) =>
          readClassItems flags (items ++ [item]) fuel behind
      | none => .error .classNested
  | '&' :: '&' :: _ => .error .classIntersection
  | '-' :: '-' :: _ => .error .classDifference
  | '~' :: '~' :: _ => .error .classSymmetricDifference
  | text => do
      let (more, rest) ← readClassRange flags text
      readClassItems flags (items ++ more) fuel rest

/- One character alone does not make a class item. -/
theorem readClassRange_single
    (flags : Flags)
    (c : Char)
    (found : List ClassItem × Text) :
    readClassRange flags [c] ≠ .ok found := by
  rcases found with ⟨items, behind⟩
  rw [ne_eq, readClassRange_eq_ok_iff]
  rintro ⟨first, rest, hFirst, hCases⟩
  have hRest : rest = [] := by
    by_cases hEscape : c = '\\'
    · subst hEscape
      simp [readClassItem, readEscape] at hFirst
    · simp only [readClassItem, Except.ok.injEq,
        Prod.mk.injEq] at hFirst
      exact hFirst.2.symm
  subst hRest
  have hSkip : flags.skip [] = [] := by
    simp [Flags.skip, skipBlank]
  rcases hCases with ⟨hBehind, hSome, -⟩ | ⟨last, -, hLast, -⟩
  · exact hSome (hBehind.symm.trans hSkip)
  · rw [hSkip] at hLast
    cases hLast

/- The reader of the items of a class is local. -/
theorem isLocalAt_readClassItems
    (flags : Flags)
    (items : List ClassItem)
    (fuel : Nat)
    (text : Text) :
    IsLocalAt (readClassItems flags items fuel) text := by
  induction fuel generalizing items text with
  | zero => exact .error _
  | succ fuel ih =>
      refine
        .skip flags (readClassItemsFrom flags items fuel)
          fun text _ => ?_
      cases text with
      | nil => exact .nil (by simp [readClassItemsFrom])
      | cons c rest =>
          by_cases hClose : c = ']'
          case pos =>
              subst hClose
              exact .cons (.pure _)
          by_cases hOpen : c = '['
          case pos =>
              subst hOpen
              refine .cons fun found behind hRead => ?_
              simp only [readClassItemsFrom] at hRead ⊢
              split at hRead
              case h_2 => cases hRead
              case h_1 item inner hNamed =>
                  rcases readNamedClass?_append hNamed with
                    ⟨hLength, hMore⟩
                  rcases ih _ inner hRead with
                    ⟨hBehind, hOn⟩
                  refine
                    ⟨Nat.le_trans hBehind hLength,
                      fun hSome more => ?_⟩
                  rw [hMore more]
                  exact hOn hSome more
          cases rest with
          | nil =>
              intro found behind hRead
              have hPlain :
                  readClassItemsFrom flags items fuel [c] =
                    readClassRange flags [c] >>= fun read =>
                      readClassItems flags
                        (items ++ read.1) fuel read.2 := by
                simp [readClassItemsFrom, hClose, hOpen]
              rw [hPlain] at hRead
              rcases (Sequence.bind_eq_ok_iff _ _ _).mp hRead with
                ⟨range, hRange, -⟩
              exact (readClassRange_single _ _ _ hRange).elim
          | cons d inner =>
              by_cases hPair :
                  c = d ∧ (c = '&' ∨ c = '-' ∨ c = '~')
              · rcases hPair with ⟨rfl, rfl | rfl | rfl⟩
                · exact .cons (.cons (.error _))
                · exact .cons (.cons (.error _))
                · exact .cons (.cons (.error _))
              have hPlain :
                  ∀ inner,
                    readClassItemsFrom flags items fuel
                        (c :: d :: inner) =
                      readClassRange flags
                          (c :: d :: inner) >>= fun read =>
                        readClassItems flags
                          (items ++ read.1) fuel read.2 := by
                intro inner
                unfold readClassItemsFrom
                split <;> simp_all
              have hBoth :=
                IsLocalAt.bind
                  (fun more rest =>
                    readClassItems flags (items ++ more) fuel
                      rest)
                  (isLocalAt_readClassRange flags
                    (c :: d :: inner))
                  fun more rest _ => ih (items ++ more) rest
              intro found behind hRead
              rw [hPlain] at hRead
              rcases hBoth hRead with ⟨hLength, hMore⟩
              refine ⟨hLength, fun hSome more => ?_⟩
              exact
                (hPlain (inner ++ more)).trans
                  (hMore hSome more)

/- More fuel than needed changes nothing. -/
theorem readClassItems_of_le
    {flags : Flags}
    {items : List ClassItem}
    {fuel : Nat}
    {text : Text}
    {found : List ClassItem × Text}
    (hRead :
      readClassItems flags items fuel text = .ok found)
    {more : Nat}
    (hMore : fuel ≤ more) :
    readClassItems flags items more text = .ok found := by
  induction fuel generalizing items text more with
  | zero => cases hRead
  | succ fuel ih =>
      cases more with
      | zero => omega
      | succ more =>
          unfold readClassItems at hRead ⊢
          generalize flags.skip text = front at hRead ⊢
          split at hRead
          case h_1 | h_4 | h_5 | h_6 => cases hRead
          case h_2 => exact hRead
          case h_3 rest =>
              split at hRead
              case h_1 => exact ih hRead (by omega)
              case h_2 => cases hRead
          case h_7 =>
              rcases (Sequence.bind_eq_ok_iff _ _ _).mp hRead with
                ⟨⟨range, rest⟩, hRange, hRest⟩
              simp only [hRange, bind, Except.bind]
              exact ih hRest (by omega)

/- A dash in front stands for itself, if anything follows. -/
theorem readLeadingDashes_dash
    (flags : Flags)
    (items : List ClassItem)
    (rest : Text) :
    readLeadingDashes flags items ('-' :: rest) =
      if flags.skip rest = [] then
        .error .classUnclosedAfterDash
      else
        readLeadingDashes flags (.single '-' :: items)
          (flags.skip rest) := by
  rw [readLeadingDashes.eq_def]
  split
  case h_2 hNone => exact (hNone rest rfl).elim
  case h_1 left hText =>
      cases hText
      split
      case h_1 hSkip => rw [if_pos hSkip]
      case h_2 c behind hSkip => simp [hSkip]

/- The reader of leading dashes is local. -/
theorem isLocalAt_readLeadingDashes
    (flags : Flags)
    (items : List ClassItem)
    (text : Text) :
    IsLocalAt (readLeadingDashes flags items) text := by
  induction hLength : text.length using Nat.strongRecOn
    generalizing text items with
  | ind length ih =>
      cases text with
      | nil => exact .nil (by simp [readLeadingDashes])
      | cons c rest =>
          by_cases hDash : c = '-'
          · subst hDash
            refine .cons ?_
            simp only [readLeadingDashes_dash]
            refine
              .skip flags
                (fun text =>
                  if text = [] then
                    .error .classUnclosedAfterDash
                  else
                    readLeadingDashes flags
                      (.single '-' :: items) text)
                fun text hText => .nonempty _ ?_
            rw [List.length_cons] at hLength
            exact ih text.length (by omega) _ text rfl
          · refine
              .of_head (fun rest => ?_) (.pure items)
            simp [readLeadingDashes, hDash]

/- The reader of all items of a class is local. -/
theorem isLocalAt_readClassItems_all
    (flags : Flags)
    (items : List ClassItem)
    (text : Text) :
    IsLocalAt
      (fun text =>
        readClassItems flags items (text.length + 1) text)
      text := by
  intro found behind hRead
  rcases isLocalAt_readClassItems _ _ _ _ hRead with
    ⟨hLength, hMore⟩
  refine ⟨hLength, fun hSome more => ?_⟩
  refine readClassItems_of_le (hMore hSome more) ?_
  rw [List.length_append]
  omega

end Regex

end RequestRouter

------------------------------------------------------------
-- Bracket Classes
------------------------------------------------------------

namespace RequestRouter

namespace Regex

/- Read whether a class is negated. -/
def readNegation
    (flags : Flags) :
    Text → Except Fault (Bool × Text)
  | [] => .error .classUnclosed
  | '^' :: rest =>
      if flags.skip rest = [] then
        .error .classUnclosedAfterNegation
      else .ok (true, flags.skip rest)
  | text => .ok (false, text)

/- Read a closing bracket that stands for itself. -/
def readFirstBracket
    (flags : Flags)
    (dashes : List ClassItem)
    (text : Text) :
    Except Fault (List ClassItem × Text) :=
  match dashes, text with
  | [], ']' :: rest =>
      if flags.skip rest = [] then
        .error .classUnclosedAfterBracket
      else .ok ([ClassItem.single ']'], flags.skip rest)
  | dashes, text => .ok (dashes, text)

/- Read the set of a class whose first items are read. -/
def readSet
    (flags : Flags)
    (negated : Bool)
    (first : List ClassItem)
    (text : Text) :
    Except Fault (CharSet × Text) :=
  readClassItems flags first (text.length + 1) text >>=
    fun found =>
      .ok
        (.ofItems negated flags.ignoreCase found.1, found.2)

/- Read the set of a class behind its leading dashes. -/
def readSetBehindDashes
    (flags : Flags)
    (negated : Bool)
    (dashes : List ClassItem)
    (text : Text) :
    Except Fault (CharSet × Text) :=
  readFirstBracket flags dashes text >>= fun first =>
    readSet flags negated first.1 first.2

/- Read the set of a class behind its negation. -/
def readSetBehindNegation
    (flags : Flags)
    (negated : Bool)
    (text : Text) :
    Except Fault (CharSet × Text) :=
  readLeadingDashes flags [] text >>= fun dashes =>
    readSetBehindDashes flags negated dashes.1 dashes.2

/- A class is read part by part. -/
theorem readBracket_eq
    (flags : Flags)
    (text : Text) :
    readBracket flags text =
      readNegation flags (flags.skip text) >>= fun front =>
        readSetBehindNegation flags front.1 front.2 := by
  unfold readBracket readNegation readSetBehindNegation
    readSetBehindDashes readSet
  generalize flags.skip text = front
  rcases front with _ | ⟨c, rest⟩
  · rfl
  by_cases hCaret : c = '^'
  case' pos =>
      subst hCaret
      cases hRest : flags.skip rest
      case nil => simp [hRest, bind, Except.bind]
  all_goals
    simp only [*, reduceCtorEq, if_false, List.cons.injEq,
      false_and, false_implies, implies_true]
    refine bind_congr fun front => ?_
    refine bind_congr fun dashes => ?_
    rcases dashes with ⟨taken, left⟩
    dsimp only
    unfold readFirstBracket
    rcases taken with _ | ⟨item, taken⟩
    case cons => rfl
    rcases left with _ | ⟨sign, left⟩
    case nil => rfl
    by_cases hClose : sign = ']'
    case pos =>
        subst hClose
        cases hLeft : flags.skip left <;>
          simp [hLeft, bind, Except.bind]
    case neg => simp [hClose]

/- The reader of a negation is local. -/
theorem isLocalAt_readNegation
    (flags : Flags)
    (text : Text) :
    IsLocalAt (readNegation flags) text := by
  cases text with
  | nil => exact .nil (by simp [readNegation])
  | cons c rest =>
      by_cases hCaret : c = '^'
      · subst hCaret
        refine .cons ?_
        exact
          .skip flags
            (fun text =>
              if text = [] then
                .error .classUnclosedAfterNegation
              else .ok (true, text))
            fun _ _ => .nonempty _ (.pure true)
      · refine .of_head (fun rest => ?_) (.pure false)
        simp [readNegation, hCaret]

/- The reader of a first closing bracket is local. -/
theorem isLocalAt_readFirstBracket
    (flags : Flags)
    (dashes : List ClassItem)
    (text : Text) :
    IsLocalAt (readFirstBracket flags dashes) text := by
  cases dashes with
  | cons item items => exact .pure (item :: items)
  | nil =>
      cases text with
      | nil => exact .nil (by simp [readFirstBracket])
      | cons c rest =>
          by_cases hClose : c = ']'
          · subst hClose
            refine .cons ?_
            exact
              .skip flags
                (fun text =>
                  if text = [] then
                    .error .classUnclosedAfterBracket
                  else .ok ([ClassItem.single ']'], text))
                fun _ _ => .nonempty _ (.pure _)
          · refine .of_head (fun rest => ?_) (.pure [])
            simp [readFirstBracket, hClose]

/- The reader of a set is local. -/
theorem isLocalAt_readSet
    (flags : Flags)
    (negated : Bool)
    (first : List ClassItem)
    (text : Text) :
    IsLocalAt (readSet flags negated first) text :=
  .bind
    (fun items text =>
      .ok (CharSet.ofItems negated flags.ignoreCase items, text))
    (isLocalAt_readClassItems_all flags first text)
    fun _ _ _ => .pure _

/- The reader of a set behind dashes is local. -/
theorem isLocalAt_readSetBehindDashes
    (flags : Flags)
    (negated : Bool)
    (dashes : List ClassItem)
    (text : Text) :
    IsLocalAt (readSetBehindDashes flags negated dashes)
      text :=
  .bind (readSet flags negated)
    (isLocalAt_readFirstBracket flags dashes text)
    fun first rest _ =>
      isLocalAt_readSet flags negated first rest

/- The reader of a set behind its negation is local. -/
theorem isLocalAt_readSetBehindNegation
    (flags : Flags)
    (negated : Bool)
    (text : Text) :
    IsLocalAt (readSetBehindNegation flags negated) text :=
  .bind (readSetBehindDashes flags negated)
    (isLocalAt_readLeadingDashes flags [] text)
    fun dashes rest _ =>
      isLocalAt_readSetBehindDashes flags negated dashes rest

/- The reader of a class is local. -/
theorem isLocalAt_readBracket
    (flags : Flags)
    (text : Text) :
    IsLocalAt (readBracket flags) text := by
  have hRead :
      IsLocalAt
        (fun text =>
          readNegation flags (flags.skip text) >>= fun front =>
            readSetBehindNegation flags front.1 front.2)
        text :=
    .bind (readSetBehindNegation flags)
      (.skip flags (readNegation flags) fun rest _ =>
        isLocalAt_readNegation flags rest)
      fun negated rest _ =>
        isLocalAt_readSetBehindNegation flags negated rest
  simpa only [← readBracket_eq] using hRead

end Regex

end RequestRouter

------------------------------------------------------------
-- Items
------------------------------------------------------------

namespace RequestRouter

namespace Regex

namespace Builder

/- The builder behind the opening of a group. -/
def afterOpening
    (builder : Builder) :
    GroupOpening → Except Fault Builder
  | .directive flags => .ok { builder with flags := flags }
  | .scoped flags => builder.openGroup none flags
  | .capture name =>
      { builder with
        groups := builder.groups + 1
        names := name.toList ++ builder.names }.openGroup
          (some (builder.groups + 1, name)) builder.flags

/- A group is read as its opening. -/
theorem readGroup_eq
    (builder : Builder)
    (text : Text) :
    builder.readGroup text =
      readGroupOpening builder.flags builder.names text >>=
        fun found =>
          builder.afterOpening found.1 >>= fun opened =>
            .ok (opened, found.2) := by
  unfold readGroup
  refine bind_congr fun found => ?_
  rcases found with ⟨⟨name⟩ | ⟨flags⟩ | ⟨flags⟩, rest⟩ <;>
    rfl

/- The reader of the opening of a group is local. -/
theorem isLocalAt_readGroup
    (builder : Builder)
    (text : Text) :
    IsLocalAt builder.readGroup text := by
  have hRead :
      IsLocalAt
        (fun text =>
          readGroupOpening builder.flags builder.names text >>=
            fun found =>
              builder.afterOpening found.1 >>= fun opened =>
                .ok (opened, found.2))
        text := by
    refine
      .bind
        (fun opening text =>
          builder.afterOpening opening >>= fun opened =>
            .ok (opened, text))
        (isLocalAt_readGroupOpening _ _ text)
        fun opening rest _ => ?_
    cases builder.afterOpening opening with
    | error fault => exact .error fault
    | ok opened => exact .pure opened
  simpa only [← readGroup_eq] using hRead

/- The reader of an item is local behind its first sign. -/
theorem isLocalAt_readItem
    (builder : Builder)
    (c : Char)
    (text : Text) :
    IsLocalAt (builder.readItem c) text := by
  unfold readItem
  refine
    .ite (fun _ => builder.isLocalAt_readGroup text)
      fun _ => ?_
  refine .ite (fun _ => ?_) fun _ => ?_
  · cases builder.closeGroup with
    | error fault => exact .error fault
    | ok closed => exact .pure closed
  refine .ite (fun _ => .pure _) fun _ => ?_
  refine .ite (fun _ => ?_) fun _ => ?_
  · exact
      .bind
        (fun chars rest =>
          .ok (builder.push (.set chars), rest))
        (isLocalAt_readBracket builder.flags text)
        fun _ _ _ => .pure _
  refine .ite (fun _ => ?_) fun _ => ?_
  · exact
      .bind
        (fun quantifier rest =>
          .ok (builder.quantify quantifier, rest))
        (isLocalAt_readQuantifier builder.flags
          builder.items.isEmpty c text)
        fun _ _ _ => .pure _
  refine .ite (fun _ => ?_) fun _ => .pure _
  exact
    .bind
      (fun item rest => .ok (builder.push item, rest))
      (isLocalAt_readEscape builder.flags text)
      fun _ _ _ => .pure _

end Builder

end Regex

end RequestRouter
