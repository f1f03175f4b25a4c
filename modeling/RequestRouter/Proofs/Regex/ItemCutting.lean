import RequestRouter.Proofs.Regex.Cutting

/-
  How an item is read without a closing parenthesis that
  stands behind it.

  A bracket class that goes on up to the parenthesis takes it
  as one of its items, and so does an escape. Any other item
  is read without the parenthesis as it is read with it, but
  for a word boundary in front of a lone brace.

  Key definition:
    * `Regex.orNested`

  Main statements:
    * `Regex.isCutAt_readClassRange`
    * `Regex.isCutAt_readBracket`
    * `Regex.Builder.readItem_cut`
-/

------------------------------------------------------------
-- Class Items
------------------------------------------------------------

namespace RequestRouter

namespace Regex

/-
  A text that starts with a sign other than a parenthesis
  starts with it in front of the parenthesis.
-/
theorem exists_cons_of_append_close
    {c : Char}
    (hClose : c ≠ ')')
    {front more last : Text}
    (hText : c :: last = front ++ ')' :: more) :
    ∃ rest, front = c :: rest ∧ last = rest ++ ')' :: more := by
  cases front with
  | nil =>
      cases hText
      exact absurd rfl hClose
  | cons d rest =>
      cases hText
      exact ⟨rest, rfl, rfl⟩

/- An item of a class takes its first character. -/
theorem takesFirst_readClassItem
    (flags : Flags) :
    TakesFirst (readClassItem flags) := by
  intro c rest item behind hRead
  by_cases hEscape : c = '\\'
  · subst hEscape
    exact readEscape_suffix hRead
  · simp only [readClassItem, Except.ok.injEq, Prod.mk.injEq]
      at hRead
    cases hRead.2
    exact List.suffix_rfl

/- It leaves an end of its text. -/
theorem readClassItem_suffix
    {flags : Flags}
    {text behind : Text}
    {item : Expr}
    (hRead : readClassItem flags text = .ok (item, behind)) :
    behind <:+ text := by
  cases text with
  | nil => cases hRead
  | cons c rest =>
      exact
        (takesFirst_readClassItem flags hRead).trans
          (List.suffix_cons _ _)

/-
  An item of a class is read without the parenthesis, or
  takes it, but for a word boundary.
-/
theorem readClassItem_cut
    {flags : Flags}
    {text left more : Text}
    {item : Expr}
    (hLine : '\n' ∉ more)
    (hRead :
      readClassItem flags (text ++ ')' :: more) =
        .ok (item, left)) :
    (∃ behind,
        left = behind ++ ')' :: more ∧
          readClassItem flags text = .ok (item, behind)) ∨
      left <:+ more ∨
        item = .assertion .wordBoundary := by
  cases text with
  | nil =>
      exact
        Or.inr (Or.inl (takesFirst_readClassItem flags hRead))
  | cons c rest =>
      by_cases hEscape : c = '\\'
      · subst hEscape
        have hBoth := readEscape_cut hLine hRead
        exact hBoth.imp_right (Or.imp_right And.left)
      · simp only [List.cons_append, readClassItem,
          Except.ok.injEq, Prod.mk.injEq] at hRead
        rcases hRead with ⟨rfl, rfl⟩
        exact Or.inl ⟨rest, rfl, by simp [readClassItem]⟩

/-
  Where no character is next, a parenthesis behind the text
  is the next one.
-/
theorem peekBlank_append_close
    {inComment : Bool}
    {text : Text}
    (hNone : peekBlank inComment text = none)
    (more : Text) :
    peekBlank inComment (text ++ ')' :: more) = some ')' := by
  induction text generalizing inComment with
  | nil => simp [peekBlank, isBlank_close]
  | cons c rest ih =>
      simp only [List.cons_append, peekBlank] at hNone ⊢
      split at hNone
      case isTrue hBlank =>
          rw [if_pos hBlank]
          exact ih hNone
      case isFalse hBlank =>
          rw [if_neg hBlank]
          split at hNone
          case isTrue hSign =>
              rw [if_pos hSign]
              exact ih hNone
          case isFalse => cases hNone

namespace Flags

/- The next character is the parenthesis, or as without it. -/
theorem peek_append_close
    (flags : Flags)
    (text more : Text) :
    flags.peek (text ++ ')' :: more) = flags.peek text ∨
      flags.peek (text ++ ')' :: more) = some ')' := by
  cases hPeek : flags.peek text with
  | some c => exact Or.inl (flags.peek_append hPeek _)
  | none =>
      right
      unfold peek at hPeek ⊢
      split
      case isTrue hExtended =>
          rw [if_pos hExtended] at hPeek
          exact peekBlank_append_close hPeek more
      case isFalse hExtended =>
          rw [if_neg hExtended, List.head?_eq_none_iff] at hPeek
          rw [hPeek]
          rfl

end Flags

end Regex

end RequestRouter

------------------------------------------------------------
-- Ranges of a Class
------------------------------------------------------------

namespace RequestRouter

namespace Regex

/- The end of a range leaves an end of what is in front. -/
theorem suffix_of_dash
    {flags : Flags}
    {rest last behind : Text}
    {second : Expr}
    (hDash : flags.skip rest = '-' :: last)
    (hSecond :
      readClassItem flags (flags.skip last) =
        .ok (second, behind)) :
    behind <:+ rest := by
  have hRest := flags.skip_suffix rest
  rw [hDash] at hRest
  have hLast := (List.suffix_cons _ _).trans hRest
  exact
    ((readClassItem_suffix hSecond).trans
      (flags.skip_suffix last)).trans hLast

/- An item or range leaves an end of what its item leaves. -/
theorem exists_suffix_of_readClassRange
    {flags : Flags}
    {text behind : Text}
    {items : List ClassItem}
    (hRead : readClassRange flags text = .ok (items, behind)) :
    ∃ first rest,
      readClassItem flags text = .ok (first, rest) ∧
        behind <:+ rest := by
  rw [readClassRange_eq_ok_iff] at hRead
  rcases hRead with ⟨first, rest, hFirst, hCases⟩
  refine ⟨first, rest, hFirst, ?_⟩
  rcases hCases with ⟨rfl, -⟩ |
    ⟨last, second, hDash, -, -, -, hSecond, -⟩
  · exact flags.skip_suffix rest
  · exact suffix_of_dash hDash hSecond

/- An item or range takes the first character. -/
theorem takesFirst_readClassRange
    (flags : Flags) :
    TakesFirst (readClassRange flags) := by
  intro c rest items behind hRead
  rcases exists_suffix_of_readClassRange hRead with
    ⟨first, left, hFirst, hLeft⟩
  exact hLeft.trans (takesFirst_readClassItem flags hFirst)

/- A word boundary is no item of a class. -/
theorem ne_wordBoundary_of_classItems?
    {item : Expr}
    {items : List ClassItem}
    (hItems : classItems? item = some items) :
    item ≠ .assertion .wordBoundary := by
  rintro rfl
  cases hItems

/- It is no end of a range either. -/
theorem ne_wordBoundary_of_rangeItem
    {first last : Expr}
    {item : ClassItem}
    (hRange : rangeItem first last = .ok item) :
    first ≠ .assertion .wordBoundary ∧
      last ≠ .assertion .wordBoundary := by
  unfold rangeItem at hRange
  split at hRange
  case h_1 => exact ⟨nofun, nofun⟩
  case h_2 => cases hRange

/-
  A plain item is read without the parenthesis if something
  else stands behind it.
-/
theorem readClassRange_cut_plain
    {flags : Flags}
    {text rest left more : Text}
    {first : Expr}
    {items : List ClassItem}
    (hLine : '\n' ∉ more)
    (hFirst : readClassItem flags text = .ok (first, rest))
    (hSkip : flags.skip (rest ++ ')' :: more) = left)
    (hSome : left ≠ [])
    (hItems : classItems? first = some items)
    (hDash :
      ∀ last, left = '-' :: last →
        flags.peek last = some ']' ∨
          flags.peek last = some '-') :
    (∃ behind,
        left = behind ++ ')' :: more ∧
          readClassRange flags text = .ok (items, behind)) ∨
      left <:+ ')' :: more := by
  subst hSkip
  rcases flags.skip_append_cases rest hLine with
    hBoth | hLost
  case inr => exact absurd hLost hSome
  rw [hBoth] at hDash ⊢
  by_cases hRest : flags.skip rest = []
  · rw [hRest]
    exact Or.inr List.suffix_rfl
  · refine Or.inl ⟨flags.skip rest, rfl, ?_⟩
    rw [readClassRange_eq_ok_iff]
    refine
      ⟨first, rest, hFirst,
        Or.inl ⟨rfl, hRest, hItems, fun last hLast => ?_⟩⟩
    have hPeek :=
      hDash (last ++ ')' :: more) (by rw [hLast]; rfl)
    rcases flags.peek_append_close last more with
      hSame | hClose
    · rwa [hSame] at hPeek
    · rw [hClose] at hPeek
      simp at hPeek

/-
  A range is read without the parenthesis, or has it as its
  last character.
-/
theorem readClassRange_cut_range
    {flags : Flags}
    {text rest last left more : Text}
    {first second : Expr}
    {item : ClassItem}
    (hLine : '\n' ∉ more)
    (hFirst : readClassItem flags text = .ok (first, rest))
    (hSkip :
      flags.skip (rest ++ ')' :: more) = '-' :: last)
    (hClose : flags.peek last ≠ some ']')
    (hDash : flags.peek last ≠ some '-')
    (hSecond :
      readClassItem flags (flags.skip last) =
        .ok (second, left))
    (hRange : rangeItem first second = .ok item) :
    (∃ behind,
        left = behind ++ ')' :: more ∧
          readClassRange flags text = .ok ([item], behind)) ∨
      left <:+ ')' :: more := by
  have hMore := List.suffix_cons ')' more
  have hSome : flags.skip last ≠ [] := by
    intro hNone
    rw [hNone] at hSecond
    cases hSecond
  rcases flags.skip_append_cases rest hLine with
    hBoth | hLost
  case inr =>
      rw [hLost] at hSkip
      cases hSkip
  rw [hBoth] at hSkip
  rcases exists_cons_of_append_close (by decide) hSkip.symm
    with ⟨front, hFront, rfl⟩
  rcases flags.skip_append_cases front hLine with
    hLast | hLost
  case inr => exact absurd hLost hSome
  rw [hLast] at hSecond
  rcases readClassItem_cut hLine hSecond with
    ⟨behind, rfl, hAlone⟩ | hLeft | hNone
  case inr.inr =>
      exact
        absurd hNone (ne_wordBoundary_of_rangeItem hRange).2
  case inr.inl => exact Or.inr (hLeft.trans hMore)
  have hPeek {c : Char}
      (hOther :
        flags.peek (front ++ ')' :: more) ≠ some c) :
      flags.peek front ≠ some c :=
    fun hNext => hOther (flags.peek_append hNext _)
  refine Or.inl ⟨behind, rfl, ?_⟩
  rw [readClassRange_eq_ok_iff]
  refine
    ⟨first, rest, hFirst,
      Or.inr
        ⟨front, second, hFront, hPeek hClose, hPeek hDash, ?_,
          hAlone, item, hRange, rfl⟩⟩
  intro hNone
  rw [hNone] at hAlone
  cases hAlone

/-
  The reader of a class item or range is cut, but for the
  parenthesis, which has to stand behind an item.
-/
theorem isCutAt_readClassRange
    (flags : Flags)
    (text : Text) :
    IsCutAt [')'] (readClassRange flags) text where
  suffix items behind hRead := by
    rcases exists_suffix_of_readClassRange hRead with
      ⟨first, rest, hFirst, hBehind⟩
    exact hBehind.trans (readClassItem_suffix hFirst)
  cut more hLine items left hRead := by
    rcases exists_suffix_of_readClassRange hRead with
      ⟨own, rest, hOwn, hLeft⟩
    rw [readClassRange_eq_ok_iff] at hRead
    rcases hRead with ⟨first, other, hFirst, hCases⟩
    rw [hOwn] at hFirst
    cases hFirst
    have hBoundary : own ≠ .assertion .wordBoundary := by
      rcases hCases with ⟨-, -, hItems, -⟩ |
        ⟨_, _, -, -, -, -, -, _, hRange, -⟩
      · exact ne_wordBoundary_of_classItems? hItems
      · exact (ne_wordBoundary_of_rangeItem hRange).1
    rcases readClassItem_cut hLine hOwn with
      ⟨front, rfl, hAlone⟩ | hRest | hNone
    · rcases hCases with ⟨hSkip, hSome, hItems, hDash⟩ |
        ⟨last, second, hSkip, hClose, hDash, -, hSecond, item,
          hRange, rfl⟩
      · exact
          readClassRange_cut_plain hLine hAlone hSkip hSome
            hItems hDash
      · exact
          readClassRange_cut_range hLine hAlone hSkip hClose
            hDash hSecond hRange
    · right
      exact (hLeft.trans hRest).trans (List.suffix_cons _ _)
    · exact absurd hNone hBoundary

end Regex

end RequestRouter

------------------------------------------------------------
-- Named Classes
------------------------------------------------------------

namespace RequestRouter

namespace Regex

/- Read what may be read, or fail at a nested class. -/
def orNested
    {α : Type}
    (read? : Text → Option (α × Text))
    (text : Text) :
    Except Fault (α × Text) :=
  match read? text with
  | some found => .ok found
  | none => .error .classNested

/- What is read is what may be read. -/
theorem orNested_eq_ok_iff
    {α : Type}
    (read? : Text → Option (α × Text))
    (text : Text)
    (found : α × Text) :
    orNested read? text = .ok found ↔
      read? text = some found := by
  unfold orNested
  cases read? text <;> simp

/- The name of a class ends with a colon and a bracket. -/
theorem readClassName?_eq_some_iff
    (negated : Bool)
    (text behind : Text)
    (item : ClassItem) :
    readClassName? negated text = some (item, behind) ↔
      ∃ name ranges,
        text.span (· != ':') = (name, ':' :: ']' :: behind) ∧
          namedRanges? name = some ranges ∧
            item = ⟨negated, ranges⟩ := by
  unfold readClassName?
  split
  case h_1 name left hSpan =>
      simp only [hSpan, Option.map_eq_some_iff]
      grind
  case h_2 hNone =>
      simp only [reduceCtorEq, false_iff]
      rintro ⟨name, ranges, hSpan, -⟩
      exact hNone _ _ hSpan

/- What is behind the characters of a name ends the text. -/
theorem suffix_of_span
    {wanted : Char → Bool}
    {text name behind : Text}
    (hSpan : text.span wanted = (name, behind)) :
    behind <:+ text := by
  rw [List.span_eq_takeWhile_dropWhile, Prod.mk.injEq] at hSpan
  rw [← hSpan.2]
  exact List.dropWhile_suffix _

/-
  A sign is found in front of the parenthesis, as it is
  without it, or else behind the parenthesis.
-/
theorem span_append_close
    {sign : Char}
    (hSign : sign ≠ ')')
    {text more name last : Text}
    (hSpan :
      (text ++ ')' :: more).span (· != sign) =
        (name, sign :: last)) :
    (∃ behind,
        last = behind ++ ')' :: more ∧
          text.span (· != sign) = (name, sign :: behind)) ∨
      last <:+ more := by
  simp only [List.span_eq_takeWhile_dropWhile,
    Prod.mk.injEq] at hSpan ⊢
  induction text generalizing name with
  | nil =>
      right
      have hFirst : (')' != sign) = true :=
        bne_iff_ne.mpr hSign.symm
      have hEnd := List.dropWhile_suffix (· != sign) (l := more)
      rw [List.nil_append, List.dropWhile_cons, hFirst] at hSpan
      simp only [if_true] at hSpan
      rw [hSpan.2] at hEnd
      exact (List.suffix_cons _ _).trans hEnd
  | cons c text ih =>
      by_cases hEnd : c = sign
      · subst hEnd
        simp only [List.cons_append, List.takeWhile_cons,
          List.dropWhile_cons, bne_self_eq_false,
          Bool.false_eq_true, if_false] at hSpan ⊢
        rcases hSpan with ⟨rfl, hLast⟩
        cases hLast
        exact Or.inl ⟨text, rfl, rfl, rfl⟩
      · have hFirst : (c != sign) = true :=
          bne_iff_ne.mpr hEnd
        simp only [List.cons_append, List.takeWhile_cons,
          List.dropWhile_cons, hFirst, if_true] at hSpan ⊢
        rcases hSpan with ⟨rfl, hLast⟩
        rcases ih ⟨rfl, hLast⟩ with
          ⟨behind, hBehind, hName, hDrop⟩ | hMore
        · exact Or.inl ⟨behind, hBehind, by rw [hName], hDrop⟩
        · exact Or.inr hMore

/- The reader of the name of a class is cut. -/
theorem isCutAt_readClassName?
    (negated : Bool)
    (text : Text) :
    IsCutAt [] (orNested (readClassName? negated)) text where
  suffix item behind hRead := by
    rw [orNested_eq_ok_iff, readClassName?_eq_some_iff] at hRead
    rcases hRead with ⟨name, ranges, hSpan, -⟩
    exact
      ((List.suffix_cons _ _).trans (List.suffix_cons _ _)).trans
        (suffix_of_span hSpan)
  cut more hLine item left hRead := by
    rw [orNested_eq_ok_iff, readClassName?_eq_some_iff] at hRead
    rcases hRead with ⟨name, ranges, hSpan, hRanges, rfl⟩
    rcases span_append_close (by decide) hSpan with
      ⟨behind, hBehind, hAlone⟩ | hMore
    · rcases exists_cons_of_append_close (by decide) hBehind
        with ⟨front, rfl, rfl⟩
      refine Or.inl ⟨front, rfl, ?_⟩
      rw [orNested_eq_ok_iff, readClassName?_eq_some_iff]
      exact ⟨name, ranges, hAlone, hRanges, rfl⟩
    · exact Or.inr ((List.suffix_cons _ _).trans hMore)

/- Without a caret the name is that of a class as it is. -/
theorem readNamedClass?_of_head?
    {inner : Text}
    (hCaret : inner.head? ≠ some '^') :
    readNamedClass? (':' :: inner) =
      readClassName? false inner := by
  cases inner with
  | nil => rfl
  | cons d inner =>
      have hOther : d ≠ '^' := by simpa using hCaret
      simp only [readNamedClass?, readClassName?]
      split <;> simp_all

/- The reader of a named class is cut. -/
theorem isCutAt_readNamedClass?
    (text : Text) :
    IsCutAt [] (orNested readNamedClass?) text := by
  cases text with
  | nil =>
      exact
        .nil (by simp [orNested, readNamedClass?])
          (by simp [orNested, readNamedClass?])
  | cons c inner =>
      by_cases hColon : c = ':'
      case neg =>
          refine .of_head (fun rest => ?_) (.error .classNested)
          simp [orNested, readNamedClass?, hColon]
      subst hColon
      refine .cons ?_
      by_cases hCaret : inner.head? = some '^'
      · rcases List.head?_eq_some_iff.mp hCaret with ⟨rest, rfl⟩
        exact .cons (isCutAt_readClassName? true rest)
      · refine
          .of_eq ?_ (fun more => ?_)
            (isCutAt_readClassName? false inner)
        · simp only [orNested, readNamedClass?_of_head? hCaret]
        · have hBoth :
              (inner ++ ')' :: more).head? ≠ some '^' := by
            cases inner with
            | nil => simp
            | cons d inner => exact hCaret
          simp only [orNested, readNamedClass?_of_head? hBoth]

end Regex

end RequestRouter

------------------------------------------------------------
-- Rows of Class Items
------------------------------------------------------------

namespace RequestRouter

namespace Regex

/- Behind an opening bracket stands a named class. -/
theorem readClassItemsFrom_open
    (flags : Flags)
    (items : List ClassItem)
    (fuel : Nat)
    (rest : Text) :
    readClassItemsFrom flags items fuel ('[' :: rest) =
      orNested readNamedClass? rest >>= fun found =>
        readClassItems flags (items ++ [found.1]) fuel
          found.2 := by
  simp only [readClassItemsFrom, orNested]
  cases readNamedClass? rest <;> rfl

/- Any other sign that is not doubled starts an item. -/
theorem readClassItemsFrom_plain
    (flags : Flags)
    (items : List ClassItem)
    (fuel : Nat)
    {c : Char}
    {rest : Text}
    (hClose : c ≠ ']')
    (hOpen : c ≠ '[')
    (hDouble :
      ¬(rest.head? = some c ∧ (c = '&' ∨ c = '-' ∨ c = '~'))) :
    readClassItemsFrom flags items fuel (c :: rest) =
      readClassRange flags (c :: rest) >>= fun found =>
        readClassItems flags (items ++ found.1) fuel
          found.2 := by
  unfold readClassItemsFrom
  split <;> simp_all

/- Two signs of a set operation are a fault. -/
theorem readClassItemsFrom_double
    (flags : Flags)
    (items : List ClassItem)
    (fuel : Nat)
    {c : Char}
    (hSign : c = '&' ∨ c = '-' ∨ c = '~')
    (rest : Text)
    (found : List ClassItem × Text) :
    readClassItemsFrom flags items fuel (c :: c :: rest) ≠
      .ok found := by
  rcases hSign with rfl | rfl | rfl <;>
    simp [readClassItemsFrom]

/-
  A row of items that starts is cut if the rows behind its
  first item are, and take a character.
-/
theorem isCutAt_readClassItemsFrom
    (flags : Flags)
    {fuel : Nat}
    (hRows :
      ∀ items text,
        IsCutAt [] (readClassItems flags items fuel) text)
    (hTakes :
      ∀ items, TakesFirst (readClassItems flags items fuel))
    (items : List ClassItem)
    (text : Text) :
    IsCutAt [] (readClassItemsFrom flags items fuel) text := by
  have hPlain (text : Text) :
      IsCutAt []
        (fun text =>
          readClassRange flags text >>= fun found =>
            readClassItems flags (items ++ found.1) fuel
              found.2)
        text :=
    .bind_of_takesFirst
      (fun more => readClassItems flags (items ++ more) fuel)
      (isCutAt_readClassRange flags text)
      (fun more => hRows (items ++ more))
      fun more => hTakes (items ++ more)
  cases text with
  | nil =>
      refine
        .of_eq ?_ (fun more => ?_) (hPlain [])
      · rfl
      · exact
          readClassItemsFrom_plain flags items fuel (by decide)
            (by decide) (by simp)
  | cons c rest =>
      by_cases hClose : c = ']'
      case pos =>
          subst hClose
          exact .cons (.pure items)
      by_cases hOpen : c = '['
      case pos =>
          subst hOpen
          refine .cons ?_
          simp only [readClassItemsFrom_open]
          exact
            .bind
              (fun item =>
                readClassItems flags (items ++ [item]) fuel)
              (isCutAt_readNamedClass? rest)
              fun item => hRows (items ++ [item])
      by_cases hDouble :
          rest.head? = some c ∧ (c = '&' ∨ c = '-' ∨ c = '~')
      case pos =>
          rcases List.head?_eq_some_iff.mp hDouble.1 with
            ⟨inner, rfl⟩
          exact
            .cons
              (.cons
                (.of_iff
                  (fun text found => by
                    simp [readClassItemsFrom_double flags items
                      fuel hDouble.2 text found])
                  (.error .classNested)))
      refine
        .of_eq ?_ (fun more => ?_) (hPlain (c :: rest))
      · exact
          readClassItemsFrom_plain flags items fuel hClose hOpen
            hDouble
      · refine
          readClassItemsFrom_plain flags items fuel hClose hOpen
            ?_
        rintro ⟨hHead, hSign⟩
        cases rest with
        | nil =>
            cases hHead
            simp at hSign
        | cons d inner => exact hDouble ⟨hHead, hSign⟩

/- A row of items that starts takes its first character. -/
theorem takesFirst_readClassItemsFrom
    (flags : Flags)
    {fuel : Nat}
    (hRows :
      ∀ items text,
        IsCutAt [] (readClassItems flags items fuel) text)
    (items : List ClassItem) :
    TakesFirst (readClassItemsFrom flags items fuel) := by
  intro c rest found behind hRead
  by_cases hClose : c = ']'
  case pos =>
      subst hClose
      cases hRead
      exact List.suffix_rfl
  by_cases hOpen : c = '['
  case pos =>
      subst hOpen
      rw [readClassItemsFrom_open] at hRead
      exact
        suffix_of_bind (isCutAt_readNamedClass? rest).suffix
          (fun item left => (hRows (items ++ [item]) left).suffix)
          hRead
  by_cases hDouble :
      rest.head? = some c ∧ (c = '&' ∨ c = '-' ∨ c = '~')
  case pos =>
      rcases List.head?_eq_some_iff.mp hDouble.1 with
        ⟨inner, rfl⟩
      exact
        absurd hRead
          (readClassItemsFrom_double flags items fuel hDouble.2
            inner _)
  rw [readClassItemsFrom_plain flags items fuel hClose hOpen
    hDouble] at hRead
  rcases (Sequence.bind_eq_ok_iff _ _ _).mp hRead with
    ⟨⟨more, left⟩, hMore, hBehind⟩
  exact
    ((hRows (items ++ more) left).suffix hBehind).trans
      (takesFirst_readClassRange flags hMore)

/- The reader of the items of a class is cut. -/
theorem isCutAt_readClassItems
    (flags : Flags)
    (fuel : Nat) :
    (∀ items text,
        IsCutAt [] (readClassItems flags items fuel) text) ∧
      ∀ items,
        TakesFirst (readClassItems flags items fuel) := by
  induction fuel with
  | zero => exact ⟨fun _ _ => .error _, fun _ _ _ _ _ => nofun⟩
  | succ fuel ih =>
      rcases ih with ⟨hRows, hTakes⟩
      have hFrom (items : List ClassItem) (text : Text) :
          IsCutAt [] (readClassItemsFrom flags items fuel)
            text :=
        isCutAt_readClassItemsFrom flags hRows hTakes items text
      constructor
      · intro items text
        exact
          .skip flags (readClassItemsFrom flags items fuel)
            fun text _ => hFrom items text
      · intro items
        exact
          .skip flags
            (takesFirst_readClassItemsFrom flags hRows items)
            (by simp [readClassItemsFrom])

/- Each round takes a character, so the length is enough. -/
theorem readClassItems_of_length
    {flags : Flags}
    {items : List ClassItem}
    {fuel : Nat}
    {text : Text}
    {found : List ClassItem × Text}
    (hRead :
      readClassItems flags items fuel text = .ok found) :
    readClassItems flags items (text.length + 1) text =
      .ok found := by
  induction fuel generalizing items text with
  | zero => cases hRead
  | succ fuel ih =>
      have hShort := flags.length_skip_le text
      rw [readClassItems] at hRead ⊢
      generalize flags.skip text = front at hShort hRead ⊢
      split at hRead
      case h_1 | h_4 | h_5 | h_6 => cases hRead
      case h_2 => exact hRead
      case h_3 rest =>
          rw [List.length_cons] at hShort
          split at hRead
          case h_2 => cases hRead
          case h_1 item behind hNamed =>
              have hLength := (readNamedClass?_append hNamed).1
              exact
                readClassItems_of_le (ih hRead) (by omega)
      case h_7 hNil _ _ _ _ _ =>
          rcases (Sequence.bind_eq_ok_iff _ _ _).mp hRead with
            ⟨⟨range, rest⟩, hRange, hRest⟩
          simp only [hRange, bind, Except.bind]
          refine readClassItems_of_le (ih hRest) ?_
          cases front with
          | nil => exact (hNil rfl).elim
          | cons c inner =>
              have hLength :=
                (takesFirst_readClassRange flags
                  hRange).length_le
              rw [List.length_cons] at hShort
              omega

/- The reader of all items of a class is cut. -/
theorem isCutAt_readClassItems_all
    (flags : Flags)
    (items : List ClassItem)
    (text : Text) :
    IsCutAt []
      (fun text =>
        readClassItems flags items (text.length + 1) text)
      text where
  suffix _ _ hRead :=
    ((isCutAt_readClassItems flags _).1 items text).suffix hRead
  cut more hLine found left hRead := by
    rcases
        ((isCutAt_readClassItems flags _).1 items text).cut hLine
          hRead with
      ⟨behind, rfl, hAlone⟩ | hLeft
    · exact
        Or.inl ⟨behind, rfl, readClassItems_of_length hAlone⟩
    · exact Or.inr hLeft

end Regex

end RequestRouter

------------------------------------------------------------
-- Bracket Classes
------------------------------------------------------------

namespace RequestRouter

namespace Regex

/- The reader of leading dashes keeps the parenthesis. -/
theorem isCutAt_readLeadingDashes
    (flags : Flags)
    (items : List ClassItem)
    (text : Text) :
    IsCutAt [')'] (readLeadingDashes flags items) text := by
  induction hLength : text.length using Nat.strongRecOn
    generalizing text items with
  | ind length ih =>
      cases text with
      | nil =>
          refine .of_eq ?_ (fun more => ?_) (.pure items)
          · simp [readLeadingDashes]
          · simp [readLeadingDashes]
      | cons c rest =>
          by_cases hDash : c = '-'
          · subst hDash
            refine .cons ?_
            simp only [readLeadingDashes_dash]
            refine
              .skip flags
                (fun text =>
                  if text = [] then
                    .error .classUnclosedAfterDash
                  else
                    readLeadingDashes flags
                      (.single '-' :: items) text)
                fun text hText => .nonempty _ ?_
            rw [List.length_cons] at hLength
            exact ih text.length (by omega) _ text rfl
          · refine
              .of_head (fun rest => ?_) (.pure items)
            simp [readLeadingDashes, hDash]

/- The reader of a negation keeps the parenthesis. -/
theorem isCutAt_readNegation
    (flags : Flags)
    (text : Text) :
    IsCutAt [')'] (readNegation flags) text := by
  cases text with
  | nil =>
      refine
        ⟨fun _ _ hRead => ?_, fun more _ _ _ hRead => ?_⟩
      · cases hRead
      · have hLeft :
            readNegation flags (')' :: more) =
              .ok (false, ')' :: more) := by
          simp [readNegation]
        rw [List.nil_append, hLeft] at hRead
        cases hRead
        exact Or.inr List.suffix_rfl
  | cons c rest =>
      by_cases hCaret : c = '^'
      · subst hCaret
        refine .cons ?_
        exact
          .skip flags
            (fun text =>
              if text = [] then
                .error .classUnclosedAfterNegation
              else .ok (true, text))
            fun _ _ => .nonempty _ (.pure true)
      · refine .of_head (fun rest => ?_) (.pure false)
        simp [readNegation, hCaret]

/- The reader of a first closing bracket keeps it as well. -/
theorem isCutAt_readFirstBracket
    (flags : Flags)
    (dashes : List ClassItem)
    (text : Text) :
    IsCutAt [')'] (readFirstBracket flags dashes) text := by
  cases dashes with
  | cons item items => exact .pure (item :: items)
  | nil =>
      cases text with
      | nil =>
          refine .of_eq ?_ (fun more => ?_) (.pure [])
          · rfl
          · simp [readFirstBracket]
      | cons c rest =>
          by_cases hClose : c = ']'
          · subst hClose
            refine .cons ?_
            exact
              .skip flags
                (fun text =>
                  if text = [] then
                    .error .classUnclosedAfterBracket
                  else .ok ([ClassItem.single ']'], text))
                fun _ _ => .nonempty _ (.pure _)
          · refine .of_head (fun rest => ?_) (.pure [])
            simp [readFirstBracket, hClose]

/- The reader of a set is cut, and takes a character. -/
theorem isCutAt_readSet
    (flags : Flags)
    (negated : Bool)
    (first : List ClassItem) :
    (∀ text, IsCutAt [] (readSet flags negated first) text) ∧
      TakesFirst (readSet flags negated first) := by
  constructor
  · intro text
    exact
      .bind
        (fun items text =>
          .ok
            (CharSet.ofItems negated flags.ignoreCase items,
              text))
        (isCutAt_readClassItems_all flags first text)
        fun _ _ => .pure _
  · intro c rest chars behind hRead
    rcases (Sequence.bind_eq_ok_iff _ _ _).mp hRead with
      ⟨found, hFound, hSame⟩
    cases hSame
    exact (isCutAt_readClassItems flags _).2 first hFound

/- The reader of a set behind dashes is cut. -/
theorem isCutAt_readSetBehindDashes
    (flags : Flags)
    (negated : Bool)
    (dashes : List ClassItem) :
    (∀ text,
        IsCutAt [] (readSetBehindDashes flags negated dashes)
          text) ∧
      TakesFirst (readSetBehindDashes flags negated dashes) := by
  have hSet := isCutAt_readSet flags negated
  constructor
  · intro text
    exact
      .bind_of_takesFirst (readSet flags negated)
        (isCutAt_readFirstBracket flags dashes text)
        (fun first => (hSet first).1) fun first => (hSet first).2
  · exact
      .bind
        (fun text _ _ hRead =>
          (isCutAt_readFirstBracket flags dashes text).suffix
            hRead)
        (fun first => (hSet first).2)
        fun first text _ _ hRead =>
          ((hSet first).1 text).suffix hRead

/- The reader of a set behind its negation is cut. -/
theorem isCutAt_readSetBehindNegation
    (flags : Flags)
    (negated : Bool) :
    (∀ text,
        IsCutAt [] (readSetBehindNegation flags negated) text) ∧
      TakesFirst (readSetBehindNegation flags negated) := by
  have hDashes := isCutAt_readSetBehindDashes flags negated
  constructor
  · intro text
    exact
      .bind_of_takesFirst (readSetBehindDashes flags negated)
        (isCutAt_readLeadingDashes flags [] text)
        (fun dashes => (hDashes dashes).1)
        fun dashes => (hDashes dashes).2
  · exact
      .bind
        (fun text _ _ hRead =>
          (isCutAt_readLeadingDashes flags [] text).suffix hRead)
        (fun dashes => (hDashes dashes).2)
        fun dashes text _ _ hRead =>
          ((hDashes dashes).1 text).suffix hRead

/- The reader of a class is cut. -/
theorem isCutAt_readBracket
    (flags : Flags)
    (text : Text) :
    IsCutAt [] (readBracket flags) text := by
  have hNegation := isCutAt_readSetBehindNegation flags
  have hRead :
      IsCutAt []
        (fun text =>
          readNegation flags (flags.skip text) >>= fun front =>
            readSetBehindNegation flags front.1 front.2)
        text :=
    .bind_of_takesFirst (readSetBehindNegation flags)
      (.skip flags (readNegation flags) fun rest _ =>
        isCutAt_readNegation flags rest)
      (fun negated => (hNegation negated).1)
      fun negated => (hNegation negated).2
  simpa only [← readBracket_eq] using hRead

end Regex

end RequestRouter

------------------------------------------------------------
-- Items
------------------------------------------------------------

namespace RequestRouter

namespace Regex

namespace Builder

/- The reader of the opening of a group is cut. -/
theorem isCutAt_readGroup
    (builder : Builder)
    (text : Text) :
    IsCutAt [] builder.readGroup text := by
  have hRead :
      IsCutAt []
        (fun text =>
          readGroupOpening builder.flags builder.names text >>=
            fun found =>
              builder.afterOpening found.1 >>= fun opened =>
                .ok (opened, found.2))
        text := by
    refine
      .bind
        (fun opening text =>
          builder.afterOpening opening >>= fun opened =>
            .ok (opened, text))
        (isCutAt_readGroupOpening _ _ text)
        fun opening rest => ?_
    cases builder.afterOpening opening with
    | error fault => exact .error fault
    | ok opened => exact .pure opened
  simpa only [← readGroup_eq] using hRead

/- The reader of an item is cut, but for an escape. -/
theorem isCutAt_readItem
    (builder : Builder)
    {c : Char}
    (hEscape : c ≠ '\\')
    (text : Text) :
    IsCutAt [] (builder.readItem c) text := by
  unfold readItem
  simp only [if_neg hEscape]
  refine
    .ite (fun _ => builder.isCutAt_readGroup text)
      fun _ => ?_
  refine .ite (fun _ => ?_) fun _ => ?_
  · cases builder.closeGroup with
    | error fault => exact .error fault
    | ok closed => exact .pure closed
  refine .ite (fun _ => .pure _) fun _ => ?_
  refine .ite (fun _ => ?_) fun _ => ?_
  · exact
      .bind
        (fun chars rest =>
          .ok (builder.push (.set chars), rest))
        (isCutAt_readBracket builder.flags text)
        fun _ _ => .pure _
  refine .ite (fun _ => ?_) fun _ => .pure _
  exact
    .bind
      (fun quantifier rest =>
        .ok (builder.quantify quantifier, rest))
      (isCutAt_readQuantifier builder.flags
        builder.items.isEmpty c text)
      fun _ _ => .pure _

/- An escape is put behind the other items. -/
theorem readItem_escape_eq_ok_iff
    (builder next : Builder)
    (text behind : Text) :
    builder.readItem '\\' text = .ok (next, behind) ↔
      ∃ item,
        readEscape builder.flags text = .ok (item, behind) ∧
          next = builder.push item := by
  simp only [readItem, Char.reduceEq, if_false, or_self,
    if_true, Sequence.bind_eq_ok_iff, Prod.exists]
  grind

/-
  An item is read without the parenthesis, or takes it, or
  leaves a brace that nothing but the parenthesis ends.
-/
theorem readItem_cut
    {builder next : Builder}
    {c : Char}
    {text left more : Text}
    (hLine : '\n' ∉ more)
    (hRead :
      builder.readItem c (text ++ ')' :: more) =
        .ok (next, left)) :
    (∃ behind,
        left = behind ++ ')' :: more ∧
          builder.readItem c text = .ok (next, behind)) ∨
      left <:+ more ∨
        ∃ blanks,
          next.flags.skip blanks = [] ∧
            left = '{' :: blanks ++ ')' :: more := by
  by_cases hEscape : c = '\\'
  case neg =>
      exact
        ((builder.isCutAt_readItem hEscape text).cut hLine
          hRead).imp_right Or.inl
  subst hEscape
  simp only [readItem_escape_eq_ok_iff] at hRead ⊢
  rcases hRead with ⟨item, hItem, rfl⟩
  rcases readEscape_cut hLine hItem with
    ⟨behind, rfl, hAlone⟩ | hLeft | ⟨-, hBrace⟩
  · exact Or.inl ⟨behind, rfl, item, hAlone, rfl⟩
  · exact Or.inr (Or.inl hLeft)
  · exact Or.inr (Or.inr hBrace)

end Builder

end Regex

end RequestRouter
