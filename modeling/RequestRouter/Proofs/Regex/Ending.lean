import RequestRouter.Proofs.Regex.Closed

/-
  How a source that is read to its end is read in front of a
  closing parenthesis.

  A reader of a part of a pattern that takes all of a text
  takes no more of it when a closing parenthesis follows,
  unless the text ends in a comment. So a source that can be
  read on its own is closed, unless a closing parenthesis
  behind it is lost in a comment.

  Key definition:
    * `Regex.IsOpenAt`

  Main statements:
    * `Regex.Builder.isOpenAt_readItem`
    * `Regex.closedBody?_of_parse`
-/

------------------------------------------------------------
-- Open Readers
------------------------------------------------------------

namespace RequestRouter

namespace Regex

/-
  Whether a reader that takes all of a text leaves what
  follows, from a closing parenthesis on. Blanks at the end
  of the text may be passed over once more, since a comment
  among them goes on in what follows.
-/
def IsOpenAt
    {α : Type}
    (flags : Flags)
    (read : Text → Except Fault (α × Text))
    (text : Text) : Prop :=
  ∀ ⦃value⦄, read text = .ok (value, []) →
    ∃ last, flags.skip last = [] ∧
      ∀ more, '\n' ∉ more →
        read (text ++ ')' :: more) =
          .ok (value, flags.skip (last ++ ')' :: more))

/- A closing parenthesis is no blank. -/
theorem isBlank_close : Text.isBlank ')' = false := by
  decide

/- A closing parenthesis is passed over in a comment only. -/
theorem skipBlank_append_close
    {inComment : Bool}
    {text : Text}
    (hNone : skipBlank inComment text = []) :
    (∀ more,
        skipBlank inComment (text ++ ')' :: more) =
          ')' :: more) ∨
      ∀ more, '\n' ∉ more →
        skipBlank inComment (text ++ ')' :: more) = [] := by
  induction text generalizing inComment with
  | nil =>
      cases inComment with
      | false =>
          exact Or.inl fun more => by
            simp [skipBlank, isBlank_close]
      | true =>
          refine Or.inr fun more hLine => ?_
          rw [List.nil_append]
          have hSign : '\n' ∉ ')' :: more := by simp [hLine]
          generalize ')' :: more = rest at hSign
          induction rest with
          | nil => rfl
          | cons c rest ih =>
              rcases not_or.mp (mt List.mem_cons.mpr hSign) with
                ⟨hFirst, hRest⟩
              have hOn : (c != '\n') = true :=
                bne_iff_ne.mpr (Ne.symm hFirst)
              simpa only [skipBlank, if_true, hOn] using
                ih hRest
  | cons c text ih =>
      simp only [skipBlank] at hNone
      simp only [List.cons_append, skipBlank]
      split at hNone
      case isTrue hComment =>
          simpa only [if_pos hComment] using ih hNone
      case isFalse hComment =>
          simp only [if_neg hComment]
          split at hNone
          case isTrue hBlank =>
              simpa only [if_pos hBlank] using ih hNone
          case isFalse hBlank =>
              simp only [if_neg hBlank]
              split at hNone
              case isTrue hSign =>
                  simpa only [if_pos hSign] using ih hNone
              case isFalse => cases hNone

namespace Flags

/- Only a comment hides a closing parenthesis. -/
theorem skip_append_close
    {flags : Flags}
    {text : Text}
    (hNone : flags.skip text = []) :
    (∀ more,
        flags.skip (text ++ ')' :: more) = ')' :: more) ∨
      ∀ more, '\n' ∉ more →
        flags.skip (text ++ ')' :: more) = [] := by
  unfold Flags.skip at hNone ⊢
  split at hNone
  case isTrue hExtended =>
      simpa only [if_pos hExtended] using
        skipBlank_append_close hNone
  case isFalse hPlain =>
      subst hNone
      exact Or.inl fun more => by simp [hPlain]

/- Nothing is passed over in front of nothing. -/
theorem skip_nil
    (flags : Flags) :
    flags.skip [] = [] := by
  simp [Flags.skip, skipBlank]

/- A closing parenthesis is not passed over. -/
theorem skip_close
    (flags : Flags)
    (more : Text) :
    flags.skip (')' :: more) = ')' :: more := by
  simp [Flags.skip, skipBlank, isBlank_close]

end Flags

namespace IsOpenAt

variable {α β : Type}
variable {flags : Flags}
variable {read other : Text → Except Fault (α × Text)}
variable {text : Text}

/- It is enough to leave what follows as it is. -/
theorem of_append
    (hRead :
      ∀ value, read text = .ok (value, []) →
        ∀ more, read (text ++ more) = .ok (value, more)) :
    IsOpenAt flags read text := by
  intro value hOk
  refine ⟨[], flags.skip_nil, fun more _ => ?_⟩
  rw [hRead value hOk, List.nil_append, flags.skip_close]

/- A reader that takes nothing is open. -/
theorem pure
    (value : α) :
    IsOpenAt flags (fun text => .ok (value, text)) text := by
  refine .of_append fun found hOk more => ?_
  cases hOk
  rfl

/- So is one that always fails. -/
theorem error
    (fault : Fault) :
    IsOpenAt (α := α) flags (fun _ => .error fault) text := by
  intro value hOk
  cases hOk

/- A reader that takes a first character is open behind it. -/
theorem cons
    {c : Char}
    (hRest :
      IsOpenAt flags (fun rest => read (c :: rest)) text) :
    IsOpenAt flags read (c :: text) :=
  hRest

/- Readers that agree behind a first character are alike. -/
theorem of_head
    {c : Char}
    (hSame : ∀ rest, read (c :: rest) = other (c :: rest))
    (hOther : IsOpenAt flags other (c :: text)) :
    IsOpenAt flags read (c :: text) := by
  refine .cons ?_
  simp only [hSame]
  exact hOther

/- A choice that does not depend on the text is open. -/
theorem ite
    {condition : Prop}
    [Decidable condition]
    (hThen : condition → IsOpenAt flags read text)
    (hElse : ¬ condition → IsOpenAt flags other text) :
    IsOpenAt flags
      (fun text =>
        if condition then read text else other text)
      text := by
  by_cases hCondition : condition
  · simpa only [if_pos hCondition] using hThen hCondition
  · simpa only [if_neg hCondition] using hElse hCondition

/- One open reader behind another is open. -/
theorem bind
    {first : Text → Except Fault (β × Text)}
    (next : β → Text → Except Fault (α × Text))
    (hLocal : IsLocalAt first text)
    (hFirst : IsOpenAt flags first text)
    (hNext : ∀ value rest, IsOpenAt flags (next value) rest) :
    IsOpenAt flags
      (fun text =>
        first text >>= fun found => next found.1 found.2)
      text := by
  intro value hOk
  rcases (Sequence.bind_eq_ok_iff _ _ _).mp hOk with
    ⟨⟨middle, rest⟩, hMiddle, hBehind⟩
  dsimp only at hBehind
  by_cases hRest : rest = []
  · subst hRest
    rcases hFirst hMiddle with ⟨last, hLast, hOn⟩
    rcases Flags.skip_append_close hLast with hLeft | hLost
    · rcases hNext middle [] hBehind with
        ⟨other, hOther, hMore⟩
      refine ⟨other, hOther, fun more hLine => ?_⟩
      simp only [hOn more hLine, hLeft]
      exact hMore more hLine
    · refine ⟨last, hLast, fun more hLine => ?_⟩
      simp only [hOn more hLine, hLost more hLine]
      exact hBehind
  · rcases hNext middle rest hBehind with
      ⟨last, hLast, hMore⟩
    refine ⟨last, hLast, fun more hLine => ?_⟩
    simp only [(hLocal hMiddle).2 hRest]
    exact hMore more hLine

/-
  If nothing can be read of nothing, the reader in front
  need only be local.
-/
theorem bind_of_next
    {first : Text → Except Fault (β × Text)}
    (next : β → Text → Except Fault (α × Text))
    (hFirst : IsLocalAt first text)
    (hNext : ∀ value rest, IsOpenAt flags (next value) rest)
    (hNone :
      ∀ value found, next value [] ≠ .ok found) :
    IsOpenAt flags
      (fun text =>
        first text >>= fun found => next found.1 found.2)
      text := by
  intro value hOk
  rcases (Sequence.bind_eq_ok_iff _ _ _).mp hOk with
    ⟨⟨middle, rest⟩, hMiddle, hBehind⟩
  have hRest : rest ≠ [] := by
    rintro rfl
    exact hNone _ _ hBehind
  rcases hNext middle rest hBehind with ⟨last, hLast, hMore⟩
  refine ⟨last, hLast, fun more hLine => ?_⟩
  simp only [(hFirst hMiddle).2 hRest]
  exact hMore more hLine

/- An open reader behind blanks is open. -/
theorem skip
    (read : Text → Except Fault (α × Text))
    (hRead :
      ∀ rest, rest.length ≤ text.length →
        IsOpenAt flags read rest) :
    IsOpenAt flags
      (fun text => read (flags.skip text)) text := by
  intro value hOk
  have hRest := hRead _ (flags.length_skip_le text) hOk
  by_cases hNone : flags.skip text = []
  · simp only [hNone] at hOk hRest
    rcases Flags.skip_append_close hNone with hLeft | hLost
    · simpa only [hLeft, List.nil_append] using hRest
    · refine ⟨text, hNone, fun more hLine => ?_⟩
      simp only [hLost more hLine, hOk]
  · rcases hRest with ⟨last, hLast, hMore⟩
    refine ⟨last, hLast, fun more hLine => ?_⟩
    simp only [flags.skip_append rfl hNone]
    exact hMore more hLine

end IsOpenAt

end Regex

end RequestRouter

------------------------------------------------------------
-- Group Openings
------------------------------------------------------------

namespace RequestRouter

namespace Regex

/- The reader of inline flags is open. -/
theorem isOpenAt_readFlags
    (flags : Flags)
    (reader : FlagReader)
    (text : Text) :
    IsOpenAt flags (readFlags reader) text := by
  induction text generalizing reader with
  | nil => exact .of_append (by simp [readFlags])
  | cons c rest ih =>
      refine .cons ?_
      simp only [readFlags]
      refine .ite (fun _ => ?_) (fun _ => ?_)
      · refine .ite (fun _ => .error _) (fun _ => ?_)
        refine .ite (fun _ => .pure _) (fun _ => ?_)
        exact .ite (fun _ => .error _) (fun _ => .pure _)
      · refine .ite (fun _ => ?_) (fun _ => ?_)
        · exact .ite (fun _ => .error _) (fun _ => ih _)
        · cases reader.flags.set? (!reader.negating) c with
          | none => exact .error _
          | some flags =>
              exact .ite (fun _ => .error _) (fun _ => ih _)

/- The reader of the characters of a name is open. -/
theorem isOpenAt_readNameChars
    (flags : Flags)
    (first : Bool)
    (text : Text) :
    IsOpenAt flags (readNameChars first) text := by
  induction text generalizing first with
  | nil => exact .of_append (by simp [readNameChars])
  | cons c rest ih =>
      refine .cons ?_
      simp only [readNameChars]
      refine .ite (fun _ => .pure _) (fun _ => ?_)
      refine .ite (fun _ => ?_) (fun _ => .error _)
      exact
        .bind (fun name behind => .ok (c :: name, behind))
          (isLocalAt_readNameChars false rest) (ih false)
          fun _ _ => .pure _

/- The reader of a named capture is open. -/
theorem isOpenAt_readNamed
    (flags : Flags)
    (taken : List Text)
    (text : Text) :
    IsOpenAt flags (readNamed taken) text := by
  have hName : IsOpenAt flags (readGroupName taken) text := by
    intro name hRead
    rw [readGroupName_eq_ok_iff] at hRead
    rcases isOpenAt_readNameChars flags true text hRead.1 with
      ⟨last, hLast, hMore⟩
    refine ⟨last, hLast, fun more hLine => ?_⟩
    rw [readGroupName_eq_ok_iff]
    exact ⟨hMore more hLine, hRead.2⟩
  exact
    .bind
      (fun name rest =>
        .ok (GroupOpening.capture (some name), rest))
      (isLocalAt_readGroupName taken text) hName
      fun _ _ => .pure _

/- The reader of an opening without blanks is open. -/
theorem isOpenAt_readOpening
    (flags : Flags)
    (taken : List Text)
    (text : Text) :
    IsOpenAt flags (readOpening flags taken) text := by
  intro value hRead
  unfold readOpening at hRead
  split at hRead
  case h_1 | h_2 | h_3 | h_4 | h_7 => cases hRead
  case h_5 rest =>
      exact isOpenAt_readNamed flags taken rest hRead
  case h_6 rest hEq hNot =>
      cases rest with
      | nil =>
          simp [readNamed, readGroupName, bind, Except.bind]
            at hRead
      | cons c rest =>
          have hOther : c ≠ '=' ∧ c ≠ '!' := by
            constructor
            · rintro rfl
              exact hEq _ rfl
            · rintro rfl
              exact hNot _ rfl
          have hOpen :=
            isOpenAt_readNamed flags taken (c :: rest) hRead
          simpa [readOpening, hOther] using hOpen
  case h_8 rest hEq hNot _ _ hNamed hAngle hEnd =>
      cases rest with
      | nil => exact (hEnd rfl).elim
      | cons c rest =>
          have hOther :
              c ≠ '=' ∧ c ≠ '!' ∧ c ≠ '<' ∧ c ≠ 'P' := by
            refine ⟨?_, ?_, ?_, ?_⟩ <;> rintro rfl
            · exact hEq _ rfl
            · exact hNot _ rfl
            · exact hAngle _ rfl
            · simp [readFlags, Flags.set?] at hRead
          have hOpen :=
            isOpenAt_readFlags flags _ (c :: rest) hRead
          simpa [readOpening, hOther] using hOpen
  case h_9 hSign =>
      cases hRead
      refine ⟨[], flags.skip_nil, fun more _ => ?_⟩
      simp [readOpening, flags.skip_close]

/- The reader of a group opening is open. -/
theorem isOpenAt_readGroupOpening
    (flags : Flags)
    (taken : List Text)
    (text : Text) :
    IsOpenAt flags (readGroupOpening flags taken) text := by
  rw [funext (readGroupOpening_eq flags taken)]
  exact
    .skip (readOpening flags taken) fun rest _ =>
      isOpenAt_readOpening flags taken rest

end Regex

end RequestRouter

------------------------------------------------------------
-- Repetition Operators
------------------------------------------------------------

namespace RequestRouter

namespace Regex

/- The reader of the sign of a lazy operator is open. -/
theorem isOpenAt_readGreed
    {α : Type}
    (flags : Flags)
    (value : Bool → α)
    (text : Text) :
    IsOpenAt flags
      (fun text =>
        .ok
          (value (readGreed flags text).1,
            (readGreed flags text).2))
      text := by
  cases text with
  | nil =>
      intro greedy hRead
      cases hRead
      refine ⟨[], flags.skip_nil, fun more _ => ?_⟩
      simp [readGreed, flags.skip_close]
  | cons c rest =>
      by_cases hSign : c = '?'
      · subst hSign
        exact .cons (.pure (value flags.swapGreed))
      · intro greedy hRead
        simp [readGreed, hSign] at hRead

/- The reader of an operator is open. -/
theorem isOpenAt_readQuantifier
    (flags : Flags)
    (nothing : Bool)
    (sign : Char)
    (text : Text) :
    IsOpenAt flags (readQuantifier flags nothing sign)
      text := by
  unfold readQuantifier
  refine .ite (fun _ => ?_) (fun _ => ?_)
  · refine .ite (fun _ => .error _) (fun _ => ?_)
    intro quantifier hRead
    rcases (Sequence.bind_eq_ok_iff _ _ _).mp hRead with
      ⟨⟨min, max, rest⟩, hCounts, hRest⟩
    rcases exists_blanks_of_readCounts hCounts with
      ⟨last, rfl, -, hMore⟩
    have hBehind :
        IsOpenAt flags
          (fun text =>
            if max.any (· < min) then .error .countedOrder
            else
              .ok
                (Quantifier.mk min max
                    (readGreed flags (flags.skip text)).1,
                  (readGreed flags (flags.skip text)).2))
          last :=
      .ite (fun _ => .error _) fun _ =>
        .skip
          (fun text =>
            .ok
              (Quantifier.mk min max (readGreed flags text).1,
                (readGreed flags text).2))
          fun text _ => isOpenAt_readGreed flags _ text
    simpa only [hMore, bind, Except.bind] using hBehind hRest
  · exact
      .ite (fun _ => .error _) fun _ =>
        isOpenAt_readGreed flags _ text

end Regex

end RequestRouter

------------------------------------------------------------
-- Escapes
------------------------------------------------------------

namespace RequestRouter

namespace Regex

/- The reader of a fixed number of digits is open. -/
theorem isOpenAt_readFixedHex
    (flags : Flags)
    (count value : Nat)
    (text : Text) :
    IsOpenAt flags (readFixedHex flags count value) text := by
  induction count generalizing value text with
  | zero =>
      simp only [readFixedHex]
      exact .pure _
  | succ count ih =>
      cases text with
      | nil => exact .of_append (by simp [readFixedHex])
      | cons c rest =>
          refine .cons ?_
          simp only [readFixedHex]
          cases hexValue? c with
          | none => exact .error _
          | some digit =>
              exact
                .skip
                  (readFixedHex flags count
                    (16 * value + digit))
                  fun behind _ => ih _ behind

/- The reader of digits in braces is open. -/
theorem isOpenAt_readBracedHex
    (flags : Flags)
    (value : Nat)
    (started : Bool)
    (text : Text) :
    IsOpenAt flags (readBracedHex flags value started)
      text := by
  induction hLength : text.length using Nat.strongRecOn
    generalizing text value started with
  | ind length ih =>
      cases text with
      | nil => exact .of_append (by simp [readBracedHex])
      | cons c rest =>
          refine .cons ?_
          simp only [readBracedHex]
          refine .ite (fun _ => ?_) (fun _ => ?_)
          · refine .ite (fun _ => ?_) (fun _ => .error _)
            exact
              .skip (fun rest => .ok (value, rest))
                fun _ _ => .pure _
          · cases hexValue? c with
            | none => exact .error _
            | some digit =>
                refine
                  .skip
                    (readBracedHex flags
                      (16 * value + digit) true)
                    fun behind hShort => ?_
                refine ih behind.length ?_ _ _ behind rfl
                rw [← hLength, List.length_cons]
                exact Nat.lt_succ_of_le hShort

/- The reader of a hexadecimal escape is open. -/
theorem isOpenAt_readHex
    (flags : Flags)
    (digits : Nat)
    (text : Text) :
    IsOpenAt flags (readHex flags digits) text := by
  refine .skip (readHexDigits flags digits) fun text _ => ?_
  have hScalar :
      ∀ fault value rest,
        IsOpenAt flags (scalarExpr flags fault value)
          rest := by
    intro fault value rest
    unfold scalarExpr
    cases scalar? value with
    | none => exact .error _
    | some c => exact .pure _
  cases text with
  | nil => exact .of_append (by simp [readHexDigits])
  | cons c rest =>
      by_cases hBrace : c = '{'
      · subst hBrace
        refine .cons ?_
        simp only [readHexDigits_brace]
        exact
          .bind (scalarExpr flags .hexBraceInvalid)
            (.skip flags (readBracedHex flags 0 false)
              fun behind _ =>
                isLocalAt_readBracedHex flags 0 false behind)
            (.skip (readBracedHex flags 0 false)
              fun behind _ =>
                isOpenAt_readBracedHex flags 0 false behind)
            fun value => hScalar _ value
      · exact
          .of_head (readHexDigits_of_ne flags digits hBrace)
            (.bind (scalarExpr flags .hexFixedInvalid)
              (isLocalAt_readFixedHex flags digits 0 _)
              (isOpenAt_readFixedHex flags digits 0 _)
              fun value => hScalar _ value)

/- The reader of a word boundary is open. -/
theorem isOpenAt_readBoundary
    (flags : Flags)
    (text : Text) :
    IsOpenAt flags (readBoundary flags) text := by
  intro value hRead
  unfold readBoundary at hRead
  split at hRead
  case h_1 inner =>
      split at hRead
      case h_1 => cases hRead
      case h_2 c rest hSkip =>
          split at hRead
          case isFalse => cases hRead
          case isTrue hName =>
              split at hRead
              case h_2 => cases hRead
              case h_1 name left hFound =>
                  split at hRead
                  case h_2 => cases hRead
                  case h_1 condition hNamed =>
                      cases hRead
                      refine
                        ⟨[], flags.skip_nil, fun more _ => ?_⟩
                      have hAgain :=
                        Except.ok.inj
                          ((isLocalAt_readBoundaryName flags _
                            (congrArg Except.ok hFound)).2
                              (by simp) (')' :: more))
                      have hText :=
                        flags.skip_append hSkip (by simp)
                          (')' :: more)
                      simp only [List.cons_append]
                        at hText hAgain
                      simp [readBoundary, hText, hName,
                        hAgain, hNamed, flags.skip_close]
  case h_2 =>
      cases hRead
      refine ⟨[], flags.skip_nil, fun more _ => ?_⟩
      simp [readBoundary, flags.skip_close]

/- The reader of an escape is open. -/
theorem isOpenAt_readEscape
    (flags : Flags)
    (text : Text) :
    IsOpenAt flags (readEscape flags) text := by
  cases text with
  | nil => exact .of_append (by simp [readEscape])
  | cons c rest =>
      refine .cons ?_
      simp only [readEscape]
      refine .ite (fun _ => .error _) (fun _ => ?_)
      refine .ite (fun _ => .error _) (fun _ => ?_)
      refine
        .ite (fun _ => isOpenAt_readHex flags 2 rest)
          (fun _ => ?_)
      refine
        .ite (fun _ => isOpenAt_readHex flags 4 rest)
          (fun _ => ?_)
      refine
        .ite (fun _ => isOpenAt_readHex flags 8 rest)
          (fun _ => ?_)
      refine
        .ite (fun _ => isOpenAt_readBoundary flags rest)
          (fun _ => ?_)
      refine .ite (fun _ => .pure _) (fun _ => ?_)
      cases classEscape? c with
      | some item => exact .pure _
      | none =>
          cases controlCharacter? c with
          | some control => exact .pure _
          | none =>
              cases assertionEscape? c with
              | some condition => exact .pure _
              | none => exact .error _

end Regex

end RequestRouter

------------------------------------------------------------
-- Bracket Classes
------------------------------------------------------------

namespace RequestRouter

namespace Regex

/- No items of a class can be read of nothing. -/
theorem readClassItems_nil
    (flags : Flags)
    (items : List ClassItem)
    (fuel : Nat)
    (found : List ClassItem × Text) :
    readClassItems flags items fuel [] ≠ .ok found := by
  cases fuel <;> simp [readClassItems, flags.skip_nil]

/- The reader of the items of a class is open. -/
theorem isOpenAt_readClassItems
    (flags : Flags)
    (items : List ClassItem)
    (fuel : Nat)
    (text : Text) :
    IsOpenAt flags (readClassItems flags items fuel)
      text := by
  induction fuel generalizing items text with
  | zero => exact .error _
  | succ fuel ih =>
      refine
        .skip (readClassItemsFrom flags items fuel)
          fun text _ => ?_
      cases text with
      | nil => exact .of_append (by simp [readClassItemsFrom])
      | cons c rest =>
          by_cases hClose : c = ']'
          case pos =>
              subst hClose
              exact .cons (.pure _)
          by_cases hOpen : c = '['
          case pos =>
              subst hOpen
              refine .cons fun found hRead => ?_
              simp only [readClassItemsFrom] at hRead ⊢
              split at hRead
              case h_2 => cases hRead
              case h_1 item inner hNamed =>
                  have hInner := ih _ inner hRead
                  simpa only
                    [(readNamedClass?_append hNamed).2]
                    using hInner
          cases rest with
          | nil =>
              intro found hRead
              have hPlain :
                  readClassItemsFrom flags items fuel [c] =
                    readClassRange flags [c] >>= fun read =>
                      readClassItems flags
                        (items ++ read.1) fuel read.2 := by
                simp [readClassItemsFrom, hClose, hOpen]
              rw [hPlain] at hRead
              rcases (Sequence.bind_eq_ok_iff _ _ _).mp hRead with
                ⟨range, hRange, -⟩
              exact (readClassRange_single _ _ _ hRange).elim
          | cons d inner =>
              by_cases hPair :
                  c = d ∧ (c = '&' ∨ c = '-' ∨ c = '~')
              · rcases hPair with ⟨rfl, rfl | rfl | rfl⟩
                · exact .cons (.cons (.error _))
                · exact .cons (.cons (.error _))
                · exact .cons (.cons (.error _))
              have hPlain :
                  ∀ inner,
                    readClassItemsFrom flags items fuel
                        (c :: d :: inner) =
                      readClassRange flags
                          (c :: d :: inner) >>= fun read =>
                        readClassItems flags
                          (items ++ read.1) fuel read.2 := by
                intro inner
                unfold readClassItemsFrom
                split <;> simp_all
              have hBoth :=
                IsOpenAt.bind_of_next
                  (fun more rest =>
                    readClassItems flags (items ++ more) fuel
                      rest)
                  (isLocalAt_readClassRange flags
                    (c :: d :: inner))
                  (fun more rest => ih (items ++ more) rest)
                  fun more found =>
                    readClassItems_nil flags _ fuel found
              refine .cons (.cons ?_)
              simp only [hPlain]
              exact hBoth

/- The reader of all items of a class is open. -/
theorem isOpenAt_readClassItems_all
    (flags : Flags)
    (items : List ClassItem)
    (text : Text) :
    IsOpenAt flags
      (fun text =>
        readClassItems flags items (text.length + 1) text)
      text := by
  intro found hRead
  rcases isOpenAt_readClassItems _ _ _ _ hRead with
    ⟨last, hLast, hMore⟩
  refine ⟨last, hLast, fun more hLine => ?_⟩
  refine readClassItems_of_le (hMore more hLine) ?_
  rw [List.length_append]
  omega

/- No set of a class can be read of nothing. -/
theorem readSet_nil
    (flags : Flags)
    (negated : Bool)
    (first : List ClassItem)
    (found : CharSet × Text) :
    readSet flags negated first [] ≠ .ok found := by
  intro hOk
  rcases (Sequence.bind_eq_ok_iff _ _ _).mp hOk with
    ⟨read, hRead, -⟩
  exact readClassItems_nil flags _ _ _ hRead

/- The reader of a set is open. -/
theorem isOpenAt_readSet
    (flags : Flags)
    (negated : Bool)
    (first : List ClassItem)
    (text : Text) :
    IsOpenAt flags (readSet flags negated first) text :=
  .bind
    (fun items text =>
      .ok (CharSet.ofItems negated flags.ignoreCase items, text))
    (isLocalAt_readClassItems_all flags first text)
    (isOpenAt_readClassItems_all flags first text)
    fun _ _ => .pure _

/- The reader of a set behind dashes is open. -/
theorem isOpenAt_readSetBehindDashes
    (flags : Flags)
    (negated : Bool)
    (dashes : List ClassItem)
    (text : Text) :
    IsOpenAt flags (readSetBehindDashes flags negated dashes)
      text :=
  .bind_of_next (readSet flags negated)
    (isLocalAt_readFirstBracket flags dashes text)
    (isOpenAt_readSet flags negated)
    (readSet_nil flags negated)

/- The reader of a set behind its negation is open. -/
theorem isOpenAt_readSetBehindNegation
    (flags : Flags)
    (negated : Bool)
    (text : Text) :
    IsOpenAt flags (readSetBehindNegation flags negated)
      text := by
  refine
    .bind_of_next (readSetBehindDashes flags negated)
      (isLocalAt_readLeadingDashes flags [] text)
      (isOpenAt_readSetBehindDashes flags negated)
      fun dashes found => ?_
  have hFirst :
      readFirstBracket flags dashes [] = .ok (dashes, []) := by
    cases dashes <;> rfl
  rw [readSetBehindDashes, hFirst]
  exact readSet_nil flags negated dashes found

/- The reader of a class is open. -/
theorem isOpenAt_readBracket
    (flags : Flags)
    (text : Text) :
    IsOpenAt flags (readBracket flags) text := by
  have hNone :
      ∀ negated found,
        readSetBehindNegation flags negated [] ≠
          .ok found := by
    intro negated found
    have hDashes :
        readLeadingDashes flags [] [] = .ok ([], []) := by
      simp [readLeadingDashes]
    rw [readSetBehindNegation, hDashes]
    exact readSet_nil flags negated [] found
  have hRead :
      IsOpenAt flags
        (fun text =>
          readNegation flags (flags.skip text) >>= fun front =>
            readSetBehindNegation flags front.1 front.2)
        text :=
    .bind_of_next (readSetBehindNegation flags)
      (.skip flags (readNegation flags) fun rest _ =>
        isLocalAt_readNegation flags rest)
      (isOpenAt_readSetBehindNegation flags) hNone
  simpa only [← readBracket_eq] using hRead

end Regex

end RequestRouter

------------------------------------------------------------
-- Items
------------------------------------------------------------

namespace RequestRouter

namespace Regex

namespace Builder

/- The reader of the opening of a group is open. -/
theorem isOpenAt_readGroup
    (builder : Builder)
    (text : Text) :
    IsOpenAt builder.flags builder.readGroup text := by
  have hRead :
      IsOpenAt builder.flags
        (fun text =>
          readGroupOpening builder.flags builder.names text >>=
            fun found =>
              builder.afterOpening found.1 >>= fun opened =>
                .ok (opened, found.2))
        text := by
    refine
      .bind
        (fun opening text =>
          builder.afterOpening opening >>= fun opened =>
            .ok (opened, text))
        (isLocalAt_readGroupOpening _ _ text)
        (isOpenAt_readGroupOpening _ _ text)
        fun opening rest => ?_
    cases builder.afterOpening opening with
    | error fault => exact .error fault
    | ok opened => exact .pure opened
  simpa only [← readGroup_eq] using hRead

/- The reader of an item is open behind its first sign. -/
theorem isOpenAt_readItem
    (builder : Builder)
    (c : Char)
    (text : Text) :
    IsOpenAt builder.flags (builder.readItem c) text := by
  unfold readItem
  refine
    .ite (fun _ => builder.isOpenAt_readGroup text)
      fun _ => ?_
  refine .ite (fun _ => ?_) fun _ => ?_
  · cases builder.closeGroup with
    | error fault => exact .error fault
    | ok closed => exact .pure closed
  refine .ite (fun _ => .pure _) fun _ => ?_
  refine .ite (fun _ => ?_) fun _ => ?_
  · exact
      .bind
        (fun chars rest =>
          .ok (builder.push (.set chars), rest))
        (isLocalAt_readBracket builder.flags text)
        (isOpenAt_readBracket builder.flags text)
        fun _ _ => .pure _
  refine .ite (fun _ => ?_) fun _ => ?_
  · exact
      .bind
        (fun quantifier rest =>
          .ok (builder.quantify quantifier, rest))
        (isLocalAt_readQuantifier builder.flags
          builder.items.isEmpty c text)
        (isOpenAt_readQuantifier builder.flags
          builder.items.isEmpty c text)
        fun _ _ => .pure _
  refine .ite (fun _ => ?_) fun _ => .pure _
  exact
    .bind
      (fun item rest => .ok (builder.push item, rest))
      (isLocalAt_readEscape builder.flags text)
      (isOpenAt_readEscape builder.flags text)
      fun _ _ => .pure _

end Builder

end Regex

end RequestRouter

------------------------------------------------------------
-- Sources That Stand on Their Own
------------------------------------------------------------

namespace RequestRouter

namespace Regex

namespace Builder

/- At the end of a source no group is open. -/
theorem finish_eq_ok_iff
    (builder : Builder)
    (e : Expr) :
    builder.finish = .ok e ↔
      builder.scopes = [] ∧ builder.body = e := by
  unfold finish
  split
  case isTrue hNone =>
      simp [List.isEmpty_iff.mp hNone]
  case isFalse hSome =>
      simp only [List.isEmpty_iff] at hSome
      simp [hSome]

/-
  Whether a closing parenthesis behind a text is never read
  inside of a group, since it is lost in a comment.
-/
def LosesClose
    (builder : Builder)
    (text : Text) : Prop :=
  ∀ ⦃count outer names more reading⦄,
    outer ≠ [] → '\n' ∉ more →
      ¬ (builder.within count outer names).Reads
          (text ++ ')' :: more) reading

/- Where nothing but blanks is left the reading ends. -/
theorem finish_of_read
    {builder : Builder}
    {fuel : Nat}
    {text : Text}
    {e : Expr}
    (hSkip : builder.flags.skip text = [])
    (hRead : builder.read fuel text = .ok e) :
    builder.finish = .ok e := by
  cases fuel with
  | zero => exact hRead
  | succ fuel =>
      rw [read, hSkip] at hRead
      exact hRead

/- A group that is open at the end of a pattern is a fault. -/
theorem not_reads_of_skip
    {builder : Builder}
    {count : Nat}
    {outer : List Scope}
    {names : List Text}
    (hOuter : outer ≠ [])
    {text : Text}
    (hSkip : builder.flags.skip text = [])
    (reading : Reading) :
    ¬ (builder.within count outer names).Reads text
        reading := by
  rintro ⟨-, fuel, hFuel, hRead⟩
  have hInner :
      (builder.within count outer names).flags.skip text =
        [] :=
    hSkip
  have hScopes :=
    ((finish_eq_ok_iff _ _).mp
      (finish_of_read hInner hRead)).1
  simp [within, hOuter] at hScopes

/- Nothing but blanks is a body, or loses the parenthesis. -/
theorem exists_readBody_of_skip
    {builder : Builder}
    {text : Text}
    (hSkip : builder.flags.skip text = [])
    {e : Expr}
    (hFinish : builder.finish = .ok e)
    (fuel : Nat) :
    (∃ final,
        builder.readBody (fuel + 1) (text ++ [')']) =
            .ok final ∧
          final.body = e) ∨
      builder.LosesClose text := by
  rcases (finish_eq_ok_iff _ _).mp hFinish with
    ⟨hScopes, rfl⟩
  rcases Flags.skip_append_close hSkip with hLeft | hLost
  · refine Or.inl ⟨builder, ?_, rfl⟩
    rw [readBody, hLeft]
    simp [hScopes]
  · right
    intro count outer names more reading hOuter hLine
    exact not_reads_of_skip hOuter (hLost more hLine) reading

/-
  The parenthesis is lost behind an item if what is left of
  the text in front of it cannot be read inside of a group.
-/
theorem losesClose_of_readItem
    {builder next : Builder}
    {c : Char}
    {text rest : Text}
    (hSkip : builder.flags.skip text = c :: rest)
    {left : Text → Text}
    (hItem :
      ∀ more, '\n' ∉ more →
        builder.readItem c (rest ++ ')' :: more) =
          .ok (next, left more))
    (hNext :
      ∀ ⦃count outer names more reading⦄,
        outer ≠ [] → '\n' ∉ more →
          ¬ (next.within count outer names).Reads (left more)
            reading) :
    builder.LosesClose text := by
  intro count outer names more reading hOuter hLine hReads
  have hBoth :=
    builder.flags.skip_append hSkip (by simp) (')' :: more)
  rcases exists_readItem hReads hBoth with
    ⟨found, behind, hFound, hBehind⟩
  rcases within_of_readItem (hItem more hLine) hFound with
    ⟨rfl, names, rfl⟩
  exact hNext hOuter hLine hBehind

/- A last item is a body, or loses the parenthesis. -/
theorem exists_readBody_of_last
    {builder next : Builder}
    {c : Char}
    {text rest : Text}
    (hSkip : builder.flags.skip text = c :: rest)
    (hOpen : ¬(c = ')' ∧ builder.scopes.isEmpty = true))
    (hItem : builder.readItem c rest = .ok (next, []))
    {e : Expr}
    (hFinish : next.finish = .ok e)
    (fuel : Nat) :
    (∃ final,
        builder.readBody (fuel + 2) (text ++ [')']) =
            .ok final ∧
          final.body = e) ∨
      builder.LosesClose text := by
  rcases (finish_eq_ok_iff _ _).mp hFinish with
    ⟨hScopes, rfl⟩
  rcases isOpenAt_readItem builder c rest hItem with
    ⟨last, hLast, hOn⟩
  rcases Flags.skip_append_close hLast with hLeft | hLost
  · refine Or.inl ⟨next, ?_, rfl⟩
    rw [readBody, builder.flags.skip_append hSkip (by simp),
      List.cons_append]
    simp only [if_neg hOpen, hOn [] (by simp), hLeft, bind,
      Except.bind]
    simp [readBody, Flags.skip_close, hScopes]
  · right
    refine
      losesClose_of_readItem hSkip (fun more hLine => ?_)
        fun _ _ _ _ reading hOuter _ =>
          not_reads_of_skip hOuter next.flags.skip_nil reading
    rw [hOn more hLine, hLost more hLine]

/-
  A source that is read to its end is a body in front of a
  closing parenthesis, or else loses it.
-/
theorem exists_readBody_of_read
    {builder : Builder}
    {fuel : Nat}
    {text : Text}
    (hFuel : text.length < fuel)
    {e : Expr}
    (hRead : builder.read fuel text = .ok e) :
    (∃ final,
        builder.readBody (fuel + 1) (text ++ [')']) =
            .ok final ∧
          final.body = e) ∨
      builder.LosesClose text := by
  induction fuel generalizing builder text with
  | zero => exact absurd hFuel (Nat.not_lt_zero _)
  | succ fuel ih =>
      rw [read] at hRead
      split at hRead
      case h_1 hSkip =>
          exact exists_readBody_of_skip hSkip hRead _
      case h_2 c rest hSkip =>
          rcases (Sequence.bind_eq_ok_iff _ _ _).mp hRead with
            ⟨⟨next, behind⟩, hItem, hNext⟩
          have hOpen :
              ¬(c = ')' ∧ builder.scopes.isEmpty = true) := by
            rintro ⟨rfl, hNone⟩
            have hScopes := List.isEmpty_iff.mp hNone
            simp [readItem, closeGroup, hScopes, bind,
              Except.bind] at hItem
          by_cases hBehind : behind = []
          case pos =>
              subst hBehind
              exact
                exists_readBody_of_last hSkip hOpen hItem
                  (finish_of_read next.flags.skip_nil hNext) _
          rcases isLocalAt_readItem builder c rest hItem with
            ⟨hLength, hOn⟩
          have hShort := builder.flags.length_skip_le text
          rw [hSkip, List.length_cons] at hShort
          rcases ih (by omega) hNext with hBody | hLoses
          · left
            rw [readBody,
              builder.flags.skip_append hSkip (by simp),
              List.cons_append]
            simpa only [if_neg hOpen, hOn hBehind, bind,
              Except.bind] using hBody
          · exact
              Or.inr
                (losesClose_of_readItem hSkip
                  (fun more _ => hOn hBehind (')' :: more))
                  hLoses)

end Builder

/-
  A source that is read to its end on its own, and can be
  read between the parentheses and anchors of a constraint,
  is closed with the expression that it is read as.
-/
theorem closedBody?_of_read
    {source : Text}
    {e other : Expr}
    (hAlone :
      ({} : Builder).read (source.length + 1) source = .ok e)
    (hAnchored :
      parse ("^(?:".toList ++ source ++ ")$".toList) =
        .ok other) :
    ∃ groups, closedBody? source = some (e, groups) := by
  rcases
      Builder.exists_readBody_of_read (Nat.lt_succ_self _)
        hAlone with
    ⟨final, hBody, rfl⟩ | hLoses
  · refine ⟨final.groups, ?_⟩
    rw [closedBody?, hBody]
  · have hReads := Builder.reads_of_parse hAnchored
    have hText :
        "^(?:".toList ++ source ++ ")$".toList =
          ['^'] ++ '(' :: '?' :: ':' :: (source ++ [')', '$']) := by
      simp
    rw [hText] at hReads
    rcases
        isReadAs_anchor (Or.inl rfl) 0 hReads rfl rfl
          (by simp) with
      ⟨names, hGroup⟩
    have hInside :=
      Builder.reads_inside_of_reads _ hGroup rfl
    rw [Builder.inside_eq_within rfl] at hInside
    exact
      (hLoses (List.cons_ne_nil _ _) (by decide)
        hInside).elim

/- A source that has an expression on its own is closed as well. -/
theorem closedBody?_of_parse
    {source : Text}
    {e other : Expr}
    (hAlone : parse source = .ok e)
    (hAnchored :
      parse ("^(?:".toList ++ source ++ ")$".toList) =
        .ok other) :
    ∃ groups, closedBody? source = some (e, groups) :=
  closedBody?_of_read (Builder.read_of_parse hAlone) hAnchored

end Regex

end RequestRouter
