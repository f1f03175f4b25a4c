import RequestRouter.Proofs.Regex.Ending

/-
  How a text is read without a closing parenthesis that
  stands behind it.

  A reader of a part of a pattern leaves an end of its text.
  If a closing parenthesis stands behind the text, the reader
  either takes the parenthesis as well, or leaves it and reads
  the text in the same way without it.

  Key definition:
    * `Regex.IsCutAt`

  Main statements:
    * `Regex.isCutAt_readGroupOpening`
    * `Regex.isCutAt_readQuantifier`
    * `Regex.readEscape_cut`
-/

------------------------------------------------------------
-- Cut Readers
------------------------------------------------------------

namespace RequestRouter

namespace Regex

/-
  Whether a reader leaves an end of a text, and whether a
  closing parenthesis behind the text is of no concern to it:
  it reads the same without the parenthesis, and leaves it,
  or else it goes on and leaves no more than an end of what
  is `kept` and of what stands behind the parenthesis.
-/
structure IsCutAt
    {α : Type}
    (kept : Text)
    (read : Text → Except Fault (α × Text))
    (text : Text) : Prop where
  suffix :
    ∀ ⦃value behind⦄,
      read text = .ok (value, behind) → behind <:+ text
  cut :
    ∀ ⦃more⦄, '\n' ∉ more → ∀ ⦃value left⦄,
      read (text ++ ')' :: more) = .ok (value, left) →
        (∃ behind,
            left = behind ++ ')' :: more ∧
              read text = .ok (value, behind)) ∨
          left <:+ kept ++ more

/- What is behind blanks and comments ends the text. -/
theorem skipBlank_suffix
    (inComment : Bool)
    (text : Text) :
    skipBlank inComment text <:+ text := by
  induction text generalizing inComment with
  | nil => exact List.suffix_rfl
  | cons c rest ih =>
      have hRest := List.suffix_cons c rest
      unfold skipBlank
      split
      · exact (ih _).trans hRest
      · split
        · exact (ih _).trans hRest
        · split
          · exact (ih _).trans hRest
          · exact List.suffix_rfl

namespace Flags

/- What is not passed over ends the text. -/
theorem skip_suffix
    (flags : Flags)
    (text : Text) :
    flags.skip text <:+ text := by
  unfold skip
  split
  · exact skipBlank_suffix false text
  · exact List.suffix_rfl

/-
  What is passed over in front of a closing parenthesis is
  passed over without it, or the parenthesis is lost.
-/
theorem skip_append_cases
    (flags : Flags)
    (text : Text)
    {more : Text}
    (hLine : '\n' ∉ more) :
    flags.skip (text ++ ')' :: more) =
        flags.skip text ++ ')' :: more ∨
      flags.skip (text ++ ')' :: more) = [] := by
  by_cases hNone : flags.skip text = []
  · rw [hNone]
    exact (skip_append_close hNone).imp (· more) (· more hLine)
  · exact Or.inl (flags.skip_append rfl hNone _)

end Flags

/- What two readers leave ends the text. -/
theorem suffix_of_bind
    {α β : Type}
    {first : Text → Except Fault (β × Text)}
    {next : β → Text → Except Fault (α × Text)}
    {text behind : Text}
    {value : α}
    (hFirst :
      ∀ ⦃middle rest⦄,
        first text = .ok (middle, rest) → rest <:+ text)
    (hNext :
      ∀ middle rest ⦃value behind⦄,
        next middle rest = .ok (value, behind) →
          behind <:+ rest)
    (hRead :
      (first text >>= fun found => next found.1 found.2) =
        .ok (value, behind)) :
    behind <:+ text := by
  rcases (Sequence.bind_eq_ok_iff _ _ _).mp hRead with
    ⟨⟨middle, rest⟩, hMiddle, hBehind⟩
  exact (hNext middle rest hBehind).trans (hFirst hMiddle)

namespace IsCutAt

variable {α β : Type}
variable {kept : Text}
variable {read other : Text → Except Fault (α × Text)}
variable {text : Text}

/- A reader that takes nothing is cut. -/
theorem pure
    (value : α) :
    IsCutAt kept (fun text => .ok (value, text)) text where
  suffix found behind hRead := by
    cases hRead
    exact List.suffix_rfl
  cut more _ found left hRead := by
    cases hRead
    exact Or.inl ⟨text, rfl, rfl⟩

/- So is one that always fails. -/
theorem error
    (fault : Fault) :
    IsCutAt (α := α) kept (fun _ => .error fault) text where
  suffix _ _ hRead := by cases hRead
  cut _ _ _ _ hRead := by cases hRead

/-
  Nothing is cut if all of it is left and a parenthesis
  cannot be read.
-/
theorem nil
    (hNone :
      ∀ value behind, read [] = .ok (value, behind) →
        behind = [])
    (hClose :
      ∀ more found, read (')' :: more) ≠ .ok found) :
    IsCutAt kept read [] where
  suffix value behind hRead := by
    cases hNone value behind hRead
    exact List.suffix_rfl
  cut more _ value left hRead :=
    absurd hRead (hClose more (value, left))

/- A reader that takes a first character is cut behind it. -/
theorem cons
    {c : Char}
    (hRest : IsCutAt kept (fun rest => read (c :: rest)) text) :
    IsCutAt kept read (c :: text) where
  suffix _ _ hRead :=
    (hRest.suffix hRead).trans (List.suffix_cons c text)
  cut _ hLine _ _ hRead := hRest.cut hLine hRead

/- Readers that agree with a parenthesis and without are alike. -/
theorem of_eq
    (hAlone : read text = other text)
    (hSame :
      ∀ more,
        read (text ++ ')' :: more) =
          other (text ++ ')' :: more))
    (hOther : IsCutAt kept other text) :
    IsCutAt kept read text where
  suffix value behind hRead := by
    rw [hAlone] at hRead
    exact hOther.suffix hRead
  cut more hLine value left hRead := by
    rw [hSame] at hRead
    rw [hAlone]
    exact hOther.cut hLine hRead

/- So are those that succeed alike. -/
theorem of_iff
    (hSame :
      ∀ text found,
        read text = .ok found ↔ other text = .ok found)
    (hOther : IsCutAt kept other text) :
    IsCutAt kept read text where
  suffix value behind hRead :=
    hOther.suffix ((hSame _ _).mp hRead)
  cut more hLine value left hRead := by
    simp only [hSame] at hRead ⊢
    exact hOther.cut hLine hRead

/- So are those that agree behind a first character. -/
theorem of_head
    {c : Char}
    (hSame : ∀ rest, read (c :: rest) = other (c :: rest))
    (hOther : IsCutAt kept other (c :: text)) :
    IsCutAt kept read (c :: text) :=
  of_eq (hSame text) (fun more => hSame (text ++ ')' :: more))
    hOther

/- A choice that does not depend on the text is cut. -/
theorem ite
    {condition : Prop}
    [Decidable condition]
    (hThen : condition → IsCutAt kept read text)
    (hElse : ¬ condition → IsCutAt kept other text) :
    IsCutAt kept
      (fun text =>
        if condition then read text else other text)
      text := by
  by_cases hCondition : condition
  · simpa only [if_pos hCondition] using hThen hCondition
  · simpa only [if_neg hCondition] using hElse hCondition

/-
  A cut reader behind another one is cut if it passes over
  what the first one keeps.
-/
theorem bind_of_passes
    {first : Text → Except Fault (β × Text)}
    (next : β → Text → Except Fault (α × Text))
    (hFirst : IsCutAt kept first text)
    (hNext : ∀ value rest, IsCutAt [] (next value) rest)
    (hPasses :
      ∀ value ⦃more rest found left⦄,
        rest <:+ kept ++ more →
          next value rest = .ok (found, left) →
            left <:+ more) :
    IsCutAt []
      (fun text =>
        first text >>= fun found => next found.1 found.2)
      text where
  suffix _ _ hRead :=
    suffix_of_bind hFirst.suffix
      (fun value rest => (hNext value rest).suffix) hRead
  cut more hLine value left hRead := by
    rcases (Sequence.bind_eq_ok_iff _ _ _).mp hRead with
      ⟨⟨middle, rest⟩, hMiddle, hBehind⟩
    dsimp only at hBehind
    rcases hFirst.cut hLine hMiddle with
      ⟨front, rfl, hFront⟩ | hRest
    · rw [hFront]
      exact (hNext middle front).cut hLine hBehind
    · exact Or.inr (hPasses middle hRest hBehind)

/- If nothing is kept, any cut reader may stand behind. -/
theorem bind
    {first : Text → Except Fault (β × Text)}
    (next : β → Text → Except Fault (α × Text))
    (hFirst : IsCutAt [] first text)
    (hNext : ∀ value rest, IsCutAt [] (next value) rest) :
    IsCutAt []
      (fun text =>
        first text >>= fun found => next found.1 found.2)
      text := by
  apply bind_of_passes next hFirst hNext
  intro value more rest found left hRest hRead
  exact ((hNext value rest).suffix hRead).trans hRest

/-
  A cut reader of the rest behind blanks is cut: a comment
  that hides the parenthesis leaves nothing.
-/
theorem skip
    (flags : Flags)
    (read : Text → Except Fault (α × Text))
    (hRead :
      ∀ rest, rest.length ≤ text.length →
        IsCutAt kept read rest) :
    IsCutAt kept (fun text => read (flags.skip text)) text where
  suffix value behind hOk :=
    ((hRead _ (flags.length_skip_le text)).suffix hOk).trans
      (flags.skip_suffix text)
  cut more hLine value left hOk := by
    rcases flags.skip_append_cases text hLine with
      hLeft | hLost
    · rw [hLeft] at hOk
      exact
        (hRead _ (flags.length_skip_le text)).cut hLine hOk
    · rw [hLost] at hOk
      right
      have hEnd := (hRead [] (Nat.zero_le _)).suffix hOk
      exact hEnd.trans (List.nil_suffix)

/-
  A reader of nonempty text is cut as far as the parenthesis
  is kept.
-/
theorem nonempty
    (fault : Fault)
    (hRead : IsCutAt [')'] read text) :
    IsCutAt [')']
      (fun text =>
        if text = [] then .error fault else read text)
      text where
  suffix value behind hOk := by
    split at hOk
    case isTrue => cases hOk
    case isFalse => exact hRead.suffix hOk
  cut more hLine value left hOk := by
    have hBoth : text ++ ')' :: more ≠ [] := by simp
    simp only [if_neg hBoth] at hOk
    rcases hRead.cut hLine hOk with
      ⟨behind, rfl, hBehind⟩ | hLeft
    · by_cases hText : text = []
      · subst hText
        right
        have hNone := hRead.suffix hBehind
        rw [List.suffix_nil] at hNone
        subst hNone
        exact List.suffix_rfl
      · left
        exact ⟨behind, rfl, by rw [if_neg hText, hBehind]⟩
    · exact Or.inr hLeft

end IsCutAt

/- Whether a reader takes the first character of any text. -/
def TakesFirst
    {α : Type}
    (read : Text → Except Fault (α × Text)) : Prop :=
  ∀ ⦃c rest value behind⦄,
    read (c :: rest) = .ok (value, behind) →
      behind <:+ rest

/- Behind any reader, one that takes a character does so. -/
theorem TakesFirst.bind
    {α β : Type}
    {first : Text → Except Fault (β × Text)}
    {next : β → Text → Except Fault (α × Text)}
    (hFirst :
      ∀ ⦃text value behind⦄,
        first text = .ok (value, behind) → behind <:+ text)
    (hNext : ∀ value, TakesFirst (next value))
    (hSuffix :
      ∀ other ⦃text value behind⦄,
        next other text = .ok (value, behind) →
          behind <:+ text) :
    TakesFirst fun text =>
      first text >>= fun found => next found.1 found.2 := by
  intro c rest value behind hRead
  rcases (Sequence.bind_eq_ok_iff _ _ _).mp hRead with
    ⟨⟨middle, left⟩, hMiddle, hBehind⟩
  rcases List.suffix_cons_iff.mp (hFirst hMiddle) with
    rfl | hLeft
  · exact hNext middle hBehind
  · exact (hSuffix middle hBehind).trans hLeft

/- So does one that reads on behind blanks. -/
theorem TakesFirst.skip
    {α : Type}
    (flags : Flags)
    {read : Text → Except Fault (α × Text)}
    (hRead : TakesFirst read)
    (hNone : ∀ found, read [] ≠ .ok found) :
    TakesFirst fun text => read (flags.skip text) := by
  intro c rest value behind hOk
  dsimp only at hOk
  have hSkip := flags.skip_suffix (c :: rest)
  cases hFront : flags.skip (c :: rest) with
  | nil =>
      rw [hFront] at hOk
      exact absurd hOk (hNone _)
  | cons d inner =>
      rw [hFront] at hOk hSkip
      have hBehind := hRead hOk
      rcases List.suffix_cons_iff.mp hSkip with hSame | hRest
      · cases hSame
        exact hBehind
      · exact hBehind.trans ((List.suffix_cons _ _).trans hRest)

/-
  If the parenthesis is kept, a cut reader that takes a
  character may stand behind.
-/
theorem IsCutAt.bind_of_takesFirst
    {α β : Type}
    {text : Text}
    {first : Text → Except Fault (β × Text)}
    (next : β → Text → Except Fault (α × Text))
    (hFirst : IsCutAt [')'] first text)
    (hNext : ∀ value rest, IsCutAt [] (next value) rest)
    (hTakes : ∀ value, TakesFirst (next value)) :
    IsCutAt []
      (fun text =>
        first text >>= fun found => next found.1 found.2)
      text := by
  apply bind_of_passes next hFirst hNext
  intro value more rest found left hRest hRead
  rcases List.suffix_cons_iff.mp hRest with rfl | hMore
  · exact hTakes value hRead
  · exact ((hNext value rest).suffix hRead).trans hMore

end Regex

end RequestRouter

------------------------------------------------------------
-- Group Openings
------------------------------------------------------------

namespace RequestRouter

namespace Regex

/- The reader of inline flags is cut. -/
theorem isCutAt_readFlags
    (reader : FlagReader)
    (text : Text) :
    IsCutAt [] (readFlags reader) text := by
  induction text generalizing reader with
  | nil =>
      refine ⟨fun _ _ hRead => ?_, fun more _ _ _ hRead => ?_⟩
      · simp [readFlags] at hRead
      · -- The parenthesis ends the flags, and is read.
        right
        simp only [List.nil_append, readFlags] at hRead
        grind
  | cons c rest ih =>
      refine .cons ?_
      simp only [readFlags]
      refine .ite (fun _ => ?_) (fun _ => ?_)
      · refine .ite (fun _ => .error _) (fun _ => ?_)
        refine .ite (fun _ => .pure _) (fun _ => ?_)
        exact .ite (fun _ => .error _) (fun _ => .pure _)
      · refine .ite (fun _ => ?_) (fun _ => ?_)
        · exact .ite (fun _ => .error _) (fun _ => ih _)
        · cases reader.flags.set? (!reader.negating) c with
          | none => exact .error _
          | some flags =>
              exact .ite (fun _ => .error _) (fun _ => ih _)

/- A closing parenthesis stands in no name. -/
theorem isNameChar_close
    (first : Bool) :
    isNameChar first ')' = false := by
  cases first <;> decide +kernel

/- The reader of the characters of a name is cut. -/
theorem isCutAt_readNameChars
    (first : Bool)
    (text : Text) :
    IsCutAt [] (readNameChars first) text := by
  induction text generalizing first with
  | nil =>
      exact
        .nil (by simp [readNameChars])
          (by simp [readNameChars, isNameChar_close])
  | cons c rest ih =>
      refine .cons ?_
      simp only [readNameChars]
      refine .ite (fun _ => .pure _) (fun _ => ?_)
      refine .ite (fun _ => ?_) (fun _ => .error _)
      exact
        .bind (fun name behind => .ok (c :: name, behind))
          (ih false) fun _ _ => .pure _

/- The reader of a group name is cut. -/
theorem isCutAt_readGroupName
    (taken : List Text)
    (text : Text) :
    IsCutAt [] (readGroupName taken) text where
  suffix name behind hRead := by
    rw [readGroupName_eq_ok_iff] at hRead
    exact (isCutAt_readNameChars true text).suffix hRead.1
  cut more hLine name left hRead := by
    rw [readGroupName_eq_ok_iff] at hRead
    rcases (isCutAt_readNameChars true text).cut hLine hRead.1
      with ⟨behind, rfl, hBehind⟩ | hLeft
    · left
      refine ⟨behind, rfl, ?_⟩
      rw [readGroupName_eq_ok_iff]
      exact ⟨hBehind, hRead.2⟩
    · exact Or.inr hLeft

/- The reader of a named capture is cut. -/
theorem isCutAt_readNamed
    (taken : List Text)
    (text : Text) :
    IsCutAt [] (readNamed taken) text :=
  .bind
    (fun name rest =>
      .ok (GroupOpening.capture (some name), rest))
    (isCutAt_readGroupName taken text) fun _ _ => .pure _

/- Behind an angle stands the name of a capture. -/
theorem isCutAt_readOpening_angle
    (flags : Flags)
    (taken : List Text)
    (text : Text) :
    IsCutAt []
      (fun rest =>
        readOpening flags taken ('?' :: '<' :: rest))
      text := by
  cases text with
  | nil =>
      exact
        .of_eq (by simp [readOpening])
          (by simp [readOpening])
          (isCutAt_readNamed taken [])
  | cons c rest =>
      by_cases hLook : c = '=' ∨ c = '!'
      · refine .cons ?_
        rcases hLook with rfl | rfl
        · exact .error .lookAround
        · exact .error .lookAround
      · rcases not_or.mp hLook with ⟨hEq, hNot⟩
        refine
          .of_head (fun rest => ?_)
            (isCutAt_readNamed taken (c :: rest))
        simp [readOpening, hEq, hNot]

/- A letter that is no flag is a fault. -/
theorem readOpening_unnamed
    (flags : Flags)
    (taken : List Text)
    {rest : Text}
    (hAngle : rest.head? ≠ some '<') :
    readOpening flags taken ('?' :: 'P' :: rest) =
      .error .flagUnrecognized := by
  cases rest with
  | nil => simp [readOpening, readFlags, Flags.set?]
  | cons c rest =>
      have hOther : c ≠ '<' := by simpa using hAngle
      simp [readOpening, readFlags, Flags.set?, hOther]

/- Behind a question mark stand a name or flags. -/
theorem isCutAt_readOpening_question
    (flags : Flags)
    (taken : List Text)
    (text : Text) :
    IsCutAt []
      (fun rest => readOpening flags taken ('?' :: rest))
      text := by
  cases text with
  | nil =>
      exact
        .nil (by simp [readOpening])
          (by simp [readOpening, readFlags])
  | cons c rest =>
      by_cases hLook : c = '=' ∨ c = '!'
      case pos =>
          refine .cons ?_
          rcases hLook with rfl | rfl
          · exact .error .lookAround
          · exact .error .lookAround
      by_cases hAngle : c = '<'
      case pos =>
          subst hAngle
          exact .cons (isCutAt_readOpening_angle flags taken rest)
      by_cases hNamed : c = 'P'
      case pos =>
          subst hNamed
          by_cases hName : rest.head? = some '<'
          · rcases List.head?_eq_some_iff.mp hName with
              ⟨name, rfl⟩
            exact .cons (.cons (isCutAt_readNamed taken name))
          · refine
              .cons
                (.of_eq ?_ (fun more => ?_)
                  (.error .flagUnrecognized))
            · exact readOpening_unnamed flags taken hName
            · apply readOpening_unnamed
              cases rest with
              | nil => simp
              | cons c rest => exact hName
      rcases not_or.mp hLook with ⟨hEq, hNot⟩
      refine
        .of_head (fun rest => ?_)
          (isCutAt_readFlags ⟨flags, false, false, []⟩
            (c :: rest))
      simp [readOpening, hEq, hNot, hAngle, hNamed]

/- The reader of a group opening is cut. -/
theorem isCutAt_readGroupOpening
    (flags : Flags)
    (taken : List Text)
    (text : Text) :
    IsCutAt [] (readGroupOpening flags taken) text := by
  rw [funext (readGroupOpening_eq flags taken)]
  refine
    .skip flags (readOpening flags taken) fun rest _ => ?_
  cases rest with
  | nil =>
      refine
        .of_eq ?_ (fun more => ?_)
          (.pure (GroupOpening.capture none))
      · rfl
      · simp [readOpening]
  | cons c rest =>
      by_cases hSign : c = '?'
      · subst hSign
        exact .cons (isCutAt_readOpening_question flags taken rest)
      · refine
          .of_head (fun rest => ?_)
            (.pure (GroupOpening.capture none))
        simp [readOpening, hSign]

end Regex

end RequestRouter

------------------------------------------------------------
-- Repetition Operators
------------------------------------------------------------

namespace RequestRouter

namespace Regex

/-
  A reader that takes wanted characters, with blanks behind
  each of them, is cut if a parenthesis is not wanted.
-/
theorem isCutAt_run
    (flags : Flags)
    (wanted : Char → Bool)
    (hClose : wanted ')' = false)
    {run : Text → List Char × Text}
    (hNil : run [] = ([], []))
    (hCons :
      ∀ c rest,
        run (c :: rest) =
          if wanted c then
            (c :: (run (flags.skip rest)).1,
              (run (flags.skip rest)).2)
          else ([], c :: rest))
    (text : Text) :
    IsCutAt [] (fun text => .ok (run text)) text := by
  induction hLength : text.length using Nat.strongRecOn
    generalizing text with
  | ind length ih =>
      cases text with
      | nil =>
          refine
            .of_eq ?_ (fun more => ?_) (.pure ([] : List Char))
          · rw [hNil]
          · rw [List.nil_append, hCons, hClose]
            rfl
      | cons c rest =>
          cases hWanted : wanted c with
          | false =>
              refine
                .of_head (fun rest => ?_)
                  (.pure ([] : List Char))
              simp [hCons, hWanted]
          | true =>
              refine .cons ?_
              simp only [hCons, hWanted, if_true]
              refine
                .bind
                  (fun digits behind =>
                    .ok (c :: digits, behind))
                  (.skip flags (fun text => .ok (run text))
                    fun behind hShort => ?_)
                  fun _ _ => .pure _
              refine ih behind.length ?_ behind rfl
              rw [← hLength, List.length_cons]
              exact Nat.lt_succ_of_le hShort

/- The reader of digits is cut. -/
theorem isCutAt_readDigits
    (flags : Flags)
    (text : Text) :
    IsCutAt [] (fun text => .ok (readDigits flags text))
      text := by
  refine
    isCutAt_run flags Char.isDigit (by decide)
      (by rw [readDigits]) (fun c rest => ?_) text
  rw [readDigits]

/- Blanks in front of a parenthesis are dropped as before. -/
theorem dropWhile_isBlank_append_close
    (text more : Text) :
    (text ++ ')' :: more).dropWhile Text.isBlank =
      text.dropWhile Text.isBlank ++ ')' :: more := by
  rw [List.dropWhile_append]
  split
  case isTrue hNone =>
      rw [List.isEmpty_iff.mp hNone]
      simp [isBlank_close]
  case isFalse => rfl

/- A cut reader of what follows blanks is cut. -/
theorem IsCutAt.dropBlanks
    {α : Type}
    {kept text : Text}
    (read : Text → Except Fault (α × Text))
    (hRead :
      IsCutAt kept read (text.dropWhile Text.isBlank)) :
    IsCutAt kept
      (fun text => read (text.dropWhile Text.isBlank)) text where
  suffix _ _ hOk :=
    (hRead.suffix hOk).trans (List.dropWhile_suffix _)
  cut more hLine _ _ hOk := by
    rw [dropWhile_isBlank_append_close] at hOk
    exact hRead.cut hLine hOk

/- Passing over what surrounds a number is cut. -/
theorem isCutAt_skipAround
    {α : Type}
    (flags : Flags)
    (value : α)
    (text : Text) :
    IsCutAt []
      (fun text => .ok (value, skipAround flags text))
      text := by
  cases text with
  | nil =>
      refine .of_eq rfl (fun more => ?_) (.pure value)
      simp [skipAround, isBlank_close]
  | cons c rest =>
      cases hBlank : Text.isBlank c with
      | false =>
          refine .of_head (fun rest => ?_) (.pure value)
          simp [skipAround, hBlank]
      | true =>
          refine .cons ?_
          cases hExtended : flags.extended with
          | true =>
              have hSkip :
                  ∀ rest,
                    skipAround flags (c :: rest) =
                      flags.skip rest := by
                simp [skipAround, Flags.skip, hBlank, hExtended]
              simp only [hSkip]
              exact
                .skip flags (fun text => .ok (value, text))
                  fun _ _ => .pure value
          | false =>
              have hDrop :
                  ∀ rest,
                    skipAround flags (c :: rest) =
                      rest.dropWhile Text.isBlank := by
                simp [skipAround, hBlank, hExtended]
              simp only [hDrop]
              exact
                .dropBlanks (fun text => .ok (value, text))
                  (.pure value)

/- The reader of a number is cut. -/
theorem isCutAt_readDecimal
    (flags : Flags)
    (text : Text) :
    IsCutAt [] (readDecimal flags) text := by
  apply
    IsCutAt.bind
      (fun digits rest =>
        if digits.isEmpty then .error .decimalEmpty
        else if 4294967296 ≤ decimalValue digits then
          .error .decimalInvalid
        else .ok (decimalValue digits, skipAround flags rest))
      (.dropBlanks (fun text => .ok (readDigits flags text))
        (isCutAt_readDigits flags _))
  intro digits rest
  refine .ite (fun _ => .error _) (fun _ => ?_)
  refine .ite (fun _ => .error _) (fun _ => ?_)
  exact isCutAt_skipAround flags (decimalValue digits) rest

/- Read the greatest count behind a comma and blanks. -/
def readBehindComma
    (flags : Flags) :
    Text → Except Fault (Option Nat × Text)
  | '}' :: behind => .ok (none, '}' :: behind)
  | text =>
      readDecimal flags text >>= fun found =>
        .ok (some found.1, found.2)

/- Read what stands between the least count and the brace. -/
def readMost
    (flags : Flags)
    (min : Nat)
    (text : Text) :
    Except Fault (Option Nat × Text) :=
  match text with
  | ',' :: rest => readBehindComma flags (flags.skip rest)
  | text => .ok (some min, text)

/- Read a closing brace, and the blanks behind it. -/
def readBrace
    {α : Type}
    (flags : Flags)
    (value : α)
    (text : Text) :
    Except Fault (α × Text) :=
  match text with
  | '}' :: rest => .ok (value, flags.skip rest)
  | _ => .error .countedBrace

/- Read counts part by part. -/
def readBounds
    (flags : Flags)
    (text : Text) :
    Except Fault ((Nat × Option Nat) × Text) :=
  readDecimal flags (flags.skip text) >>= fun least =>
    readMost flags least.1 least.2 >>= fun most =>
      readBrace flags (least.1, most.1) most.2

/- Counts are what is read of them part by part. -/
theorem readCounts_eq_ok_iff_readBounds
    (flags : Flags)
    (text behind : Text)
    (min : Nat)
    (max : Option Nat) :
    readCounts flags text = .ok (min, max, behind) ↔
      readBounds flags text = .ok ((min, max), behind) := by
  rw [readCounts_eq_ok_iff]
  unfold readBounds
  simp only [Sequence.bind_eq_ok_iff, Prod.exists]
  constructor
  · intro hCounts
    rcases hCounts with ⟨middle, hLow, last, rfl, hEnd⟩
    refine ⟨min, middle, hLow, max, '}' :: last, ?_, rfl⟩
    rcases hEnd with ⟨rfl, rfl⟩ | ⟨rest, rfl, hMost⟩
    · rfl
    · rcases hMost with ⟨hSkip, rfl⟩ | ⟨most, hMost, rfl⟩
      · simp [readMost, readBehindComma, hSkip]
      · simp only [readMost, readBehindComma]
        split
        case h_1 hSkip =>
            rw [hSkip] at hMost
            simp [readDecimal, readDigits, Text.isBlank]
              at hMost
        case h_2 =>
            rw [hMost]
            rfl
  · intro hBounds
    rcases hBounds with
      ⟨least, middle, hLow, most, rest, hMost, hBrace⟩
    unfold readBrace at hBrace
    split at hBrace
    case h_2 => cases hBrace
    case h_1 last =>
        cases hBrace
        refine ⟨middle, hLow, last, rfl, ?_⟩
        unfold readMost at hMost
        split at hMost
        case h_2 =>
            cases hMost
            exact Or.inl ⟨rfl, rfl⟩
        case h_1 inner =>
            refine Or.inr ⟨inner, rfl, ?_⟩
            unfold readBehindComma at hMost
            split at hMost
            case h_1 hSkip =>
                cases hMost
                exact Or.inl ⟨hSkip, rfl⟩
            case h_2 =>
                rcases (Sequence.bind_eq_ok_iff _ _ _).mp hMost
                  with ⟨⟨count, left⟩, hCount, hSame⟩
                cases hSame
                exact Or.inr ⟨count, hCount, rfl⟩

/- The reader of the count behind a comma is cut. -/
theorem isCutAt_readBehindComma
    (flags : Flags)
    (text : Text) :
    IsCutAt [] (readBehindComma flags) text := by
  have hNumber :
      IsCutAt []
        (fun text =>
          readDecimal flags text >>= fun found =>
            .ok (some found.1, found.2))
        text :=
    .bind (fun count rest => .ok (some count, rest))
      (isCutAt_readDecimal flags text) fun _ _ => .pure _
  cases text with
  | nil =>
      refine .of_eq ?_ (fun more => ?_) hNumber
      · rfl
      · simp [readBehindComma]
  | cons c rest =>
      by_cases hBrace : c = '}'
      · subst hBrace
        refine .of_head (fun rest => ?_) (.pure none)
        rfl
      · refine .of_head (fun rest => ?_) hNumber
        simp [readBehindComma, hBrace]

/- The reader of the greatest count is cut. -/
theorem isCutAt_readMost
    (flags : Flags)
    (min : Nat)
    (text : Text) :
    IsCutAt [] (readMost flags min) text := by
  cases text with
  | nil =>
      refine .of_eq ?_ (fun more => ?_) (.pure (some min))
      · rfl
      · simp [readMost]
  | cons c rest =>
      by_cases hComma : c = ','
      · subst hComma
        refine .cons ?_
        exact
          .skip flags (readBehindComma flags) fun rest _ =>
            isCutAt_readBehindComma flags rest
      · refine .of_head (fun rest => ?_) (.pure (some min))
        simp [readMost, hComma]

/- The reader of the closing brace is cut. -/
theorem isCutAt_readBrace
    {α : Type}
    (flags : Flags)
    (value : α)
    (text : Text) :
    IsCutAt [] (readBrace flags value) text := by
  cases text with
  | nil =>
      exact .nil (by simp [readBrace]) (by simp [readBrace])
  | cons c rest =>
      by_cases hBrace : c = '}'
      · subst hBrace
        exact
          .cons
            (.skip flags (fun text => .ok (value, text))
              fun _ _ => .pure value)
      · refine
          .of_head (fun rest => ?_) (.error .countedBrace)
        simp [readBrace, hBrace]

/- The reader of counts is cut. -/
theorem isCutAt_readBounds
    (flags : Flags)
    (text : Text) :
    IsCutAt [] (readBounds flags) text :=
  .bind
    (fun least rest =>
      readMost flags least rest >>= fun most =>
        readBrace flags (least, most.1) most.2)
    (.skip flags (readDecimal flags) fun rest _ =>
      isCutAt_readDecimal flags rest)
    fun least rest =>
      .bind (fun most => readBrace flags (least, most))
        (isCutAt_readMost flags least rest)
        fun most => isCutAt_readBrace flags (least, most)

/- The reader of the sign of a lazy operator is cut. -/
theorem isCutAt_readGreed
    {α : Type}
    (flags : Flags)
    (value : Bool → α)
    (text : Text) :
    IsCutAt []
      (fun text =>
        .ok
          (value (readGreed flags text).1,
            (readGreed flags text).2))
      text := by
  cases text with
  | nil =>
      exact
        .of_eq rfl (by simp [readGreed])
          (.pure (value (!flags.swapGreed)))
  | cons c rest =>
      by_cases hSign : c = '?'
      · subst hSign
        exact .cons (.pure (value flags.swapGreed))
      · refine
          .of_head (fun rest => ?_)
            (.pure (value (!flags.swapGreed)))
        simp [readGreed, hSign]

/- Read the sign of a lazy operator behind ordered counts. -/
def readOrdered
    (flags : Flags)
    (bounds : Nat × Option Nat)
    (text : Text) :
    Except Fault (Quantifier × Text) :=
  if bounds.2.any (· < bounds.1) then .error .countedOrder
  else
    .ok
      (⟨bounds.1, bounds.2, (readGreed flags text).1⟩,
        (readGreed flags text).2)

/- Behind a brace an operator is read as its counts. -/
theorem readQuantifier_brace_eq_ok_iff
    (flags : Flags)
    (text : Text)
    (found : Quantifier × Text) :
    readQuantifier flags false '{' text = .ok found ↔
      (readBounds flags text >>= fun bounds =>
          readOrdered flags bounds.1 bounds.2) =
        .ok found := by
  unfold readQuantifier readOrdered
  simp only [if_true, Bool.false_eq_true, if_false,
    Sequence.bind_eq_ok_iff, Prod.exists,
    readCounts_eq_ok_iff_readBounds]
  rfl

/- The reader of an operator is cut. -/
theorem isCutAt_readQuantifier
    (flags : Flags)
    (nothing : Bool)
    (sign : Char)
    (text : Text) :
    IsCutAt [] (readQuantifier flags nothing sign) text := by
  by_cases hBrace : sign = '{'
  case neg =>
      unfold readQuantifier
      simp only [if_neg hBrace]
      exact
        .ite (fun _ => .error _) fun _ =>
          isCutAt_readGreed flags
            (Quantifier.mk (if sign = '+' then 1 else 0)
              (if sign = '?' then some 1 else none))
            text
  subst hBrace
  cases nothing with
  | true =>
      exact
        .of_iff (fun text found => by simp [readQuantifier])
          (.error .countedMissing)
  | false =>
      refine
        .of_iff (readQuantifier_brace_eq_ok_iff flags)
          (.bind (readOrdered flags)
            (isCutAt_readBounds flags text)
            fun bounds rest => ?_)
      exact
        .ite (fun _ => .error _) fun _ =>
          isCutAt_readGreed flags
            (Quantifier.mk bounds.1 bounds.2) rest

end Regex

end RequestRouter

------------------------------------------------------------
-- Escapes
------------------------------------------------------------

namespace RequestRouter

namespace Regex

/- A parenthesis is no digit. -/
theorem hexValue?_close : hexValue? ')' = none := by
  decide

/- The reader of a fixed number of digits is cut. -/
theorem isCutAt_readFixedHex
    (flags : Flags)
    (count value : Nat)
    (text : Text) :
    IsCutAt [] (readFixedHex flags count value) text := by
  induction count generalizing value text with
  | zero =>
      simp only [readFixedHex]
      exact .pure _
  | succ count ih =>
      cases text with
      | nil =>
          exact
            .nil (by simp [readFixedHex])
              (by simp [readFixedHex, hexValue?_close])
      | cons c rest =>
          refine .cons ?_
          simp only [readFixedHex]
          cases hexValue? c with
          | none => exact .error _
          | some digit =>
              exact
                .skip flags
                  (readFixedHex flags count
                    (16 * value + digit))
                  fun behind _ => ih _ behind

/- The reader of digits in braces is cut. -/
theorem isCutAt_readBracedHex
    (flags : Flags)
    (value : Nat)
    (started : Bool)
    (text : Text) :
    IsCutAt [] (readBracedHex flags value started) text := by
  induction hLength : text.length using Nat.strongRecOn
    generalizing text value started with
  | ind length ih =>
      cases text with
      | nil =>
          exact
            .nil (by simp [readBracedHex])
              (by simp [readBracedHex, hexValue?_close])
      | cons c rest =>
          refine .cons ?_
          simp only [readBracedHex]
          refine .ite (fun _ => ?_) (fun _ => ?_)
          · refine .ite (fun _ => ?_) (fun _ => .error _)
            exact
              .skip flags (fun rest => .ok (value, rest))
                fun _ _ => .pure _
          · cases hexValue? c with
            | none => exact .error _
            | some digit =>
                refine
                  .skip flags
                    (readBracedHex flags
                      (16 * value + digit) true)
                    fun behind hShort => ?_
                refine ih behind.length ?_ _ _ behind rfl
                rw [← hLength, List.length_cons]
                exact Nat.lt_succ_of_le hShort

/- The reader of a scalar value is cut. -/
theorem isCutAt_scalarExpr
    (flags : Flags)
    (fault : Fault)
    (value : Nat)
    (text : Text) :
    IsCutAt [] (scalarExpr flags fault value) text := by
  unfold scalarExpr
  cases scalar? value with
  | none => exact .error _
  | some c => exact .pure _

/- The reader of a hexadecimal escape is cut. -/
theorem isCutAt_readHex
    (flags : Flags)
    (digits : Nat)
    (text : Text) :
    IsCutAt [] (readHex flags (digits + 1)) text := by
  refine
    .skip flags (readHexDigits flags (digits + 1))
      fun text _ => ?_
  cases text with
  | nil =>
      refine
        .nil (by simp [readHexDigits]) fun more found => ?_
      rw [readHexDigits_of_ne flags _ (by decide)]
      simp [readFixedHex, hexValue?_close, bind, Except.bind]
  | cons c rest =>
      by_cases hBrace : c = '{'
      · subst hBrace
        refine .cons ?_
        simp only [readHexDigits_brace]
        exact
          .bind (scalarExpr flags .hexBraceInvalid)
            (.skip flags (readBracedHex flags 0 false)
              fun behind _ =>
                isCutAt_readBracedHex flags 0 false behind)
            fun value => isCutAt_scalarExpr flags _ value
      · exact
          .of_head
            (readHexDigits_of_ne flags (digits + 1) hBrace)
            (.bind (scalarExpr flags .hexFixedInvalid)
              (isCutAt_readFixedHex flags (digits + 1) 0
                (c :: rest))
              fun value => isCutAt_scalarExpr flags _ value)

/- The reader of the name of a word boundary is cut. -/
theorem isCutAt_readBoundaryName
    (flags : Flags)
    (text : Text) :
    IsCutAt [] (fun text => .ok (readBoundaryName flags text))
      text := by
  refine
    isCutAt_run flags isBoundaryChar (by decide)
      (by rw [readBoundaryName]) (fun c rest => ?_) text
  rw [readBoundaryName]

/- Read the brace behind the name of a word boundary. -/
def readBoundaryEnd
    (name : Text) :
    Text → Except Fault (Expr × Text)
  | '}' :: behind =>
      match namedBoundary? name with
      | some condition => .ok (.assertion condition, behind)
      | none => .error .boundaryUnrecognized
  | _ => .error .boundaryUnclosed

/- Read what stands behind a brace of a word boundary. -/
def readInsideBoundary
    (flags : Flags)
    (inner : Text) :
    Text → Except Fault (Expr × Text)
  | [] => .error .boundaryUnfinished
  | c :: rest =>
      if isBoundaryChar c then
        .ok (readBoundaryName flags (c :: rest)) >>=
          fun found => readBoundaryEnd found.1 found.2
      else .ok (.assertion .wordBoundary, '{' :: inner)

/- Behind a brace and blanks stands a name, or nothing. -/
theorem readBoundary_brace
    (flags : Flags)
    (inner : Text) :
    readBoundary flags ('{' :: inner) =
      readInsideBoundary flags inner (flags.skip inner) := by
  unfold readBoundary readInsideBoundary readBoundaryEnd
  simp only [bind, Except.bind]
  grind

/- The reader of a named word boundary is cut. -/
theorem isCutAt_readNamedBoundary
    (flags : Flags)
    (text : Text) :
    IsCutAt []
      (fun text =>
        .ok (readBoundaryName flags text) >>= fun found =>
          readBoundaryEnd found.1 found.2)
      text := by
  refine
    .bind readBoundaryEnd (isCutAt_readBoundaryName flags text)
      fun name rest => ?_
  cases rest with
  | nil =>
      exact
        .nil (by simp [readBoundaryEnd])
          (by simp [readBoundaryEnd])
  | cons c rest =>
      by_cases hBrace : c = '}'
      · subst hBrace
        refine .cons ?_
        simp only [readBoundaryEnd]
        cases namedBoundary? name with
        | none => exact .error _
        | some condition => exact .pure _
      · refine
          .of_head (fun rest => ?_) (.error .boundaryUnclosed)
        simp [readBoundaryEnd, hBrace]

/-
  Whether a word boundary was read, and a brace with nothing
  but blanks behind it is left in front of a parenthesis.
-/
def LeavesBrace
    (flags : Flags)
    (more : Text)
    (item : Expr)
    (left : Text) : Prop :=
  item = .assertion .wordBoundary ∧
    ∃ blanks, flags.skip blanks = [] ∧
      left = '{' :: blanks ++ ')' :: more

/- A word boundary leaves an end of its text. -/
theorem readBoundary_suffix
    {flags : Flags}
    {text behind : Text}
    {item : Expr}
    (hRead : readBoundary flags text = .ok (item, behind)) :
    behind <:+ text := by
  by_cases hBrace : text.head? = some '{'
  case neg =>
      unfold readBoundary at hRead
      split at hRead
      case h_1 => exact absurd rfl hBrace
      case h_2 =>
          cases hRead
          exact List.suffix_rfl
  rcases List.head?_eq_some_iff.mp hBrace with ⟨inner, rfl⟩
  rw [readBoundary_brace] at hRead
  have hSkip := flags.skip_suffix inner
  unfold readInsideBoundary at hRead
  split at hRead
  case h_1 => cases hRead
  case h_2 c rest hFront =>
      split at hRead
      case isTrue =>
          rw [hFront] at hSkip
          exact
            (((isCutAt_readNamedBoundary flags _).suffix
              hRead).trans hSkip).trans (List.suffix_cons _ _)
      case isFalse =>
          cases hRead
          exact List.suffix_rfl

/-
  A word boundary is read without the parenthesis, unless
  nothing but the parenthesis shows that a brace behind it
  has no name inside.
-/
theorem readBoundary_cut
    {flags : Flags}
    {text left more : Text}
    {item : Expr}
    (hLine : '\n' ∉ more)
    (hRead :
      readBoundary flags (text ++ ')' :: more) =
        .ok (item, left)) :
    (∃ behind,
        left = behind ++ ')' :: more ∧
          readBoundary flags text = .ok (item, behind)) ∨
      left <:+ more ∨ LeavesBrace flags more item left := by
  by_cases hBrace : text.head? = some '{'
  case neg =>
      have hPlain :
          ∀ {rest : Text}, rest.head? ≠ some '{' →
            readBoundary flags rest =
              .ok (.assertion .wordBoundary, rest) := by
        intro rest hHead
        unfold readBoundary
        split
        case h_1 => exact absurd rfl hHead
        case h_2 => rfl
      have hBoth : (text ++ ')' :: more).head? ≠ some '{' := by
        cases text with
        | nil => simp
        | cons c rest => exact hBrace
      rw [hPlain hBoth] at hRead
      cases hRead
      exact Or.inl ⟨text, rfl, hPlain hBrace⟩
  rcases List.head?_eq_some_iff.mp hBrace with ⟨inner, rfl⟩
  rw [List.cons_append, readBoundary_brace] at hRead
  rcases flags.skip_append_cases inner hLine with
    hSkip | hSkip
  case inr =>
      rw [hSkip] at hRead
      cases hRead
  rw [hSkip] at hRead
  rw [readBoundary_brace]
  cases hFront : flags.skip inner with
  | nil =>
      rw [hFront, List.nil_append, readInsideBoundary,
        if_neg (by decide)] at hRead
      cases hRead
      exact Or.inr (Or.inr ⟨rfl, inner, hFront, rfl⟩)
  | cons c rest =>
      rw [hFront, List.cons_append, readInsideBoundary] at hRead
      rw [readInsideBoundary]
      split at hRead
      case isTrue hName =>
          rw [if_pos hName]
          exact
            ((isCutAt_readNamedBoundary flags (c :: rest)).cut
              hLine hRead).imp_right Or.inl
      case isFalse hName =>
          cases hRead
          rw [if_neg hName]
          exact Or.inl ⟨_, rfl, rfl⟩

/- The reader of another escape is cut. -/
theorem isCutAt_readEscape
    (flags : Flags)
    {c : Char}
    (hBoundary : c ≠ 'b')
    (rest : Text) :
    IsCutAt [] (readEscape flags) (c :: rest) := by
  refine .cons ?_
  simp only [readEscape, if_neg hBoundary]
  refine .ite (fun _ => .error _) (fun _ => ?_)
  refine .ite (fun _ => .error _) (fun _ => ?_)
  refine
    .ite (fun _ => isCutAt_readHex flags 1 rest) (fun _ => ?_)
  refine
    .ite (fun _ => isCutAt_readHex flags 3 rest) (fun _ => ?_)
  refine
    .ite (fun _ => isCutAt_readHex flags 7 rest) (fun _ => ?_)
  refine .ite (fun _ => .pure _) (fun _ => ?_)
  cases classEscape? c with
  | some item => exact .pure _
  | none =>
      cases controlCharacter? c with
      | some control => exact .pure _
      | none =>
          cases assertionEscape? c with
          | some condition => exact .pure _
          | none => exact .error _

/- The letter of a word boundary is followed by its reader. -/
theorem readEscape_boundary
    (flags : Flags)
    (rest : Text) :
    readEscape flags ('b' :: rest) =
      readBoundary flags rest := by
  simp [readEscape]

/- An escape leaves an end of its text. -/
theorem readEscape_suffix
    {flags : Flags}
    {text behind : Text}
    {item : Expr}
    (hRead : readEscape flags text = .ok (item, behind)) :
    behind <:+ text := by
  cases text with
  | nil => cases hRead
  | cons c rest =>
      by_cases hBoundary : c = 'b'
      · subst hBoundary
        rw [readEscape_boundary] at hRead
        exact
          (readBoundary_suffix hRead).trans
            (List.suffix_cons _ _)
      · exact
          (isCutAt_readEscape flags hBoundary rest).suffix hRead

/-
  An escape is read without the parenthesis, or takes it, but
  for a word boundary with a brace behind it.
-/
theorem readEscape_cut
    {flags : Flags}
    {text left more : Text}
    {item : Expr}
    (hLine : '\n' ∉ more)
    (hRead :
      readEscape flags (text ++ ')' :: more) =
        .ok (item, left)) :
    (∃ behind,
        left = behind ++ ')' :: more ∧
          readEscape flags text = .ok (item, behind)) ∨
      left <:+ more ∨ LeavesBrace flags more item left := by
  cases text with
  | nil =>
      -- The parenthesis is what is escaped.
      have hClose :
          readEscape flags (')' :: more) =
            .ok (charExpr flags ')', more) := by
        simp [readEscape, isEscapable]
      rw [List.nil_append, hClose] at hRead
      cases hRead
      exact Or.inr (Or.inl List.suffix_rfl)
  | cons c rest =>
      by_cases hBoundary : c = 'b'
      · subst hBoundary
        rw [List.cons_append, readEscape_boundary] at hRead
        rw [readEscape_boundary]
        exact readBoundary_cut hLine hRead
      · exact
          ((isCutAt_readEscape flags hBoundary rest).cut hLine
            hRead).imp_right Or.inl

end Regex

end RequestRouter
