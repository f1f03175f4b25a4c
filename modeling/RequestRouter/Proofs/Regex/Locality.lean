import Mathlib.Data.List.TakeDrop
import Mathlib.Data.List.TakeWhile
import RequestRouter.Proofs.Sequence
import RequestRouter.Regex.Parse

/-
  What stands far behind does not change how a pattern is
  read.

  A reader of a part of a pattern takes characters from the
  front and leaves the others. If it leaves any, it reads
  the same in front of further text, which is left as well.

  Key definition:
    * `Regex.IsLocalAt`

  Main statements:
    * `Regex.isLocalAt_readGroupOpening`
    * `Regex.isLocalAt_readQuantifier`
    * `Regex.isLocalAt_readEscape`
-/

------------------------------------------------------------
-- Local Readers
------------------------------------------------------------

namespace RequestRouter

namespace Regex

/-
  Whether a reader leaves no more than a text, and reads the
  same with more text behind unless all was taken.
-/
def IsLocalAt
    {α : Type}
    (read : Text → Except Fault (α × Text))
    (text : Text) : Prop :=
  ∀ ⦃value behind⦄,
    read text = .ok (value, behind) →
      behind.length ≤ text.length ∧
        (behind ≠ [] →
          ∀ more,
            read (text ++ more) =
              .ok (value, behind ++ more))

/- Blanks and comments that end are passed over as before. -/
theorem skipBlank_append
    {inComment : Bool}
    {text : Text}
    (hSome : skipBlank inComment text ≠ [])
    (more : Text) :
    skipBlank inComment (text ++ more) =
      skipBlank inComment text ++ more := by
  induction text generalizing inComment with
  | nil => simp [skipBlank] at hSome
  | cons c rest ih =>
      simp only [List.cons_append, skipBlank] at hSome ⊢
      split at hSome
      case isTrue hComment =>
          simpa only [if_pos hComment] using ih hSome
      case isFalse hComment =>
          simp only [if_neg hComment]
          split at hSome
          case isTrue hBlank =>
              simpa only [if_pos hBlank] using ih hSome
          case isFalse hBlank =>
              simp only [if_neg hBlank]
              split at hSome
              case isTrue hSign =>
                  simpa only [if_pos hSign] using ih hSome
              case isFalse hSign =>
                  simp only [if_neg hSign, List.cons_append]

namespace Flags

/- What is not passed over stays in front of further text. -/
theorem skip_append
    (flags : Flags)
    {text behind : Text}
    (hSkip : flags.skip text = behind)
    (hSome : behind ≠ [])
    (more : Text) :
    flags.skip (text ++ more) = behind ++ more := by
  subst hSkip
  unfold Flags.skip at hSome ⊢
  split
  case isTrue hExtended =>
      rw [if_pos hExtended] at hSome
      exact skipBlank_append hSome more
  case isFalse => rfl

end Flags

namespace IsLocalAt

variable {α β : Type}
variable {read other : Text → Except Fault (α × Text)}
variable {text : Text}

/- A reader that takes nothing is local. -/
theorem pure
    (value : α) :
    IsLocalAt (fun text => .ok (value, text)) text := by
  intro found behind hRead
  cases hRead
  exact ⟨Nat.le_refl _, fun _ _ => rfl⟩

/- So is one that always fails. -/
theorem error
    (fault : Fault) :
    IsLocalAt (α := α) (fun _ => .error fault) text := by
  intro found behind hRead
  cases hRead

/- In front of nothing, a reader can leave nothing only. -/
theorem nil
    (hRead :
      ∀ value behind, read [] = .ok (value, behind) →
        behind = []) :
    IsLocalAt read [] := by
  intro value behind hOk
  have hNone := hRead value behind hOk
  subst hNone
  exact ⟨Nat.le_refl _, fun hSome => absurd rfl hSome⟩

/- A reader that takes a first character is local behind it. -/
theorem cons
    {c : Char}
    (hRest : IsLocalAt (fun rest => read (c :: rest)) text) :
    IsLocalAt read (c :: text) := by
  intro value behind hRead
  rcases hRest hRead with ⟨hLength, hMore⟩
  exact ⟨Nat.le_succ_of_le hLength, hMore⟩

/- Readers that agree behind a first character are alike. -/
theorem of_head
    {c : Char}
    (hSame : ∀ rest, read (c :: rest) = other (c :: rest))
    (hOther : IsLocalAt other (c :: text)) :
    IsLocalAt read (c :: text) := by
  intro value behind hRead
  rw [hSame] at hRead
  rcases hOther hRead with ⟨hLength, hMore⟩
  refine ⟨hLength, fun hSome more => ?_⟩
  rw [List.cons_append, hSame]
  exact hMore hSome more

/- A choice that does not depend on the text is local. -/
theorem ite
    {condition : Prop}
    [Decidable condition]
    (hThen : condition → IsLocalAt read text)
    (hElse : ¬ condition → IsLocalAt other text) :
    IsLocalAt
      (fun text =>
        if condition then read text else other text)
      text := by
  by_cases hCondition : condition
  · simpa only [if_pos hCondition] using hThen hCondition
  · simpa only [if_neg hCondition] using hElse hCondition

/- One local reader behind another is local. -/
theorem bind
    {first : Text → Except Fault (β × Text)}
    (next : β → Text → Except Fault (α × Text))
    (hFirst : IsLocalAt first text)
    (hNext :
      ∀ value rest, rest.length ≤ text.length →
        IsLocalAt (next value) rest) :
    IsLocalAt
      (fun text =>
        first text >>= fun found => next found.1 found.2)
      text := by
  intro value behind hRead
  rcases (Sequence.bind_eq_ok_iff _ _ _).mp hRead with
    ⟨⟨middle, rest⟩, hMiddle, hBehind⟩
  rcases hFirst hMiddle with ⟨hLength, hMore⟩
  rcases hNext middle rest hLength hBehind with
    ⟨hLast, hOn⟩
  refine ⟨Nat.le_trans hLast hLength, ?_⟩
  intro hSome more
  have hRest : rest ≠ [] := by
    rintro rfl
    exact
      hSome
        (List.length_eq_zero_iff.mp (Nat.le_zero.mp hLast))
  simp only [hMore hRest more]
  exact hOn hSome more

/- A local reader behind blanks is local. -/
theorem skip
    (flags : Flags)
    (read : Text → Except Fault (α × Text))
    (hRead :
      ∀ rest, rest.length ≤ text.length →
        IsLocalAt read rest) :
    IsLocalAt (fun text => read (flags.skip text)) text := by
  intro value behind hOk
  have hLength := flags.length_skip_le text
  rcases hRead _ hLength hOk with ⟨hBehind, hMore⟩
  refine ⟨Nat.le_trans hBehind hLength, ?_⟩
  intro hSome more
  have hRest : flags.skip text ≠ [] := by
    intro hNone
    rw [hNone] at hBehind
    exact
      hSome
        (List.length_eq_zero_iff.mp (Nat.le_zero.mp hBehind))
  simp only [flags.skip_append rfl hRest more]
  exact hMore hSome more

/- A local reader of nonempty text is local. -/
theorem nonempty
    (fault : Fault)
    (hRead : IsLocalAt read text) :
    IsLocalAt
      (fun text =>
        if text = [] then .error fault else read text)
      text := by
  intro value behind hOk
  dsimp only at hOk
  split at hOk
  case isTrue => cases hOk
  case isFalse hText =>
      rcases hRead hOk with ⟨hLength, hMore⟩
      refine ⟨hLength, fun hSome more => ?_⟩
      have hBoth : text ++ more ≠ [] := by simp [hText]
      simp only [if_neg hBoth]
      exact hMore hSome more

end IsLocalAt

end Regex

end RequestRouter

------------------------------------------------------------
-- Group Openings
------------------------------------------------------------

namespace RequestRouter

namespace Regex

/- The reader of inline flags is local. -/
theorem isLocalAt_readFlags
    (reader : FlagReader)
    (text : Text) :
    IsLocalAt (readFlags reader) text := by
  induction text generalizing reader with
  | nil => exact .nil (by simp [readFlags])
  | cons c rest ih =>
      refine .cons ?_
      simp only [readFlags]
      refine .ite (fun _ => ?_) (fun _ => ?_)
      · refine .ite (fun _ => .error _) (fun _ => ?_)
        refine .ite (fun _ => .pure _) (fun _ => ?_)
        exact .ite (fun _ => .error _) (fun _ => .pure _)
      · refine .ite (fun _ => ?_) (fun _ => ?_)
        · exact .ite (fun _ => .error _) (fun _ => ih _)
        · cases reader.flags.set? (!reader.negating) c with
          | none => exact .error _
          | some flags =>
              exact .ite (fun _ => .error _) (fun _ => ih _)

/- The reader of the characters of a name is local. -/
theorem isLocalAt_readNameChars
    (first : Bool)
    (text : Text) :
    IsLocalAt (readNameChars first) text := by
  induction text generalizing first with
  | nil => exact .nil (by simp [readNameChars])
  | cons c rest ih =>
      refine .cons ?_
      simp only [readNameChars]
      refine .ite (fun _ => .pure _) (fun _ => ?_)
      refine .ite (fun _ => ?_) (fun _ => .error _)
      exact
        .bind (fun name behind => .ok (c :: name, behind))
          (ih false) fun _ _ _ => .pure _

/- A name is made of the characters up to the closing sign. -/
theorem readGroupName_eq_ok_iff
    (taken : List Text)
    (text name behind : Text) :
    readGroupName taken text = .ok (name, behind) ↔
      readNameChars true text = .ok (name, behind) ∧
        name ≠ [] ∧ name ∉ taken := by
  unfold readGroupName
  cases text with
  | nil => simp [readNameChars]
  | cons c rest =>
      simp only [List.isEmpty_cons, Bool.false_eq_true,
        if_false]
      cases hChars : readNameChars true (c :: rest) with
      | error fault => simp [bind, Except.bind]
      | ok found =>
          rcases found with ⟨other, left⟩
          by_cases hEmpty : other = []
          · subst hEmpty
            simp [bind, Except.bind]
            grind
          · by_cases hTaken : other ∈ taken
            · simp [bind, Except.bind, hEmpty, hTaken]
              grind
            · simp [bind, Except.bind, hEmpty, hTaken]
              grind

/- The reader of a group name is local. -/
theorem isLocalAt_readGroupName
    (taken : List Text)
    (text : Text) :
    IsLocalAt (readGroupName taken) text := by
  intro name behind hRead
  rw [readGroupName_eq_ok_iff] at hRead
  rcases hRead with ⟨hChars, hName⟩
  rcases isLocalAt_readNameChars true text hChars with
    ⟨hLength, hMore⟩
  refine ⟨hLength, fun hSome more => ?_⟩
  rw [readGroupName_eq_ok_iff]
  exact ⟨hMore hSome more, hName⟩

/- Read the name of a capture, and open it. -/
def readNamed
    (taken : List Text)
    (text : Text) :
    Except Fault (GroupOpening × Text) := do
  let (name, rest) ← readGroupName taken text
  .ok (.capture (some name), rest)

/- What opens a group, once blanks are passed over. -/
def readOpening
    (flags : Flags)
    (taken : List Text) :
    Text → Except Fault (GroupOpening × Text)
  | '?' :: '=' :: _ => .error .lookAround
  | '?' :: '!' :: _ => .error .lookAround
  | '?' :: '<' :: '=' :: _ => .error .lookAround
  | '?' :: '<' :: '!' :: _ => .error .lookAround
  | '?' :: 'P' :: '<' :: rest => readNamed taken rest
  | '?' :: '<' :: rest => readNamed taken rest
  | ['?'] => .error .unclosedGroupQuestion
  | '?' :: rest => readFlags ⟨flags, false, false, []⟩ rest
  | text => .ok (.capture none, text)

/- A group is opened by what stands behind blanks. -/
theorem readGroupOpening_eq
    (flags : Flags)
    (taken : List Text)
    (text : Text) :
    readGroupOpening flags taken text =
      readOpening flags taken (flags.skip text) := by
  unfold readGroupOpening readOpening readNamed
  rfl

/- The reader of a named capture is local. -/
theorem isLocalAt_readNamed
    (taken : List Text)
    (text : Text) :
    IsLocalAt (readNamed taken) text :=
  .bind
    (fun name rest =>
      .ok (GroupOpening.capture (some name), rest))
    (isLocalAt_readGroupName taken text)
    fun _ _ _ => .pure _

/- The reader of an opening without blanks is local. -/
theorem isLocalAt_readOpening
    (flags : Flags)
    (taken : List Text)
    (text : Text) :
    IsLocalAt (readOpening flags taken) text := by
  intro value behind hRead
  unfold readOpening at hRead
  split at hRead
  case h_1 | h_2 | h_3 | h_4 | h_7 => cases hRead
  case h_5 rest =>
      rcases isLocalAt_readNamed taken rest hRead with
        ⟨hLength, hMore⟩
      exact ⟨by simp; omega, hMore⟩
  case h_6 rest hEq hNot =>
      rcases isLocalAt_readNamed taken rest hRead with
        ⟨hLength, hMore⟩
      refine ⟨by simp; omega, fun hSome more => ?_⟩
      rw [← hMore hSome more]
      cases rest with
      | nil =>
          simp [readNamed, readGroupName, bind, Except.bind]
            at hRead
      | cons c rest =>
          have hOther : c ≠ '=' ∧ c ≠ '!' := by
            constructor
            · rintro rfl
              exact hEq _ rfl
            · rintro rfl
              exact hNot _ rfl
          simp [readOpening, hOther]
  case h_8 rest hEq hNot _ _ hNamed hAngle hEnd =>
      rcases isLocalAt_readFlags _ rest hRead with
        ⟨hLength, hMore⟩
      refine ⟨by simp; omega, fun hSome more => ?_⟩
      rw [← hMore hSome more]
      cases rest with
      | nil => exact (hEnd rfl).elim
      | cons c rest =>
          have hOther :
              c ≠ '=' ∧ c ≠ '!' ∧ c ≠ '<' ∧ c ≠ 'P' := by
            refine ⟨?_, ?_, ?_, ?_⟩ <;> rintro rfl
            · exact hEq _ rfl
            · exact hNot _ rfl
            · exact hAngle _ rfl
            · simp [readFlags, Flags.set?] at hRead
          simp [readOpening, hOther]
  case h_9 hSign =>
      cases hRead
      refine ⟨Nat.le_refl _, fun hSome more => ?_⟩
      cases text with
      | nil => exact absurd rfl hSome
      | cons c rest =>
          have hOther : c ≠ '?' := by
            rintro rfl
            exact hSign _ rfl
          simp [readOpening, hOther]

/- The reader of a group opening is local. -/
theorem isLocalAt_readGroupOpening
    (flags : Flags)
    (taken : List Text)
    (text : Text) :
    IsLocalAt (readGroupOpening flags taken) text := by
  rw [funext (readGroupOpening_eq flags taken)]
  exact
    .skip flags (readOpening flags taken) fun rest _ =>
      isLocalAt_readOpening flags taken rest

/- Names that are taken can make the reading fail only. -/
theorem readGroupOpening_eq_of_ok
    {flags : Flags}
    {taken others : List Text}
    {text : Text}
    {first second : GroupOpening × Text}
    (hFirst :
      readGroupOpening flags taken text = .ok first)
    (hSecond :
      readGroupOpening flags others text = .ok second) :
    first = second := by
  have hNamed :
      ∀ {rest : Text},
        readNamed taken rest = .ok first →
        readNamed others rest = .ok second →
          first = second := by
    intro rest hOne hTwo
    rcases (Sequence.bind_eq_ok_iff _ _ _).mp hOne with
      ⟨⟨name, behind⟩, hName, hOpen⟩
    rcases (Sequence.bind_eq_ok_iff _ _ _).mp hTwo with
      ⟨⟨other, left⟩, hOther, hAgain⟩
    rw [readGroupName_eq_ok_iff] at hName hOther
    rw [hName.1] at hOther
    cases hOther.1
    exact Except.ok.inj (hOpen.symm.trans hAgain)
  rw [readGroupOpening_eq] at hFirst hSecond
  unfold readOpening at hFirst hSecond
  split at hFirst <;> grind

end Regex

end RequestRouter

------------------------------------------------------------
-- Repetition Operators
------------------------------------------------------------

namespace RequestRouter

namespace Regex

/-
  A reader that takes wanted characters, with blanks behind
  each of them, is local.
-/
theorem isLocalAt_run
    (flags : Flags)
    (wanted : Char → Bool)
    {run : Text → List Char × Text}
    (hNil : run [] = ([], []))
    (hCons :
      ∀ c rest,
        run (c :: rest) =
          if wanted c then
            (c :: (run (flags.skip rest)).1,
              (run (flags.skip rest)).2)
          else ([], c :: rest))
    (text : Text) :
    IsLocalAt (fun text => .ok (run text)) text := by
  induction hLength : text.length using Nat.strongRecOn
    generalizing text with
  | ind length ih =>
      cases text with
      | nil =>
          refine .nil fun value behind hRead => ?_
          simp only [hNil, Except.ok.injEq, Prod.mk.injEq]
            at hRead
          exact hRead.2.symm
      | cons c rest =>
          cases hWanted : wanted c with
          | false =>
              refine
                .of_head (fun rest => ?_)
                  (.pure ([] : List Char))
              simp [hCons, hWanted]
          | true =>
              refine .cons ?_
              simp only [hCons, hWanted, if_true]
              refine
                .bind
                  (fun digits behind =>
                    .ok (c :: digits, behind))
                  (.skip flags (fun text => .ok (run text))
                    fun behind hShort => ?_)
                  fun _ _ _ => .pure _
              refine ih behind.length ?_ behind rfl
              rw [← hLength, List.length_cons]
              exact Nat.lt_succ_of_le hShort

/- The reader of digits is local. -/
theorem isLocalAt_readDigits
    (flags : Flags)
    (text : Text) :
    IsLocalAt (fun text => .ok (readDigits flags text))
      text := by
  refine
    isLocalAt_run flags Char.isDigit
      (by rw [readDigits]) (fun c rest => ?_) text
  rw [readDigits]

/- Wanted characters in front are dropped as before. -/
theorem dropWhile_append_of_ne_nil
    {wanted : Char → Bool}
    {text : Text}
    (hSome : text.dropWhile wanted ≠ [])
    (more : Text) :
    (text ++ more).dropWhile wanted =
      text.dropWhile wanted ++ more := by
  rw [List.dropWhile_append, if_neg (by simpa using hSome)]

/- Blanks behind a number are passed over as before. -/
theorem skipAround_append
    (flags : Flags)
    {text : Text}
    (hSome : skipAround flags text ≠ [])
    (more : Text) :
    skipAround flags (text ++ more) =
      skipAround flags text ++ more := by
  cases text with
  | nil => simp [skipAround] at hSome
  | cons c rest =>
      simp only [skipAround, List.cons_append] at hSome ⊢
      split
      case isFalse => rfl
      case isTrue hBlank =>
          rw [if_pos hBlank] at hSome
          split
          case isTrue hExtended =>
              rw [if_pos hExtended] at hSome
              exact skipBlank_append hSome more
          case isFalse hExtended =>
              rw [if_neg hExtended] at hSome
              exact dropWhile_append_of_ne_nil hSome more

/- Passing over them never makes a text longer. -/
theorem length_skipAround_le
    (flags : Flags)
    (text : Text) :
    (skipAround flags text).length ≤ text.length := by
  cases text with
  | nil => simp [skipAround]
  | cons c rest =>
      unfold skipAround
      dsimp only
      split
      case isFalse => exact Nat.le_refl _
      case isTrue =>
          split
          · exact
              Nat.le_succ_of_le
                (length_skipBlank_le false rest)
          · exact
              Nat.le_succ_of_le
                (List.dropWhile_sublist _).length_le

/- The reader of a number is local. -/
theorem isLocalAt_readDecimal
    (flags : Flags)
    (text : Text) :
    IsLocalAt (readDecimal flags) text := by
  intro value behind hRead
  have hBlanks :
      (text.dropWhile Text.isBlank).length ≤ text.length :=
    (List.dropWhile_sublist _).length_le
  rcases
      isLocalAt_readDigits flags
        (text.dropWhile Text.isBlank) rfl with
    ⟨hDigits, hMore⟩
  unfold readDecimal at hRead
  dsimp only at hRead
  split at hRead
  case isTrue => cases hRead
  case isFalse hSome =>
      split at hRead
      case isTrue => cases hRead
      case isFalse hSmall =>
          cases hRead
          have hAround :=
            length_skipAround_le flags
              (readDigits flags
                (text.dropWhile Text.isBlank)).2
          refine ⟨by omega, fun hBehind more => ?_⟩
          have hRest :
              (readDigits flags
                (text.dropWhile Text.isBlank)).2 ≠ [] := by
            intro hNone
            exact hBehind (by rw [hNone]; rfl)
          have hFront :
              text.dropWhile Text.isBlank ≠ [] := by
            intro hNone
            rw [hNone] at hRest
            exact hRest (by rw [readDigits])
          have hAgain := Except.ok.inj (hMore hRest more)
          unfold readDecimal
          rw [dropWhile_append_of_ne_nil hFront, hAgain]
          dsimp only
          rw [if_neg hSome, if_neg hSmall,
            skipAround_append flags hBehind]

/-
  Counts are a number, perhaps a second one, and a closing
  brace.
-/
theorem readCounts_eq_ok_iff
    (flags : Flags)
    (text behind : Text)
    (min : Nat)
    (max : Option Nat) :
    readCounts flags text = .ok (min, max, behind) ↔
    ∃ middle,
      readDecimal flags (flags.skip text) =
          .ok (min, middle) ∧
        ∃ last, flags.skip last = behind ∧
          (middle = '}' :: last ∧ max = some min ∨
            ∃ rest, middle = ',' :: rest ∧
              (flags.skip rest = '}' :: last ∧ max = none ∨
                ∃ most,
                  readDecimal flags (flags.skip rest) =
                      .ok (most, '}' :: last) ∧
                    max = some most)) := by
  constructor
  · intro hRead
    unfold readCounts at hRead
    dsimp only at hRead
    split at hRead
    case isTrue => cases hRead
    case isFalse =>
        rcases (Sequence.bind_eq_ok_iff _ _ _).mp hRead with
          ⟨⟨low, middle⟩, hLow, hRest⟩
        dsimp only at hRest
        split at hRest
        case h_1 => cases hRest
        case h_2 rest =>
            split at hRest
            case h_1 => cases hRest
            case h_2 last hSkip =>
                cases hRest
                exact
                  ⟨_, hLow, last, rfl,
                    Or.inr ⟨rest, rfl, Or.inl ⟨hSkip, rfl⟩⟩⟩
            case h_3 =>
                rcases
                    (Sequence.bind_eq_ok_iff _ _ _).mp
                      hRest with
                  ⟨⟨most, last⟩, hMost, hEnd⟩
                dsimp only at hEnd
                split at hEnd
                case isTrue => cases hEnd
                case isFalse =>
                    simp only [bind, Except.bind] at hEnd
                    split at hEnd
                    case h_1 =>
                        cases hEnd
                        exact
                          ⟨_, hLow, _, rfl,
                            Or.inr
                              ⟨rest, rfl,
                                Or.inr ⟨_, hMost, rfl⟩⟩⟩
                    case h_2 => cases hEnd
        case h_3 =>
            simp only [bind, Except.bind] at hRest
            split at hRest
            case h_1 =>
                cases hRest
                exact
                  ⟨_, hLow, _, rfl, Or.inl ⟨rfl, rfl⟩⟩
            case h_2 => cases hRest
  · rintro ⟨middle, hLow, last, rfl, hEnd⟩
    have hNil :
        readDecimal flags [] = .error .decimalEmpty := by
      simp [readDecimal, readDigits]
    have hSome : (flags.skip text).isEmpty = false := by
      cases hSkip : flags.skip text with
      | nil =>
          rw [hSkip, hNil] at hLow
          cases hLow
      | cons c rest => rfl
    unfold readCounts
    simp only [hSome, hLow, bind, Except.bind]
    rcases hEnd with ⟨rfl, rfl⟩ | ⟨rest, rfl, hMost⟩
    · rfl
    · rcases hMost with ⟨hSkip, rfl⟩ | ⟨most, hMost, rfl⟩
      · simp [hSkip]
      · cases hSkip : flags.skip rest with
        | nil =>
            rw [hSkip, hNil] at hMost
            cases hMost
        | cons d inner =>
            have hOther : d ≠ '}' := by
              rintro rfl
              rw [hSkip] at hMost
              simp [readDecimal, readDigits, Text.isBlank]
                at hMost
            rw [hSkip] at hMost
            simp [hSkip, hOther, hMost]

/-
  The blanks behind the closing brace of counts are the last
  that is read of them.
-/
theorem exists_blanks_of_readCounts
    {flags : Flags}
    {text behind : Text}
    {min : Nat}
    {max : Option Nat}
    (hRead :
      readCounts flags text = .ok (min, max, behind)) :
    ∃ last, flags.skip last = behind ∧
      last.length ≤ text.length ∧
      ∀ more,
        readCounts flags (text ++ more) =
          .ok (min, max, flags.skip (last ++ more)) := by
  rw [readCounts_eq_ok_iff] at hRead
  rcases hRead with ⟨middle, hLow, last, rfl, hEnd⟩
  rcases isLocalAt_readDecimal flags _ hLow with
    ⟨hFirst, hMore⟩
  have hText := flags.length_skip_le text
  have hFront :
      middle ≠ [] →
        ∀ more,
          readDecimal flags (flags.skip (text ++ more)) =
            .ok (min, middle ++ more) := by
    intro hMiddle more
    have hSkip : flags.skip text ≠ [] := by
      intro hNone
      rw [hNone] at hFirst
      exact
        hMiddle
          (List.length_eq_zero_iff.mp (Nat.le_zero.mp hFirst))
    rw [flags.skip_append rfl hSkip, hMore hMiddle]
  refine ⟨last, rfl, ?_⟩
  rcases hEnd with ⟨rfl, rfl⟩ | ⟨rest, rfl, hMost⟩
  · simp only [List.length_cons] at hFirst
    refine ⟨by omega, fun more => ?_⟩
    rw [readCounts_eq_ok_iff]
    exact
      ⟨_, hFront (by simp) more, last ++ more, rfl,
        Or.inl ⟨rfl, rfl⟩⟩
  · have hRest := flags.length_skip_le rest
    simp only [List.length_cons] at hFirst
    rcases hMost with ⟨hSkip, rfl⟩ | ⟨most, hMost, rfl⟩
    · rw [hSkip, List.length_cons] at hRest
      refine ⟨by omega, fun more => ?_⟩
      rw [readCounts_eq_ok_iff]
      refine
        ⟨_, hFront (by simp) more, last ++ more, rfl,
          Or.inr ⟨rest ++ more, rfl, Or.inl ⟨?_, rfl⟩⟩⟩
      exact flags.skip_append hSkip (by simp) more
    · rcases isLocalAt_readDecimal flags _ hMost with
        ⟨hSecond, hOn⟩
      simp only [List.length_cons] at hSecond
      refine ⟨by omega, fun more => ?_⟩
      rw [readCounts_eq_ok_iff]
      refine
        ⟨_, hFront (by simp) more, last ++ more, rfl,
          Or.inr ⟨rest ++ more, rfl, Or.inr ⟨most, ?_, rfl⟩⟩⟩
      have hSkip : flags.skip rest ≠ [] := by
        intro hNone
        rw [hNone, List.length_nil] at hSecond
        omega
      rw [flags.skip_append rfl hSkip]
      exact hOn (by simp) more

/- Counts that end are read as before in front of more. -/
theorem readCounts_append
    {flags : Flags}
    {text behind : Text}
    {min : Nat}
    {max : Option Nat}
    (hRead :
      readCounts flags text = .ok (min, max, behind)) :
    behind.length ≤ text.length ∧
      (behind ≠ [] →
        ∀ more,
          readCounts flags (text ++ more) =
            .ok (min, max, behind ++ more)) := by
  rcases exists_blanks_of_readCounts hRead with
    ⟨last, rfl, hLength, hMore⟩
  refine
    ⟨Nat.le_trans (flags.length_skip_le last) hLength,
      fun hSome more => ?_⟩
  rw [hMore, flags.skip_append rfl hSome]

/- The sign of a lazy operator is read as before. -/
theorem readGreed_append
    (flags : Flags)
    (text : Text) :
    (readGreed flags text).2.length ≤ text.length ∧
      ((readGreed flags text).2 ≠ [] →
        ∀ more,
          readGreed flags (text ++ more) =
            ((readGreed flags text).1,
              (readGreed flags text).2 ++ more)) := by
  cases text with
  | nil => simp [readGreed]
  | cons c rest =>
      by_cases hSign : c = '?'
      · subst hSign
        simp [readGreed]
      · simp [readGreed, hSign]

/- The reader of an operator is local. -/
theorem isLocalAt_readQuantifier
    (flags : Flags)
    (nothing : Bool)
    (sign : Char)
    (text : Text) :
    IsLocalAt (readQuantifier flags nothing sign) text := by
  intro quantifier behind hRead
  unfold readQuantifier at hRead
  split at hRead
  case isTrue hBrace =>
      split at hRead
      case isTrue => cases hRead
      case isFalse hSome =>
          rcases (Sequence.bind_eq_ok_iff _ _ _).mp hRead with
            ⟨⟨min, max, rest⟩, hCounts, hRest⟩
          rcases readCounts_append hCounts with
            ⟨hLength, hMore⟩
          rcases readGreed_append flags rest with
            ⟨hGreed, hOn⟩
          dsimp only at hRest
          split at hRest
          case isTrue => cases hRest
          case isFalse hOrder =>
              cases hRest
              refine ⟨Nat.le_trans hGreed hLength, ?_⟩
              intro hBehind more
              have hMiddle : rest ≠ [] := by
                rintro rfl
                exact hBehind rfl
              unfold readQuantifier
              rw [if_pos hBrace, if_neg hSome,
                hMore hMiddle more]
              simp only [bind, Except.bind,
                hOn hBehind more, if_neg hOrder]
  case isFalse hBrace =>
      split at hRead
      case isTrue => cases hRead
      case isFalse hSome =>
          cases hRead
          rcases readGreed_append flags text with
            ⟨hGreed, hOn⟩
          refine ⟨hGreed, fun hBehind more => ?_⟩
          unfold readQuantifier
          rw [if_neg hBrace, if_neg hSome, hOn hBehind more]
          rfl

end Regex

end RequestRouter

------------------------------------------------------------
-- Escapes
------------------------------------------------------------

namespace RequestRouter

namespace Regex

/- The reader of a fixed number of digits is local. -/
theorem isLocalAt_readFixedHex
    (flags : Flags)
    (count value : Nat)
    (text : Text) :
    IsLocalAt (readFixedHex flags count value) text := by
  induction count generalizing value text with
  | zero =>
      simp only [readFixedHex]
      exact .pure _
  | succ count ih =>
      cases text with
      | nil => exact .nil (by simp [readFixedHex])
      | cons c rest =>
          refine .cons ?_
          simp only [readFixedHex]
          cases hexValue? c with
          | none => exact .error _
          | some digit =>
              exact
                .skip flags
                  (readFixedHex flags count
                    (16 * value + digit))
                  fun behind _ => ih _ behind

/- The reader of digits in braces is local. -/
theorem isLocalAt_readBracedHex
    (flags : Flags)
    (value : Nat)
    (started : Bool)
    (text : Text) :
    IsLocalAt (readBracedHex flags value started) text := by
  induction hLength : text.length using Nat.strongRecOn
    generalizing text value started with
  | ind length ih =>
      cases text with
      | nil => exact .nil (by simp [readBracedHex])
      | cons c rest =>
          refine .cons ?_
          simp only [readBracedHex]
          refine .ite (fun _ => ?_) (fun _ => ?_)
          · refine .ite (fun _ => ?_) (fun _ => .error _)
            exact
              .skip flags (fun rest => .ok (value, rest))
                fun _ _ => .pure _
          · cases hexValue? c with
            | none => exact .error _
            | some digit =>
                refine
                  .skip flags
                    (readBracedHex flags
                      (16 * value + digit) true)
                    fun behind hShort => ?_
                refine ih behind.length ?_ _ _ behind rfl
                rw [← hLength, List.length_cons]
                exact Nat.lt_succ_of_le hShort

/- Read a hexadecimal escape, once blanks are passed over. -/
def readHexDigits
    (flags : Flags)
    (digits : Nat) :
    Text → Except Fault (Expr × Text)
  | [] => .error .hexMissing
  | '{' :: rest => do
      let (value, rest) ←
        readBracedHex flags 0 false (flags.skip rest)
      match scalar? value with
      | none => .error .hexBraceInvalid
      | some c => .ok (charExpr flags c, rest)
  | text => do
      let (value, rest) ← readFixedHex flags digits 0 text
      match scalar? value with
      | none => .error .hexFixedInvalid
      | some c => .ok (charExpr flags c, rest)

/- The expression of a scalar value, or a fault. -/
def scalarExpr
    (flags : Flags)
    (fault : Fault)
    (value : Nat)
    (rest : Text) :
    Except Fault (Expr × Text) :=
  match scalar? value with
  | none => .error fault
  | some c => .ok (charExpr flags c, rest)

/- Its reader is local. -/
theorem isLocalAt_scalarExpr
    (flags : Flags)
    (fault : Fault)
    (value : Nat)
    (text : Text) :
    IsLocalAt (scalarExpr flags fault value) text := by
  unfold scalarExpr
  cases scalar? value with
  | none => exact .error _
  | some c => exact .pure _

/- Behind a brace the digits are braced. -/
theorem readHexDigits_brace
    (flags : Flags)
    (digits : Nat)
    (rest : Text) :
    readHexDigits flags digits ('{' :: rest) =
      readBracedHex flags 0 false (flags.skip rest) >>=
        fun found =>
          scalarExpr flags .hexBraceInvalid found.1
            found.2 :=
  rfl

/- Without a brace the digits are as many as are due. -/
theorem readHexDigits_of_ne
    (flags : Flags)
    (digits : Nat)
    {c : Char}
    (hBrace : c ≠ '{')
    (rest : Text) :
    readHexDigits flags digits (c :: rest) =
      readFixedHex flags digits 0 (c :: rest) >>=
        fun found =>
          scalarExpr flags .hexFixedInvalid found.1
            found.2 := by
  simp [readHexDigits, scalarExpr, hBrace]

/- The reader of the digits is local. -/
theorem isLocalAt_readHexDigits
    (flags : Flags)
    (digits : Nat)
    (text : Text) :
    IsLocalAt (readHexDigits flags digits) text := by
  cases text with
  | nil => exact .nil (by simp [readHexDigits])
  | cons c rest =>
      by_cases hBrace : c = '{'
      · subst hBrace
        refine .cons ?_
        simp only [readHexDigits_brace]
        exact
          .bind (scalarExpr flags .hexBraceInvalid)
            (.skip flags (readBracedHex flags 0 false)
              fun behind _ =>
                isLocalAt_readBracedHex flags 0 false behind)
            fun value behind _ =>
              isLocalAt_scalarExpr flags _ value behind
      · exact
          .of_head (readHexDigits_of_ne flags digits hBrace)
            (.bind (scalarExpr flags .hexFixedInvalid)
              (isLocalAt_readFixedHex flags digits 0 _)
              fun value behind _ =>
                isLocalAt_scalarExpr flags _ value behind)

/- The reader of a hexadecimal escape is local. -/
theorem isLocalAt_readHex
    (flags : Flags)
    (digits : Nat)
    (text : Text) :
    IsLocalAt (readHex flags digits) text :=
  .skip flags (readHexDigits flags digits)
    fun text _ => isLocalAt_readHexDigits flags digits text

/- The reader of the name of a word boundary is local. -/
theorem isLocalAt_readBoundaryName
    (flags : Flags)
    (text : Text) :
    IsLocalAt (fun text => .ok (readBoundaryName flags text))
      text := by
  refine
    isLocalAt_run flags isBoundaryChar
      (by rw [readBoundaryName]) (fun c rest => ?_) text
  rw [readBoundaryName]

/- The reader of a word boundary is local. -/
theorem isLocalAt_readBoundary
    (flags : Flags)
    (text : Text) :
    IsLocalAt (readBoundary flags) text := by
  intro value behind hRead
  unfold readBoundary at hRead
  split at hRead
  case h_1 inner =>
      split at hRead
      case h_1 => cases hRead
      case h_2 c rest hSkip =>
          split at hRead
          case isTrue hName =>
              split at hRead
              case h_1 name left hFound =>
                  split at hRead
                  case h_1 condition hNamed =>
                      cases hRead
                      rcases
                          isLocalAt_readBoundaryName flags _
                            (congrArg Except.ok hFound) with
                        ⟨hLength, hMore⟩
                      have hInner := flags.length_skip_le inner
                      rw [hSkip] at hInner
                      simp only [List.length_cons]
                        at hLength hInner ⊢
                      refine ⟨by omega, fun hSome more => ?_⟩
                      have hAgain :=
                        Except.ok.inj (hMore (by simp) more)
                      have hText :=
                        flags.skip_append hSkip (by simp) more
                      simp only [List.cons_append]
                        at hText hAgain
                      simp [readBoundary, hText, hName,
                        hAgain, hNamed]
                  case h_2 => cases hRead
              case h_2 => cases hRead
          case isFalse hName =>
              cases hRead
              refine ⟨Nat.le_refl _, fun hSome more => ?_⟩
              have hText :=
                flags.skip_append hSkip (by simp) more
              simp [readBoundary, hText, hName]
  case h_2 hBrace =>
      cases hRead
      refine ⟨Nat.le_refl _, fun hSome more => ?_⟩
      cases text with
      | nil => exact absurd rfl hSome
      | cons c rest =>
        have hOther : c ≠ '{' := by
          rintro rfl
          exact hBrace _ rfl
        simp [readBoundary, hOther]

/- The reader of an escape is local. -/
theorem isLocalAt_readEscape
    (flags : Flags)
    (text : Text) :
    IsLocalAt (readEscape flags) text := by
  cases text with
  | nil => exact .nil (by simp [readEscape])
  | cons c rest =>
      refine .cons ?_
      simp only [readEscape]
      refine .ite (fun _ => .error _) (fun _ => ?_)
      refine .ite (fun _ => .error _) (fun _ => ?_)
      refine
        .ite (fun _ => isLocalAt_readHex flags 2 rest)
          (fun _ => ?_)
      refine
        .ite (fun _ => isLocalAt_readHex flags 4 rest)
          (fun _ => ?_)
      refine
        .ite (fun _ => isLocalAt_readHex flags 8 rest)
          (fun _ => ?_)
      refine
        .ite (fun _ => isLocalAt_readBoundary flags rest)
          (fun _ => ?_)
      refine .ite (fun _ => .pure _) (fun _ => ?_)
      cases classEscape? c with
      | some item => exact .pure _
      | none =>
          cases controlCharacter? c with
          | some control => exact .pure _
          | none =>
              cases assertionEscape? c with
              | some condition => exact .pure _
              | none => exact .error _

end Regex

end RequestRouter
