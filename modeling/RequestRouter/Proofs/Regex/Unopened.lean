import RequestRouter.Proofs.Regex.ItemCutting

/-
  Which sources can be put in parentheses and read.

  Inside of a group a source is read item by item as it is
  read alone, up to a parenthesis that closes the group. So a
  source that is read between parentheses and anchors is read
  alone as well, unless it closes a group that it does not
  open.

  Main statements:
    * `Regex.Builder.exists_readItem_of_within`
    * `Regex.Builder.read_of_reads_within`
    * `Regex.read_of_parse_anchored`
-/

------------------------------------------------------------
-- Items Without Their Context
------------------------------------------------------------

namespace RequestRouter

namespace Regex

namespace Builder

variable {count : Nat}
variable {outer : List Scope}

/- A group that opens in context opens alone. -/
theorem exists_openGroup_of_within
    {builder found : Builder}
    {capture : Option (Nat × Option Text)}
    {flags : Flags}
    (hFound :
      (builder.within count outer builder.names).openGroup
          (capture.map fun (index, name) =>
            (index + count, name)) flags =
        .ok found) :
    ∃ opened,
      builder.openGroup capture flags = .ok opened ∧
        found = opened.within count outer opened.names := by
  unfold openGroup at hFound ⊢
  split at hFound
  case isTrue => cases hFound
  case isFalse hMany =>
      have hFew : ¬ maxHeight ≤ builder.scopes.length := by
        intro hLength
        apply hMany
        simp only [within, List.length_append, List.length_map]
        omega
      cases hFound
      rw [if_neg hFew]
      exact ⟨_, rfl, rfl⟩

/- So does what is read of the opening of a group. -/
theorem exists_afterOpening_of_within
    {builder found : Builder}
    {opening : GroupOpening}
    (hFound :
      (builder.within count outer
          builder.names).afterOpening opening =
        .ok found) :
    ∃ opened,
      builder.afterOpening opening = .ok opened ∧
        found = opened.within count outer opened.names := by
  rcases opening with ⟨name⟩ | ⟨flags⟩ | ⟨flags⟩
  · apply exists_openGroup_of_within
    rw [← hFound]
    simp [afterOpening, within, Nat.add_right_comm]
  · exact exists_openGroup_of_within hFound
  · cases hFound
    exact ⟨_, rfl, rfl⟩

/- A group that is open alone closes as it does in context. -/
theorem exists_closeGroup_of_within
    {builder found : Builder}
    (hScopes : builder.scopes ≠ [])
    (hFound :
      (builder.within count outer builder.names).closeGroup =
        .ok found) :
    ∃ closed,
      builder.closeGroup = .ok closed ∧
        found = closed.within count outer closed.names := by
  cases hAlone : builder.closeGroup with
  | error fault =>
      unfold closeGroup at hAlone
      split at hAlone
      case h_1 hNone => exact absurd hNone hScopes
      case h_2 => cases hAlone
  | ok closed =>
      rw [closeGroup_within hAlone] at hFound
      cases hFound
      refine ⟨closed, rfl, ?_⟩
      unfold closeGroup at hAlone
      split at hAlone
      case h_1 => cases hAlone
      case h_2 => cases hAlone; rfl

/-
  An item that is read in context is read alone, unless it
  closes a group that is open around the text only.
-/
theorem exists_readItem_of_within
    {builder found : Builder}
    {c : Char}
    {rest left : Text}
    (hFound :
      (builder.within count outer builder.names).readItem c
          rest =
        .ok (found, left)) :
    c = ')' ∧ builder.scopes = [] ∨
      ∃ next,
        builder.readItem c rest = .ok (next, left) ∧
          found = next.within count outer next.names := by
  simp only [readItem_eq_ok_iff] at hFound ⊢
  cases hFound with
  | group hOpening hOpen =>
      rcases exists_afterOpening_of_within hOpen with
        ⟨opened, hOpened, hSame⟩
      exact Or.inr ⟨opened, .group hOpening hOpened, hSame⟩
  | close hClose =>
      by_cases hScopes : builder.scopes = []
      · exact Or.inl ⟨rfl, hScopes⟩
      · rcases exists_closeGroup_of_within hScopes hClose with
          ⟨closed, hClosed, hSame⟩
        exact Or.inr ⟨closed, .close hClosed, hSame⟩
  | bar =>
      exact Or.inr ⟨builder.branch, .bar, branch_within builder⟩
  | @set chars behind hRead =>
      exact
        Or.inr
          ⟨builder.push (.set chars), .set hRead,
            push_within builder (by simp [Expr.shift])⟩
  | @quantifier sign quantifier behind hSign hRead =>
      rw [isEmpty_items_within] at hRead
      refine
        Or.inr
          ⟨builder.quantify quantifier, .quantifier hSign hRead,
            ?_⟩
      have hNames :
          (builder.quantify quantifier).names =
            builder.names := by
        unfold quantify
        split <;> rfl
      rw [hNames]
      exact quantify_within builder quantifier
  | @escape item behind hRead =>
      exact
        Or.inr
          ⟨builder.push item, .escape hRead,
            push_within builder (shift_of_readEscape hRead count)⟩
  | plain hPlain =>
      exact
        Or.inr
          ⟨builder.push (plainExpr builder.flags c),
            .plain hPlain,
            push_within builder
              (Expr.shift_plainExpr count builder.flags c)⟩

end Builder

end Regex

end RequestRouter

------------------------------------------------------------
-- Groups That Stay Open
------------------------------------------------------------

namespace RequestRouter

namespace Regex

namespace Builder

/- A dollar sign closes no group. -/
theorem not_reads_dollar
    {builder : Builder}
    (hScopes : builder.scopes ≠ [])
    {left : Text}
    (hLeft : left <:+ ['$'])
    (reading : Reading) :
    ¬ builder.Reads left reading := by
  have hEnd :
      ∀ {builder : Builder}, builder.scopes ≠ [] →
        ¬ builder.Reads [] reading := by
    intro builder hOpen hReads
    exact
      hOpen
        ((finish_eq_ok_iff _ _).mp
          (finish_of_reads_nil hReads)).1
  intro hReads
  rcases List.suffix_cons_iff.mp hLeft with rfl | hNone
  · have hSkip : builder.flags.skip ['$'] = ['$'] := by
      have hBlank : Text.isBlank '$' = false := by decide
      simp [Flags.skip, skipBlank, hBlank]
    rcases exists_readItem hReads hSkip with
      ⟨next, behind, hItem, hBehind⟩
    simp only [readItem, Char.reduceEq, if_false, or_self,
      Except.ok.injEq, Prod.mk.injEq] at hItem
    rcases hItem with ⟨rfl, rfl⟩
    refine hEnd ?_ hBehind
    exact hScopes
  · rw [List.suffix_nil.mp hNone] at hReads
    exact hEnd hScopes hReads

/- A number does not start with a parenthesis. -/
theorem readDecimal_close
    (flags : Flags)
    (more : Text) :
    readDecimal flags (')' :: more) = .error .decimalEmpty := by
  simp [readDecimal, readDigits, isBlank_close]

/- A brace with nothing inside is no repetition. -/
theorem not_readQuantifier_brace
    {flags : Flags}
    {blanks more : Text}
    (hLine : '\n' ∉ more)
    (hBlanks : flags.skip blanks = [])
    (nothing : Bool)
    (found : Quantifier × Text) :
    readQuantifier flags nothing '{' (blanks ++ ')' :: more) ≠
      .ok found := by
  cases nothing with
  | true => simp [readQuantifier]
  | false =>
      rw [ne_eq, readQuantifier_brace_eq_ok_iff]
      intro hRead
      rcases (Sequence.bind_eq_ok_iff _ _ _).mp hRead with
        ⟨bounds, hBounds, -⟩
      rcases (Sequence.bind_eq_ok_iff _ _ _).mp hBounds with
        ⟨least, hLeast, -⟩
      rcases flags.skip_append_cases blanks hLine with
        hLeft | hLost
      · rw [hLeft, hBlanks, List.nil_append,
          readDecimal_close] at hLeast
        cases hLeast
      · rw [hLost] at hLeast
        simp [readDecimal, readDigits] at hLeast

/- So a brace that a parenthesis ends cannot be read. -/
theorem not_reads_brace
    {builder : Builder}
    {blanks more : Text}
    (hLine : '\n' ∉ more)
    (hBlanks : builder.flags.skip blanks = [])
    (reading : Reading) :
    ¬ builder.Reads ('{' :: blanks ++ ')' :: more) reading := by
  intro hReads
  have hSkip :
      builder.flags.skip ('{' :: blanks ++ ')' :: more) =
        '{' :: (blanks ++ ')' :: more) := by
    have hBlank : Text.isBlank '{' = false := by decide
    simp [Flags.skip, skipBlank, hBlank]
  rcases exists_readItem hReads hSkip with
    ⟨next, behind, hItem, -⟩
  rw [readItem_eq_ok_iff] at hItem
  cases hItem with
  | plain hPlain => simp at hPlain
  | quantifier _ hRead =>
      exact not_readQuantifier_brace hLine hBlanks _ _ hRead

/- An item that is read inside of a group leaves it open. -/
theorem scopes_within_ne_nil
    (builder : Builder)
    (count : Nat)
    {outer : List Scope}
    (hOuter : outer ≠ [])
    (names : List Text) :
    (builder.within count outer names).scopes ≠ [] := by
  simp [within, hOuter]

end Builder

end Regex

end RequestRouter

------------------------------------------------------------
-- Sources in Front of a Parenthesis
------------------------------------------------------------

namespace RequestRouter

namespace Regex

namespace Builder

variable {count : Nat}
variable {outer : List Scope}
variable {reading : Reading}

/-
  At the end of a text all groups are closed if a parenthesis
  behind it closes one around it.
-/
theorem finish_of_reads_within
    {builder : Builder}
    (hOuter : outer ≠ [])
    {text : Text}
    (hSkip : builder.flags.skip text = [])
    (hReads :
      (builder.within count outer builder.names).Reads
        (text ++ [')', '$']) reading) :
    ∃ e, builder.finish = .ok e := by
  have hLine : '\n' ∉ ['$'] := by decide
  rcases builder.flags.skip_append_cases text hLine with
    hLeft | hLost
  case inr =>
      exact (not_reads_of_skip hOuter hLost reading hReads).elim
  rw [hSkip, List.nil_append] at hLeft
  rcases exists_readItem hReads hLeft with
    ⟨found, left, hItem, hBehind⟩
  rcases exists_readItem_of_within hItem with
    ⟨-, hScopes⟩ | ⟨next, hNext, rfl⟩
  · exact ⟨builder.body, by simp [finish, hScopes]⟩
  · have hOpen :=
      scopes_within_ne_nil next count hOuter next.names
    rw [readItem_eq_ok_iff] at hNext
    cases hNext with
    | quantifier hSign => simp at hSign
    | plain hPlain => simp at hPlain
    | close =>
        exact
          (not_reads_dollar hOpen List.suffix_rfl reading
            hBehind).elim

/-
  A text that is read inside of a group, up to a parenthesis
  and a dollar sign, is read alone to its end or up to a
  parenthesis that closes no group of its own. The induction
  is on the items, which leave the group open.
-/
theorem read_of_reads_within
    {builder : Builder}
    (hOuter : outer ≠ [])
    {fuel : Nat}
    {text : Text}
    (hFuel : text.length < fuel)
    (hReads :
      (builder.within count outer builder.names).Reads
        (text ++ [')', '$']) reading) :
    builder.read fuel text = .error .unopenedGroup ∨
      ∃ e, builder.read fuel text = .ok e := by
  have hLine : '\n' ∉ ['$'] := by decide
  induction fuel generalizing builder text with
  | zero => exact absurd hFuel (Nat.not_lt_zero _)
  | succ fuel ih =>
      rw [read]
      have hShort := builder.flags.length_skip_le text
      cases hSkip : builder.flags.skip text with
      | nil =>
          right
          exact finish_of_reads_within hOuter hSkip hReads
      | cons c rest =>
          rw [hSkip, List.length_cons] at hShort
          have hBoth :=
            builder.flags.skip_append hSkip (by simp)
              [')', '$']
          rcases exists_readItem hReads hBoth with
            ⟨found, left, hItem, hBehind⟩
          rcases exists_readItem_of_within hItem with
            ⟨rfl, hScopes⟩ | ⟨next, hNext, rfl⟩
          · left
            simp [readItem, closeGroup, hScopes, bind,
              Except.bind]
          have hOpen :=
            scopes_within_ne_nil next count hOuter next.names
          rcases readItem_cut hLine hNext with
            ⟨behind, rfl, hAlone⟩ | hTaken |
              ⟨blanks, hBlanks, rfl⟩
          · have hLength :=
              (isLocalAt_readItem builder c rest hAlone).1
            simp only [hAlone, bind, Except.bind]
            exact ih (by omega) hBehind
          · exact
              (not_reads_dollar hOpen hTaken reading
                hBehind).elim
          · have hInner :
                (next.within count outer
                    next.names).flags.skip blanks = [] :=
              hBlanks
            exact
              (not_reads_brace hLine hInner reading
                hBehind).elim

end Builder

/-
  A source that can be read between the parentheses and
  anchors of a constraint is read alone to its end, unless it
  closes a group that it does not open.
-/
theorem read_of_parse_anchored
    {source : Text}
    {e : Expr}
    (hAnchored :
      parse ("^(?:".toList ++ source ++ ")$".toList) =
        .ok e) :
    parse source = .error .unopenedGroup ∨
      ∃ body,
        ({} : Builder).read (source.length + 1) source =
          .ok body := by
  have hReads := Builder.reads_of_parse hAnchored
  have hText :
      "^(?:".toList ++ source ++ ")$".toList =
        '^' :: '(' :: '?' :: ':' :: (source ++ [')', '$']) := by
    simp
  rw [hText] at hReads
  have hCaret :
      ({} : Builder).readItem '^'
          ('(' :: '?' :: ':' :: (source ++ [')', '$'])) =
        .ok
          (({} : Builder).push (.assertion .textStart),
            '(' :: '?' :: ':' :: (source ++ [')', '$'])) := by
    simp [Builder.readItem, plainExpr]
  have hGroup := Builder.reads_of_readItem _ hReads rfl hCaret
  have hInside := Builder.reads_inside_of_reads _ hGroup rfl
  rw [Builder.inside_eq_within rfl] at hInside
  rcases
      Builder.read_of_reads_within (List.cons_ne_nil _ _)
        (Nat.lt_succ_self _) hInside with
    hError | hBody
  · left
    rw [parse, hError]
    rfl
  · exact Or.inr hBody

end Regex

end RequestRouter
