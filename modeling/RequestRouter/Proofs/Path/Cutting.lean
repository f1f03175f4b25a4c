import RequestRouter.Path.Split

/-
  Where a path is cut into segments.

  A slash stays in a segment only inside braces, and only
  the last segment can leave a brace open. So two lists of
  segments that are written one behind the other start with
  the same segment if one text starts with both. Such lists
  are what splitting gives, and joining undoes it. How many
  braces a text leaves open can be read off its ends.

  Key definitions include:
    * `Path.depthBehind`
    * `Path.AreCut`
    * `Path.IsUncut`

  Main statements:
    * `Path.depthBehind_eq_iff`
    * `Path.areCut_splitFrom`
    * `Path.AreCut.eq_of_append_eq`
    * `Path.splitFrom_intercalate`
    * `Path.split_eq_iff`
-/

------------------------------------------------------------
-- Cut Segments
------------------------------------------------------------

namespace RequestRouter

namespace Path

/- The brace depth behind a text. -/
def depthBehind
    (depth : Nat)
    (text : Text) : Nat :=
  text.foldl depthAfter depth

/-
  The depth behind a text is within a bound if the whole
  text, from the depth in front of it, and each of its ends
  open no more braces than they close and the bound allows.
-/
theorem depthBehind_le_iff
    (depth : Nat)
    (text : Text)
    (bound : Nat) :
    depthBehind depth text ≤ bound ↔
      depth + text.count '{' ≤ bound + text.count '}' ∧
        ∀ rest, rest <:+ text →
          rest.count '{' ≤ bound + rest.count '}' := by
  induction text generalizing depth with
  | nil => simp [depthBehind]
  | cons c text ih =>
      have hEnds :
          (∀ rest, rest <:+ c :: text →
              rest.count '{' ≤ bound + rest.count '}') ↔
            (c :: text).count '{' ≤
                bound + (c :: text).count '}' ∧
              ∀ rest, rest <:+ text →
                rest.count '{' ≤ bound + rest.count '}' := by
        simp only [List.suffix_cons_iff, forall_eq_or_imp]
      have hStep :
          depthBehind depth (c :: text) =
            depthBehind (depthAfter depth c) text :=
        rfl
      rw [hStep, ih, hEnds, ← and_assoc]
      apply and_congr_left
      intro hRest
      -- a closing brace at depth 0 is lost, but the text
      -- behind it is an end as well
      have hText := hRest text (List.suffix_refl text)
      simp only [depthAfter, List.count_cons, beq_iff_eq]
      split
      case isTrue hOpening =>
          subst hOpening
          simp only [Char.reduceEq, if_false]
          omega
      case isFalse hOther =>
          split
          case isTrue hClosing => omega
          case isFalse hPlain => omega

/-
  The depth behind a text is the largest number of braces
  that one of its ends opens and does not close.
-/
theorem depthBehind_eq_iff
    (text : Text)
    (depth : Nat) :
    depthBehind 0 text = depth ↔
      (∃ rest, rest <:+ text ∧
        rest.count '{' = depth + rest.count '}') ∧
        ∀ rest, rest <:+ text →
          rest.count '{' ≤ depth + rest.count '}' := by
  have hWithin :
      ∀ bound, depthBehind 0 text ≤ bound ↔
        ∀ rest, rest <:+ text →
          rest.count '{' ≤ bound + rest.count '}' := by
    intro bound
    rw [depthBehind_le_iff, Nat.zero_add]
    exact and_iff_right_of_imp fun hEnds =>
      hEnds text (List.suffix_refl text)
  constructor
  · rintro rfl
    have hEnds := (hWithin _).mp (Nat.le_refl _)
    refine ⟨?_, hEnds⟩
    cases hDepth : depthBehind 0 text with
    | zero => exact ⟨[], List.nil_suffix, rfl⟩
    | succ fewer =>
        have hNot : ¬depthBehind 0 text ≤ fewer := by omega
        simp only [hWithin, Classical.not_forall,
          Nat.not_le] at hNot
        rcases hNot with ⟨rest, hRest, hMore⟩
        have hMost := hEnds rest hRest
        exact ⟨rest, hRest, by omega⟩
  · rintro ⟨⟨rest, hRest, hLargest⟩, hEnds⟩
    apply Nat.le_antisymm ((hWithin depth).mpr hEnds)
    have hMost := (hWithin _).mp (Nat.le_refl _) rest hRest
    omega

/- A lone closing brace leaves the next one open. -/
example :
    depthBehind 0 ['}', 'a', '{', 'b', '{', 'c', '}'] = 1 :=
  by decide

/-
  Whether segments are cut where they may be: no slash in
  them is outside of braces, and none but the last leaves a
  brace open.
-/
def AreCut : Nat → List Text → Prop
  | _, [] => True
  | depth, part :: parts =>
      (∀ front rest, part = front ++ '/' :: rest →
        depthBehind depth front ≠ 0) ∧
      (parts ≠ [] → depthBehind depth part = 0) ∧
        AreCut 0 parts

/- A character that does not cut goes into a segment. -/
theorem AreCut.cons
    {depth : Nat}
    {c : Char}
    (hInside : ¬(c = '/' ∧ depth = 0))
    {part : Text}
    {parts : List Text}
    (hCut : AreCut (depthAfter depth c) (part :: parts)) :
    AreCut depth ((c :: part) :: parts) := by
  rcases hCut with ⟨hSlashes, hClosed, hRest⟩
  refine ⟨?_, hClosed, hRest⟩
  intro front rest hPart
  cases front with
  | nil =>
      cases hPart
      intro hDepth
      exact hInside ⟨rfl, hDepth⟩
  | cons first front =>
      cases hPart
      exact hSlashes front rest rfl

/- Splitting cuts at slashes outside of braces. -/
theorem areCut_splitFrom
    (depth : Nat)
    (path : Text) :
    AreCut depth (splitFrom depth path) := by
  induction path generalizing depth with
  | nil => simp [splitFrom, AreCut]
  | cons c rest ih =>
      unfold splitFrom
      split
      case isTrue hSlash =>
          rcases hSlash with ⟨rfl, rfl⟩
          refine ⟨?_, fun _ => rfl, ih 0⟩
          intro front rest hPart
          simp at hPart
      case isFalse hInside =>
          have hCut := ih (depthAfter depth c)
          cases hSplit :
              splitFrom (depthAfter depth c) rest with
          | nil => exact absurd hSplit (splitFrom_ne_nil _ _)
          | cons part parts =>
              rw [hSplit] at hCut
              exact hCut.cons hInside

/-
  If what follows a first segment is behind a slash, and is
  empty behind the last one, no longer segment starts so.
-/
theorem AreCut.eq_nil_of_append
    {part left : Text}
    {parts others : List Text}
    (hCut : AreCut 0 (part :: parts))
    (hLonger : AreCut 0 ((part ++ left) :: others))
    {rest : Text}
    (hSlash : ∀ c ∈ (left ++ rest).head?, c = '/')
    (hEnd : parts = [] → left ++ rest = []) :
    left = [] := by
  cases left with
  | nil => rfl
  | cons c left =>
      have hFirst : c = '/' := hSlash c (by simp)
      have hOpen : depthBehind 0 part ≠ 0 :=
        hLonger.1 part left (by rw [hFirst])
      have hLast : parts = [] := by
        apply Classical.byContradiction
        intro hMore
        exact hOpen (hCut.2.1 hMore)
      cases hEnd hLast

/- One text starts with one first segment only. -/
theorem AreCut.eq_of_append_eq
    {first second : Text}
    {firsts seconds : List Text}
    (hFirst : AreCut 0 (first :: firsts))
    (hSecond : AreCut 0 (second :: seconds))
    {rest left : Text}
    (hSame : first ++ rest = second ++ left)
    (hRest : ∀ c ∈ rest.head?, c = '/')
    (hLeft : ∀ c ∈ left.head?, c = '/')
    (hFirstEnd : firsts = [] → rest = [])
    (hSecondEnd : seconds = [] → left = []) :
    first = second := by
  rcases List.append_eq_append_iff.mp hSame with
    ⟨more, rfl, rfl⟩ | ⟨more, rfl, rfl⟩
  · have hNone :=
      hFirst.eq_nil_of_append hSecond hRest hFirstEnd
    rw [hNone, List.append_nil]
  · have hNone :=
      hSecond.eq_nil_of_append hFirst hLeft hSecondEnd
    rw [hNone, List.append_nil]

end Path

end RequestRouter

------------------------------------------------------------
-- Uncut Texts
------------------------------------------------------------

namespace RequestRouter

namespace Path

/- Whether no slash of a text stands outside of braces. -/
def IsUncut
    (depth : Nat)
    (text : Text) : Prop :=
  ∀ front rest, text = front ++ '/' :: rest →
    depthBehind depth front ≠ 0

/- A text is not cut behind a first character inside it. -/
theorem IsUncut.of_cons
    {depth : Nat}
    {c : Char}
    {rest : Text}
    (hUncut : IsUncut depth (c :: rest)) :
    ¬(c = '/' ∧ depth = 0) ∧
      IsUncut (depthAfter depth c) rest := by
  refine ⟨?_, ?_⟩
  · rintro ⟨rfl, rfl⟩
    exact hUncut [] rest rfl rfl
  · intro front behind hRest
    exact hUncut (c :: front) behind (by rw [hRest]; rfl)

/- The start of a text that is not cut is not cut. -/
theorem IsUncut.of_append
    {depth : Nat}
    {start later : Text}
    (hUncut : IsUncut depth (start ++ later)) :
    IsUncut depth start := by
  intro front rest hStart
  exact hUncut front (rest ++ later) (by simp [hStart])

/- A text that is not cut stays in front of the first cut. -/
theorem splitFrom_append
    {depth : Nat}
    {text : Text}
    (hUncut : IsUncut depth text)
    (later : Text) :
    splitFrom depth (text ++ later) =
      (splitFrom (depthBehind depth text) later).modifyHead
        (text ++ ·) := by
  induction text generalizing depth with
  | nil =>
      cases hLater : splitFrom depth later with
      | nil => exact absurd hLater (splitFrom_ne_nil _ _)
      | cons first rest => simp [depthBehind, hLater]
  | cons c rest ih =>
      rcases hUncut.of_cons with ⟨hInside, hRest⟩
      rw [List.cons_append, splitFrom, if_neg hInside,
        ih hRest, List.modifyHead_modifyHead]
      rfl

/- Cutting what is joined from segments gives them back. -/
theorem splitFrom_intercalate
    {depth : Nat}
    {parts : List Text}
    (hCut : AreCut depth parts)
    (hSome : parts ≠ []) :
    splitFrom depth (['/'].intercalate parts) = parts := by
  induction parts generalizing depth with
  | nil => exact absurd rfl hSome
  | cons part rest ih =>
      rcases hCut with ⟨hUncut, hClosed, hRest⟩
      cases rest with
      | nil =>
          rw [List.intercalate_singleton]
          have hAlone := splitFrom_append hUncut []
          simpa [splitFrom] using hAlone
      | cons next more =>
          rw [List.intercalate_cons_cons, List.append_assoc,
            splitFrom_append hUncut, hClosed (by simp),
            List.singleton_append, splitFrom,
            if_pos ⟨rfl, rfl⟩, ih hRest (by simp)]
          simp

namespace AreCut

variable {depth : Nat}
variable {parts : List Text}

/- The first segments are cut where all of them are. -/
theorem of_isPrefix
    (hCut : AreCut depth parts)
    {start : List Text}
    (hStart : start <+: parts) :
    AreCut depth start := by
  induction start generalizing depth parts with
  | nil => exact trivial
  | cons part rest ih =>
      rcases hStart with ⟨later, rfl⟩
      rcases hCut with ⟨hUncut, hClosed, hRest⟩
      refine ⟨hUncut, fun hMore => ?_, ?_⟩
      · exact hClosed (by simp [hMore])
      · exact ih hRest (List.prefix_append rest later)

/- So are those that are kept. -/
theorem filter
    (hCut : AreCut 0 parts)
    (keep : Text → Bool) :
    AreCut 0 (parts.filter keep) := by
  induction parts with
  | nil => exact trivial
  | cons part rest ih =>
      rcases hCut with ⟨hUncut, hClosed, hRest⟩
      cases hKeep : keep part with
      | false =>
          rw [List.filter_cons_of_neg (by simp [hKeep])]
          exact ih hRest
      | true =>
          rw [List.filter_cons_of_pos hKeep]
          refine ⟨hUncut, fun hMore => hClosed ?_, ih hRest⟩
          rintro rfl
          exact hMore rfl

/- So are their images under a map that keeps braces. -/
theorem map
    (hCut : AreCut 0 parts)
    {f : Text → Text}
    (hUncut : ∀ part, IsUncut 0 part → IsUncut 0 (f part))
    (hBehind :
      ∀ part, depthBehind 0 (f part) = depthBehind 0 part) :
    AreCut 0 (parts.map f) := by
  induction parts with
  | nil => exact trivial
  | cons part rest ih =>
      rcases hCut with ⟨hOwn, hClosed, hRest⟩
      refine ⟨hUncut _ hOwn, fun hMore => ?_, ih hRest⟩
      rw [hBehind]
      exact hClosed fun hNone => hMore (by rw [hNone]; rfl)

end AreCut

end Path

end RequestRouter

------------------------------------------------------------
-- Splitting and Joining
------------------------------------------------------------

namespace RequestRouter

namespace Path

/- A text is one segment if no slash in it cuts. -/
theorem split_eq_singleton_iff
    (part : Text) :
    split part = [part] ↔ IsUncut 0 part := by
  constructor
  · intro hWhole
    have hCut := areCut_splitFrom 0 part
    rw [← split, hWhole] at hCut
    exact hCut.1
  · intro hUncut
    have hCut : AreCut 0 [part] :=
      ⟨hUncut, fun hMore => absurd rfl hMore, trivial⟩
    have hSplit := splitFrom_intercalate hCut (by simp)
    rwa [List.intercalate_singleton] at hSplit

/-
  Segments are cut where they may be if each of them is, and
  all but the last close their braces.
-/
theorem areCut_iff
    (parts : List Text) :
    AreCut 0 parts ↔
      (∀ part ∈ parts, IsUncut 0 part) ∧
        ∀ part ∈ parts.dropLast, depthBehind 0 part = 0 := by
  induction parts with
  | nil => simp [AreCut]
  | cons first rest ih =>
      have hFirst :
          AreCut 0 (first :: rest) ↔
            IsUncut 0 first ∧
              (rest ≠ [] → depthBehind 0 first = 0) ∧
                AreCut 0 rest :=
        Iff.rfl
      rw [hFirst, ih]
      cases rest with
      | nil => simp
      | cons second more =>
          rw [List.dropLast_cons_cons,
            List.forall_mem_cons (a := first),
            List.forall_mem_cons (a := first)]
          constructor
          · intro hParts
            rcases hParts with
              ⟨hUncut, hClosed, hOthers, hDepths⟩
            exact
              ⟨⟨hUncut, hOthers⟩,
                hClosed (List.cons_ne_nil _ _), hDepths⟩
          · intro hParts
            rcases hParts with
              ⟨⟨hUncut, hOthers⟩, hClosed, hDepths⟩
            exact ⟨hUncut, fun _ => hClosed, hOthers, hDepths⟩

/-
  Splitting is the inverse of joining. The segments of a
  path are the only ones that are joined to it, are each
  left whole, and close their braces in front of the last.
-/
theorem split_eq_iff
    (path : Text)
    (parts : List Text) :
    split path = parts ↔
      parts ≠ [] ∧ ['/'].intercalate parts = path ∧
        (∀ part ∈ parts, split part = [part]) ∧
          ∀ part ∈ parts.dropLast, depthBehind 0 part = 0 := by
  have hWhole :
      (∀ part ∈ parts, split part = [part]) ↔
        ∀ part ∈ parts, IsUncut 0 part :=
    forall₂_congr fun part _ => split_eq_singleton_iff part
  rw [hWhole, ← areCut_iff]
  constructor
  · intro hSplit
    rw [← hSplit]
    exact
      ⟨split_ne_nil path, intercalate_split path,
        areCut_splitFrom 0 path⟩
  · intro hParts
    rcases hParts with ⟨hSome, hJoin, hCut⟩
    rw [← hJoin]
    exact splitFrom_intercalate hCut hSome

end Path

end RequestRouter
