import Mathlib.Data.List.Nodup
import RequestRouter.Proofs.Path.Variants

/-
  Which paths an optional route is expanded into.

  A variant stops in front of an optional segment or behind
  one, and joins all segments up to there. So the variants
  are a chain, the shortest first, and no two of them are
  the same text. The last one is the whole route only if its
  last segment is a parameter: what stands behind the last
  optional segment is lost.

  Key definitions include:
    * `Path.required`
    * `Path.isStop`
    * `Path.stops`
    * `Path.joinFirst`

  Main statements:
    * `Path.eq_of_joinFirst_eq`
    * `Path.expandOptional_stops`
    * `Path.expandOptional_whole_iff`
-/

------------------------------------------------------------
-- Values Without Repetition
------------------------------------------------------------

namespace RequestRouter

namespace Path

variable {first least : Nat}
variable {numbers strict : List Nat}

/- Lists of the same numbers start with the least of them. -/
theorem eq_of_mem_cons_iff
    (hFirst : ∀ n ∈ numbers, first ≤ n)
    (hLeast : ∀ n ∈ strict, least < n)
    (hSame : ∀ n, n ∈ first :: numbers ↔ n ∈ least :: strict) :
    first = least := by
  apply Nat.le_antisymm
  · rcases List.mem_cons.mp ((hSame least).mpr (by simp)) with
      hIs | hLater
    · omega
    · exact hFirst least hLater
  · rcases List.mem_cons.mp ((hSame first).mp (by simp)) with
      hIs | hLater
    · omega
    · have := hLeast first hLater
      omega

/- Without their least number they are still the same. -/
theorem mem_filter_ne_iff
    (hLeast : ∀ n ∈ strict, least < n)
    (hSame : ∀ n, n ∈ least :: numbers ↔ n ∈ least :: strict)
    (n : Nat) :
    n ∈ numbers.filter (· ≠ least) ↔ n ∈ strict := by
  have hBoth := hSame n
  simp only [List.mem_cons] at hBoth
  rw [List.mem_filter, decide_eq_true_eq]
  constructor
  · intro hMember
    rcases hBoth.mp (Or.inr hMember.1) with hIs | hLater
    · exact absurd hIs hMember.2
    · exact hLater
  · intro hLater
    have hMore := hLeast n hLater
    rcases hBoth.mpr (Or.inr hLater) with hIs | hMember
    · omega
    · exact ⟨hMember, by omega⟩

/-
  Where numbers only grow and their values are different,
  the values without repetition are those of the numbers
  without repetition.
-/
theorem eraseDups_map_eq
    {α : Type}
    [BEq α]
    [LawfulBEq α]
    {f : Nat → α}
    (hNumbers : numbers.Pairwise (· ≤ ·))
    (hStrict : strict.Pairwise (· < ·))
    (hSame : ∀ n, n ∈ numbers ↔ n ∈ strict)
    (hApart :
      ∀ m ∈ strict, ∀ n ∈ strict, f m = f n → m = n) :
    (numbers.map f).eraseDups = strict.map f := by
  induction strict generalizing numbers with
  | nil =>
      have hNone : numbers = [] := by
        apply List.eq_nil_iff_forall_not_mem.mpr
        simpa using hSame
      rw [hNone]
      rfl
  | cons least strict ih =>
      rcases List.pairwise_cons.mp hStrict with
        ⟨hLeast, hRest⟩
      cases numbers with
      | nil => simpa using hSame least
      | cons first numbers =>
          rcases List.pairwise_cons.mp hNumbers with
            ⟨hFirst, hOthers⟩
          have hHead := eq_of_mem_cons_iff hFirst hLeast hSame
          subst hHead
          have hKept :
              (numbers.map f).filter (fun b => !b == f first) =
                (numbers.filter (· ≠ first)).map f := by
            rw [List.filter_map]
            congr 1
            apply List.filter_congr
            intro n hMember
            have hStrictN :=
              (hSame n).mp (List.mem_cons_of_mem _ hMember)
            by_cases hIs : n = first
            · simp [hIs]
            · have hValue : f n ≠ f first := fun hEq =>
                hIs (hApart n hStrictN first (by simp) hEq)
              simp [hIs, hValue]
          rw [List.map_cons, List.eraseDups_cons, hKept,
            List.map_cons]
          congr 1
          apply ih (hOthers.filter _) hRest
          · exact mem_filter_ne_iff hLeast hSame
          · intro m hM n hN
            exact
              hApart m (List.mem_cons_of_mem _ hM) n
                (List.mem_cons_of_mem _ hN)

end Path

end RequestRouter

------------------------------------------------------------
-- Stops
------------------------------------------------------------

namespace RequestRouter

namespace Path

/- Whether a segment is an optional parameter. -/
def isOptional
    (segment : Text) : Bool :=
  (optional? segment).isSome

/- The segments of a route with optional ones required. -/
def required
    (path : Text) : List Text :=
  requiredSegments (segments path)

/-
  Whether a variant stops behind so many segments: the last
  of them is optional, or the next one is.
-/
def isStop
    (parts : List Text) : Nat → Bool
  | 0 => parts[0]?.any isOptional
  | count + 1 =>
      parts[count]?.any isOptional ||
        parts[count + 1]?.any isOptional

/- The path of the first so many required segments. -/
def joinFirst
    (path : Text)
    (count : Nat) : Text :=
  joinSegments ((required path).take count)

/-
  Where the variants of some segments stop, when so many
  stand in front of them: in front of each optional segment
  and behind it.
-/
def stopsFrom
    (count : Nat) :
    List Text → List Nat
  | [] => []
  | segment :: rest =>
      if isOptional segment then
        count :: (count + 1) :: stopsFrom (count + 1) rest
      else stopsFrom (count + 1) rest

/- The variants are the paths up to these stops. -/
theorem variantsFrom_eq_map
    (base parts : List Text) :
    variantsFrom base parts =
      (stopsFrom base.length parts).map fun count =>
        joinSegments
          ((base ++ requiredSegments parts).take count) := by
  induction parts generalizing base with
  | nil => rfl
  | cons segment rest ih =>
      have hLater := ih (base ++ [(optional? segment).getD segment])
      rw [List.length_append, List.length_singleton,
        List.append_assoc, List.singleton_append] at hLater
      unfold variantsFrom stopsFrom
      cases hOptional : optional? segment with
      | none =>
          simp only [hOptional, Option.getD_none] at hLater
          simp [isOptional, requiredSegments, hOptional, hLater]
      | some part =>
          simp only [hOptional, Option.getD_some] at hLater
          have hBehind :
              (base ++ part :: requiredSegments rest).take
                  (base.length + 1) =
                base ++ [part] := by
            rw [List.take_length_add_append]
            rfl
          have hParts :
              requiredSegments (segment :: rest) =
                part :: requiredSegments rest := by
            simp [requiredSegments, hOptional]
          simp [isOptional, hOptional, hParts, hLater, hBehind]

/- A stop is next to an optional segment. -/
theorem mem_stopsFrom_iff
    (count : Nat)
    (parts : List Text)
    (stop : Nat) :
    stop ∈ stopsFrom count parts ↔
      ∃ i, parts[i]?.any isOptional = true ∧
        (stop = count + i ∨ stop = count + i + 1) := by
  induction parts generalizing count with
  | nil => simp [stopsFrom]
  | cons segment rest ih =>
      rw [← Nat.or_exists_add_one]
      unfold stopsFrom
      split
      case isTrue hOptional =>
        simp [ih, hOptional, Nat.add_assoc, Nat.add_comm 1, or_assoc]
      case isFalse hOptional =>
        simp [ih, hOptional, Nat.add_assoc, Nat.add_comm 1]

/- From the start, they are what is counted as a stop. -/
theorem mem_stopsFrom_zero_iff
    (parts : List Text)
    (stop : Nat) :
    stop ∈ stopsFrom 0 parts ↔ isStop parts stop = true := by
  rw [mem_stopsFrom_iff]
  cases stop with
  | zero => simp [isStop]
  | succ count =>
      rw [isStop, Bool.or_eq_true]
      constructor
      · intro hNext
        rcases hNext with ⟨i, hOptional, hIn | hBehind⟩
        · right
          have hCount : i = count + 1 := by omega
          rwa [← hCount]
        · left
          have hCount : i = count := by omega
          rwa [← hCount]
      · intro hNext
        rcases hNext with hOptional | hOptional
        · exact ⟨count, hOptional, Or.inr (by omega)⟩
        · exact ⟨count + 1, hOptional, Or.inl (by omega)⟩

/- The stops only grow. -/
theorem pairwise_stopsFrom
    (count : Nat)
    (parts : List Text) :
    (stopsFrom count parts).Pairwise (· ≤ ·) := by
  have hAbove :
      ∀ start, ∀ rest, ∀ stop ∈ stopsFrom start rest,
        start ≤ stop := by
    intro start rest stop hStop
    rcases (mem_stopsFrom_iff _ _ _).mp hStop with
      ⟨i, -, hIn | hBehind⟩
    · omega
    · omega
  induction parts generalizing count with
  | nil => exact List.Pairwise.nil
  | cons segment rest ih =>
      unfold stopsFrom
      split
      case isFalse => exact ih (count + 1)
      case isTrue =>
          apply List.pairwise_cons.mpr
          constructor
          · intro stop hStop
            rcases List.mem_cons.mp hStop with hIs | hLater
            · omega
            · have := hAbove _ _ stop hLater
              omega
          · apply List.pairwise_cons.mpr
            exact ⟨hAbove _ _, ih (count + 1)⟩

/- No variant stops behind more segments than there are. -/
theorem le_length_of_isStop
    {parts : List Text}
    {stop : Nat}
    (hStop : isStop parts stop = true) :
    stop ≤ parts.length := by
  cases stop with
  | zero => omega
  | succ count =>
      rw [isStop, Bool.or_eq_true] at hStop
      by_contra hFar
      have hNone : parts[count]? = none := by
        apply List.getElem?_eq_none
        omega
      have hNext : parts[count + 1]? = none := by
        apply List.getElem?_eq_none
        omega
      simp [hNone, hNext] at hStop

end Path

end RequestRouter

------------------------------------------------------------
-- Joined Segments
------------------------------------------------------------

namespace RequestRouter

namespace Path

/- An optional segment is not empty without its mark. -/
theorem ne_nil_of_optional?
    {segment part : Text}
    (hOptional : optional? segment = some part) :
    part ≠ [] := by
  unfold optional? at hOptional
  split at hOptional
  case isFalse => cases hOptional
  case isTrue hColon =>
      intro hNone
      have hSegment :=
        Text.eq_append_of_stripSuffix? hOptional
      rw [hSegment, hNone] at hColon
      simp [Text.startsWith] at hColon

/- Behind the first there is no empty segment. -/
theorem ne_nil_of_mem_tail_required
    {path part : Text}
    (hPart : part ∈ (required path).tail) :
    part ≠ [] := by
  unfold required requiredSegments at hPart
  rw [← List.map_tail] at hPart
  rcases List.mem_map.mp hPart with
    ⟨segment, hSegment, rfl⟩
  have hSome : segment ≠ [] := by
    unfold segments at hSegment
    split at hSegment
    case h_1 => simp at hSegment
    case h_2 first rest hSplit =>
        rw [List.tail_cons, List.mem_filter] at hSegment
        simpa using hSegment.2
  cases hOptional : optional? segment with
  | none => exact hSome
  | some part => exact ne_nil_of_optional? hOptional

/-
  What is joined from some segments is cut into them again,
  unless it is the root of an empty first segment.
-/
theorem split_joinFirst_cases
    {path : Text}
    {count : Nat}
    (hSome : 1 ≤ count)
    (hCount : count ≤ (required path).length) :
    split (joinFirst path count) =
        (required path).take count ∨
      joinFirst path count = ['/'] ∧
        (required path).take count = [[]] := by
  have hCut :=
    (areCut_requiredSegments (areCut_segments path)).of_isPrefix
      (List.take_prefix count (required path))
  have hParts : (required path).take count ≠ [] := by
    intro hNone
    have hLength := congrArg List.length hNone
    rw [List.length_take, List.length_nil] at hLength
    omega
  unfold joinFirst
  rw [split_joinSegments hCut hParts]
  split
  case isTrue hEmpty =>
      right
      refine ⟨?_, hEmpty⟩
      rw [hEmpty]
      rfl
  case isFalse => exact Or.inl rfl

/- Only the first segment of a route may be empty. -/
theorem split_root_ne_take_required
    (path : Text)
    (count : Nat) :
    split ['/'] ≠ (required path).take count := by
  intro hTake
  have hEmpty : [] ∈ ((required path).take count).tail := by
    rw [← hTake]
    exact List.mem_cons_self
  rw [← List.drop_one, List.drop_take, List.drop_one]
    at hEmpty
  exact
    ne_nil_of_mem_tail_required (List.mem_of_mem_take hEmpty)
      rfl

/- Other numbers of segments are joined to other paths. -/
theorem eq_of_joinFirst_eq
    {path : Text}
    {first second : Nat}
    (hFirst : 1 ≤ first)
    (hSecond : 1 ≤ second)
    (hFirstLe : first ≤ (required path).length)
    (hSecondLe : second ≤ (required path).length)
    (hSame : joinFirst path first = joinFirst path second) :
    first = second := by
  have hTaken :
      (required path).take first =
          (required path).take second →
        first = second := by
    intro hTake
    have hLengths := congrArg List.length hTake
    rw [List.length_take, List.length_take] at hLengths
    omega
  rcases split_joinFirst_cases hFirst hFirstLe with
    hOne | ⟨hOne, hEmptyOne⟩
  · rcases split_joinFirst_cases hSecond hSecondLe with
      hTwo | ⟨hTwo, hEmptyTwo⟩
    · apply hTaken
      rw [← hOne, ← hTwo, hSame]
    · rw [hSame, hTwo] at hOne
      exact absurd hOne (split_root_ne_take_required _ _)
  · rcases split_joinFirst_cases hSecond hSecondLe with
      hTwo | ⟨hTwo, hEmptyTwo⟩
    · rw [← hSame, hOne] at hTwo
      exact absurd hTwo (split_root_ne_take_required _ _)
    · exact hTaken (hEmptyOne.trans hEmptyTwo.symm)

/-
  Behind an optional first segment no path is the root,
  which is in front of it.
-/
theorem joinFirst_ne_root
    {path : Text}
    (hStop : isStop (segments path) 0 = true)
    {count : Nat}
    (hSome : 1 ≤ count)
    (hCount : count ≤ (required path).length) :
    joinFirst path count ≠ ['/'] := by
  intro hRoot
  rcases split_joinFirst_cases hSome hCount with
    hSplit | ⟨-, hEmpty⟩
  · rw [hRoot] at hSplit
    exact split_root_ne_take_required path count hSplit
  · unfold required requiredSegments at hEmpty
    cases hSegments : segments path with
    | nil => simp [hSegments] at hEmpty
    | cons segment rest =>
        rw [hSegments] at hStop hEmpty
        rcases Option.isSome_iff_exists.mp
            (show (optional? segment).isSome = true by
              simpa [isStop, isOptional] using hStop) with
          ⟨part, hPart⟩
        have hFirst := congrArg List.head? hEmpty
        rw [List.map_cons, hPart, Option.getD_some,
          List.head?_take, if_neg (by omega)] at hFirst
        exact
          ne_nil_of_optional? hPart (Option.some.inj hFirst)

/- Variants that stop at different places are different. -/
theorem eq_of_joinFirst_eq_of_isStop
    {path : Text}
    {first second : Nat}
    (hFirst : isStop (segments path) first = true)
    (hSecond : isStop (segments path) second = true)
    (hSame : joinFirst path first = joinFirst path second) :
    first = second := by
  have hLength :
      (required path).length = (segments path).length :=
    List.length_map _
  have hFirstLe := le_length_of_isStop hFirst
  have hSecondLe := le_length_of_isStop hSecond
  rw [← hLength] at hFirstLe hSecondLe
  by_cases hNone : first = 0
  · subst hNone
    by_contra hMore
    exact
      joinFirst_ne_root hFirst (by omega) hSecondLe
        hSame.symm
  · by_cases hZero : second = 0
    · subst hZero
      exact
        absurd hSame
          (joinFirst_ne_root hSecond (by omega) hFirstLe)
    · exact
        eq_of_joinFirst_eq (by omega) (by omega) hFirstLe
          hSecondLe hSame

end Path

end RequestRouter

------------------------------------------------------------
-- Chains of Variants
------------------------------------------------------------

namespace RequestRouter

namespace Path

/- The places where the variants of a route stop. -/
def stops
    (path : Text) : List Nat :=
  (List.range ((segments path).length + 1)).filter
    (isStop (segments path))

/- These are all of them. -/
theorem mem_stops_iff
    (path : Text)
    (stop : Nat) :
    stop ∈ stops path ↔
      isStop (segments path) stop = true := by
  rw [stops, List.mem_filter, List.mem_range]
  constructor
  · intro hBoth
    exact hBoth.2
  · intro hStop
    have := le_length_of_isStop hStop
    exact ⟨by omega, hStop⟩

/- The variants are the paths up to the stops. -/
theorem eq_map_joinFirst
    {path : Text}
    {variants : List Text}
    (hExpand : expandOptional path = some variants) :
    variants = (stops path).map (joinFirst path) := by
  unfold expandOptional at hExpand
  split at hExpand
  case isFalse => cases hExpand
  case isTrue =>
      rw [← Option.some.inj hExpand, variantsFrom_eq_map]
      apply eraseDups_map_eq (pairwise_stopsFrom _ _)
      · exact List.pairwise_lt_range.filter _
      · intro stop
        exact
          (mem_stopsFrom_zero_iff _ _).trans
            (mem_stops_iff path stop).symm
      · intro first hFirst second hSecond hSame
        exact
          eq_of_joinFirst_eq_of_isStop
            ((mem_stops_iff path _).mp hFirst)
            ((mem_stops_iff path _).mp hSecond) hSame

/-
  A route with an empty segment, and with a slash in the
  braces of an optional parameter in front of another one.
-/
def chained : Text :=
  ['/', 'a', '/', '/', ':', 'b', '{', '/', '}', '?', '/', ':',
    'c', '?']

/- Its variants stop around the two optional segments. -/
theorem expandOptional_chained :
    expandOptional chained =
      some
        [['/', 'a'],
          ['/', 'a', '/', ':', 'b', '{', '/', '}'],
          ['/', 'a', '/', ':', 'b', '{', '/', '}', '/', ':',
            'c']] := by
  decide

end Path

end RequestRouter

------------------------------------------------------------
-- Whole Routes
------------------------------------------------------------

namespace RequestRouter

namespace Path

/- The last segment is behind all others and a slash. -/
theorem exists_eq_append_of_getLast?
    {parts : List Text}
    {last : Text}
    (hLast : parts.getLast? = some last) :
    ∃ front : Text,
      ['/'].intercalate parts = front ++ last ∧
        (front = [] ∨ front.getLast? = some '/') := by
  induction parts with
  | nil => cases hLast
  | cons part rest ih =>
      cases rest with
      | nil =>
          rw [List.getLast?_singleton] at hLast
          cases hLast
          exact ⟨[], by simp, Or.inl rfl⟩
      | cons next more =>
          rw [List.getLast?_cons_cons] at hLast
          rcases ih hLast with ⟨front, hJoin, hFront⟩
          refine ⟨part ++ '/' :: front, ?_, Or.inr ?_⟩
          · rw [List.intercalate_cons_cons, hJoin]
            simp
          · rcases hFront with rfl | hFront
            · simp
            · simp [List.getLast?_cons, hFront]

/- A question mark at the end is in the last segment. -/
theorem exists_getLast?_split
    {path : Text}
    (hMark : path.endsWith '?' = true) :
    ∃ last, (split path).getLast? = some last ∧
      last.endsWith '?' = true := by
  cases hLast : (split path).getLast? with
  | none =>
      exact
        absurd (List.getLast?_eq_none_iff.mp hLast)
          (split_ne_nil path)
  | some last =>
      refine ⟨last, rfl, ?_⟩
      rcases exists_eq_append_of_getLast? hLast with
        ⟨front, hPath, hFront⟩
      rw [intercalate_split] at hPath
      rw [hPath] at hMark
      simp only [Text.endsWith, beq_iff_eq] at hMark ⊢
      cases last with
      | nil =>
          rw [List.append_nil] at hMark
          rcases hFront with rfl | hFront
          · cases hMark
          · rw [hFront] at hMark
            cases hMark
      | cons c rest =>
          rwa [List.getLast?_append_of_ne_nil _ (by simp)]
            at hMark

/- A last segment that is not empty is kept. -/
theorem getLast?_segments
    {path last : Text}
    (hLast : (split path).getLast? = some last)
    (hSome : last ≠ []) :
    (segments path).getLast? = some last := by
  unfold segments
  cases hSplit : split path with
  | nil => exact absurd hSplit (split_ne_nil path)
  | cons first rest =>
      rw [hSplit] at hLast
      rcases List.eq_nil_or_concat' rest with
        rfl | ⟨front, part, rfl⟩
      · exact hLast
      · rw [← List.cons_append, List.getLast?_concat] at hLast
        cases hLast
        have hKept :
            (front ++ [last]).filter (!·.isEmpty) =
              front.filter (!·.isEmpty) ++ [last] := by
          simp [List.filter_append, hSome]
        dsimp only
        rw [hKept, ← List.cons_append, List.getLast?_concat]

/- The whole route is the path of all its segments. -/
theorem joinFirst_length
    (path : Text) :
    joinFirst path (segments path).length =
      joinSegments (required path) := by
  have hLength :
      (segments path).length = (required path).length :=
    (List.length_map _).symm
  rw [joinFirst, hLength, List.take_length]

/-
  A variant stops at the end of a route just if the last
  segment is a parameter.
-/
theorem isStop_length_iff
    {path last : Text}
    (hLast : (segments path).getLast? = some last)
    (hMark : last.endsWith '?' = true) :
    isStop (segments path) (segments path).length = true ↔
      last.startsWith ':' = true := by
  have hOptional :
      isOptional last = last.startsWith ':' := by
    unfold isOptional optional? Text.stripSuffix?
    cases last.startsWith ':' <;> simp [hMark]
  rcases List.getLast?_eq_some_iff.mp hLast with
    ⟨front, hSegments⟩
  rw [hSegments, List.length_append, List.length_singleton,
    isStop]
  simp [hOptional]

/- Only the last place is joined to the whole route. -/
theorem isStop_length_of_joinFirst_eq
    {path : Text}
    {stop : Nat}
    (hStop : isStop (segments path) stop = true)
    (hWhole :
      joinFirst path stop =
        joinFirst path (segments path).length) :
    isStop (segments path) (segments path).length = true := by
  have hLength :
      (required path).length = (segments path).length :=
    List.length_map _
  have hSome : 1 ≤ (segments path).length := by
    have hSplit := split_ne_nil path
    unfold segments
    cases hParts : split path with
    | nil => exact absurd hParts hSplit
    | cons => simp
  by_cases hNone : stop = 0
  · subst hNone
    exact
      absurd hWhole.symm
        (joinFirst_ne_root hStop hSome (by omega))
  · have hStopLe := le_length_of_isStop hStop
    have hSame :=
      eq_of_joinFirst_eq (by omega) hSome (by omega)
        (by omega) hWhole
    rwa [← hSame]

/-
  The last variant of a route is the whole route just if its
  last segment is a parameter.
-/
theorem expandOptional_whole_iff
    {path : Text}
    {variants : List Text}
    (hExpand : expandOptional path = some variants) :
    (variants ≠ [] ∧
        variants.getLast? =
          some (joinSegments (required path))) ↔
      ∃ last, (split path).getLast? = some last ∧
        last.startsWith ':' = true := by
  have hMark : path.endsWith '?' = true := by
    unfold expandOptional at hExpand
    split at hExpand
    case isFalse => cases hExpand
    case isTrue hBoth =>
        rw [Bool.and_eq_true] at hBoth
        exact hBoth.1
  rcases exists_getLast?_split hMark with
    ⟨last, hLast, hEnd⟩
  have hKept : (segments path).getLast? = some last := by
    apply getLast?_segments hLast
    intro hNone
    rw [hNone] at hEnd
    cases hEnd
  have hColon :
      (∃ other, (split path).getLast? = some other ∧
          other.startsWith ':' = true) ↔
        isStop (segments path) (segments path).length =
          true := by
    rw [isStop_length_iff hKept hEnd, hLast]
    simp
  rw [hColon, ← joinFirst_length, eq_map_joinFirst hExpand]
  constructor
  · intro hWhole
    rcases List.mem_map.mp (List.mem_of_getLast? hWhole.2) with
      ⟨stop, hStop, hSame⟩
    exact
      isStop_length_of_joinFirst_eq
        ((mem_stops_iff path stop).mp hStop) hSame
  · intro hStop
    have hLastStop :
        (stops path).getLast? =
          some (segments path).length := by
      simp [stops, List.range_succ, List.filter_append, hStop]
    constructor
    · intro hNone
      rw [List.map_eq_nil_iff] at hNone
      rw [hNone] at hLastStop
      cases hLastStop
    · rw [List.getLast?_map, hLastStop]
      rfl

/- Its last segment is a parameter, which ends the last variant. -/
theorem expandOptional_whole_iff_chained :
    ∃ variants,
      expandOptional chained = some variants ∧
        variants ≠ [] ∧
          variants.getLast? =
            some (joinSegments (required chained)) := by
  refine ⟨_, expandOptional_chained, ?_⟩
  apply (expandOptional_whole_iff expandOptional_chained).mpr
  exact ⟨[':', 'c', '?'], by decide, by decide⟩

/-
  A question mark of the text of a segment expands a route
  as well: into nothing if no segment is optional, and else
  without what stands behind the last optional one.
-/
theorem expandOptional_truncated :
    expandOptional ['/', 'a', ':', 'b', '?'] = some [] ∧
      joinSegments (required ['/', 'a', ':', 'b', '?']) =
          ['/', 'a', ':', 'b', '?'] ∧
        expandOptional ['/', ':', 'a', '?', '/', 'b', '?'] =
            some [['/'], ['/', ':', 'a']] ∧
          joinSegments
              (required ['/', ':', 'a', '?', '/', 'b', '?']) =
            ['/', ':', 'a', '/', 'b', '?'] := by
  decide

end Path

end RequestRouter
