import RequestRouter.Proofs.Route.Taking
import RequestRouter.Proofs.Trie.Contents
import RequestRouter.Trie.Search

/-
  What the search of a trie finds.

  A candidate is worth the hits that some list of patterns
  below its node gives for the parts that remain. Visiting a
  candidate keeps its worth: what it gives at once and what
  the resumed candidates are worth add up to it. So the
  search gives exactly what the candidates in waiting are
  worth.

  Key definitions include:
    * `TrieSearch.Yields`
    * `TrieSearch.Outcome.Gives`

  Main statements:
    * `TrieSearch.gives_visit_iff`
    * `TrieSearch.mem_run_iff`
    * `TrieSearch.mem_hits_iff`
-/

------------------------------------------------------------
-- Worth
------------------------------------------------------------

namespace RequestRouter

namespace TrieSearch

variable {E : Regex.Engine}

/-
  Whether a candidate is worth a hit: some patterns below
  its node lead to the score and take the parts that remain.
-/
def Yields
    (method : Text)
    (parts : List Text)
    (candidate : Candidate E)
    (hit : Hit) : Prop :=
  ∃ patterns bindings,
    candidate.node.Holds method patterns hit.score ∧
    Pattern.Takes patterns parts bindings ∧
    hit.bindings = candidate.bindings ++ bindings

/- Whether an outcome gives a hit, at once or later. -/
def Outcome.Gives
    (method : Text)
    (rest : List Text)
    (outcome : Outcome E)
    (hit : Hit) : Prop :=
  hit ∈ outcome.hits ∨
    ∃ entry ∈ outcome.resumed, entry.1 < rest.length ∧
      Yields method (rest.drop entry.1) entry.2 hit

/- No outcome gives nothing. -/
@[simp]
theorem not_gives_nothing
    (method : Text)
    (rest : List Text)
    (hit : Hit) :
    ¬ (Outcome.nothing : Outcome E).Gives method rest hit := by
  simp [Outcome.Gives, Outcome.nothing]

/- Outcomes in a row give what one of them gives. -/
theorem gives_concat_iff
    (method : Text)
    (rest : List Text)
    (outcomes : List (Outcome E))
    (hit : Hit) :
    (Outcome.concat outcomes).Gives method rest hit ↔
      ∃ outcome ∈ outcomes,
        outcome.Gives method rest hit := by
  simp only [Outcome.Gives, Outcome.concat,
    List.mem_flatMap]
  constructor
  · rintro (⟨outcome, hOutcome, hHit⟩ |
      ⟨entry, ⟨outcome, hOutcome, hEntry⟩, hYields⟩)
    · exact ⟨outcome, hOutcome, Or.inl hHit⟩
    · exact
        ⟨outcome, hOutcome, Or.inr ⟨entry, hEntry, hYields⟩⟩
  · rintro ⟨outcome, hOutcome,
      hHit | ⟨entry, hEntry, hYields⟩⟩
    · exact Or.inl ⟨outcome, hOutcome, hHit⟩
    · exact
        Or.inr ⟨entry, ⟨outcome, hOutcome, hEntry⟩, hYields⟩

/- The hits collected at a node. -/
theorem mem_collect_iff
    (method : Text)
    (node : TrieNode E)
    (bindings : Bindings)
    (hit : Hit) :
    hit ∈ collect method node bindings ↔
      hit.score ∈ node.scores.scoresFor method ∧
        hit.bindings = bindings := by
  unfold collect
  rw [List.mem_map]
  constructor
  · rintro ⟨score, hScore, rfl⟩
    exact ⟨hScore, rfl⟩
  · rintro ⟨hScore, rfl⟩
    exact ⟨hit.score, hScore, rfl⟩

/- The hits collected at the wildcard child of a node. -/
theorem mem_collectTail_iff
    (method : Text)
    (node : TrieNode E)
    (bindings : Bindings)
    (hit : Hit) :
    hit ∈ collectTail method node bindings ↔
      node.Holds method [.wildcard] hit.score ∧
        hit.bindings = bindings := by
  simp only [TrieNode.holds_cons_iff, TrieNode.holds_nil_iff,
    TrieNode.Child]
  unfold collectTail
  cases node.wildcard with
  | none => simp
  | some child => simp [mem_collect_iff]

/-
  At the end of the path a candidate is worth the scores of
  its node and of a trailing wildcard.
-/
theorem yields_no_parts_iff
    (method : Text)
    (candidate : Candidate E)
    (hit : Hit) :
    Yields method [] candidate hit ↔
      (hit.score ∈
          candidate.node.scores.scoresFor method ∨
        candidate.node.Holds method [.wildcard]
          hit.score) ∧
        hit.bindings = candidate.bindings := by
  simp only [Yields, Pattern.takes_no_parts_iff]
  constructor
  · rintro ⟨patterns, bindings, hHolds,
      ⟨rfl | rfl, rfl⟩, hBindings⟩
    · rw [TrieNode.holds_nil_iff] at hHolds
      exact ⟨Or.inl hHolds, by simpa using hBindings⟩
    · exact ⟨Or.inr hHolds, by simpa using hBindings⟩
  · rintro ⟨hScore | hHolds, hBindings⟩
    · refine ⟨[], [], ?_, ⟨Or.inl rfl, rfl⟩, ?_⟩
      · rw [TrieNode.holds_nil_iff]
        exact hScore
      · simpa using hBindings
    · exact
        ⟨[.wildcard], [], hHolds, ⟨Or.inr rfl, rfl⟩,
          by simpa using hBindings⟩

/- Arriving at a node gives what the node is worth there. -/
theorem gives_arrive_iff
    (method : Text)
    {rest : List Text}
    (node : TrieNode E)
    (bindings : Bindings)
    {gap : Nat}
    (hGap : gap ≤ rest.length)
    (hit : Hit) :
    (arrive method rest node bindings gap).Gives method rest
        hit ↔
      Yields method (rest.drop gap) ⟨node, bindings⟩ hit := by
  unfold arrive
  by_cases hEnd : gap = rest.length
  · subst hEnd
    rw [if_pos rfl, List.drop_length, yields_no_parts_iff]
    simp only [Outcome.Gives, List.mem_append,
      mem_collect_iff, mem_collectTail_iff,
      List.not_mem_nil, false_and, exists_false, or_false]
    exact or_and_right.symm
  · rw [if_neg hEnd]
    have hInside : gap < rest.length :=
      Nat.lt_of_le_of_ne hGap hEnd
    simp [Outcome.Gives, hInside]

end TrieSearch

end RequestRouter

------------------------------------------------------------
-- Visits
------------------------------------------------------------

namespace RequestRouter

namespace TrieSearch

variable {E : Regex.Engine}

/- The literal child gives what it is worth behind the part. -/
theorem gives_visitLiteral_iff
    (method part : Text)
    (rest : List Text)
    (candidate : Candidate E)
    (hit : Hit) :
    (visitLiteral method part rest candidate).Gives method
        rest hit ↔
      ∃ child, candidate.node.literal? part = some child ∧
        Yields method rest ⟨child, candidate.bindings⟩
          hit := by
  unfold visitLiteral
  cases candidate.node.literal? part with
  | none => simp
  | some child =>
      simp only [Option.some.injEq, exists_eq_left']
      exact
        gives_arrive_iff method child candidate.bindings
          (Nat.zero_le _) hit

/-
  A pattern that starts with a wildcard takes everything, or
  its other segments take what follows the first part.
-/
theorem exists_takes_wildcard_iff
    (method part : Text)
    (rest : List Text)
    (child : TrieNode E)
    (before : Bindings)
    (hit : Hit) :
    (∃ patterns bindings,
        child.Holds method patterns hit.score ∧
          Pattern.Takes (.wildcard :: patterns)
            (part :: rest) bindings ∧
          hit.bindings = before ++ bindings) ↔
      hit ∈ collect method child before ∨
        part ≠ [] ∧
          ∃ patterns bindings, patterns ≠ [] ∧
            child.Holds method patterns hit.score ∧
            Pattern.Takes patterns rest bindings ∧
            hit.bindings = before ++ bindings := by
  constructor
  · rintro ⟨patterns, bindings, hHolds, hTakes, hBindings⟩
    by_cases hEmpty : patterns = []
    · subst hEmpty
      rw [Pattern.takes_wildcard_iff] at hTakes
      subst hTakes
      left
      rw [mem_collect_iff]
      exact
        ⟨(TrieNode.holds_nil_iff _ _ _).mp hHolds,
          by simpa using hBindings⟩
    · rw [Pattern.takes_wildcard_cons_iff hEmpty] at hTakes
      exact
        Or.inr
          ⟨hTakes.1, patterns, bindings, hEmpty, hHolds,
            hTakes.2, hBindings⟩
  · rintro (hHit | ⟨hPart, patterns, bindings, hInside,
      hHolds, hTakes, hBindings⟩)
    · rw [mem_collect_iff] at hHit
      exact
        ⟨[], [], (TrieNode.holds_nil_iff _ _ _).mpr hHit.1,
          .remainder _, by simpa using hHit.2⟩
    · exact
        ⟨patterns, bindings, hHolds,
          .segment hInside hPart hTakes, hBindings⟩

/-
  The wildcard child gives its scores, and what it is worth
  behind the part as the segment of longer patterns.
-/
theorem gives_visitWildcard_iff
    (method part : Text)
    (rest : List Text)
    (candidate : Candidate E)
    (hit : Hit) :
    (visitWildcard method part rest candidate).Gives method
        rest hit ↔
      ∃ child, candidate.node.wildcard = some child ∧
        ∃ patterns bindings,
          child.Holds method patterns hit.score ∧
          Pattern.Takes (.wildcard :: patterns)
            (part :: rest) bindings ∧
          hit.bindings = candidate.bindings ++ bindings := by
  unfold visitWildcard
  cases candidate.node.wildcard with
  | none => simp
  | some child =>
      simp only [Option.some.injEq, exists_eq_left',
        exists_takes_wildcard_iff]
      by_cases hPart : part = []
      · simp [hPart, Outcome.Gives]
      · have hFull : ¬ part.isEmpty = true := by
          simpa using hPart
        simp only [hFull, Bool.false_eq_true, if_false, ne_eq,
          hPart, not_false_eq_true, true_and]
        cases rest with
        | nil =>
            simp only [List.isEmpty_nil, if_true,
              Outcome.Gives, List.mem_append,
              mem_collectTail_iff, List.not_mem_nil,
              false_and, exists_false, or_false,
              Pattern.takes_no_parts_iff]
            apply or_congr_right
            constructor
            · rintro ⟨hHolds, hBindings⟩
              exact
                ⟨[.wildcard], [], by simp, hHolds,
                  ⟨Or.inr rfl, rfl⟩, by simpa using hBindings⟩
            · rintro ⟨patterns, bindings, hInside, hHolds,
                ⟨hEmpty | rfl, rfl⟩, hBindings⟩
              · exact absurd hEmpty hInside
              · exact ⟨hHolds, by simpa using hBindings⟩
        | cons next rest =>
            simp only [List.isEmpty_cons, Bool.false_eq_true,
              if_false, Outcome.Gives, List.mem_singleton,
              exists_eq_left, List.length_cons,
              Nat.zero_lt_succ, true_and, List.drop_zero]
            apply or_congr_right
            constructor
            · rintro ⟨patterns, bindings, hHolds, hTakes,
                hBindings⟩
              refine
                ⟨patterns, bindings, ?_, hHolds, hTakes,
                  hBindings⟩
              rintro rfl
              simp at hTakes
            · rintro ⟨patterns, bindings, -, hHolds, hTakes,
                hBindings⟩
              exact
                ⟨patterns, bindings, hHolds, hTakes,
                  hBindings⟩

/-
  A parameter child gives what it is worth behind all the
  parts that its pattern may take.
-/
theorem gives_visitParam_iff
    (method part : Text)
    (rest : List Text)
    (candidate : Candidate E)
    (entry : Pattern E × TrieNode E)
    (hit : Hit) :
    (visitParam method part rest candidate entry).Gives
        method rest hit ↔
      entry.1.IsParam ∧
        ∃ patterns bindings,
          entry.2.Holds method patterns hit.score ∧
          Pattern.Takes (entry.1 :: patterns)
            (part :: rest) bindings ∧
          hit.bindings = candidate.bindings ++ bindings := by
  rcases entry with ⟨pattern, child⟩
  cases pattern with
  | literal text =>
      simp [visitParam, Pattern.IsParam, Pattern.name?]
  | wildcard =>
      simp [visitParam, Pattern.IsParam, Pattern.name?]
  | param name =>
      simp only [visitParam, Pattern.IsParam, Pattern.name?,
        Option.isSome_some, true_and,
        Pattern.takes_param_cons_iff]
      by_cases hPart : part = []
      · simp [hPart]
      · have hFull : ¬ part.isEmpty = true := by
          simpa using hPart
        rw [if_neg hFull,
          gives_arrive_iff method child _ (Nat.zero_le _) hit]
        constructor
        · rintro ⟨patterns, bindings, hHolds, hTakes,
            hBindings⟩
          refine
            ⟨patterns, (name, part) :: bindings, hHolds,
              ⟨hPart, bindings, hTakes, rfl⟩, ?_⟩
          simpa using hBindings
        · rintro ⟨patterns, bindings, hHolds,
            ⟨-, later, hTakes, rfl⟩, hBindings⟩
          refine ⟨patterns, later, hHolds, hTakes, ?_⟩
          simpa using hBindings
  | constrained name constraint =>
      simp only [visitParam, Pattern.IsParam, Pattern.name?,
        Option.isSome_some, true_and, gives_concat_iff,
        List.mem_map, List.mem_range, exists_exists_and_eq_and,
        Pattern.takes_constrained_iff, List.length_cons,
        List.take_succ_cons, List.drop_succ_cons]
      constructor
      · rintro ⟨gap, hGap, hGives⟩
        split at hGives
        case isTrue hMatch =>
            rw [gives_arrive_iff method child _
              (Nat.le_of_lt_succ hGap) hit] at hGives
            rcases hGives with
              ⟨patterns, bindings, hHolds, hTakes, hBindings⟩
            refine
              ⟨patterns, _, hHolds,
                ⟨gap, hGap, hMatch, bindings, hTakes, rfl⟩,
                ?_⟩
            simpa using hBindings
        case isFalse => simp at hGives
      · rintro ⟨patterns, bindings, hHolds,
          ⟨gap, hGap, hMatch, later, hTakes, rfl⟩,
          hBindings⟩
        refine ⟨gap, hGap, ?_⟩
        rw [if_pos hMatch,
          gives_arrive_iff method child _
            (Nat.le_of_lt_succ hGap) hit]
        refine ⟨patterns, later, hHolds, hTakes, ?_⟩
        simpa using hBindings

/- Visiting a candidate gives exactly what it is worth. -/
theorem gives_visit_iff
    (method part : Text)
    (rest : List Text)
    (candidate : Candidate E)
    (hit : Hit) :
    (visit method part rest candidate).Gives method rest
        hit ↔
      Yields method (part :: rest) candidate hit := by
  unfold visit
  rw [gives_concat_iff]
  simp only [List.mem_cons, List.mem_map, exists_eq_or_imp,
    exists_exists_and_eq_and, gives_visitLiteral_iff,
    gives_visitWildcard_iff, gives_visitParam_iff]
  constructor
  · rintro
      (⟨child, hChild, patterns, bindings, hHolds, hTakes,
        hBindings⟩ |
      ⟨child, hChild, patterns, bindings, hHolds, hTakes,
        hBindings⟩ |
      ⟨entry, hEntry, hParam, patterns, bindings, hHolds,
        hTakes, hBindings⟩)
    · refine
        ⟨.literal part :: patterns, bindings, ?_,
          .literal hTakes, hBindings⟩
      rw [TrieNode.holds_cons_iff]
      exact ⟨child, hChild, hHolds⟩
    · refine
        ⟨.wildcard :: patterns, bindings, ?_, hTakes,
          hBindings⟩
      rw [TrieNode.holds_cons_iff]
      exact ⟨child, hChild, hHolds⟩
    · refine
        ⟨entry.1 :: patterns, bindings, ?_, hTakes,
          hBindings⟩
      rw [TrieNode.holds_cons_iff]
      exact
        ⟨entry.2,
          (TrieNode.child_iff_mem_params hParam _ _).mpr
            hEntry,
          hHolds⟩
  · rintro ⟨patterns, bindings, hHolds, hTakes, hBindings⟩
    cases patterns with
    | nil => simp at hTakes
    | cons pattern patterns =>
        rw [TrieNode.holds_cons_iff] at hHolds
        rcases hHolds with ⟨child, hChild, hHolds⟩
        by_cases hParam : pattern.IsParam
        · right
          right
          exact
            ⟨(pattern, child),
              (TrieNode.child_iff_mem_params hParam _ _).mp
                hChild,
              hParam, patterns, bindings, hHolds, hTakes,
              hBindings⟩
        · cases pattern with
          | literal text =>
              rw [Pattern.takes_literal_cons_iff] at hTakes
              rcases hTakes with ⟨rfl, hTakes⟩
              left
              exact
                ⟨child, hChild, patterns, bindings, hHolds,
                  hTakes, hBindings⟩
          | wildcard =>
              right
              left
              exact
                ⟨child, hChild, patterns, bindings, hHolds,
                  hTakes, hBindings⟩
          | param => exact absurd rfl hParam
          | constrained => exact absurd rfl hParam

end TrieSearch

end RequestRouter

------------------------------------------------------------
-- Runs
------------------------------------------------------------

namespace RequestRouter

namespace TrieSearch

variable {E : Regex.Engine}

/-
  A run gives exactly what the candidates in waiting are
  worth where they resume.
-/
theorem mem_run_iff
    (method : Text)
    (parts : List Text)
    (waiting : List (Nat × Candidate E))
    (hit : Hit) :
    hit ∈ run method parts waiting ↔
      ∃ entry ∈ waiting, entry.1 < parts.length ∧
        Yields method (parts.drop entry.1) entry.2 hit := by
  induction parts generalizing waiting with
  | nil => simp [run]
  | cons part rest ih =>
      -- The due candidates are visited, the later ones move on.
      have hDue :
          (Outcome.concat
            ((waiting.filter (·.1 == 0)).map fun entry =>
              visit method part rest entry.2)).Gives method
                rest hit ↔
            ∃ entry ∈ waiting, entry.1 = 0 ∧
              Yields method (part :: rest) entry.2 hit := by
        simp [gives_concat_iff, gives_visit_iff, and_assoc]
      simp only [run, List.mem_append, ih, List.mem_map,
        List.mem_filter, bne_iff_ne, ne_eq]
      constructor
      · rintro (hHit | ⟨entry,
          ⟨first, ⟨hFirst, hLater⟩, rfl⟩ | hResumed,
          hInside, hYields⟩)
        · rcases hDue.mp (Or.inl hHit) with
            ⟨entry, hEntry, hZero, hYields⟩
          refine ⟨entry, hEntry, ?_, ?_⟩
          · simp [hZero]
          · simpa [hZero] using hYields
        · refine ⟨first, hFirst, ?_, ?_⟩
          · simp only [List.length_cons]
            simp only at hInside
            omega
          · have hPositive : first.1 - 1 + 1 = first.1 := by
              omega
            rw [← hPositive, List.drop_succ_cons]
            exact hYields
        · rcases
              hDue.mp
                (Or.inr ⟨entry, hResumed, hInside, hYields⟩)
            with ⟨first, hFirst, hZero, hWorth⟩
          refine ⟨first, hFirst, ?_, ?_⟩
          · simp [hZero]
          · simpa [hZero] using hWorth
      · rintro ⟨entry, hEntry, hInside, hYields⟩
        by_cases hZero : entry.1 = 0
        · rw [hZero, List.drop_zero] at hYields
          rcases hDue.mpr ⟨entry, hEntry, hZero, hYields⟩ with
            hHit | ⟨resumed, hResumed, hGap, hWorth⟩
          · exact Or.inl hHit
          · exact
              Or.inr ⟨resumed, Or.inr hResumed, hGap, hWorth⟩
        · right
          refine
            ⟨(entry.1 - 1, entry.2),
              Or.inl ⟨entry, ⟨hEntry, hZero⟩, rfl⟩, ?_, ?_⟩
          · simp only [List.length_cons] at hInside
            simp only
            omega
          · have hPositive : entry.1 - 1 + 1 = entry.1 := by
              omega
            rw [← hPositive, List.drop_succ_cons] at hYields
            exact hYields

/-
  The hits of a request are the scores that the trie holds
  along patterns that take the parts of the path.
-/
theorem mem_hits_iff
    (root : TrieNode E)
    (method path : Text)
    (hit : Hit) :
    hit ∈ hits root method path ↔
      ∃ patterns,
        root.Holds method patterns hit.score ∧
        Pattern.Takes patterns (path.splitOn '/')
          hit.bindings := by
  have hParts : 0 < (path.splitOn '/').length :=
    List.length_pos_iff.mpr (List.splitOn_ne_nil _ _)
  unfold hits
  simp [mem_run_iff, hParts, Yields]

end TrieSearch

end RequestRouter
