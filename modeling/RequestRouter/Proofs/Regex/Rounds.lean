import RequestRouter.Proofs.Regex.Passages

/-
  How the code of rounds leads through a text.

  What code leads to is a list of ways without records. For
  rounds in a row, up to a count, and for rounds that leave
  less text behind them without a bound, this list is the
  one that the rounds are said to have. For rounds that can
  be empty the places in the list are the same ones.

  Key definition:
    * `Regex.Block.ways`

  Main statements:
    * `Regex.Block.ways_repetition`
    * `Regex.Block.leadAlike_repetition`
-/

------------------------------------------------------------
-- Ways without Records
------------------------------------------------------------

namespace RequestRouter

namespace Regex

namespace Ways

/- What a choice is mapped to is a choice. -/
theorem map_prefer
    {α β : Type}
    (greedy : Bool)
    (inside outside : List α)
    (change : α → β) :
    (prefer greedy inside outside).map change =
      prefer greedy (inside.map change)
        (outside.map change) := by
  cases greedy <;> simp [prefer]

/- In a row, each of the ways can forget its records. -/
theorem unrecorded_andThen
    (first next : Ways) :
    unrecorded (andThen first next) =
      andThen (unrecorded first) (unrecorded next) := by
  funext place
  simp [unrecorded, andThen, List.map_flatMap,
    List.flatMap_map, Function.comp_def]

/- So can every one of several rounds. -/
theorem unrecorded_times
    (round : Ways)
    (count : Nat) :
    unrecorded (times round count) =
      times (unrecorded round) count := by
  induction count with
  | zero => rfl
  | succ count ih => rw [times, unrecorded_andThen, ih, times]

/- So can every round that may be left out. -/
theorem unrecorded_upTo
    (greedy : Bool)
    (round : Ways)
    (count : Nat) :
    unrecorded (upTo greedy round count) =
      upTo greedy (unrecorded round) count := by
  induction count with
  | zero => rfl
  | succ count ih =>
      have hMore := unrecorded_andThen round
        (upTo greedy round count)
      rw [ih] at hMore
      funext place
      simp only [upTo, ← hMore]
      exact map_prefer greedy _ _ _

/- So can every round of one or more. -/
theorem unrecorded_again
    (greedy : Bool)
    (round : Ways)
    (fuel : Nat) :
    unrecorded (again greedy round fuel) =
      again greedy (unrecorded round) fuel := by
  induction fuel with
  | zero => rfl
  | succ fuel ih =>
      funext place
      simp only [again, unrecorded, List.map_flatMap,
        List.flatMap_map]
      apply List.flatMap_congr
      intro way hWay
      have hMore := congrFun ih way.place
      unfold unrecorded at hMore
      split
      · rfl
      · rw [map_prefer, hMore]
        rfl

/- So can every round of a repetition. -/
theorem unrecorded_repetition
    (min : Nat)
    (max : Option Nat)
    (greedy : Bool)
    (round : Ways) :
    unrecorded (repetition min max greedy round) =
      repetition min max greedy (unrecorded round) := by
  have hAgain :
      unrecorded (atLeastOnce greedy round) =
        atLeastOnce greedy (unrecorded round) := by
    funext place
    exact
      congrFun
        (unrecorded_again greedy round
          (place.rest.length + 1)) place
  unfold repetition
  split
  · funext place
    rw [← hAgain]
    exact map_prefer greedy _ _ _
  · rw [unrecorded_andThen, unrecorded_times, hAgain]
  · rw [unrecorded_andThen, unrecorded_times,
      unrecorded_upTo]

end Ways

end Regex

end RequestRouter

------------------------------------------------------------
-- Rounds of Blocks
------------------------------------------------------------

namespace RequestRouter

namespace Regex

namespace Block

/- The ways of a block, which record nothing. -/
def ways
    (block : Block) : Ways :=
  fun place =>
    (block.passages place).map fun passage =>
      ⟨passage.place, []⟩

/- The ways of a block lead to where its passages do. -/
theorem leads_ways_iff
    (block : Block)
    (first last : Place) :
    block.ways.Leads first last ↔
      ∃ passage ∈ block.passages first,
        passage.place = last := by
  unfold Ways.Leads ways
  simp

/- What is saved in front does not matter for the ways. -/
theorem map_ways_behind
    (marks : List (Nat × Place))
    (passages : List Passage) :
    (passages.map (Passage.behind marks)).map
        (fun passage => (⟨passage.place, []⟩ : Way)) =
      passages.map fun passage => ⟨passage.place, []⟩ := by
  rw [List.map_map]
  rfl

/- To do nothing is to stay in place. -/
theorem ways_stay :
    stay.ways = Ways.stay := by
  funext place
  rw [ways, passages_stay]
  rfl

/- Blocks in a row lead on one behind the other. -/
theorem ways_andThen
    (first next : Block) :
    (andThen first next).ways =
      Ways.andThen first.ways next.ways := by
  funext place
  simp only [ways, passages_andThen, List.map_flatMap,
    Ways.andThen, List.flatMap_map, List.map_map,
    Function.comp_def, List.nil_append]
  rfl

/- One round or none leads inside, or nowhere. -/
theorem ways_atMostOnce
    (greedy : Bool)
    (round : Block) :
    (atMostOnce greedy round).ways = fun place =>
      Ways.prefer greedy (round.ways place)
        (Ways.stay place) := by
  funext place
  rw [ways, passages_atMostOnce, Ways.map_prefer]
  rfl

/- Several rounds lead on one behind the other. -/
theorem ways_times
    (round : Block)
    (count : Nat) :
    (times round count).ways =
      Ways.times round.ways count := by
  induction count with
  | zero => exact ways_stay
  | succ count ih => rw [times, ways_andThen, ih, Ways.times]

/- So do those that may be left out. -/
theorem ways_upTo
    (greedy : Bool)
    (round : Block)
    (count : Nat) :
    (upTo greedy round count).ways =
      Ways.upTo greedy round.ways count := by
  induction count with
  | zero => exact ways_stay
  | succ count ih =>
      rw [upTo, ways_atMostOnce, ways_andThen, ih, Ways.upTo]

variable {round : Block}

/-
  Rounds that leave less text behind them lead on as often
  as there is text for, in the order of preference.
-/
theorem ways_again
    (greedy : Bool)
    (hRound : round.Shortens)
    {fuel : Nat}
    {place : Place}
    (hFuel : place.rest.length < fuel) :
    Ways.again greedy round.ways fuel place =
      (atLeastOnce greedy round).ways place := by
  induction fuel generalizing place with
  | zero => exact absurd hFuel (Nat.not_lt_zero _)
  | succ fuel ih =>
      have hFirst :
          round.ways place =
            (round.passages place).map fun passage =>
              ⟨passage.place, []⟩ :=
        rfl
      simp only [Ways.again]
      rw [hFirst, List.flatMap_map, ways,
        passages_atLeastOnce greedy hRound, List.map_flatMap]
      apply List.flatMap_congr
      intro passage hPassage
      have hLess := hRound place passage hPassage
      have hMore := ih (Nat.lt_of_lt_of_le hLess
        (Nat.le_of_lt_succ hFuel))
      rw [map_ways_behind, passages_loop greedy hRound,
        Ways.map_prefer]
      dsimp only
      rw [if_neg (Nat.ne_of_lt hLess), hMore]
      rfl

/- So they do as one round or more. -/
theorem ways_atLeastOnce
    (greedy : Bool)
    (hRound : round.Shortens) :
    (atLeastOnce greedy round).ways =
      Ways.atLeastOnce greedy round.ways := by
  funext place
  exact (ways_again greedy hRound (Nat.lt_succ_self _)).symm

/- A repetition of such rounds leads on as it is said to. -/
theorem ways_repetition
    (min : Nat)
    (max : Option Nat)
    (greedy : Bool)
    (hRound : round.Shortens) :
    (repetition min max greedy false round).ways =
      Ways.repetition min max greedy round.ways := by
  match min, max with
  | 0, none =>
      have hMore := ways_atLeastOnce greedy hRound
      funext place
      simp only [repetition, anyTimes, Ways.repetition,
        ← hMore]
      rw [if_neg Bool.false_ne_true, ways, passages,
        passages_loop greedy hRound, Ways.map_prefer]
      rfl
  | least + 1, none =>
      rw [repetition, ways_andThen, ways_times,
        ways_atLeastOnce greedy hRound]
      rfl
  | 0, some most | least + 1, some most =>
      rw [repetition, ways_andThen, ways_times, ways_upTo]
      rfl

/- Where the trails of a part end, its passages lead. -/
theorem ends_iff
    (part : Part)
    (index : Nat)
    (first last : Place) :
    part.code.Ends 0 (index, first) last ↔
      ∃ passage ∈ part.passages index first,
        passage.place = last := by
  unfold Code.Ends Part.passages
  simp [Code.passage]

/- Any rounds lead to where one round or more lead. -/
theorem leads_again_iff
    (greedy : Bool)
    (round : Block)
    {fuel : Nat}
    {first : Place}
    (hFuel : first.rest.length < fuel)
    (last : Place) :
    (Ways.again greedy round.ways fuel).Leads first last ↔
      (atLeastOnce greedy round).ways.Leads first last := by
  induction fuel generalizing first with
  | zero => exact absurd hFuel (Nat.not_lt_zero _)
  | succ fuel ih =>
      have hEnds :=
        fun first =>
          (ends_iff (round.loop greedy)
            (target 1 2 round.start) first last).symm.trans
            (ends_loop_iff greedy round first last)
      rw [Ways.leads_again_succ_iff, leads_ways_iff]
      rw [passages, atLeastOnce, hEnds]
      apply exists_congr
      intro middle
      rw [leads_ways_iff]
      apply and_congr_right
      rintro ⟨passage, hPassage, rfl⟩
      have hLess := (isFrom_of_mem_passages hPassage).length_le
      apply or_congr_right
      apply and_congr_right
      intro hOther
      rw [ih (by omega), leads_ways_iff, ends_iff]
      rfl

/- So they do as one round or more. -/
theorem leadAlike_atLeastOnce
    (greedy : Bool)
    (round : Block) :
    Ways.LeadAlike (atLeastOnce greedy round).ways
      (Ways.atLeastOnce greedy round.ways) := by
  intro first last
  exact
    (leads_again_iff greedy round (Nat.lt_succ_self _)
      last).symm

/- Any number of rounds leads on as a round or more, or not. -/
theorem leadAlike_anyTimes
    (greedy canBeEmpty : Bool)
    (round : Block) :
    Ways.LeadAlike (anyTimes greedy canBeEmpty round).ways
      (fun place =>
        Ways.prefer greedy
          ((atLeastOnce greedy round).ways place)
          (Ways.stay place)) := by
  cases canBeEmpty with
  | true =>
      rw [anyTimes, if_pos rfl, ways_atMostOnce]
      exact .refl _
  | false =>
      intro first last
      have hStay :
          Ways.stay.Leads first last ↔ first = last := by
        simp [Ways.stay, Ways.Leads]
      have hStart :
          (anyTimes greedy false round).ways.Leads first last ↔
            (round.loop greedy).code.Ends 0 (1, first)
              last := by
        rw [leads_ways_iff, ends_iff]
        rfl
      rw [hStart, ends_choice_iff, Ways.leads_prefer_iff,
        hStay, leads_ways_iff, ends_iff, or_comm]
      rfl

/- Any repetition leads to where it is said to lead. -/
theorem leadAlike_repetition
    (min : Nat)
    (max : Option Nat)
    (greedy canBeEmpty : Bool)
    (round : Block) :
    Ways.LeadAlike
      (repetition min max greedy canBeEmpty round).ways
      (Ways.repetition min max greedy round.ways) := by
  have hMore := leadAlike_atLeastOnce greedy round
  match min, max with
  | 0, none =>
      have hOuter :
          Ways.LeadAlike
            (anyTimes greedy canBeEmpty round).ways
            (fun place =>
              Ways.prefer greedy
                ((atLeastOnce greedy round).ways place)
                (Ways.stay place)) :=
        leadAlike_anyTimes greedy canBeEmpty round
      intro first last
      exact
        (hOuter first last).trans
          (hMore.prefer greedy (.refl Ways.stay) first last)
  | least + 1, none =>
      rw [repetition, ways_andThen, ways_times]
      exact Ways.LeadAlike.andThen (.refl _) hMore
  | 0, some most | least + 1, some most =>
      rw [repetition, ways_andThen, ways_times, ways_upTo]
      exact .refl _

end Block

end Regex

end RequestRouter
