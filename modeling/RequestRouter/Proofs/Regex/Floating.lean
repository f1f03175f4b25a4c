import RequestRouter.Proofs.Regex.Passing

/-
  Expressions that match a part of a text as they match it
  on its own.

  An expression without anchors looks at what stands around
  a part of a text only to see where words begin and end. So
  between characters that belong to no word it leads from
  one end of the part to the other just if it matches the
  part alone.

  Key definitions include:
    * `Regex.Expr.isAnchored`
    * `Regex.Ways.CarriesOver`
    * `Regex.Place.IsWithin`

  Main statements:
    * `Regex.Expr.carriesOver_ways`
    * `Regex.Expr.leads_within_iff`
-/

------------------------------------------------------------
-- Anchors
------------------------------------------------------------

namespace RequestRouter

namespace Regex

namespace Assertion

/- Whether an assertion asks for an end of a text or line. -/
def isAnchor : Assertion → Bool
  | .textStart | .textEnd => true
  | .lineStart | .lineEnd => true
  | .lineStartCrlf | .lineEndCrlf => true
  | .wordBoundary | .notWordBoundary => false
  | .wordStart | .wordEnd => false
  | .wordStartHalf | .wordEndHalf => false

/- Other assertions ask only which characters make words. -/
theorem holds_congr
    {condition : Assertion}
    (hFree : condition.isAnchor = false)
    {before after : Option Char}
    {other next : Option Char}
    (hBefore :
      before.any isWordChar = other.any isWordChar)
    (hAfter : after.any isWordChar = next.any isWordChar) :
    condition.holds before after =
      condition.holds other next := by
  cases condition with
  | textStart | textEnd | lineStart | lineEnd => cases hFree
  | lineStartCrlf | lineEndCrlf => cases hFree
  | wordBoundary | notWordBoundary | wordStart | wordEnd =>
      simp only [holds, hBefore, hAfter]
  | wordStartHalf | wordEndHalf =>
      simp only [holds, hBefore, hAfter]

end Assertion

namespace Expr

mutual

/- Whether some part of an expression is an anchor. -/
def isAnchored : Expr → Bool
  | .empty | .char _ | .set _ => false
  | .assertion condition => condition.isAnchor
  | .group _ _ body => body.isAnchored
  | .repetition _ _ _ body => body.isAnchored
  | .concat items => anyAnchored items
  | .alternation branches => anyAnchored branches

/- Whether some expression of a list is anchored. -/
def anyAnchored : List Expr → Bool
  | [] => false
  | e :: rest => e.isAnchored || anyAnchored rest

end

end Expr

end Regex

end RequestRouter

------------------------------------------------------------
-- Ways in Other Places
------------------------------------------------------------

namespace RequestRouter

namespace Regex

namespace Ways

/-
  Whether ways from one place can be gone from every place
  that is related to it, to a place that is related to where
  they lead. Nothing is said of ways that get lost.
-/
structure CarriesOver
    (related : Place → Place → Prop)
    (isLost : Place → Prop)
    (ways : Ways) : Prop where
  passes : ways.PassesOnly fun _ => true
  carry {first other last}
    (hRelated : related first other)
    (hLeads : ways.Leads first last)
    (hKept : ¬ isLost last) :
    ∃ place, related last place ∧ ways.Leads other place

/-
  Whether places are related that cannot be told apart but
  by anchors, and what is lost stays so.
-/
structure AreAlike
    (related : Place → Place → Prop)
    (isLost : Place → Prop) : Prop where
  lost {first last}
    (hLost : isLost first)
    (hReaches : first.Reaches (fun _ => true) last) :
    isLost last
  length {first other last place}
    (hFirst : related first other)
    (hLast : related last place) :
    last.rest.length = first.rest.length ↔
      place.rest.length = other.rest.length
  pass (wanted : Char → Bool) :
    CarriesOver related isLost (pass wanted)
  check {condition : Assertion}
    (hFree : condition.isAnchor = false) :
    CarriesOver related isLost (check condition)

namespace CarriesOver

variable {related : Place → Place → Prop}
variable {isLost : Place → Prop}
variable {ways next : Ways}

/- To stay is to stay in a related place. -/
theorem stay :
    CarriesOver related isLost Ways.stay where
  passes := .stay
  carry := by
    intro first other last hRelated hLeads hKept
    rcases hLeads with ⟨way, hWay, rfl⟩
    cases List.mem_singleton.mp hWay
    exact ⟨other, hRelated, _, List.mem_singleton_self _, rfl⟩

/- A row is gone from related places one by one. -/
theorem andThen
    (hAlike : AreAlike related isLost)
    (hFirst : CarriesOver related isLost ways)
    (hNext : CarriesOver related isLost next) :
    CarriesOver related isLost (Ways.andThen ways next) where
  passes := hFirst.passes.andThen hNext.passes
  carry := by
    intro first other last hRelated hLeads hKept
    rcases (leads_andThen_iff _ _ _ _).mp hLeads with
      ⟨middle, hFront, hRest⟩
    have hMiddle : ¬ isLost middle := fun hLost =>
      hKept (hAlike.lost hLost (hNext.passes _ _ hRest))
    rcases hFirst.carry hRelated hFront hMiddle with
      ⟨between, hBetween, hOther⟩
    rcases hNext.carry hBetween hRest hKept with
      ⟨place, hPlace, hBehind⟩
    exact
      ⟨place, hPlace,
        (leads_andThen_iff _ _ _ _).mpr
          ⟨between, hOther, hBehind⟩⟩

/- So is a row of any length. -/
theorem sequence
    (hAlike : AreAlike related isLost)
    {list : List Ways}
    (hAll : ∀ ways ∈ list, CarriesOver related isLost ways) :
    CarriesOver related isLost (Ways.sequence list) := by
  induction list with
  | nil => exact stay
  | cons first rest ih =>
      rcases List.forall_mem_cons.mp hAll with
        ⟨hFirst, hRest⟩
      exact hFirst.andThen hAlike (ih hRest)

/- A choice is made from related places alike. -/
theorem choice
    {list : List Ways}
    (hAll : ∀ ways ∈ list, CarriesOver related isLost ways) :
    CarriesOver related isLost (Ways.choice list) where
  passes := .choice fun ways hWays => (hAll ways hWays).passes
  carry := by
    intro first other last hRelated hLeads hKept
    rcases hLeads with ⟨way, hWay, rfl⟩
    rcases (mem_choice_iff _ _ _).mp hWay with
      ⟨ways, hWays, hOwn⟩
    rcases
        (hAll ways hWays).carry hRelated ⟨way, hOwn, rfl⟩
          hKept with
      ⟨place, hPlace, found, hFound, rfl⟩
    exact
      ⟨found.place, hPlace, found,
        (mem_choice_iff _ _ _).mpr ⟨ways, hWays, hFound⟩,
        rfl⟩

/- Going inside or staying outside is a choice. -/
theorem prefer
    (greedy : Bool)
    (hInside : CarriesOver related isLost ways)
    (hOutside : CarriesOver related isLost next) :
    CarriesOver related isLost fun place =>
      Ways.prefer greedy (ways place) (next place) where
  passes := hInside.passes.prefer greedy hOutside.passes
  carry := by
    intro first other last hRelated hLeads hKept
    simp only [leads_prefer_iff] at hLeads ⊢
    rcases hLeads with hIn | hOut
    · rcases hInside.carry hRelated hIn hKept with
        ⟨place, hPlace, hOn⟩
      exact ⟨place, hPlace, Or.inl hOn⟩
    · rcases hOutside.carry hRelated hOut hKept with
        ⟨place, hPlace, hOn⟩
      exact ⟨place, hPlace, Or.inr hOn⟩

/- So many rounds are gone one by one. -/
theorem times
    (hAlike : AreAlike related isLost)
    (hRound : CarriesOver related isLost ways)
    (count : Nat) :
    CarriesOver related isLost (Ways.times ways count) := by
  induction count with
  | zero => exact stay
  | succ count ih => exact hRound.andThen hAlike ih

/- So are up to so many rounds. -/
theorem upTo
    (hAlike : AreAlike related isLost)
    (greedy : Bool)
    (hRound : CarriesOver related isLost ways)
    (count : Nat) :
    CarriesOver related isLost
      (Ways.upTo greedy ways count) := by
  induction count with
  | zero => exact stay
  | succ count ih =>
      exact (hRound.andThen hAlike ih).prefer greedy stay

/-
  One round or more can be gone from a related place with
  any number of rounds that is enough there.
-/
theorem leads_again
    (hAlike : AreAlike related isLost)
    (greedy : Bool)
    (hRound : CarriesOver related isLost ways)
    {fuel : Nat}
    {first other last : Place}
    (hRelated : related first other)
    (hLeads : (Ways.again greedy ways fuel).Leads first last)
    (hKept : ¬ isLost last)
    {more : Nat}
    (hMore : other.rest.length < more) :
    ∃ place, related last place ∧
      (Ways.again greedy ways more).Leads other place := by
  induction fuel generalizing first other more with
  | zero =>
      rcases hLeads with ⟨way, hWay, -⟩
      cases hWay
  | succ fuel ih =>
      cases more with
      | zero => exact absurd hMore (Nat.not_lt_zero _)
      | succ more =>
          rcases (leads_again_succ_iff _ _ _ _ _).mp hLeads
            with ⟨middle, hFront, hEnd⟩
          have hReaches :
              middle.Reaches (fun _ => true) last := by
            rcases hEnd with rfl | ⟨-, hRest⟩
            · exact .refl _ _
            · exact hRound.passes.again greedy fuel _ _ hRest
          have hMiddle : ¬ isLost middle := fun hLost =>
            hKept (hAlike.lost hLost hReaches)
          rcases hRound.carry hRelated hFront hMiddle with
            ⟨between, hBetween, hOn⟩
          simp only [leads_again_succ_iff]
          rcases hEnd with rfl | ⟨hShort, hRest⟩
          · exact
              ⟨between, hBetween, between, hOn, Or.inl rfl⟩
          · have hApart :=
              mt (hAlike.length hRelated hBetween).mpr hShort
            have hLess : between.rest.length < more := by
              rcases hRound.passes _ _ hOn with
                ⟨word, rest, hOther, rfl, -⟩
              simp only [Place.behind, hOther,
                List.length_append] at hApart hMore ⊢
              omega
            rcases ih hBetween hRest hLess with
              ⟨place, hPlace, hBehind⟩
            exact
              ⟨place, hPlace, between, hOn,
                Or.inr ⟨hApart, hBehind⟩⟩

/- One round or more is gone from related places alike. -/
theorem atLeastOnce
    (hAlike : AreAlike related isLost)
    (greedy : Bool)
    (hRound : CarriesOver related isLost ways) :
    CarriesOver related isLost
      (Ways.atLeastOnce greedy ways) where
  passes := fun start last =>
    hRound.passes.again greedy (start.rest.length + 1) start
      last
  carry := by
    intro first other last hRelated hLeads hKept
    exact
      hRound.leads_again hAlike greedy hRelated hLeads hKept
        (Nat.lt_succ_self _)

/- A repetition is gone round by round. -/
theorem repetition
    (hAlike : AreAlike related isLost)
    (hRound : CarriesOver related isLost ways)
    (min : Nat)
    (max : Option Nat)
    (greedy : Bool) :
    CarriesOver related isLost
      (Ways.repetition min max greedy ways) := by
  have hAgain := hRound.atLeastOnce hAlike greedy
  cases max with
  | some most =>
      cases min <;>
        exact
          (hRound.times hAlike _).andThen hAlike
            (hRound.upTo hAlike greedy _)
  | none =>
      cases min with
      | zero => exact hAgain.prefer greedy stay
      | succ least =>
          exact
            (hRound.times hAlike least).andThen hAlike hAgain

/- Ways that lead alike are gone alike. -/
theorem congr
    (hLeads : LeadAlike ways next)
    (hWays : CarriesOver related isLost ways) :
    CarriesOver related isLost next where
  passes := fun first last hNext =>
    hWays.passes first last ((hLeads first last).mpr hNext)
  carry := by
    intro first other last hRelated hNext hKept
    rcases
        hWays.carry hRelated ((hLeads first last).mpr hNext)
          hKept with
      ⟨place, hPlace, hOn⟩
    exact ⟨place, hPlace, (hLeads other place).mp hOn⟩

end CarriesOver

end Ways

namespace Expr

variable {related : Place → Place → Prop}
variable {isLost : Place → Prop}

mutual

/- An expression without anchors is gone from places alike. -/
theorem carriesOver_ways
    (hAlike : Ways.AreAlike related isLost)
    (e : Expr)
    (hFree : e.isAnchored = false) :
    e.ways.CarriesOver related isLost := by
  cases e with
  | empty => exact .stay
  | char c => exact hAlike.pass _
  | set chars => exact hAlike.pass _
  | assertion condition => exact hAlike.check hFree
  | group index name body =>
      exact
        (carriesOver_ways hAlike body hFree).congr
          fun first last =>
            (Ways.leads_capture_iff index _ first last).symm
  | repetition min max greedy body =>
      exact
        ((carriesOver_ways hAlike body hFree).repetition
            hAlike min max greedy).congr
          fun first last =>
            (Ways.leads_unrecorded_iff _ first last).symm
  | concat items =>
      exact
        .sequence hAlike (carriesOver_list hAlike items hFree)
  | alternation branches =>
      exact .choice (carriesOver_list hAlike branches hFree)

/- So are the expressions of a list. -/
theorem carriesOver_list
    (hAlike : Ways.AreAlike related isLost)
    (items : List Expr)
    (hFree : anyAnchored items = false) :
    ∀ ways ∈ listWays items,
      ways.CarriesOver related isLost := by
  cases items with
  | nil => simp [listWays]
  | cons e rest =>
      rcases Bool.or_eq_false_iff.mp hFree with
        ⟨hFirst, hRest⟩
      rw [listWays, List.forall_mem_cons]
      exact
        ⟨carriesOver_ways hAlike e hFirst,
          carriesOver_list hAlike rest hRest⟩

end

end Expr

end Regex

end RequestRouter

------------------------------------------------------------
-- Parts of a Text
------------------------------------------------------------

namespace RequestRouter

namespace Regex

namespace Place

/-
  Whether a place in a text is found again in a longer one,
  with more text behind it: words begin and end there alike.
-/
structure IsWithin
    (behind : Text)
    (inner outer : Place) : Prop where
  rest : outer.rest = inner.rest ++ behind
  before :
    inner.before.any isWordChar =
      outer.before.any isWordChar

namespace IsWithin

variable {behind : Text}
variable {inner outer : Place}

/- The next character belongs to a word in both, or none. -/
theorem after
    (hWithin : IsWithin behind inner outer)
    (hBehind : behind.head?.any isWordChar = false) :
    inner.rest.head?.any isWordChar =
      outer.rest.head?.any isWordChar := by
  rw [hWithin.rest]
  cases inner.rest with
  | nil => simpa using hBehind.symm
  | cons c rest => rfl

end IsWithin

end Place

namespace Ways

variable {behind : Text}

/- A part of a text is like the same text on its own. -/
theorem areAlike_isWithin
    (hBehind : behind.head?.any isWordChar = false) :
    AreAlike (Place.IsWithin behind) fun _ => False where
  lost := fun hLost _ => hLost
  length := by
    intro first other last place hFirst hLast
    rw [hFirst.rest, hLast.rest, List.length_append,
      List.length_append]
    omega
  pass := by
    intro wanted
    refine ⟨.mono .pass fun _ _ => rfl, ?_⟩
    intro first other last hWithin hLeads _
    rcases (leads_pass_iff _ _ _).mp hLeads with
      ⟨c, rest, hFirst, hWanted, rfl⟩
    refine ⟨⟨some c, rest ++ behind⟩, ⟨rfl, rfl⟩, ?_⟩
    rw [leads_pass_iff, hWithin.rest, hFirst]
    exact ⟨c, _, rfl, hWanted, rfl⟩
  check := by
    intro condition hFree
    refine ⟨.check condition, ?_⟩
    intro first other last hWithin hLeads _
    rcases (leads_check_iff _ _ _).mp hLeads with
      ⟨hHolds, rfl⟩
    refine ⟨other, hWithin, (leads_check_iff _ _ _).mpr ?_⟩
    rw [← Assertion.holds_congr hFree hWithin.before
      (hWithin.after hBehind)]
    exact ⟨hHolds, rfl⟩

/- The text on its own is like the part, up to its end. -/
theorem areAlike_flip_isWithin
    (hBehind : behind.head?.any isWordChar = false) :
    AreAlike (flip (Place.IsWithin behind))
      fun place => place.rest.length < behind.length where
  lost := by
    intro first last hLost hReaches
    rcases hReaches with ⟨word, rest, hFirst, rfl, -⟩
    rw [hFirst, List.length_append] at hLost
    simp only [Place.behind]
    omega
  length := by
    intro first other last place hFirst hLast
    rw [hFirst.rest, hLast.rest, List.length_append,
      List.length_append]
    omega
  pass := by
    intro wanted
    refine ⟨.mono .pass fun _ _ => rfl, ?_⟩
    intro first other last hWithin hLeads hKept
    rcases (leads_pass_iff _ _ _).mp hLeads with
      ⟨c, rest, hFirst, hWanted, rfl⟩
    have hRest := hWithin.rest
    rw [hFirst] at hRest
    cases hOther : other.rest with
    | nil =>
        rw [hOther, List.nil_append] at hRest
        simp [← hRest] at hKept
    | cons d inner =>
        rw [hOther] at hRest
        cases hRest
        refine ⟨⟨some c, inner⟩, ⟨rfl, rfl⟩, ?_⟩
        exact
          (leads_pass_iff _ _ _).mpr
            ⟨c, inner, hOther, hWanted, rfl⟩
  check := by
    intro condition hFree
    refine ⟨.check condition, ?_⟩
    intro first other last hWithin hLeads _
    rcases (leads_check_iff _ _ _).mp hLeads with
      ⟨hHolds, rfl⟩
    refine ⟨other, hWithin, (leads_check_iff _ _ _).mpr ?_⟩
    rw [Assertion.holds_congr hFree hWithin.before
      (hWithin.after hBehind)]
    exact ⟨hHolds, rfl⟩

end Ways

namespace Expr

/-
  Between characters that belong to no word, an expression
  without anchors leads over a text just if it leads over
  the text alone.
-/
theorem leads_within_iff
    {e : Expr}
    (hFree : e.isAnchored = false)
    {before : Option Char}
    (hBefore : before.any isWordChar = false)
    {behind : Text}
    (hBehind : behind.head?.any isWordChar = false)
    (word : Text) :
    e.ways.Leads ⟨before, word ++ behind⟩
        (Place.behind before word behind) ↔
      ∃ last, last.rest = [] ∧
        e.ways.Leads (Place.start word) last := by
  have hStart :
      Place.IsWithin behind (Place.start word)
        ⟨before, word ++ behind⟩ :=
    ⟨rfl, hBefore.symm⟩
  constructor
  · intro hLeads
    rcases
        (carriesOver_ways (Ways.areAlike_flip_isWithin hBehind)
          e hFree).carry hStart hLeads (by simp [Place.behind])
      with ⟨last, hLast, hAlone⟩
    refine ⟨last, ?_, hAlone⟩
    simpa [Place.behind] using hLast.rest
  · intro hLeads
    rcases hLeads with ⟨last, hEnd, hAlone⟩
    rcases
        (carriesOver_ways (Ways.areAlike_isWithin hBehind)
          e hFree).carry hStart hAlone id
      with ⟨place, hPlace, hOn⟩
    rcases passesOnly_ways e _ _ hOn with
      ⟨passed, rest, hText, rfl, -⟩
    have hRest : rest = behind := by
      simpa [Place.behind, hEnd] using hPlace.rest
    subst hRest
    have hSame := List.append_cancel_right hText
    subst hSame
    exact hOn

end Expr

end Regex

end RequestRouter
