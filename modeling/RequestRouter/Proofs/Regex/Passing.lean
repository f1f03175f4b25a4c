import RequestRouter.Proofs.Regex.Leading

/-
  Which characters an expression passes over.

  Wherever an expression leads, the text on the way consists
  of characters that one of its parts wants. What no part of
  it wants is not in the text that a group catches.

  Key definitions include:
    * `Regex.Place.Reaches`
    * `Regex.Ways.PassesOnly`
    * `Regex.Expr.wants`

  Main statements:
    * `Regex.Expr.passesOnly_ways`
    * `Regex.Place.Reaches.textTo`
-/

------------------------------------------------------------
-- Places Further On
------------------------------------------------------------

namespace RequestRouter

namespace Regex

namespace Place

/-
  Whether a place is behind another, with nothing between
  but characters of one kind.
-/
def Reaches
    (wanted : Char → Bool)
    (start last : Place) : Prop :=
  ∃ word rest,
    start.rest = word ++ rest ∧
      last = behind start.before word rest ∧
      ∀ c ∈ word, wanted c = true

namespace Reaches

variable {wanted other : Char → Bool}
variable {start middle last : Place}

/- A place reaches itself. -/
theorem refl
    (wanted : Char → Bool)
    (place : Place) :
    Reaches wanted place place :=
  ⟨[], place.rest, rfl, by simp [behind], by simp⟩

/- What is behind a place behind another is behind it. -/
theorem trans
    (hFront : Reaches wanted start middle)
    (hRest : Reaches wanted middle last) :
    Reaches wanted start last := by
  rcases hFront with ⟨front, _, hStart, rfl, hWanted⟩
  rcases hRest with ⟨word, rest, hMiddle, rfl, hOthers⟩
  refine ⟨front ++ word, rest, ?_, ?_, ?_⟩
  · rw [hStart, List.append_assoc]
    exact congrArg (front ++ ·) hMiddle
  · rw [behind_append]
    rfl
  · intro c hMember
    rcases List.mem_append.mp hMember with hFirst | hLater
    · exact hWanted c hFirst
    · exact hOthers c hLater

/- More kinds of characters reach at least as far. -/
theorem mono
    (hReaches : Reaches wanted start last)
    (hMore : ∀ c, wanted c = true → other c = true) :
    Reaches other start last := by
  rcases hReaches with ⟨word, rest, hStart, hLast, hWanted⟩
  refine ⟨word, rest, hStart, hLast, ?_⟩
  intro c hMember
  exact hMore c (hWanted c hMember)

/- The text on the way has characters of this kind only. -/
theorem textTo
    (hReaches : Reaches wanted start last) :
    start.rest = start.textTo last ++ last.rest ∧
      last =
        behind start.before (start.textTo last) last.rest ∧
      ∀ c ∈ start.textTo last, wanted c = true := by
  rcases hReaches with ⟨word, rest, hStart, rfl, hWanted⟩
  have hText :
      start.textTo (behind start.before word rest) =
        word := by
    simp [Place.textTo, hStart, behind]
  rw [hText]
  exact ⟨hStart, rfl, hWanted⟩

/- One stays in front of a character, or passes over it. -/
theorem cons_iff
    (wanted : Char → Bool)
    (before : Option Char)
    (c : Char)
    (text : Text)
    (last : Place) :
    Reaches wanted ⟨before, c :: text⟩ last ↔
      last = ⟨before, c :: text⟩ ∨
        wanted c = true ∧
          Reaches wanted ⟨some c, text⟩ last := by
  constructor
  · rintro ⟨word, rest, hText, rfl, hWanted⟩
    cases word with
    | nil =>
        have hRest : c :: text = rest := hText
        subst hRest
        exact Or.inl (by simp [behind])
    | cons d word =>
        cases hText
        rcases List.forall_mem_cons.mp hWanted with
          ⟨hFirst, hOthers⟩
        refine Or.inr ⟨hFirst, word, rest, rfl, ?_, hOthers⟩
        rw [behind_cons]
  · rintro (rfl | ⟨hFirst, word, rest, hText, rfl, hWanted⟩)
    · exact .refl wanted _
    · have hRest : text = word ++ rest := hText
      subst hRest
      refine
        ⟨c :: word, rest, rfl, ?_,
          List.forall_mem_cons.mpr ⟨hFirst, hWanted⟩⟩
      rw [behind_cons]

end Reaches

end Place

end Regex

end RequestRouter

------------------------------------------------------------
-- Ways over Wanted Characters
------------------------------------------------------------

namespace RequestRouter

namespace Regex

namespace Ways

/- Whether ways lead over characters of one kind only. -/
def PassesOnly
    (wanted : Char → Bool)
    (ways : Ways) : Prop :=
  ∀ start last, ways.Leads start last →
    start.Reaches wanted last

namespace PassesOnly

variable {wanted other : Char → Bool}
variable {ways next : Ways}

/- Staying passes over nothing. -/
theorem stay :
    PassesOnly wanted Ways.stay := by
  intro start last hLeads
  rcases hLeads with ⟨way, hWay, rfl⟩
  rw [List.mem_singleton.mp hWay]
  exact .refl wanted start

/- One character passes over itself. -/
theorem pass :
    PassesOnly wanted (Ways.pass wanted) := by
  intro start last hLeads
  rcases (leads_pass_iff _ _ _).mp hLeads with
    ⟨c, rest, hRest, hWanted, rfl⟩
  exact ⟨[c], rest, hRest, rfl, by simpa using hWanted⟩

/- A condition passes over nothing. -/
theorem check
    (condition : Assertion) :
    PassesOnly wanted (Ways.check condition) := by
  intro start last hLeads
  rcases (leads_check_iff _ _ _).mp hLeads with ⟨-, rfl⟩
  exact .refl wanted last

/- More kinds of characters may be passed over. -/
theorem mono
    (hWays : PassesOnly wanted ways)
    (hMore : ∀ c, wanted c = true → other c = true) :
    PassesOnly other ways := by
  intro start last hLeads
  exact (hWays start last hLeads).mono hMore

/- A row passes over what its parts pass over. -/
theorem andThen
    (hFirst : PassesOnly wanted ways)
    (hNext : PassesOnly wanted next) :
    PassesOnly wanted (Ways.andThen ways next) := by
  intro start last hLeads
  rcases (leads_andThen_iff _ _ _ _).mp hLeads with
    ⟨middle, hFront, hRest⟩
  exact
    (hFirst start middle hFront).trans
      (hNext middle last hRest)

/- So does a row of any length. -/
theorem sequence
    {list : List Ways}
    (hAll : ∀ ways ∈ list, PassesOnly wanted ways) :
    PassesOnly wanted (Ways.sequence list) := by
  induction list with
  | nil => exact stay
  | cons first rest ih =>
      rcases List.forall_mem_cons.mp hAll with
        ⟨hFirst, hRest⟩
      exact hFirst.andThen (ih hRest)

/- And so does a choice. -/
theorem choice
    {list : List Ways}
    (hAll : ∀ ways ∈ list, PassesOnly wanted ways) :
    PassesOnly wanted (Ways.choice list) := by
  intro start last hLeads
  rcases hLeads with ⟨way, hWay, rfl⟩
  rcases (mem_choice_iff _ _ _).mp hWay with
    ⟨ways, hWays, hOwn⟩
  exact hAll ways hWays start way.place ⟨way, hOwn, rfl⟩

/- Preferring one of two ways passes over no more. -/
theorem prefer
    (greedy : Bool)
    (hInside : PassesOnly wanted ways)
    (hOutside : PassesOnly wanted next) :
    PassesOnly wanted fun place =>
      Ways.prefer greedy (ways place) (next place) := by
  intro start last hLeads
  rcases (leads_prefer_iff _ _ _ _ _).mp hLeads with
    hIn | hOut
  · exact hInside start last hIn
  · exact hOutside start last hOut

/- Rounds pass over what each of them passes over. -/
theorem times
    (hRound : PassesOnly wanted ways)
    (count : Nat) :
    PassesOnly wanted (Ways.times ways count) := by
  induction count with
  | zero => exact stay
  | succ count ih => exact hRound.andThen ih

/- So do up to so many rounds. -/
theorem upTo
    (greedy : Bool)
    (hRound : PassesOnly wanted ways)
    (count : Nat) :
    PassesOnly wanted (Ways.upTo greedy ways count) := by
  induction count with
  | zero => exact stay
  | succ count ih =>
      exact (hRound.andThen ih).prefer greedy stay

/- So does one round or more. -/
theorem again
    (greedy : Bool)
    (hRound : PassesOnly wanted ways)
    (fuel : Nat) :
    PassesOnly wanted (Ways.again greedy ways fuel) := by
  induction fuel with
  | zero =>
      intro start last hLeads
      rcases hLeads with ⟨way, hWay, -⟩
      cases hWay
  | succ fuel ih =>
      intro start last hLeads
      rcases (leads_again_succ_iff _ _ _ _ _).mp hLeads with
        ⟨middle, hFront, hEnd | ⟨-, hRest⟩⟩
      · exact hEnd ▸ hRound start middle hFront
      · exact
          (hRound start middle hFront).trans
            (ih middle last hRest)

/- A repetition passes over what its body passes over. -/
theorem repetition
    (hRound : PassesOnly wanted ways)
    (min : Nat)
    (max : Option Nat)
    (greedy : Bool) :
    PassesOnly wanted
      (Ways.repetition min max greedy ways) := by
  have hAgain :
      PassesOnly wanted (Ways.atLeastOnce greedy ways) := by
    intro start last
    exact
      hRound.again greedy (start.rest.length + 1) start last
  cases max with
  | some most =>
      cases min <;>
        exact (hRound.times _).andThen (hRound.upTo greedy _)
  | none =>
      cases min with
      | zero => exact hAgain.prefer greedy stay
      | succ least => exact (hRound.times least).andThen hAgain

/- What is forgotten is passed over all the same. -/
theorem unrecorded
    (hBody : PassesOnly wanted ways) :
    PassesOnly wanted (Ways.unrecorded ways) := by
  intro start last hLeads
  exact
    hBody start last
      ((leads_unrecorded_iff ways start last).mp hLeads)

/- What is caught is passed over all the same. -/
theorem capture
    (hBody : PassesOnly wanted ways)
    (index : Nat) :
    PassesOnly wanted (Ways.capture index ways) := by
  intro start last hLeads
  exact
    hBody start last
      ((leads_capture_iff index ways start last).mp hLeads)

end PassesOnly

/- A greedy run leads to all places that it reaches. -/
theorem leads_runs_iff
    (wanted : Char → Bool)
    (start last : Place) :
    (runs wanted).Leads start last ↔
      start.Reaches wanted last := by
  rcases start with ⟨before, text⟩
  simp only [Leads, runs]
  induction text generalizing before with
  | nil =>
      rw [runsFrom]
      constructor
      · rintro ⟨way, hWay, rfl⟩
        cases List.mem_singleton.mp hWay
        exact .refl wanted _
      · rintro ⟨word, rest, hStart, rfl, -⟩
        rcases List.append_eq_nil_iff.mp hStart.symm with
          ⟨rfl, rfl⟩
        exact
          ⟨_, List.mem_singleton_self _, by
            simp [Place.behind]⟩
  | cons c text ih =>
      rw [Place.Reaches.cons_iff, runsFrom, ← ih]
      cases hWanted : wanted c with
      | true =>
          simp [or_and_right, exists_or, or_comm, eq_comm]
      | false => simp [eq_comm]

end Ways

end Regex

end RequestRouter

------------------------------------------------------------
-- Wanted Characters of Expressions
------------------------------------------------------------

namespace RequestRouter

namespace Regex

namespace Expr

mutual

/- Whether some part of an expression wants a character. -/
def wants
    (c : Char) : Expr → Bool
  | .char d => c == d
  | .set chars => chars.contains c
  | .group _ _ body => body.wants c
  | .repetition _ _ _ body => body.wants c
  | .concat items => listWants c items
  | .alternation branches => listWants c branches
  | .empty | .assertion _ => false

/- Whether some expression of a list wants a character. -/
def listWants
    (c : Char) : List Expr → Bool
  | [] => false
  | e :: rest => e.wants c || listWants c rest

end

mutual

/- An expression passes only over what it wants. -/
theorem passesOnly_ways
    (e : Expr) :
    e.ways.PassesOnly fun c => e.wants c := by
  cases e with
  | empty => exact .stay
  | char d =>
      apply Ways.PassesOnly.mono .pass
      intro c hWanted
      exact hWanted
  | set chars => exact .pass
  | assertion condition => exact .check condition
  | group index name body =>
      exact (passesOnly_ways body).capture index
  | repetition min max greedy body =>
      exact
        ((passesOnly_ways body).repetition min max
          greedy).unrecorded
  | concat items => exact .sequence (passesOnly_list items)
  | alternation branches =>
      exact .choice (passesOnly_list branches)

/- Each of a list passes only over what the list wants. -/
theorem passesOnly_list
    (items : List Expr) :
    ∀ ways ∈ listWays items,
      ways.PassesOnly fun c => listWants c items := by
  cases items with
  | nil => simp [listWays]
  | cons e rest =>
      rw [listWays, List.forall_mem_cons]
      constructor
      · apply (passesOnly_ways e).mono
        intro c hWanted
        simp [listWants, hWanted]
      · intro ways hWays
        apply (passesOnly_list rest ways hWays).mono
        intro c hWanted
        simp [listWants, hWanted]

end

end Expr

end Regex

end RequestRouter
