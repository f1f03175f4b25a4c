import RequestRouter.Proofs.Regex.Closed
import RequestRouter.Proofs.Regex.Matching

/-
  Where expressions lead, and which groups they record.

  The places that an expression leads to depend neither on
  the numbers of its groups nor on the order in which an
  engine prefers them. A way records only groups that stand
  outside repetitions, and those of a closed source have the
  numbers up to the count of its groups.

  Key definition:
    * `Regex.Ways.LeadAlike`

  Main statements:
    * `Regex.IsPreference.leadAlike_shift`
    * `Regex.IsPreference.mem_outerGroups`
    * `Regex.bounds_of_closedBody`
-/

------------------------------------------------------------
-- Places
------------------------------------------------------------

namespace RequestRouter

namespace Regex

namespace Ways

/- In a row one is led behind a place on the way. -/
theorem leads_andThen_iff
    (first next : Ways)
    (start last : Place) :
    (andThen first next).Leads start last ↔
      ∃ middle, first.Leads start middle ∧
        next.Leads middle last := by
  unfold Leads andThen
  constructor
  · intro hLeads
    rcases hLeads with ⟨way, hWay, rfl⟩
    rcases List.mem_flatMap.mp hWay with
      ⟨front, hFront, hLater⟩
    rcases List.mem_map.mp hLater with
      ⟨later, hNext, rfl⟩
    exact
      ⟨front.place, ⟨front, hFront, rfl⟩, later, hNext, rfl⟩
  · intro hLeads
    rcases hLeads with
      ⟨_, ⟨front, hFront, rfl⟩, later, hNext, rfl⟩
    refine ⟨⟨later.place, front.record ++ later.record⟩, ?_,
      rfl⟩
    exact
      List.mem_flatMap.mpr
        ⟨front, hFront, List.mem_map_of_mem hNext⟩

/- A group leads to where its body does. -/
theorem leads_capture_iff
    (index : Nat)
    (body : Ways)
    (start last : Place) :
    (capture index body).Leads start last ↔
      body.Leads start last := by
  unfold Leads capture
  constructor
  · intro hLeads
    rcases hLeads with ⟨way, hWay, rfl⟩
    rcases List.mem_map.mp hWay with ⟨inner, hInner, rfl⟩
    exact ⟨inner, hInner, rfl⟩
  · intro hLeads
    rcases hLeads with ⟨way, hWay, rfl⟩
    exact ⟨_, List.mem_map_of_mem hWay, rfl⟩

/- A text leads behind itself. -/
theorem leads_text_iff
    (word : Text)
    (start last : Place) :
    (text word).Leads start last ↔
      ∃ rest, start.rest = word ++ rest ∧
        last = Place.behind start.before word rest := by
  rcases start with ⟨before, whole⟩
  dsimp only
  by_cases hStart : word <+: whole
  case pos =>
      rcases hStart with ⟨rest, rfl⟩
      simp [Leads, text_append_rest, eq_comm]
  case neg =>
      unfold Leads
      rw [text_eq_nil hStart]
      constructor
      · intro hLeads
        rcases hLeads with ⟨way, hWay, -⟩
        cases hWay
      · intro hRest
        rcases hRest with ⟨rest, hWhole, -⟩
        exact absurd ⟨rest, hWhole.symm⟩ hStart

/- One character is passed over if it is wanted. -/
theorem leads_pass_iff
    (wanted : Char → Bool)
    (first last : Place) :
    (pass wanted).Leads first last ↔
      ∃ c rest, first.rest = c :: rest ∧
        wanted c = true ∧ last = ⟨some c, rest⟩ := by
  constructor
  · intro hLeads
    rcases hLeads with ⟨way, hWay, rfl⟩
    unfold pass at hWay
    split at hWay
    case h_1 => cases hWay
    case h_2 c rest hRest =>
        split at hWay
        case isFalse => cases hWay
        case isTrue hWanted =>
            cases List.mem_singleton.mp hWay
            exact ⟨c, rest, hRest, hWanted, rfl⟩
  · intro hPassed
    rcases hPassed with ⟨c, rest, hRest, hWanted, rfl⟩
    exact ⟨⟨⟨some c, rest⟩, []⟩, by simp [pass, hRest, hWanted],
      rfl⟩

/- One stays where a condition holds. -/
theorem leads_check_iff
    (condition : Assertion)
    (first last : Place) :
    (check condition).Leads first last ↔
      condition.holds first.before first.rest.head? =
          true ∧
        last = first := by
  cases hHolds :
      condition.holds first.before first.rest.head? <;>
    simp [Leads, check, hHolds, eq_comm]

/- Preferring one of two ways is to choose between them. -/
theorem leads_prefer_iff
    (greedy : Bool)
    (inside outside : Ways)
    (first last : Place) :
    Leads
        (fun place =>
          prefer greedy (inside place) (outside place))
        first last ↔
      inside.Leads first last ∨ outside.Leads first last := by
  cases greedy with
  | true =>
      simp [Leads, prefer, or_and_right, exists_or]
  | false =>
      simp [Leads, prefer, or_and_right, exists_or, or_comm]

/- A choice goes the ways of all that it is between. -/
theorem mem_choice_iff
    (choices : List Ways)
    (start : Place)
    (way : Way) :
    way ∈ choice choices start ↔
      ∃ ways ∈ choices, way ∈ ways start := by
  induction choices with
  | nil => simp [choice]
  | cons first rest ih => simp [choice, ih]

/- A character that is passed over records nothing. -/
theorem record_of_pass
    {wanted : Char → Bool}
    {start : Place}
    {way : Way}
    (hWay : way ∈ pass wanted start) :
    way.record = [] := by
  unfold pass at hWay
  split at hWay
  · cases hWay
  · split at hWay
    · rw [List.mem_singleton.mp hWay]
    · cases hWay

/- Neither does a condition. -/
theorem record_of_check
    {condition : Assertion}
    {start : Place}
    {way : Way}
    (hWay : way ∈ check condition start) :
    way.record = [] := by
  unfold check at hWay
  split at hWay
  · rw [List.mem_singleton.mp hWay]
  · cases hWay

/- Whether ways lead to the same places. -/
def LeadAlike
    (ways others : Ways) : Prop :=
  ∀ start last,
    ways.Leads start last ↔ others.Leads start last

namespace LeadAlike

variable {ways others next follow : Ways}

/- Ways lead like themselves. -/
theorem refl
    (ways : Ways) :
    LeadAlike ways ways :=
  fun _ _ => Iff.rfl

/- Rows of alike ways lead alike. -/
theorem andThen
    (hFirst : LeadAlike ways others)
    (hNext : LeadAlike next follow) :
    LeadAlike (Ways.andThen ways next)
      (Ways.andThen others follow) := by
  intro start last
  rw [leads_andThen_iff, leads_andThen_iff]
  apply exists_congr
  intro middle
  exact and_congr (hFirst start middle) (hNext middle last)

/- Rows of any length of alike ways lead alike. -/
theorem sequence
    {first second : List Ways}
    (hAll : List.Forall₂ LeadAlike first second) :
    LeadAlike (Ways.sequence first)
      (Ways.sequence second) := by
  induction hAll with
  | nil => exact refl Ways.stay
  | cons hFirst _ ih => exact hFirst.andThen ih

/- Choices between alike ways lead alike. -/
theorem choice
    {first second : List Ways}
    (hAll : List.Forall₂ LeadAlike first second) :
    LeadAlike (Ways.choice first) (Ways.choice second) := by
  induction hAll with
  | nil => exact refl (Ways.choice [])
  | cons hFirst _ ih =>
      intro start last
      simp only [Leads, Ways.choice, List.mem_append,
        or_and_right, exists_or]
      exact or_congr (hFirst start last) (ih start last)

/- So many rounds of alike ways lead alike. -/
theorem times
    (hRound : LeadAlike ways others)
    (count : Nat) :
    LeadAlike (Ways.times ways count)
      (Ways.times others count) := by
  induction count with
  | zero => exact refl Ways.stay
  | succ count ih => exact hRound.andThen ih

/- So do ways where one of two lists is preferred. -/
theorem prefer
    (greedy : Bool)
    (hInside : LeadAlike ways others)
    (hOutside : LeadAlike next follow) :
    LeadAlike
      (fun place =>
        Ways.prefer greedy (ways place) (next place))
      (fun place =>
        Ways.prefer greedy (others place) (follow place)) := by
  intro start last
  rw [leads_prefer_iff, leads_prefer_iff]
  exact or_congr (hInside start last) (hOutside start last)

/- Up to so many rounds of alike ways lead alike. -/
theorem upTo
    (greedy : Bool)
    (hRound : LeadAlike ways others)
    (count : Nat) :
    LeadAlike (Ways.upTo greedy ways count)
      (Ways.upTo greedy others count) := by
  induction count with
  | zero => exact refl Ways.stay
  | succ count ih =>
      exact (hRound.andThen ih).prefer greedy (refl Ways.stay)

end LeadAlike

/- One round or more goes on behind the first. -/
theorem leads_again_succ_iff
    (greedy : Bool)
    (round : Ways)
    (fuel : Nat)
    (start last : Place) :
    (again greedy round (fuel + 1)).Leads start last ↔
      ∃ middle, round.Leads start middle ∧
        (middle = last ∨
          middle.rest.length ≠ start.rest.length ∧
            (again greedy round fuel).Leads middle last) := by
  have hBehind :
      ∀ way : Way,
        (∃ later ∈
            (if way.place.rest.length = start.rest.length then
              [way]
            else
              prefer greedy (again greedy round fuel way.place)
                [way]),
            later.place = last) ↔
          (way.place = last ∨
            way.place.rest.length ≠ start.rest.length ∧
              (again greedy round fuel).Leads way.place
                last) := by
    intro way
    by_cases hEmpty :
        way.place.rest.length = start.rest.length
    case pos => simp [hEmpty]
    case neg =>
        cases greedy <;>
          simp [hEmpty, prefer, Leads, or_and_right,
            exists_or, or_comm]
  unfold Leads
  simp only [again, List.mem_flatMap]
  constructor
  · intro hLeads
    rcases hLeads with
      ⟨later, ⟨way, hWay, hLater⟩, hLast⟩
    exact
      ⟨way.place, ⟨way, hWay, rfl⟩,
        (hBehind way).mp ⟨later, hLater, hLast⟩⟩
  · intro hLeads
    rcases hLeads with ⟨_, ⟨way, hWay, rfl⟩, hRest⟩
    rcases (hBehind way).mpr hRest with
      ⟨later, hLater, hLast⟩
    exact ⟨later, ⟨way, hWay, hLater⟩, hLast⟩

namespace LeadAlike

variable {ways others : Ways}

/- One round or more of alike ways lead alike. -/
theorem again
    (greedy : Bool)
    (hRound : LeadAlike ways others)
    (fuel : Nat) :
    LeadAlike (Ways.again greedy ways fuel)
      (Ways.again greedy others fuel) := by
  induction fuel with
  | zero => exact refl fun _ => []
  | succ fuel ih =>
      intro start last
      rw [leads_again_succ_iff, leads_again_succ_iff]
      apply exists_congr
      intro middle
      exact
        and_congr (hRound start middle)
          (or_congr Iff.rfl
            (and_congr Iff.rfl (ih middle last)))

/- Repetitions of alike ways lead alike. -/
theorem repetition
    (hRound : LeadAlike ways others)
    (min : Nat)
    (max : Option Nat)
    (greedy : Bool) :
    LeadAlike (Ways.repetition min max greedy ways)
      (Ways.repetition min max greedy others) := by
  have hAgain :
      LeadAlike (Ways.atLeastOnce greedy ways)
        (Ways.atLeastOnce greedy others) := by
    intro start last
    exact
      hRound.again greedy (start.rest.length + 1) start last
  cases max with
  | some most =>
      cases min <;>
        exact
          (hRound.times _).andThen
            (hRound.upTo greedy _)
  | none =>
      cases min with
      | zero => exact hAgain.prefer greedy (refl Ways.stay)
      | succ least => exact (hRound.times least).andThen hAgain

end LeadAlike

end Ways

end Regex

end RequestRouter

------------------------------------------------------------
-- Shifted Expressions
------------------------------------------------------------

namespace RequestRouter

namespace Regex

namespace IsPreference

variable {preferred : Expr → Ways}

mutual

/- An expression leads to the same places when shifted. -/
theorem leadAlike_shift
    (hPreferred : IsPreference preferred)
    (count : Nat)
    (e : Expr) :
    (preferred (e.shift count)).LeadAlike e.ways := by
  cases e with
  | empty =>
      rw [Expr.shift, hPreferred.empty]
      exact .refl _
  | char c =>
      rw [Expr.shift, hPreferred.char]
      exact .refl _
  | set chars =>
      rw [Expr.shift, hPreferred.set]
      exact .refl _
  | assertion condition =>
      rw [Expr.shift, hPreferred.assertion]
      exact .refl _
  | group index name body =>
      have hBody := leadAlike_shift hPreferred count body
      rw [Expr.shift, hPreferred.group, Expr.ways]
      intro start last
      rw [Ways.leads_capture_iff, Ways.leads_capture_iff]
      exact hBody start last
  | repetition min max greedy body =>
      have hBody := leadAlike_shift hPreferred count body
      rw [Expr.shift, Expr.ways]
      intro start last
      rw [hPreferred.leads, Ways.leads_unrecorded_iff]
      exact hBody.repetition min max greedy start last
  | concat items =>
      rw [Expr.shift, hPreferred.concat, Expr.ways]
      exact .sequence (forall₂_shift hPreferred count items)
  | alternation branches =>
      rw [Expr.shift, hPreferred.alternation, Expr.ways]
      exact .choice (forall₂_shift hPreferred count branches)

/- So do the expressions of a list, one by one. -/
theorem forall₂_shift
    (hPreferred : IsPreference preferred)
    (count : Nat)
    (items : List Expr) :
    List.Forall₂ Ways.LeadAlike
      ((Expr.listShift count items).map preferred)
      (Expr.listWays items) := by
  cases items with
  | nil => exact .nil
  | cons e rest =>
      exact
        .cons (leadAlike_shift hPreferred count e)
          (forall₂_shift hPreferred count rest)

end

mutual

/- What is recorded belongs to groups outside repetitions. -/
theorem mem_outerGroups
    (hPreferred : IsPreference preferred)
    (e : Expr)
    {start : Place}
    {way : Way}
    (hWay : way ∈ preferred e start)
    {entry : Nat × Text}
    (hEntry : entry ∈ way.record) :
    entry.1 ∈ e.outerGroups := by
  cases e with
  | empty =>
      rw [hPreferred.empty, Ways.stay,
        List.mem_singleton] at hWay
      simp [hWay] at hEntry
  | char c =>
      rw [hPreferred.char] at hWay
      simp [Ways.record_of_pass hWay] at hEntry
  | set chars =>
      rw [hPreferred.set] at hWay
      simp [Ways.record_of_pass hWay] at hEntry
  | assertion condition =>
      rw [hPreferred.assertion] at hWay
      simp [Ways.record_of_check hWay] at hEntry
  | group index name body =>
      rw [hPreferred.group] at hWay
      rcases List.mem_map.mp hWay with ⟨inner, hInner, rfl⟩
      rw [Expr.outerGroups, List.mem_cons]
      rcases List.mem_cons.mp hEntry with hOwn | hBody
      · exact Or.inl (hOwn ▸ rfl)
      · exact
          Or.inr (mem_outerGroups hPreferred body hInner hBody)
  | repetition min max greedy body =>
      simp [hPreferred.record hWay] at hEntry
  | concat items =>
      rw [hPreferred.concat] at hWay
      exact
        mem_outerGroups_sequence hPreferred items hWay hEntry
  | alternation branches =>
      rw [hPreferred.alternation] at hWay
      exact
        mem_outerGroups_choice hPreferred branches hWay hEntry

/- In a row it belongs to one of the items. -/
theorem mem_outerGroups_sequence
    (hPreferred : IsPreference preferred)
    (items : List Expr)
    {start : Place}
    {way : Way}
    (hWay :
      way ∈ Ways.sequence (items.map preferred) start)
    {entry : Nat × Text}
    (hEntry : entry ∈ way.record) :
    entry.1 ∈ Expr.listOuterGroups items := by
  cases items with
  | nil =>
      rw [List.map_nil, Ways.sequence, Ways.stay,
        List.mem_singleton] at hWay
      simp [hWay] at hEntry
  | cons e rest =>
      rcases List.mem_flatMap.mp hWay with
        ⟨front, hFront, hLater⟩
      rcases List.mem_map.mp hLater with ⟨later, hRest, rfl⟩
      rw [Expr.listOuterGroups, List.mem_append]
      rcases List.mem_append.mp hEntry with hOwn | hOther
      · exact
          Or.inl (mem_outerGroups hPreferred e hFront hOwn)
      · exact
          Or.inr
            (mem_outerGroups_sequence hPreferred rest hRest
              hOther)

/- In a choice it belongs to one of the branches. -/
theorem mem_outerGroups_choice
    (hPreferred : IsPreference preferred)
    (branches : List Expr)
    {start : Place}
    {way : Way}
    (hWay :
      way ∈ Ways.choice (branches.map preferred) start)
    {entry : Nat × Text}
    (hEntry : entry ∈ way.record) :
    entry.1 ∈ Expr.listOuterGroups branches := by
  cases branches with
  | nil => cases hWay
  | cons e rest =>
      rw [Expr.listOuterGroups, List.mem_append]
      rcases List.mem_append.mp hWay with hFirst | hRest
      · exact
          Or.inl (mem_outerGroups hPreferred e hFirst hEntry)
      · exact
          Or.inr
            (mem_outerGroups_choice hPreferred rest hRest
              hEntry)

end

end IsPreference

end Regex

end RequestRouter

------------------------------------------------------------
-- Groups of Closed Sources
------------------------------------------------------------

namespace RequestRouter

namespace Regex

namespace Expr

/- What is the same in every context has no groups. -/
theorem outerGroups_eq_nil_of_shift
    {e : Expr}
    (hSame : ∀ count, e.shift count = e) :
    e.outerGroups = [] := by
  have hShift := outerGroups_shift 1 e
  rw [hSame] at hShift
  cases hGroups : e.outerGroups with
  | nil => rfl
  | cons group rest =>
      rw [hGroups, List.map_cons, List.cons.injEq] at hShift
      omega

/- Rounds have no groups but those of their body. -/
theorem outerGroups_rounds_subset
    (min : Nat)
    (max : Option Nat)
    (greedy : Bool)
    (body : Expr) :
    (rounds min max greedy body).outerGroups ⊆
      body.outerGroups := by
  unfold rounds
  split
  · simp [outerGroups]
  split
  · exact List.Subset.refl _
  · simp [outerGroups]

/- A group of a list is a group of one of its members. -/
theorem mem_listOuterGroups_iff
    (items : List Expr)
    (group : Nat) :
    group ∈ listOuterGroups items ↔
      ∃ item ∈ items, group ∈ item.outerGroups := by
  induction items with
  | nil => simp [listOuterGroups]
  | cons e rest ih => simp [listOuterGroups, ih]

/- A choice as an expression has the groups of its branches. -/
theorem outerGroups_choice
    (branches : List Expr) :
    (choice branches).outerGroups =
      listOuterGroups branches := by
  match branches with
  | [] => simp [choice, outerGroups]
  | [branch] => simp [choice, listOuterGroups]
  | _ :: _ :: _ => simp [choice, outerGroups]

end Expr

/- Whether the groups of expressions are among the first. -/
def AreBounded
    (count : Nat)
    (items : List Expr) : Prop :=
  ∀ item ∈ items, ∀ group ∈ item.outerGroups,
    0 < group ∧ group ≤ count

/- They are so with more groups, too. -/
theorem AreBounded.mono
    {small large : Nat}
    {items : List Expr}
    (hItems : AreBounded small items)
    (hLarger : small ≤ large) :
    AreBounded large items := by
  intro item hItem group hGroup
  rcases hItems item hItem group hGroup with
    ⟨hPositive, hBound⟩
  exact ⟨hPositive, Nat.le_trans hBound hLarger⟩

/- A row of bounded items is bounded. -/
theorem AreBounded.sequence
    {count : Nat}
    {items branches : List Expr}
    (hItems : AreBounded count items)
    (hBranches : AreBounded count branches) :
    AreBounded count
      (Expr.sequence items.reverse :: branches) := by
  intro item hItem group hGroup
  rcases List.mem_cons.mp hItem with hRow | hOther
  · rw [hRow, Expr.outerGroups_sequence,
      Expr.mem_listOuterGroups_iff] at hGroup
    rcases hGroup with ⟨own, hOwn, hGroup⟩
    exact hItems own (List.mem_reverse.mp hOwn) group hGroup
  · exact hBranches item hOther group hGroup

namespace Scope

/-
  Whether the number of an open group, and those of all
  groups in front of it, are among the first.
-/
structure IsBounded
    (count : Nat)
    (scope : Scope) : Prop where
  items : AreBounded count scope.items
  branches : AreBounded count scope.branches
  capture :
    ∀ own ∈ scope.capture, 0 < own.1 ∧ own.1 ≤ count

end Scope

namespace Builder

/- Whether all groups read so far have numbers in turn. -/
structure IsBounded
    (builder : Builder) : Prop where
  items : AreBounded builder.groups builder.items
  branches : AreBounded builder.groups builder.branches
  scopes :
    ∀ scope ∈ builder.scopes, scope.IsBounded builder.groups

/- The body of a builder is bounded like its parts. -/
theorem IsBounded.body
    {builder : Builder}
    (hBuilder : builder.IsBounded) :
    ∀ group ∈ builder.body.outerGroups,
      0 < group ∧ group ≤ builder.groups := by
  intro group hGroup
  rw [Builder.body, Expr.outerGroups_choice,
    Expr.mem_listOuterGroups_iff] at hGroup
  rcases hGroup with ⟨item, hItem, hGroup⟩
  exact
    hBuilder.items.sequence hBuilder.branches item
      (List.mem_reverse.mp hItem) group hGroup

/- An item without groups can be put behind the others. -/
theorem IsBounded.push
    {builder : Builder}
    (hBuilder : builder.IsBounded)
    {item : Expr}
    (hItem : item.outerGroups = []) :
    (builder.push item).IsBounded := by
  refine ⟨?_, hBuilder.branches, hBuilder.scopes⟩
  intro other hOther group hGroup
  rcases List.mem_cons.mp hOther with hNew | hOld
  · simp [hNew, hItem] at hGroup
  · exact hBuilder.items other hOld group hGroup

/- An open group holds what was read before it. -/
theorem IsBounded.openGroup
    {builder opened : Builder}
    (hBuilder : builder.IsBounded)
    {capture : Option (Nat × Option Text)}
    (hCapture :
      ∀ own ∈ capture, 0 < own.1 ∧ own.1 ≤ builder.groups)
    {flags : Flags}
    (hOpen : builder.openGroup capture flags = .ok opened) :
    opened.IsBounded := by
  unfold Builder.openGroup at hOpen
  split at hOpen
  · cases hOpen
  · cases hOpen
    refine ⟨?_, ?_, ?_⟩
    · intro item hItem
      cases hItem
    · intro item hItem
      cases hItem
    · intro scope hScope
      rcases List.mem_cons.mp hScope with hNew | hOld
      · rw [hNew]
        exact ⟨hBuilder.items, hBuilder.branches, hCapture⟩
      · exact hBuilder.scopes scope hOld

/- So it is behind every opening. -/
theorem IsBounded.afterOpening
    {builder opened : Builder}
    (hBuilder : builder.IsBounded)
    {opening : GroupOpening}
    (hOpen : builder.afterOpening opening = .ok opened) :
    opened.IsBounded := by
  rcases opening with ⟨name⟩ | ⟨flags⟩ | ⟨flags⟩
  · have hMore : builder.groups ≤ builder.groups + 1 :=
      Nat.le_succ _
    have hNamed :
        ({ builder with
            groups := builder.groups + 1
            names := name.toList ++ builder.names } :
          Builder).IsBounded := by
      refine
        ⟨hBuilder.items.mono hMore,
          hBuilder.branches.mono hMore, ?_⟩
      intro scope hScope
      have hOwn := hBuilder.scopes scope hScope
      refine
        ⟨hOwn.items.mono hMore, hOwn.branches.mono hMore, ?_⟩
      intro own hCapture
      rcases hOwn.capture own hCapture with
        ⟨hPositive, hBound⟩
      exact ⟨hPositive, Nat.le_trans hBound hMore⟩
    refine hNamed.openGroup ?_ hOpen
    intro own hCapture
    cases hCapture
    exact ⟨Nat.succ_pos _, Nat.le_refl _⟩
  · exact hBuilder.openGroup (by simp) hOpen
  · cases hOpen
    exact
      ⟨hBuilder.items, hBuilder.branches, hBuilder.scopes⟩

/- A group that closes is an item like others. -/
theorem IsBounded.closeGroup
    {builder closed : Builder}
    (hBuilder : builder.IsBounded)
    (hClose : builder.closeGroup = .ok closed) :
    closed.IsBounded := by
  unfold Builder.closeGroup at hClose
  split at hClose
  case h_1 => cases hClose
  case h_2 scope outer hScopes =>
      cases hClose
      have hScope := hBuilder.scopes scope (by simp [hScopes])
      refine ⟨?_, hScope.branches, ?_⟩
      · intro item hItem group hGroup
        rcases List.mem_cons.mp hItem with hNew | hOld
        · rw [hNew, Scope.close] at hGroup
          cases hOwn : scope.capture with
          | none =>
              rw [hOwn] at hGroup
              exact hBuilder.body group hGroup
          | some own =>
              rw [hOwn] at hGroup
              rcases List.mem_cons.mp hGroup with hSame | hIn
              · rw [hSame]
                exact hScope.capture own hOwn
              · exact hBuilder.body group hIn
        · exact hScope.items item hOld group hGroup
      · intro other hOther
        exact
          hBuilder.scopes other
            (by simp [hScopes, hOther])

/- A repetition has no groups but those of its item. -/
theorem IsBounded.quantify
    {builder : Builder}
    (hBuilder : builder.IsBounded)
    (quantifier : Quantifier) :
    (builder.quantify quantifier).IsBounded := by
  unfold Builder.quantify
  cases hItems : builder.items with
  | nil => exact hBuilder
  | cons item rest =>
      refine ⟨?_, hBuilder.branches, hBuilder.scopes⟩
      intro other hOther group hGroup
      rcases List.mem_cons.mp hOther with hNew | hOld
      · rw [hNew] at hGroup
        exact
          hBuilder.items item (by simp [hItems]) group
            (Expr.outerGroups_rounds_subset _ _ _ _ hGroup)
      · exact
          hBuilder.items other
            (by simp [hItems, hOld]) group hGroup

/- Reading an item keeps the groups in turn. -/
theorem IsBounded.readItem
    {builder next : Builder}
    (hBuilder : builder.IsBounded)
    {c : Char}
    {rest behind : Text}
    (hItem : builder.readItem c rest = .ok (next, behind)) :
    next.IsBounded := by
  rw [readItem_eq_ok_iff] at hItem
  cases hItem with
  | group _ hOpen => exact hBuilder.afterOpening hOpen
  | close hClose => exact hBuilder.closeGroup hClose
  | bar =>
      refine ⟨?_, ?_, hBuilder.scopes⟩
      · intro item hItem
        cases hItem
      · exact hBuilder.items.sequence hBuilder.branches
  | set => exact hBuilder.push rfl
  | quantifier => exact hBuilder.quantify _
  | escape hRead =>
      apply hBuilder.push
      apply Expr.outerGroups_eq_nil_of_shift
      exact shift_of_readEscape hRead
  | plain =>
      apply hBuilder.push
      apply Expr.outerGroups_eq_nil_of_shift
      intro count
      exact Expr.shift_plainExpr count _ _

/- So does reading a body. -/
theorem IsBounded.readBody
    {builder final : Builder}
    (hBuilder : builder.IsBounded)
    {fuel : Nat}
    {text : Text}
    (hBody : builder.readBody fuel text = .ok final) :
    final.IsBounded := by
  induction fuel generalizing builder text with
  | zero => cases hBody
  | succ fuel ih =>
      rw [Builder.readBody] at hBody
      split at hBody
      case h_1 => cases hBody
      case h_2 c rest hSkip =>
          split at hBody
          case isTrue =>
              split at hBody
              case isTrue =>
                  cases hBody
                  exact hBuilder
              case isFalse => cases hBody
          case isFalse =>
              rcases (Sequence.bind_eq_ok_iff _ _ _).mp hBody
                with ⟨⟨next, behind⟩, hItem, hNext⟩
              exact ih (hBuilder.readItem hItem) hNext

end Builder

/- The groups of a closed source are those it counts. -/
theorem bounds_of_closedBody
    {source : Text}
    {body : Expr}
    {groups : Nat}
    (hClosed : closedBody? source = some (body, groups)) :
    ∀ group ∈ body.outerGroups,
      0 < group ∧ group ≤ groups := by
  unfold closedBody? at hClosed
  split at hClosed
  case h_2 => cases hClosed
  case h_1 final hBody =>
      cases hClosed
      have hEmpty : ({} : Builder).IsBounded := by
        refine ⟨?_, ?_, ?_⟩ <;>
        · intro item hItem
          cases hItem
      exact (hEmpty.readBody hBody).body

end Regex

end RequestRouter
