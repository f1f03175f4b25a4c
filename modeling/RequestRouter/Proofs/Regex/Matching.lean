import RequestRouter.Proofs.Regex.Ways

/-
  How the pieces of emitted patterns match.

  Rows of pieces match one behind the other, a text matches
  itself, and a greedy run of characters of a kind takes
  all of them where what follows cannot match before the
  end of the run.

  Key definitions include:
    * `Regex.Ways.text`
    * `Regex.Ways.runs`

  Main statements:
    * `Regex.Ways.sequence_append`
    * `Regex.Ways.text_append_rest`
    * `Regex.Ways.flatMap_runs`
-/

------------------------------------------------------------
-- Rows
------------------------------------------------------------

namespace RequestRouter

namespace Regex

namespace Ways

/- Staying in place in front changes nothing. -/
theorem stay_andThen
    (next : Ways) :
    andThen stay next = next := by
  funext place
  simp [andThen, stay]

/- Staying in place behind changes nothing. -/
theorem andThen_stay
    (first : Ways) :
    andThen first stay = first := by
  funext place
  simp [andThen, stay]

/- Three steps in a row can be put together in two ways. -/
theorem andThen_assoc
    (first second third : Ways) :
    andThen (andThen first second) third =
      andThen first (andThen second third) := by
  funext place
  simp [andThen, List.flatMap_assoc, List.flatMap_map,
    List.map_flatMap, Function.comp_def]

/- Two rows in a row are one row. -/
theorem sequence_append
    (first second : List Ways) :
    sequence (first ++ second) =
      andThen (sequence first) (sequence second) := by
  induction first with
  | nil => simp [sequence, stay_andThen]
  | cons ways rest ih =>
      simp [sequence, ih, andThen_assoc]

/- Go on behind the only way. -/
theorem andThen_of_eq_singleton
    {first : Ways}
    {place : Place}
    {way : Way}
    (hFirst : first place = [way])
    (next : Ways) :
    andThen first next place =
      (next way.place).map fun later =>
        ⟨later.place, way.record ++ later.record⟩ := by
  simp [andThen, hFirst]

/- Nothing follows where there is no way. -/
theorem andThen_of_eq_nil
    {first : Ways}
    {place : Place}
    (hFirst : first place = [])
    (next : Ways) :
    andThen first next place = [] := by
  simp [andThen, hFirst]

end Ways

namespace IsPreference

/- A row as an expression matches as its items in a row. -/
theorem sequence
    {ways : Expr → Ways}
    (hWays : IsPreference ways)
    (items : List Expr) :
    ways (.sequence items) =
      Ways.sequence (items.map ways) := by
  match items with
  | [] => exact hWays.empty
  | [item] => simp [Expr.sequence, Ways.sequence,
      Ways.andThen_stay]
  | _ :: _ :: _ => exact hWays.concat _

end IsPreference

namespace Expr

/- Groups outside repetitions in a row of two lists. -/
theorem listOuterGroups_append
    (first second : List Expr) :
    listOuterGroups (first ++ second) =
      listOuterGroups first ++ listOuterGroups second := by
  induction first with
  | nil => rfl
  | cons e rest ih => simp [listOuterGroups, ih]

/- A row as an expression has the groups of its items. -/
theorem outerGroups_sequence
    (items : List Expr) :
    (sequence items).outerGroups = listOuterGroups items := by
  match items with
  | [] => rfl
  | [item] => simp [sequence, listOuterGroups]
  | _ :: _ :: _ => rfl

end Expr

end Regex

end RequestRouter

------------------------------------------------------------
-- Texts
------------------------------------------------------------

namespace RequestRouter

namespace Regex

namespace Place

/- The place behind a text, if it stands at a place. -/
def behind
    (before : Option Char)
    (text rest : Text) : Place :=
  ⟨text.getLast?.or before, rest⟩

/- Behind a longer text one is behind what is left of it. -/
theorem behind_cons
    (before : Option Char)
    (c : Char)
    (text rest : Text) :
    behind before (c :: text) rest =
      behind (some c) text rest := by
  cases text with
  | nil => simp [behind]
  | cons d text =>
      simp [behind, List.getLast?_cons]

/- Behind two texts one is behind the second of them. -/
theorem behind_append
    (before : Option Char)
    (first second rest : Text) :
    behind before (first ++ second) rest =
      behind (first.getLast?.or before) second rest := by
  simp [behind, List.getLast?_append, Option.or_assoc]

/- The text to a place behind it is the text itself. -/
theorem textTo_append
    (before last : Option Char)
    (text rest : Text) :
    textTo ⟨before, text ++ rest⟩ ⟨last, rest⟩ = text := by
  simp [textTo]

end Place

namespace Ways

/- Pass over a text. -/
def text : Text → Ways
  | [] => stay
  | c :: rest => andThen (pass (· == c)) (text rest)

/- A text matches itself. -/
theorem text_append_rest
    (word : Text)
    (before : Option Char)
    (rest : Text) :
    text word ⟨before, word ++ rest⟩ =
      [⟨Place.behind before word rest, []⟩] := by
  induction word generalizing before with
  | nil => simp [text, stay, Place.behind]
  | cons c word ih =>
      have hPass :
          pass (· == c) ⟨before, c :: (word ++ rest)⟩ =
            [⟨⟨some c, word ++ rest⟩, []⟩] := by
        simp [pass]
      rw [text, List.cons_append,
        andThen_of_eq_singleton hPass, ih,
        Place.behind_cons]
      rfl

/- A text matches nothing that starts otherwise. -/
theorem text_eq_nil
    {word : Text}
    {place : Place}
    (hOther : ¬ word <+: place.rest) :
    text word place = [] := by
  induction word generalizing place with
  | nil => exact absurd List.nil_prefix hOther
  | cons c word ih =>
      rcases place with ⟨before, rest⟩
      cases rest with
      | nil => simp [text, andThen, pass]
      | cons d rest =>
          by_cases hFirst : d = c
          · subst hFirst
            have hRest : ¬ word <+: rest := by
              simpa [List.prefix_cons_inj] using hOther
            have hNone : text word ⟨some d, rest⟩ = [] :=
              ih hRest
            simp [text, andThen, pass, hNone]
          · simp [text, andThen, pass, hFirst]

end Ways

/- The characters of a text match the text. -/
theorem IsPreference.chars
    {ways : Expr → Ways}
    (hWays : IsPreference ways)
    (text : Text) :
    Ways.sequence ((text.map Expr.char).map ways) =
      Ways.text text := by
  induction text with
  | nil => rfl
  | cons c rest ih =>
      simp only [List.map_cons, Ways.sequence, ih,
        hWays.char, Ways.text]

end Regex

end RequestRouter

------------------------------------------------------------
-- Sets
------------------------------------------------------------

namespace RequestRouter

namespace Regex

namespace CharSet

/- All characters but one are those that differ from it. -/
theorem contains_allBut_iff
    (excluded c : Char) :
    (allBut [excluded]).contains c = true ↔
      c ≠ excluded := by
  have hSame :
      excluded ≤ c ∧ c ≤ excluded ↔ c = excluded := by
    constructor
    · rintro ⟨hBelow, hAbove⟩
      exact Char.le_antisymm hAbove hBelow
    · rintro rfl
      exact ⟨Char.le_refl c, Char.le_refl c⟩
  simp [allBut, ofItems, contains, ClassItem.single,
    ClassItem.ofRange, ClassItem.contains,
    CharRange.contains, ← Bool.decide_and, hSame]

end CharSet

end Regex

end RequestRouter

------------------------------------------------------------
-- Runs
------------------------------------------------------------

namespace RequestRouter

namespace Regex

namespace Ways

/- The places inside and behind a run, the last one first. -/
def runsFrom
    (wanted : Char → Bool)
    (before : Option Char) :
    Text → List Way
  | [] => [⟨⟨before, []⟩, []⟩]
  | c :: rest =>
      if wanted c then
        runsFrom wanted (some c) rest ++
          [⟨⟨before, c :: rest⟩, []⟩]
      else
        [⟨⟨before, c :: rest⟩, []⟩]

/- Pass over any number of characters of a kind, greedily. -/
def runs
    (wanted : Char → Bool) : Ways :=
  fun place => runsFrom wanted place.before place.rest

/- Rounds of one character each make up a run. -/
theorem again_pass
    (wanted : Char → Bool)
    (place : Place)
    {fuel : Nat}
    (hFuel : place.rest.length < fuel) :
    again true (pass wanted) fuel place =
      andThen (pass wanted) (runs wanted) place := by
  induction fuel generalizing place with
  | zero => simp at hFuel
  | succ fuel ih =>
      rcases place with ⟨before, rest⟩
      cases rest with
      | nil => simp [again, pass, andThen]
      | cons c rest =>
          by_cases hWanted : wanted c = true
          case neg => simp [again, pass, andThen, hWanted]
          case pos =>
              have hRest : rest.length < fuel := by
                simpa using hFuel
              have hMore := ih ⟨some c, rest⟩ hRest
              simp only [again, pass, hWanted, if_true,
                List.flatMap_cons, List.flatMap_nil,
                List.append_nil, List.length_cons,
                Nat.left_eq_add, Nat.succ_ne_self, if_false,
                hMore, andThen, prefer, runs,
                List.nil_append, List.map_id']
              cases rest with
              | nil => simp [runsFrom]
              | cons d rest =>
                  by_cases hNext : wanted d = true
                  · simp [runsFrom, hNext]
                  · simp [runsFrom, hNext]

/- A greedy star of one character is a run. -/
theorem repetition_star
    (wanted : Char → Bool) :
    repetition 0 none true (pass wanted) = runs wanted := by
  funext place
  rcases place with ⟨before, rest⟩
  change
    prefer true
      (again true (pass wanted) (rest.length + 1)
        ⟨before, rest⟩) (stay ⟨before, rest⟩) = _
  rw [again_pass wanted ⟨before, rest⟩
    (Nat.lt_succ_self _)]
  cases rest with
  | nil => simp [prefer, andThen, pass, stay, runs, runsFrom]
  | cons c rest =>
      by_cases hWanted : wanted c = true
      · simp [prefer, andThen, pass, stay, runs, runsFrom,
          hWanted]
      · simp [prefer, andThen, pass, stay, runs, runsFrom,
          hWanted]

/- A greedy plus of one character is a run behind the first. -/
theorem repetition_plus
    (wanted : Char → Bool) :
    repetition 1 none true (pass wanted) =
      andThen (pass wanted) (runs wanted) := by
  funext place
  have hAgain :=
    again_pass wanted place
      (Nat.lt_succ_self place.rest.length)
  change
    andThen stay (atLeastOnce true (pass wanted)) place = _
  rw [stay_andThen]
  exact hAgain

/-
  A run takes all characters of its kind if what follows
  does not match in front of one of them.
-/
theorem flatMap_runs
    {α : Type}
    {wanted : Char → Bool}
    {word : Text}
    (hWord : ∀ c ∈ word, wanted c = true)
    (rest : Text)
    (hRest : ∀ c ∈ rest.head?, wanted c = false)
    (next : Way → List α)
    (hNext :
      ∀ before c later, wanted c = true →
        next ⟨⟨before, c :: later⟩, []⟩ = [])
    (before : Option Char) :
    (runs wanted ⟨before, word ++ rest⟩).flatMap next =
      next ⟨Place.behind before word rest, []⟩ := by
  induction word generalizing before with
  | nil =>
      cases rest with
      | nil => simp [runs, runsFrom, Place.behind]
      | cons c rest =>
          have hStop : wanted c = false := hRest c rfl
          simp [runs, runsFrom, Place.behind, hStop]
  | cons c word ih =>
      have hFirst : wanted c = true := hWord c (by simp)
      have hOthers := ih fun d hd =>
        hWord d (List.mem_cons_of_mem _ hd)
      rw [Place.behind_cons, ← hOthers (some c)]
      simp [runs, runsFrom, hFirst, hNext]

end Ways

end Regex

end RequestRouter
