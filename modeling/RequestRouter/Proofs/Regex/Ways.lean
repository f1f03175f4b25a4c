import RequestRouter.Regex.Engine

/-
  What a leftmost-first engine finds.

  An expression can match from a place in a text in several
  ways, which are listed in order of preference. A search
  gives the first way from the earliest place that has one.
  An engine is leftmost-first if it finds this way for the
  expression that its source is read as.

  Key definitions include:
    * `Regex.Place`
    * `Regex.Way`
    * `Regex.IsPreference`
    * `Regex.Expr.ways`
    * `Regex.Expr.search`
    * `Regex.Engine.IsLeftmostFirst`

  Main statement:
    * `Regex.isLeftmostFirst_treeEngine`
-/

------------------------------------------------------------
-- Places and Ways
------------------------------------------------------------

namespace RequestRouter

namespace Regex

/- A place in a text: the character in front, and the rest. -/
structure Place where
  before : Option Char
  rest : Text
  deriving DecidableEq, Repr

/-
  A way to match: the place behind it, and the texts of the
  groups outside repetitions that took part, outer first.
-/
structure Way where
  place : Place
  record : List (Nat × Text)
  deriving DecidableEq, Repr

/- The ways from each place, the preferred one first. -/
abbrev Ways :=
  Place → List Way

namespace Place

/- The text from a place to a later one. -/
def textTo
    (first last : Place) : Text :=
  first.rest.take (first.rest.length - last.rest.length)

/- The place at the start of a text. -/
def start
    (text : Text) : Place :=
  ⟨none, text⟩

/- A place and all later ones. -/
def andLater
    (before : Option Char) :
    Text → List Place
  | [] => [⟨before, []⟩]
  | c :: rest => ⟨before, c :: rest⟩ :: andLater (some c) rest

end Place

namespace Ways

/- Stay in place. -/
def stay : Ways :=
  fun place => [⟨place, []⟩]

/- Pass over one character that is wanted. -/
def pass
    (wanted : Char → Bool) : Ways :=
  fun place =>
    match place.rest with
    | [] => []
    | c :: rest =>
        if wanted c then [⟨⟨some c, rest⟩, []⟩] else []

/- Stay in place where a condition holds. -/
def check
    (condition : Assertion) : Ways :=
  fun place =>
    if condition.holds place.before place.rest.head? then
      [⟨place, []⟩]
    else []

/- Go on behind each way. -/
def andThen
    (first next : Ways) : Ways :=
  fun place =>
    (first place).flatMap fun way =>
      (next way.place).map fun later =>
        ⟨later.place, way.record ++ later.record⟩

/- Record the text of a group. -/
def capture
    (index : Nat)
    (body : Ways) : Ways :=
  fun place =>
    (body place).map fun way =>
      ⟨way.place,
        (index, place.textTo way.place) :: way.record⟩

/- Go inside or stay outside, in order of preference. -/
def prefer
    {α : Type}
    (greedy : Bool)
    (inside outside : List α) : List α :=
  if greedy then inside ++ outside else outside ++ inside

/- Some rounds in a row. -/
def times
    (round : Ways) : Nat → Ways
  | 0 => stay
  | count + 1 => andThen round (times round count)

/- Up to so many rounds. -/
def upTo
    (greedy : Bool)
    (round : Ways) : Nat → Ways
  | 0 => stay
  | count + 1 => fun place =>
      prefer greedy
        (andThen round (upTo greedy round count) place)
        (stay place)

/-
  One round or more. A round that is empty is the last one;
  every other makes the rest shorter, so that the length of
  the rest bounds their number.
-/
def again
    (greedy : Bool)
    (round : Ways) : Nat → Ways
  | 0 => fun _ => []
  | fuel + 1 => fun place =>
      (round place).flatMap fun way =>
        if way.place.rest.length = place.rest.length then
          [way]
        else
          prefer greedy
            (again greedy round fuel way.place) [way]

/- One round or more, with enough fuel for every round. -/
def atLeastOnce
    (greedy : Bool)
    (round : Ways) : Ways :=
  fun place =>
    again greedy round (place.rest.length + 1) place

/- A repetition between two counts. -/
def repetition
    (min : Nat)
    (max : Option Nat)
    (greedy : Bool)
    (round : Ways) : Ways :=
  match min, max with
  | 0, none => fun place =>
      prefer greedy (atLeastOnce greedy round place)
        (stay place)
  | least + 1, none =>
      andThen (times round least)
        (atLeastOnce greedy round)
  | least, some most =>
      andThen (times round least)
        (upTo greedy round (most - least))

/- Forget what was recorded. -/
def unrecorded
    (body : Ways) : Ways :=
  fun place => (body place).map (⟨·.place, []⟩)

/- Go on from each to the next. -/
def sequence : List Ways → Ways
  | [] => stay
  | first :: rest => andThen first (sequence rest)

/- One behind the other, the first one preferred. -/
def choice : List Ways → Ways
  | [] => fun _ => []
  | first :: rest => fun place =>
      first place ++ choice rest place

/- Whether one of the ways leads to a place. -/
def Leads
    (ways : Ways)
    (first last : Place) : Prop :=
  ∃ way ∈ ways first, way.place = last

/- What is recorded does not change where ways lead. -/
theorem leads_unrecorded_iff
    (body : Ways)
    (first last : Place) :
    (unrecorded body).Leads first last ↔
      body.Leads first last := by
  unfold Leads unrecorded
  constructor
  · rintro ⟨way, hWay, rfl⟩
    rcases List.mem_map.mp hWay with ⟨inner, hInner, rfl⟩
    exact ⟨inner, hInner, rfl⟩
  · rintro ⟨way, hWay, rfl⟩
    exact ⟨_, List.mem_map_of_mem hWay, rfl⟩

end Ways

end Regex

end RequestRouter

------------------------------------------------------------
-- Ways of Expressions
------------------------------------------------------------

namespace RequestRouter

namespace Regex

/-
  Whether the ways of expressions are in the order in which
  a leftmost-first engine prefers them. For a repetition of
  something that can be empty only the places that it leads
  to are said, since engines do not agree on when a search
  for further rounds gives up. What a group inside a
  repetition records is left open as well.
-/
structure IsPreference
    (ways : Expr → Ways) : Prop where
  empty : ways .empty = Ways.stay
  char (c : Char) : ways (.char c) = Ways.pass (· == c)
  set (chars : CharSet) :
    ways (.set chars) = Ways.pass chars.contains
  assertion (condition : Assertion) :
    ways (.assertion condition) = Ways.check condition
  group (index : Nat) (name : Option Text) (body : Expr) :
    ways (.group index name body) =
      Ways.capture index (ways body)
  concat (items : List Expr) :
    ways (.concat items) = Ways.sequence (items.map ways)
  alternation (branches : List Expr) :
    ways (.alternation branches) =
      Ways.choice (branches.map ways)
  repetition
    {min : Nat} {max : Option Nat} {greedy : Bool}
    {body : Expr}
    (hBody : body.canBeEmpty = false) :
    ways (.repetition min max greedy body) =
      Ways.unrecorded
        (Ways.repetition min max greedy (ways body))
  leads
    (min : Nat) (max : Option Nat) (greedy : Bool)
    (body : Expr) (first last : Place) :
    (ways (.repetition min max greedy body)).Leads
        first last ↔
      (Ways.repetition min max greedy (ways body)).Leads
        first last
  record
    {min : Nat} {max : Option Nat} {greedy : Bool}
    {body : Expr} {place : Place} {way : Way}
    (hWay :
      way ∈ ways (.repetition min max greedy body) place) :
    way.record = []

namespace Expr

mutual

/-
  The ways of an expression, where an empty round is taken
  for the last one in every repetition.
-/
def ways : Expr → Ways
  | .empty => Ways.stay
  | .char c => Ways.pass (· == c)
  | .set chars => Ways.pass chars.contains
  | .assertion condition => Ways.check condition
  | .group index _ body => Ways.capture index body.ways
  | .repetition min max greedy body =>
      Ways.unrecorded
        (Ways.repetition min max greedy body.ways)
  | .concat items => Ways.sequence (listWays items)
  | .alternation branches => Ways.choice (listWays branches)

/- The ways of each expression of a list. -/
def listWays : List Expr → List Ways
  | [] => []
  | e :: rest => e.ways :: listWays rest

end

/- The ways of a list are those of its members. -/
theorem listWays_eq
    (items : List Expr) :
    listWays items = items.map ways := by
  induction items with
  | nil => rfl
  | cons e rest ih => simp [listWays, ih]

/- These ways are in the order of preference. -/
theorem isPreference_ways :
    IsPreference ways where
  empty := rfl
  char _ := rfl
  set _ := rfl
  assertion _ := rfl
  group _ _ _ := rfl
  concat items := by rw [ways, listWays_eq]
  alternation branches := by rw [ways, listWays_eq]
  repetition _ := rfl
  leads min max greedy body first last := by
    rw [ways, Ways.leads_unrecorded_iff]
  record hWay := by
    rcases List.mem_map.mp hWay with ⟨inner, -, rfl⟩
    rfl

mutual

/- The indices of the groups outside repetitions. -/
def outerGroups : Expr → List Nat
  | .empty | .char _ | .set _ | .assertion _ => []
  | .group index _ body => index :: body.outerGroups
  | .repetition _ _ _ _ => []
  | .concat items => listOuterGroups items
  | .alternation branches => listOuterGroups branches

/- The indices of the groups outside repetitions in a list. -/
def listOuterGroups : List Expr → List Nat
  | [] => []
  | e :: rest => e.outerGroups ++ listOuterGroups rest

end

/- The expression of a whole match, which is group zero. -/
def whole
    (e : Expr) : Expr :=
  .group 0 none e

/- The first way from the earliest place that has one. -/
def search
    (ways : Expr → Ways)
    (e : Expr)
    (text : Text) : Option Way :=
  (Place.andLater none text).findSome? fun place =>
    (ways e.whole place).head?

end Expr

end Regex

end RequestRouter

------------------------------------------------------------
-- Leftmost-First Engines
------------------------------------------------------------

namespace RequestRouter

namespace Regex

/-
  Whether captures are what a search finds: there are none
  if it finds nothing, and else every group outside
  repetitions has the text that the search recorded for it.
-/
def Expr.Finds
    (ways : Expr → Ways)
    (e : Expr)
    (text : Text) : Option Captures → Prop
  | none => e.search ways text = none
  | some captures =>
      ∃ way, e.search ways text = some way ∧
        ∀ index ∈ e.whole.outerGroups,
          captures.group? index = way.record.lookup index

namespace Engine

/-
  Whether an engine is leftmost-first: it reads sources as
  the reader of this library does, counts the groups of a
  program, and finds what a search for the expression finds.
  The engine that runs programs is leftmost-first as well,
  by `Regex.isLeftmostFirst_engine`.
-/
def IsLeftmostFirst
    (E : Engine) : Prop :=
  ∃ ways, IsPreference ways ∧
    ∀ {source : Text} {program : E.Program},
      E.compile source = .ok program →
        ∃ e, parse source = .ok e ∧
          E.groups program = e.lastGroup ∧
          ∀ text, e.Finds ways text (E.find program text)

end Engine

/- The engine whose programs are expression trees. -/
def treeEngine : Engine where
  Program := Expr
  compile := parse
  groups := Expr.lastGroup
  find e text :=
    (e.search Expr.ways text).map fun way =>
      ⟨(List.range (e.lastGroup + 1)).map
        fun index => way.record.lookup index⟩

namespace Expr

mutual

/- Groups outside repetitions come before the last group. -/
theorem le_lastGroup
    (e : Expr)
    {index : Nat}
    (hIndex : index ∈ e.outerGroups) :
    index ≤ e.lastGroup := by
  cases e with
  | empty | char | set | assertion | repetition =>
      simp [outerGroups] at hIndex
  | group own name body =>
      rw [outerGroups, List.mem_cons] at hIndex
      rw [lastGroup]
      rcases hIndex with rfl | hBody
      · exact Nat.le_max_left _ _
      · exact
          Nat.le_trans (le_lastGroup body hBody)
            (Nat.le_max_right _ _)
  | concat items | alternation branches =>
      exact le_listLastGroup _ hIndex

/- The same holds for the expressions of a list. -/
theorem le_listLastGroup
    (items : List Expr)
    {index : Nat}
    (hIndex : index ∈ listOuterGroups items) :
    index ≤ listLastGroup items := by
  cases items with
  | nil => simp [listOuterGroups] at hIndex
  | cons e rest =>
      rw [listOuterGroups, List.mem_append] at hIndex
      rw [listLastGroup]
      rcases hIndex with hFirst | hRest
      · exact
          Nat.le_trans (le_lastGroup e hFirst)
            (Nat.le_max_left _ _)
      · exact
          Nat.le_trans (le_listLastGroup rest hRest)
            (Nat.le_max_right _ _)

end

end Expr

/- The engine of expression trees is leftmost-first. -/
theorem isLeftmostFirst_treeEngine :
    treeEngine.IsLeftmostFirst := by
  refine ⟨Expr.ways, Expr.isPreference_ways, ?_⟩
  intro source e hCompile
  refine ⟨e, hCompile, rfl, ?_⟩
  intro text
  change e.Finds Expr.ways text
    ((e.search Expr.ways text).map fun way =>
      ⟨(List.range (e.lastGroup + 1)).map
        fun index => way.record.lookup index⟩)
  cases hSearch : e.search Expr.ways text with
  | none => exact hSearch
  | some way =>
      refine ⟨way, hSearch, ?_⟩
      intro index hIndex
      have hLast : index < e.lastGroup + 1 := by
        have hBound := e.whole.le_lastGroup hIndex
        simp only [Expr.whole, Expr.lastGroup] at hBound
        omega
      simp [Captures.group?, hLast]

end Regex

end RequestRouter
