import RequestRouter.Method
import RequestRouter.Path.Optional
import RequestRouter.Route.Match
import RequestRouter.Route.Pattern

/-
  Which requests a registration answers, said without any
  matcher.

  Patterns take the parts of a path from left to right. A
  relation says how, a function lists all ways of doing so,
  and a registration answers a request if its method serves
  it and one of its variants takes the whole path.

  Key definitions include:
    * `Pattern.Takes`
    * `Pattern.takings`
    * `Pattern.Accepts`
    * `Pattern.names`
    * `Registration.Answers`

  Main statements:
    * `Pattern.map_fst_of_takes`
    * `Pattern.mem_takings_iff`
-/

------------------------------------------------------------
-- Taking Parts
------------------------------------------------------------

namespace RequestRouter

namespace Pattern

variable {E : Regex.Engine}

/-
  How a list of patterns takes a list of parts, with the
  names that it binds on the way. A constraint takes one
  part or more, a wildcard inside the list one nonempty
  part, and a wildcard at the end whatever remains.
-/
inductive Takes :
    List (Pattern E) → List Text →
      List (Text × Text) → Prop where
  | nothing :
      Takes [] [] []
  | literal {text rest parts bindings}
      (hRest : Takes rest parts bindings) :
      Takes (.literal text :: rest) (text :: parts) bindings
  | param {name part rest parts bindings}
      (hPart : part ≠ [])
      (hRest : Takes rest parts bindings) :
      Takes (.param name :: rest) (part :: parts)
        ((name, part) :: bindings)
  | constrained {name constraint span rest parts bindings}
      (hSpan : span ≠ [])
      (hMatch :
        constraint.isMatch (['/'].intercalate span) = true)
      (hRest : Takes rest parts bindings) :
      Takes (.constrained name constraint :: rest)
        (span ++ parts)
        ((name, ['/'].intercalate span) :: bindings)
  | segment {part rest parts bindings}
      (hInside : rest ≠ [])
      (hPart : part ≠ [])
      (hRest : Takes rest parts bindings) :
      Takes (.wildcard :: rest) (part :: parts) bindings
  | remainder (parts : List Text) :
      Takes [.wildcard] parts []

/- Whether patterns take all parts of a path in some way. -/
def Accepts
    (patterns : List (Pattern E))
    (parts : List Text) : Prop :=
  ∃ bindings, Takes patterns parts bindings

/- No pattern takes parts only if there are none. -/
@[simp]
theorem takes_nil_iff
    (parts : List Text)
    (bindings : List (Text × Text)) :
    Takes ([] : List (Pattern E)) parts bindings ↔
      parts = [] ∧ bindings = [] := by
  constructor
  · intro hTakes
    cases hTakes
    exact ⟨rfl, rfl⟩
  · rintro ⟨rfl, rfl⟩
    exact .nothing

/- Without parts there is room for a last wildcard only. -/
@[simp]
theorem takes_no_parts_iff
    (patterns : List (Pattern E))
    (bindings : List (Text × Text)) :
    Takes patterns [] bindings ↔
      (patterns = [] ∨ patterns = [.wildcard]) ∧
        bindings = [] := by
  constructor
  · intro hTakes
    generalize hParts : ([] : List Text) = parts at hTakes
    cases hTakes with
    | nothing => simp
    | literal => simp at hParts
    | param => simp at hParts
    | constrained hSpan =>
        rcases List.append_eq_nil_iff.mp hParts.symm with
          ⟨hEmpty, -⟩
        exact absurd hEmpty hSpan
    | segment => simp at hParts
    | remainder => simp
  · rintro ⟨rfl | rfl, rfl⟩
    · exact .nothing
    · exact .remainder []

/- The names of patterns, in order. -/
def names
    (patterns : List (Pattern E)) : List Text :=
  patterns.filterMap name?

/- Patterns bind their names, however they take a path. -/
theorem map_fst_of_takes
    {patterns : List (Pattern E)}
    {parts : List Text}
    {bindings : List (Text × Text)}
    (hTakes : Takes patterns parts bindings) :
    bindings.map Prod.fst = names patterns := by
  induction hTakes with
  | nothing => rfl
  | literal _ ih => exact ih
  | param _ _ ih => exact congrArg (List.cons _) ih
  | constrained _ _ _ ih => exact congrArg (List.cons _) ih
  | segment _ _ _ ih => exact ih
  | remainder => rfl

end Pattern

end RequestRouter

------------------------------------------------------------
-- Listing the Ways
------------------------------------------------------------

namespace RequestRouter

namespace Pattern

variable {E : Regex.Engine}

/- The ways in which patterns take parts, by what they bind. -/
def takings :
    List (Pattern E) → List Text →
      List (List (Text × Text))
  | [], parts => if parts.isEmpty then [[]] else []
  | pattern :: rest, parts =>
      match pattern, parts with
      | .literal _, [] => []
      | .literal text, part :: parts =>
          if text = part then takings rest parts else []
      | .param _, [] => []
      | .param name, part :: parts =>
          if part.isEmpty then []
          else (takings rest parts).map ((name, part) :: ·)
      | .constrained name constraint, parts =>
          (List.range parts.length).flatMap fun gap =>
            let text :=
              ['/'].intercalate (parts.take (gap + 1))
            if constraint.isMatch text then
              (takings rest (parts.drop (gap + 1))).map
                ((name, text) :: ·)
            else []
      | .wildcard, parts =>
          if rest.isEmpty then [[]]
          else
            match parts with
            | [] => []
            | part :: parts =>
                if part.isEmpty then []
                else takings rest parts

/- A literal takes one part, which equals it. -/
theorem takes_literal_cons_iff
    (text : Text)
    (rest : List (Pattern E))
    (part : Text)
    (parts : List Text)
    (bindings : List (Text × Text)) :
    Takes (.literal text :: rest) (part :: parts) bindings ↔
      text = part ∧ Takes rest parts bindings := by
  constructor
  · intro hTakes
    cases hTakes with
    | literal hRest => exact ⟨rfl, hRest⟩
  · rintro ⟨rfl, hRest⟩
    exact .literal hRest

/- A parameter takes one nonempty part and binds it. -/
theorem takes_param_cons_iff
    (name : Text)
    (rest : List (Pattern E))
    (part : Text)
    (parts : List Text)
    (bindings : List (Text × Text)) :
    Takes (.param name :: rest) (part :: parts) bindings ↔
      part ≠ [] ∧
        ∃ later, Takes rest parts later ∧
          bindings = (name, part) :: later := by
  constructor
  · intro hTakes
    cases hTakes with
    | param hPart hRest => exact ⟨hPart, _, hRest, rfl⟩
  · rintro ⟨hPart, later, hRest, rfl⟩
    exact .param hPart hRest

/-
  A constraint takes the parts up to some place behind the
  first, if it accepts the text between.
-/
theorem takes_constrained_iff
    (name : Text)
    (constraint : Constraint E)
    (rest : List (Pattern E))
    (parts : List Text)
    (bindings : List (Text × Text)) :
    Takes (.constrained name constraint :: rest) parts
        bindings ↔
      ∃ gap < parts.length,
        constraint.isMatch
            (['/'].intercalate (parts.take (gap + 1))) =
          true ∧
        ∃ later, Takes rest (parts.drop (gap + 1)) later ∧
          bindings =
            (name,
              ['/'].intercalate (parts.take (gap + 1))) ::
                later := by
  constructor
  · intro hTakes
    cases hTakes with
    | @constrained _ _ span _ behind later hSpan hMatch
        hRest =>
        have hPositive : 0 < span.length :=
          List.length_pos_iff.mpr hSpan
        have hLength : span.length - 1 + 1 = span.length :=
          Nat.sub_add_cancel hPositive
        refine ⟨span.length - 1, ?_, ?_, later, ?_, ?_⟩
        · rw [List.length_append]
          omega
        · simpa [hLength] using hMatch
        · simpa [hLength] using hRest
        · simp [hLength]
  · rintro ⟨gap, hGap, hMatch, later, hRest, rfl⟩
    have hSpan : parts.take (gap + 1) ≠ [] := by
      intro hEmpty
      have hLength := congrArg List.length hEmpty
      simp at hLength
      simp [hLength] at hGap
    have hTakes :
        Takes (.constrained name constraint :: rest) _ _ :=
      .constrained hSpan hMatch hRest
    rwa [List.take_append_drop] at hTakes

/- A last wildcard takes everything and binds nothing. -/
theorem takes_wildcard_iff
    (parts : List Text)
    (bindings : List (Text × Text)) :
    Takes ([.wildcard] : List (Pattern E)) parts bindings ↔
      bindings = [] := by
  constructor
  · intro hTakes
    cases hTakes with
    | segment hInside => exact absurd rfl hInside
    | remainder => rfl
  · rintro rfl
    exact .remainder parts

/- A wildcard inside a list takes one nonempty part. -/
theorem takes_wildcard_cons_iff
    {rest : List (Pattern E)}
    (hInside : rest ≠ [])
    (part : Text)
    (parts : List Text)
    (bindings : List (Text × Text)) :
    Takes (.wildcard :: rest) (part :: parts) bindings ↔
      part ≠ [] ∧ Takes rest parts bindings := by
  constructor
  · intro hTakes
    cases hTakes with
    | segment _ hPart hRest => exact ⟨hPart, hRest⟩
    | remainder => exact absurd rfl hInside
  · rintro ⟨hPart, hRest⟩
    exact .segment hInside hPart hRest

/- The function lists exactly the ways of the relation. -/
theorem mem_takings_iff
    (patterns : List (Pattern E))
    (parts : List Text)
    (bindings : List (Text × Text)) :
    bindings ∈ takings patterns parts ↔
      Takes patterns parts bindings := by
  induction patterns generalizing parts bindings with
  | nil =>
      cases parts <;> simp [takings]
  | cons pattern rest ih =>
      cases pattern with
      | literal text =>
          cases parts with
          | nil => simp [takings]
          | cons part parts =>
              rw [takes_literal_cons_iff]
              by_cases hText : text = part
              · simp [takings, hText, ih]
              · simp [takings, hText]
      | param name =>
          cases parts with
          | nil => simp [takings]
          | cons part parts =>
              rw [takes_param_cons_iff]
              by_cases hPart : part = []
              · simp [takings, hPart]
              · simp only [takings, List.isEmpty_iff, hPart,
                  if_false, List.mem_map, ih, ne_eq,
                  not_false_eq_true, true_and]
                constructor
                · rintro ⟨later, hLater, rfl⟩
                  exact ⟨later, hLater, rfl⟩
                · rintro ⟨later, hLater, rfl⟩
                  exact ⟨later, hLater, rfl⟩
      | constrained name constraint =>
          rw [takes_constrained_iff]
          simp only [takings, List.mem_flatMap,
            List.mem_range]
          constructor
          · rintro ⟨gap, hGap, hMember⟩
            split at hMember
            case isTrue hMatch =>
                rcases List.mem_map.mp hMember with
                  ⟨later, hLater, rfl⟩
                exact
                  ⟨gap, hGap, hMatch, later,
                    (ih _ _).mp hLater, rfl⟩
            case isFalse => simp at hMember
          · rintro ⟨gap, hGap, hMatch, later, hRest, rfl⟩
            refine ⟨gap, hGap, ?_⟩
            rw [if_pos hMatch]
            exact List.mem_map.mpr
              ⟨later, (ih _ _).mpr hRest, rfl⟩
      | wildcard =>
          by_cases hInside : rest = []
          · subst hInside
            rw [takes_wildcard_iff]
            simp [takings]
          · cases parts with
            | nil => simp [takings, hInside]
            | cons part parts =>
                rw [takes_wildcard_cons_iff hInside]
                by_cases hPart : part = []
                · simp [takings, hInside, hPart]
                · simp [takings, hInside, hPart, ih]

instance
    (patterns : List (Pattern E))
    (parts : List Text) :
    Decidable (Accepts patterns parts) :=
  decidable_of_iff (takings patterns parts ≠ []) <| by
    rw [← List.length_pos_iff,
      List.length_pos_iff_exists_mem]
    exact exists_congr (mem_takings_iff patterns parts)

end Pattern

end RequestRouter

------------------------------------------------------------
-- Registrations
------------------------------------------------------------

namespace RequestRouter

variable (E : Regex.Engine)
variable {H : Type}

namespace Pattern

/- Whether a path is read as patterns that accept parts. -/
def PathAccepts
    (path : Text)
    (parts : List Text) : Prop :=
  ∃ patterns : List (Pattern E),
    parsePath path = .ok patterns ∧ Accepts patterns parts

instance
    (path : Text)
    (parts : List Text) :
    Decidable (PathAccepts E path parts) :=
  match hRead : parsePath (E := E) path with
  | .ok patterns =>
      decidable_of_iff (Accepts patterns parts) <| by
        simp [PathAccepts, hRead]
  | .error _ =>
      .isFalse <| by
        simp [PathAccepts, hRead]

end Pattern

namespace Registration

/-
  Whether a registration answers a request: it is made for
  the method or for all methods, and one of its variants
  accepts the parts of the path.
-/
def Answers
    (registration : Registration H)
    (method path : Text) : Prop :=
  Method.serves registration.method method = true ∧
    ∃ variant ∈ Path.variants registration.path,
      Pattern.PathAccepts E variant (path.splitOn '/')

instance
    (registration : Registration H)
    (method path : Text) :
    Decidable (registration.Answers E method path) := by
  unfold Answers
  infer_instance

/- The handlers of the registrations that answer, in order. -/
def answering
    (registrations : List (Registration H))
    (method path : Text) : List H :=
  (registrations.filter
    (·.Answers E method path)).map (·.handler)

end Registration

end RequestRouter
