import RequestRouter.Proofs.Compiled.Agreement
import RequestRouter.Proofs.Route.Refusal
import RequestRouter.Selector

/-
  Runs of calls on a matcher.

  A run registers handlers and looks requests up, in any
  order. A matcher settles when it takes no more routes: it
  then stays as it is and answers every request as it would
  have before. What the first request was like does not
  matter.

  Key definitions include:
    * `Call`
    * `Matcher.answers`
    * `Matcher.accepted`
    * `Matcher.Adds`
    * `Strategy.reply`
    * `Matcher.IsSettledFrom`

  Main statements:
    * `Strategy.reply_eq_error`
    * `Matcher.adds_of_add`
    * `Matcher.lookup_of_isOf`
-/

------------------------------------------------------------
-- Calls
------------------------------------------------------------

namespace RequestRouter

variable (E : Regex.Engine)
variable (H : Type)

/- What a matcher is asked to do. -/
inductive Call where
  | add (registration : Registration H)
  | lookup (method path : Text)

/- What a matcher answers to a call. -/
inductive Answer where
  | added (result : Except RouteError Unit)
  | found (reply : Reply H)

variable {E H}

namespace Matcher

/- The answer to one call, and the matcher behind it. -/
def perform
    (matcher : Matcher E H) :
    Call H → Answer H × Matcher E H
  | .add registration =>
      match (matcher.add registration).value with
      | .ok next => (.added (.ok ()), next)
      | .error error => (.added (.error error), matcher)
  | .lookup method path =>
      let outcome := (matcher.lookup method path).value
      (.found outcome.1, outcome.2)

/- The answers to a run of calls. -/
def answers
    (matcher : Matcher E H) :
    List (Call H) → List (Answer H)
  | [] => []
  | call :: rest =>
      (matcher.perform call).1 ::
        (matcher.perform call).2.answers rest

/- The matcher behind a run of calls. -/
def after
    (matcher : Matcher E H)
    (calls : List (Call H)) : Matcher E H :=
  calls.foldl (fun matcher call => (matcher.perform call).2)
    matcher

/- What one call adds to the routes of a matcher. -/
def taken
    (call : Call H)
    (answer : Answer H) : List (Registration H) :=
  match call, answer with
  | .add registration, .added (.ok ()) => [registration]
  | _, _ => []

/- The registrations that a run of calls accepts, in order. -/
def accepted
    (matcher : Matcher E H) :
    List (Call H) → List (Registration H)
  | [] => []
  | call :: rest =>
      taken call (matcher.perform call).1 ++
        (matcher.perform call).2.accepted rest

/- A route is taken, or the matcher stays as it is. -/
theorem perform_add
    (matcher : Matcher E H)
    (registration : Registration H) :
    (∃ next, (matcher.add registration).value = .ok next ∧
        matcher.perform (.add registration) =
          (.added (.ok ()), next)) ∨
      ∃ error,
        matcher.perform (.add registration) =
          (.added (.error error), matcher) := by
  cases hAdd : (matcher.add registration).value with
  | ok next => exact Or.inl ⟨next, rfl, by simp [perform, hAdd]⟩
  | error error => exact Or.inr ⟨error, by simp [perform, hAdd]⟩

/- A run of one call accepts what the call adds. -/
theorem accepted_singleton
    (matcher : Matcher E H)
    (call : Call H) :
    matcher.accepted [call] =
      taken call (matcher.perform call).1 := by
  simp [accepted]

/- Behind a run of one call is behind the call. -/
theorem after_singleton
    (matcher : Matcher E H)
    (call : Call H) :
    matcher.after [call] = (matcher.perform call).2 :=
  rfl

/- Behind two runs is behind the second one. -/
theorem after_append
    (matcher : Matcher E H)
    (calls more : List (Call H)) :
    matcher.after (calls ++ more) =
      (matcher.after calls).after more :=
  List.foldl_append

/- The answers of two runs stand in a row. -/
theorem answers_append
    (matcher : Matcher E H)
    (calls more : List (Call H)) :
    matcher.answers (calls ++ more) =
      matcher.answers calls ++
        (matcher.after calls).answers more := by
  induction calls generalizing matcher with
  | nil => rfl
  | cons call rest ih =>
      simp only [List.cons_append, answers]
      rw [ih]
      rfl

/- What two runs accept stands in a row. -/
theorem accepted_append
    (matcher : Matcher E H)
    (calls more : List (Call H)) :
    matcher.accepted (calls ++ more) =
      matcher.accepted calls ++
        (matcher.after calls).accepted more := by
  induction calls generalizing matcher with
  | nil => rfl
  | cons call rest ih =>
      simp only [List.cons_append, accepted]
      rw [ih, List.append_assoc]
      rfl

end Matcher

end RequestRouter

------------------------------------------------------------
-- Settled Matchers
------------------------------------------------------------

namespace RequestRouter

variable {E : Regex.Engine}
variable {H : Type}

namespace Matcher

/-
  Whether a matcher takes no more routes, stays as it is
  and answers all requests as another one does.
-/
structure IsSettledFrom
    (base matcher : Matcher E H) : Prop where
  add_eq (registration : Registration H) :
    (matcher.add registration).value = .error .alreadyBuilt
  lookup_eq (method path : Text) :
    (matcher.lookup method path).value =
      ((base.lookup method path).value.1, matcher)

namespace IsSettledFrom

variable {base matcher : Matcher E H}

/- A call to a settled matcher leaves it as it is. -/
theorem perform_eq
    (hSettled : IsSettledFrom base matcher)
    (call : Call H) :
    matcher.perform call =
      (match call with
        | .add _ => .added (.error .alreadyBuilt)
        | .lookup method path =>
            .found (base.lookup method path).value.1,
        matcher) := by
  cases call with
  | add registration =>
      simp [perform, hSettled.add_eq registration]
  | lookup method path =>
      simp [perform, hSettled.lookup_eq method path]

/- So does every run. -/
theorem after_eq
    (hSettled : IsSettledFrom base matcher)
    (calls : List (Call H)) :
    matcher.after calls = matcher := by
  induction calls with
  | nil => rfl
  | cons call rest ih =>
      simpa [after, hSettled.perform_eq call] using ih

/- A settled matcher answers call by call. -/
theorem answers_eq
    (hSettled : IsSettledFrom base matcher)
    (calls : List (Call H)) :
    matcher.answers calls =
      calls.map fun
        | .add _ => .added (.error .alreadyBuilt)
        | .lookup method path =>
            .found (base.lookup method path).value.1 := by
  induction calls with
  | nil => rfl
  | cons call rest ih =>
      rw [answers, hSettled.perform_eq call, ih]
      rfl

/- A settled matcher accepts nothing. -/
theorem accepted_eq
    (hSettled : IsSettledFrom base matcher)
    (calls : List (Call H)) :
    matcher.accepted calls = [] := by
  induction calls with
  | nil => rfl
  | cons call rest ih =>
      rw [accepted, hSettled.perform_eq call, ih]
      cases call <;> rfl

end IsSettledFrom

end Matcher

end RequestRouter

------------------------------------------------------------
-- Plain Matchers
------------------------------------------------------------

namespace RequestRouter

variable {E : Regex.Engine}
variable {H : Type}

namespace Matcher

/-
  How a matcher takes a registration: the plain matcher that
  it is takes it, and a selector without a choice records
  it. Nothing else takes one.
-/
inductive Adds
    (registration : Registration H) :
    Matcher E H → Matcher E H → Prop where
  | compiled {own after : Compiled E H}
      (hOwn : own.add registration = .ok after) :
      Adds registration (.compiled own) (.compiled after)
  | trie {own after : Trie E H}
      (hOwn : own.add registration = .ok after) :
      Adds registration (.trie own) (.trie after)
  | linear {own after : LinearScan E H}
      (hOwn : own.add registration = .ok after) :
      Adds registration (.linear own) (.linear after)
  | static {own after : LiteralTable H}
      (hOwn : own.add E registration = .ok after) :
      Adds registration (.static own) (.static after)
  | pending {candidates routes}
      (hPath : checkPath E registration.path = .ok ()) :
      Adds registration (.pending candidates routes)
        (.pending candidates (routes ++ [registration]))

/- A registration that succeeds is taken in such a way. -/
theorem adds_of_add
    {matcher next : Matcher E H}
    {registration : Registration H}
    (hAdd : (matcher.add registration).value = .ok next) :
    Adds registration matcher next := by
  cases matcher with
  | chosen | failed => cases hAdd
  | compiled own =>
      rcases (Sequence.map_eq_ok_iff _ _ _).mp hAdd with
        ⟨after, hOwn, rfl⟩
      exact .compiled hOwn
  | trie own =>
      rcases (Sequence.map_eq_ok_iff _ _ _).mp hAdd with
        ⟨after, hOwn, rfl⟩
      exact .trie hOwn
  | static own =>
      rcases (Sequence.map_eq_ok_iff _ _ _).mp hAdd with
        ⟨after, hOwn, rfl⟩
      exact .static hOwn
  | pending candidates routes =>
      rcases (Sequence.map_eq_ok_iff _ _ _).mp hAdd with
        ⟨_, hPath, rfl⟩
      exact .pending hPath
  | linear own =>
      cases hOwn : own.add registration with
      | error fault =>
          rw [add, hOwn] at hAdd
          cases hAdd
      | ok after =>
          rw [add, hOwn] at hAdd
          cases hAdd
          exact .linear hOwn

/- Registering in a row is adding one by one. -/
theorem value_addAll
    (matcher : Matcher E H)
    (routes : List (Registration H)) :
    (matcher.addAll routes).value =
      routes.foldlM
        (fun matcher registration =>
          (matcher.add registration).value)
        matcher := by
  induction routes generalizing matcher with
  | nil => rfl
  | cons registration rest ih =>
      rw [addAll, Traced.value_bind, List.foldlM_cons]
      cases (matcher.add registration).value with
      | error error => rfl
      | ok next => exact ih next

/- Whether a matcher is one of a plain strategy. -/
def IsOf
    (strategy : Strategy) : Matcher E H → Prop
  | .compiled _ => strategy = .compiled
  | .trie _ => strategy = .trie
  | .linear _ => strategy = .linear
  | .static _ => strategy = .static
  | .pending _ _ | .chosen _ | .failed _ => False

variable {strategy : Strategy}

/- A fresh matcher of a strategy is one of it. -/
theorem isOf_fresh
    (strategy : Strategy) :
    ((Blueprint.plain strategy).fresh :
      Matcher E H).IsOf strategy := by
  cases strategy <;> rfl

/- Registering does not change the strategy. -/
theorem isOf_add
    {matcher next : Matcher E H}
    (hOf : matcher.IsOf strategy)
    {registration : Registration H}
    (hAdd : (matcher.add registration).value = .ok next) :
    next.IsOf strategy := by
  cases adds_of_add hAdd with
  | pending => exact hOf.elim
  | compiled | trie | linear | static => exact hOf

/- Nor does registering in a row. -/
theorem isOf_addAll
    {routes : List (Registration H)}
    {matcher next : Matcher E H}
    (hOf : matcher.IsOf strategy)
    (hAdds : (matcher.addAll routes).value = .ok next) :
    next.IsOf strategy := by
  induction routes generalizing matcher with
  | nil =>
      cases hAdds
      exact hOf
  | cons registration rest ih =>
      rw [addAll, Traced.value_bind] at hAdds
      cases hFirst : (matcher.add registration).value with
      | error error =>
          rw [hFirst] at hAdds
          cases hAdds
      | ok middle =>
          rw [hFirst] at hAdds
          exact ih (isOf_add hOf hFirst) hAdds

/- Nor does a lookup. -/
theorem isOf_lookup
    {matcher : Matcher E H}
    (hOf : matcher.IsOf strategy)
    (method path : Text) :
    (matcher.lookup method path).value.2.IsOf strategy := by
  cases matcher with
  | compiled | trie | linear | static => exact hOf
  | pending | chosen | failed => exact hOf.elim

/- A matcher of a strategy has its name. -/
theorem name_eq
    {matcher : Matcher E H}
    (hOf : matcher.IsOf strategy) :
    matcher.name = strategy.name := by
  cases matcher with
  | compiled | trie | linear | static =>
      rw [IsOf] at hOf
      subst hOf
      rfl
  | pending | chosen | failed => exact hOf.elim

/-
  A lookup of a plain matcher leaves it as it is, or with
  an answer for every request and settled.
-/
theorem lookup_of_isOf
    {matcher : Matcher E H}
    (hOf : matcher.IsOf strategy)
    (method path : Text) :
    (matcher.lookup method path).value.2 = matcher ∨
      IsSettledFrom matcher
        (matcher.lookup method path).value.2 := by
  cases matcher with
  | trie | linear | static => exact Or.inl rfl
  | pending | chosen | failed => exact hOf.elim
  | compiled matcher =>
      cases hPrograms : matcher.programs.value with
      | error error =>
          left
          simp [lookup, Compiled.value_lookup, hPrograms,
            pure, Traced.silent]
      | ok programs =>
          right
          have hAfter :
              ((Matcher.compiled matcher).lookup method
                path).value.2 =
              .compiled
                { matcher with built := some programs } := by
            simp [lookup, Compiled.value_lookup, hPrograms,
              pure, Traced.silent]
          rw [hAfter]
          have hBuilt :
              ({ matcher with built := some programs } :
                Compiled E H).programs.value =
                .ok programs := rfl
          refine ⟨fun registration => ?_, ?_⟩
          · simp [add, Compiled.add, Traced.silent,
              Except.map]
          · intro method path
            simp [lookup, Compiled.value_lookup, hBuilt,
              hPrograms, pure, Traced.silent]

/- A plain matcher fails for every request or for none. -/
theorem lookup_eq_error
    {matcher : Matcher E H}
    (hOf : matcher.IsOf strategy)
    {method path : Text}
    {error : RouteError}
    (hLookup :
      (matcher.lookup method path).value.1 = .error error)
    (other target : Text) :
    (matcher.lookup other target).value.1 =
      .error error := by
  cases matcher with
  | trie | linear | static => cases hLookup
  | pending | chosen | failed => exact hOf.elim
  | compiled matcher =>
      cases hPrograms : matcher.programs.value <;>
        simp_all [lookup, Compiled.value_lookup, pure,
          Traced.silent]

/-
  Behind a lookup that does not fail, a plain matcher stays
  as it is and answers as before.
-/
theorem lookup_again
    {matcher : Matcher E H}
    (hOf : matcher.IsOf strategy)
    {method path : Text}
    {found : Option (Match H)}
    (hLookup :
      (matcher.lookup method path).value.1 = .ok found)
    (other target : Text) :
    ((matcher.lookup method path).value.2.lookup other
        target).value =
      ((matcher.lookup other target).value.1,
        (matcher.lookup method path).value.2) := by
  cases matcher with
  | trie | linear | static => rfl
  | pending | chosen | failed => exact hOf.elim
  | compiled matcher =>
      rcases lookup_of_isOf hOf method path with
        hSame | hSettled
      · cases hPrograms : matcher.programs.value with
        | error error =>
            simp [lookup, Compiled.value_lookup, hPrograms,
              pure, Traced.silent] at hLookup
        | ok programs =>
            simp_all [lookup, Compiled.value_lookup, pure,
              Traced.silent]
      · exact hSettled.lookup_eq other target

end Matcher

end RequestRouter

------------------------------------------------------------
-- Replies of Strategies
------------------------------------------------------------

namespace RequestRouter

variable {H : Type}

/- The path that a reply says is not supported, if any. -/
def Reply.rejected? : Reply H → Option Text
  | .error (.unsupportedPath path) => some path
  | _ => none

namespace Strategy

variable (E : Regex.Engine)

/-
  A fresh matcher of a strategy to which routes are added in
  order, up to a first failure.
-/
def load
    (routes : List (Registration H))
    (strategy : Strategy) :
    Except RouteError (Matcher E H) :=
  routes.foldlM
    (fun matcher registration =>
      (matcher.add registration).value)
    (Blueprint.plain strategy).fresh

/-
  What a fresh matcher of a strategy answers that is given
  routes and then a request.
-/
def reply
    (routes : List (Registration H))
    (method path : Text)
    (strategy : Strategy) : Reply H :=
  match strategy.load E routes with
  | .error error => .error error
  | .ok matcher => (matcher.lookup method path).value.1

/- Whether a strategy does not refuse routes. -/
def supports
    (routes : List (Registration H))
    (method path : Text)
    (strategy : Strategy) : Bool :=
  (strategy.reply E routes method path).rejected?.isNone

variable {E}

/- This is what a selector gives the routes to. -/
theorem load_eq
    (routes : List (Registration H))
    (strategy : Strategy) :
    strategy.load E routes =
      ((Blueprint.plain strategy).fresh.addAll
        routes).value :=
  (Matcher.value_addAll _ _).symm

/- What a strategy has loaded is a matcher of it. -/
theorem isOf_of_load
    {strategy : Strategy}
    {routes : List (Registration H)}
    {matcher : Matcher E H}
    (hLoad : strategy.load E routes = .ok matcher) :
    matcher.IsOf strategy := by
  rw [load_eq] at hLoad
  exact Matcher.isOf_addAll (Matcher.isOf_fresh strategy) hLoad

/- A strategy that fails for a request fails for every one. -/
theorem reply_eq_error
    {strategy : Strategy}
    {routes : List (Registration H)}
    {method path : Text}
    {error : RouteError}
    (hReply :
      strategy.reply E routes method path = .error error)
    (other target : Text) :
    strategy.reply E routes other target =
      .error error := by
  unfold reply at hReply ⊢
  split at hReply
  case h_1 => exact hReply
  case h_2 matcher hLoad =>
      exact
        Matcher.lookup_eq_error (isOf_of_load hLoad)
          hReply other target

/- A strategy refuses routes whatever the request is. -/
theorem rejected?_reply
    (strategy : Strategy)
    (routes : List (Registration H))
    (method path other target : Text) :
    (strategy.reply E routes method path).rejected? =
      (strategy.reply E routes other target).rejected? := by
  cases hReply : strategy.reply E routes method path with
  | error error =>
      rw [reply_eq_error hReply other target]
  | ok found =>
      cases hOther :
          strategy.reply E routes other target with
      | ok _ => rfl
      | error error =>
          rw [reply_eq_error hOther method path] at hReply
          cases hReply

end Strategy

end RequestRouter
