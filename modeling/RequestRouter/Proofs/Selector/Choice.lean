import RequestRouter.Proofs.Selector.Run

/-
  What a selector chooses.

  A selector records routes up to its first lookup. It then
  acts, for good, as the first of its candidates that does
  not refuse the routes, or fails with one error for every
  request. Which of them it is depends on the routes only.

  Key definitions include:
    * `Selection.verdict`
    * `Selection.answerOf`
    * `Registration.isWellFormed`

  Main statements:
    * `Selection.verdict_eq_verdict`
    * `Matcher.isSettledFrom_pending`
    * `Matcher.answers_selector`
-/

------------------------------------------------------------
-- Verdicts
------------------------------------------------------------

namespace RequestRouter

variable {E : Regex.Engine}
variable {H : Type}

namespace Selection

variable (E)

/-
  The path that the last candidate does not support, or the
  requested one if there is no candidate.
-/
def lastRejected
    (routes : List (Registration H))
    (method path : Text)
    (candidates : List Strategy) : Text :=
  (candidates.getLast?.bind fun candidate =>
    (candidate.reply E routes method path).rejected?).getD
      path

/-
  The first candidate that does not refuse the routes as
  unsupported, if it answers; or what goes wrong for good.
-/
def verdict
    (routes : List (Registration H))
    (method path : Text)
    (candidates : List Strategy) :
    Except RouteError Strategy :=
  match candidates.find?
      (Strategy.supports E routes method path) with
  | some candidate =>
      (candidate.reply E routes method path).map fun _ =>
        candidate
  | none =>
      .error
        (.noStrategy
          (lastRejected E routes method path candidates))

/-
  What is answered to a call once the verdict is known: the
  chosen strategy replies, and no more routes are taken.
-/
def answerOf
    (routes : List (Registration H))
    (verdict : Except RouteError Strategy) :
    Call H → Answer H
  | .add _ => .added (.error .alreadyBuilt)
  | .lookup method path =>
      .found
        (verdict.bind fun strategy =>
          strategy.reply E routes method path)

end Selection

end RequestRouter

------------------------------------------------------------
-- Choosing
------------------------------------------------------------

namespace RequestRouter

variable {E : Regex.Engine}
variable {H : Type}

namespace Selection

/- The trial of a plain strategy is its first lookup. -/
theorem value_attempt
    (routes : List (Registration H))
    (method path : Text)
    (strategy : Strategy) :
    (attempt (E := E) routes method path
        (.plain strategy)).value =
      (strategy.load E routes).bind fun matcher =>
        (matcher.lookup method path).value.1.map
          (·, (matcher.lookup method path).value.2) := by
  rw [attempt, Traced.value_bind]
  cases hLoad : strategy.load E routes with
  | error error =>
      rw [Strategy.load_eq] at hLoad
      rw [hLoad]
      rfl
  | ok matcher =>
      have hOf := Strategy.isOf_of_load hLoad
      rw [Strategy.load_eq] at hLoad
      rw [hLoad]
      cases matcher with
      | compiled | trie | linear | static => rfl
      | pending | chosen | failed => exact hOf.elim

/- What a trial answers is the reply of the strategy. -/
theorem map_fst_attempt
    (routes : List (Registration H))
    (method path : Text)
    (strategy : Strategy) :
    (attempt (E := E) routes method path
        (.plain strategy)).value.map Prod.fst =
      strategy.reply E routes method path := by
  rw [value_attempt, Strategy.reply]
  cases strategy.load E routes with
  | error error => rfl
  | ok matcher =>
      cases hLookup :
          (matcher.lookup method path).value.1 <;>
        simp [Except.bind, Except.map, hLookup]

/- Only a candidate that rejects a path leads on to others. -/
theorem value_choose_cons
    (routes : List (Registration H))
    (method path rejected : Text)
    (candidate : Strategy)
    (others : List Blueprint) :
    (choose (E := E) routes method path rejected
        (.plain candidate :: others)).value =
      match
        (candidate.reply E routes method path).rejected?
      with
      | some unsupported =>
          (choose routes method path unsupported others).value
      | none =>
          (attempt routes method path
            (.plain candidate)).value := by
  rw [choose, Traced.value_bind, ← map_fst_attempt]
  cases
      (attempt (E := E) routes method path
        (.plain candidate)).value with
  | ok trial => rfl
  | error error => cases error <;> rfl

/- If all candidates reject a path, the last one does. -/
theorem exists_last_rejected
    {routes : List (Registration H)}
    {method path : Text}
    {candidates : List Strategy}
    (hNone :
      candidates.find?
        (Strategy.supports E routes method path) = none)
    (hSome : candidates ≠ []) :
    ∃ last rejected, candidates.getLast? = some last ∧
      (last.reply E routes method path).rejected? =
        some rejected := by
  have hLast :=
    List.find?_eq_none.mp hNone _ (List.getLast_mem hSome)
  rw [Strategy.supports, Option.isNone_iff_eq_none] at hLast
  rcases Option.ne_none_iff_exists'.mp hLast with
    ⟨rejected, hRejected⟩
  exact
    ⟨_, rejected, List.getLast?_eq_some_getLast hSome,
      hRejected⟩

/-
  Candidates are tried up to the first that does not refuse
  the routes. If there is none, the last refusal counts.
-/
theorem value_choose
    (routes : List (Registration H))
    (method path rejected : Text)
    (candidates : List Strategy) :
    (choose (E := E) routes method path rejected
        (candidates.map .plain)).value =
      match candidates.find?
          (Strategy.supports E routes method path) with
      | some candidate =>
          (attempt routes method path
            (.plain candidate)).value
      | none =>
          .error
            (.noStrategy
              ((candidates.getLast?.bind fun candidate =>
                (candidate.reply E routes method
                  path).rejected?).getD rejected)) := by
  induction candidates generalizing rejected with
  | nil =>
      rw [List.map_nil, choose, Traced.value_bind]
      rfl
  | cons candidate rest ih =>
      rw [List.map_cons, value_choose_cons]
      cases hReply :
          (candidate.reply E routes method
            path).rejected? with
      | none =>
          rw [List.find?_cons_of_pos
            (by simp [Strategy.supports, hReply])]
      | some unsupported =>
          rw [List.find?_cons_of_neg
            (by simp [Strategy.supports, hReply])]
          refine (ih unsupported).trans ?_
          split
          case h_1 => rfl
          case h_2 hNone =>
              congr 2
              cases rest with
              | nil => simp [hReply]
              | cons second more =>
                  rw [List.getLast?_cons_cons]
                  rcases
                      exists_last_rejected hNone
                        (List.cons_ne_nil second more) with
                    ⟨last, _, hLast, hRejected⟩
                  simp [hLast, hRejected]

/- The verdict depends on the routes, not on the request. -/
theorem verdict_eq_verdict
    (routes : List (Registration H))
    (method path other target : Text)
    (candidate : Strategy)
    (candidates : List Strategy) :
    verdict E routes method path (candidate :: candidates) =
      verdict E routes other target
        (candidate :: candidates) := by
  have hSame : ∀ strategy : Strategy,
      (strategy.reply E routes method path).rejected? =
        (strategy.reply E routes other target).rejected? :=
    fun strategy =>
      strategy.rejected?_reply routes method path other target
  have hSupports :
      Strategy.supports E routes method path =
        Strategy.supports E routes other target := by
    funext strategy
    rw [Strategy.supports, hSame, Strategy.supports]
  unfold verdict lastRejected
  simp only [hSame, hSupports]
  cases hFind :
      (candidate :: candidates).find?
        (Strategy.supports E routes other target) with
  | some chosen =>
      dsimp only
      cases hReply :
          chosen.reply E routes method path with
      | error error =>
          rw [Strategy.reply_eq_error hReply other target]
      | ok found =>
          cases hOther :
              chosen.reply E routes other target with
          | ok _ => rfl
          | error error =>
              rw [Strategy.reply_eq_error hOther method path]
                at hReply
              cases hReply
  | none =>
      have hLast :=
        List.find?_eq_none.mp hFind _
          (List.getLast_mem
            (List.cons_ne_nil candidate candidates))
      rw [List.getLast?_eq_some_getLast
        (List.cons_ne_nil candidate candidates)]
      rw [Strategy.supports, Option.isNone_iff_eq_none]
        at hLast
      rcases Option.ne_none_iff_exists'.mp hLast with
        ⟨last, hLast⟩
      simp [hLast]

end Selection

namespace Matcher

/- A selector answers its first lookup by its verdict. -/
theorem lookup_pending
    (candidates : List Strategy)
    (routes : List (Registration H))
    (method path : Text) :
    ((Matcher.pending (candidates.map .plain) routes :
        Matcher E H).lookup method path).value =
      Selection.conclude
        (match candidates.find?
            (Strategy.supports E routes method path) with
        | some candidate =>
            (Selection.attempt routes method path
              (.plain candidate)).value
        | none =>
            .error
              (.noStrategy
                (Selection.lastRejected E routes method path
                  candidates))) := by
  rw [lookup, Traced.value_bind, Selection.value_choose]
  rfl

/- The first answer of a selector is that of its verdict. -/
theorem reply_pending
    (candidates : List Strategy)
    (routes : List (Registration H))
    (method path : Text) :
    ((Matcher.pending (candidates.map .plain) routes :
        Matcher E H).lookup method path).value.1 =
      (Selection.verdict E routes method path
        candidates).bind fun strategy =>
          strategy.reply E routes method path := by
  rw [lookup_pending, Selection.verdict]
  split
  case h_2 => rfl
  case h_1 chosen hChosen =>
      have hReply :=
        Selection.map_fst_attempt (E := E) routes method path
          chosen
      rw [← hReply]
      cases hTrial : (Selection.attempt (E := E) routes method
          path (.plain chosen)).value with
      | error error => rfl
      | ok trial =>
          rw [hTrial] at hReply
          simp [Selection.conclude, Except.map, Except.bind,
            ← hReply]

/- A selector without a verdict fails for good. -/
theorem lookup_pending_of_error
    {candidates : List Strategy}
    {routes : List (Registration H)}
    {method path : Text}
    {error : RouteError}
    (hVerdict :
      Selection.verdict E routes method path candidates =
        .error error) :
    ((Matcher.pending (candidates.map .plain) routes :
        Matcher E H).lookup method path).value =
      (.error error, .failed error) := by
  rw [lookup_pending]
  unfold Selection.verdict at hVerdict
  split at hVerdict
  case h_2 =>
      cases hVerdict
      rfl
  case h_1 chosen hChosen =>
      have hReply :=
        Selection.map_fst_attempt (E := E) routes method path
          chosen
      cases hTrial : (Selection.attempt (E := E) routes method
          path (.plain chosen)).value with
      | error own =>
          rw [← hReply, hTrial] at hVerdict
          cases hVerdict
          rfl
      | ok trial =>
          rw [← hReply, hTrial] at hVerdict
          cases hVerdict

/- A selector with a verdict keeps the matcher it tried. -/
theorem lookup_pending_of_ok
    {candidates : List Strategy}
    {routes : List (Registration H)}
    {method path : Text}
    {strategy : Strategy}
    (hVerdict :
      Selection.verdict E routes method path candidates =
        .ok strategy) :
    ∃ matcher found,
      strategy.load E routes = .ok matcher ∧
        (matcher.lookup method path).value.1 = .ok found ∧
        ((Matcher.pending (candidates.map .plain) routes :
            Matcher E H).lookup method path).value =
          (.ok found,
            .chosen
              (matcher.lookup method path).value.2) := by
  rw [lookup_pending]
  unfold Selection.verdict at hVerdict
  split at hVerdict
  case h_2 => cases hVerdict
  case h_1 chosen hChosen =>
      cases hLoad : chosen.load E routes with
      | error error =>
          simp [Strategy.reply, hLoad, Except.map] at hVerdict
      | ok matcher =>
          cases hFound :
              (matcher.lookup method path).value.1 with
          | error error =>
              simp [Strategy.reply, hLoad, hFound,
                Except.map] at hVerdict
          | ok found =>
              simp only [Strategy.reply, hLoad, hFound,
                Except.map, Except.ok.injEq] at hVerdict
              subst hVerdict
              refine ⟨matcher, found, hLoad, hFound, ?_⟩
              rw [Selection.value_attempt, hLoad]
              simp [Except.bind, Except.map, hFound,
                Selection.conclude]

/- A selector settles with its first lookup. -/
theorem isSettledFrom_pending
    (candidate : Strategy)
    (candidates : List Strategy)
    (routes : List (Registration H))
    (method path : Text) :
    IsSettledFrom
      (.pending ((candidate :: candidates).map .plain)
        routes)
      ((Matcher.pending
          ((candidate :: candidates).map .plain) routes :
        Matcher E H).lookup method path).value.2 := by
  cases hVerdict :
      Selection.verdict E routes method path
        (candidate :: candidates) with
  | error error =>
      rw [lookup_pending_of_error hVerdict]
      refine ⟨fun _ => rfl, fun other target => ?_⟩
      rw [Selection.verdict_eq_verdict routes method path
        other target] at hVerdict
      rw [lookup_pending_of_error hVerdict]
      rfl
  | ok strategy =>
      rcases lookup_pending_of_ok hVerdict with
        ⟨matcher, found, hLoad, hFound, hLookup⟩
      rw [hLookup]
      refine ⟨fun _ => rfl, fun other target => ?_⟩
      have hAgain :=
        lookup_again (Strategy.isOf_of_load hLoad) hFound
          other target
      rw [Selection.verdict_eq_verdict routes method path
        other target] at hVerdict
      rw [reply_pending, hVerdict]
      dsimp only
      rw [lookup, Traced.value_bind, hAgain]
      simp [Except.bind, Strategy.reply, hLoad, pure,
        Traced.silent]

end Matcher

end RequestRouter

------------------------------------------------------------
-- Runs of a Selector
------------------------------------------------------------

namespace RequestRouter

variable {E : Regex.Engine}
variable {H : Type}

namespace Registration

/- Whether every variant of a registered path is well formed. -/
def isWellFormed
    (E : Regex.Engine)
    (registration : Registration H) : Bool :=
  (Matcher.checkPath E registration.path).isOk

end Registration

namespace Matcher

/- A path passes if each of its variants can be parsed. -/
theorem checkPath_eq_ok_iff
    (path : Text) :
    checkPath E path = .ok () ↔
      ∀ variant ∈ Path.variants path,
        ∃ patterns : List (Pattern E),
          Pattern.parsePath variant = .ok patterns := by
  unfold checkPath
  induction Path.variants path with
  | nil => simp [pure, Except.pure]
  | cons variant rest ih =>
      rw [List.forM, Sequence.bind_eq_ok_iff]
      simp only [ih, List.forall_mem_cons]
      constructor
      · rintro ⟨_, hFirst, hRest⟩
        rcases (Sequence.bind_eq_ok_iff _ _ _).mp hFirst with
          ⟨patterns, hPatterns, -⟩
        exact ⟨⟨patterns, hPatterns⟩, hRest⟩
      · rintro ⟨⟨patterns, hPatterns⟩, hRest⟩
        refine ⟨(), ?_, hRest⟩
        simp [hPatterns, bind, Except.bind]

/- A registration is well formed if its path passes. -/
theorem isWellFormed_iff
    (registration : Registration H) :
    registration.isWellFormed E = true ↔
      ∀ variant ∈ Path.variants registration.path,
        ∃ patterns : List (Pattern E),
          Pattern.parsePath variant = .ok patterns := by
  rw [← checkPath_eq_ok_iff, Registration.isWellFormed]
  cases checkPath E registration.path <;>
    simp [Except.isOk, Except.toBool]

/- A selector records the routes that are well formed. -/
theorem after_adds
    (candidates : List Blueprint)
    (routes adds : List (Registration H)) :
    (Matcher.pending candidates routes :
        Matcher E H).after (adds.map .add) =
      .pending candidates
        (routes ++
          adds.filter (Registration.isWellFormed E)) := by
  induction adds generalizing routes with
  | nil => simp [after]
  | cons registration rest ih =>
      cases hCheck : checkPath E registration.path with
      | error error =>
          have hBad :
              registration.isWellFormed E = false := by
            simp [Registration.isWellFormed, hCheck,
              Except.isOk, Except.toBool]
          rw [List.filter_cons_of_neg (by simp [hBad])]
          refine Eq.trans ?_ (ih routes)
          simp [after, perform, add, hCheck, Except.map,
            Traced.silent]
      | ok passed =>
          have hGood : registration.isWellFormed E = true := by
            simp [Registration.isWellFormed, hCheck,
              Except.isOk, Except.toBool]
          rw [List.filter_cons_of_pos hGood]
          refine Eq.trans ?_
            ((ih (routes ++ [registration])).trans (by simp))
          simp [after, perform, add, hCheck, Except.map,
            Traced.silent]

/- It answers to each of them what its path says. -/
theorem answers_adds
    (candidates : List Blueprint)
    (routes adds : List (Registration H)) :
    (Matcher.pending candidates routes :
        Matcher E H).answers (adds.map .add) =
      adds.map fun registration =>
        .added (checkPath E registration.path) := by
  induction adds generalizing routes with
  | nil => rfl
  | cons registration rest ih =>
      cases hCheck : checkPath E registration.path <;>
        simp [answers, perform, add, hCheck, Except.map,
          Traced.silent, ih]

/-
  From a first lookup on, a selector with routes answers as
  the verdict of this lookup says.
-/
theorem answers_pending
    (candidate : Strategy)
    (candidates : List Strategy)
    (routes : List (Registration H))
    (method path : Text)
    (later : List (Call H)) :
    (Matcher.pending ((candidate :: candidates).map .plain)
        routes : Matcher E H).answers
        (.lookup method path :: later) =
      (.lookup method path :: later).map
        (Selection.answerOf E routes
          (Selection.verdict E routes method path
            (candidate :: candidates))) := by
  have hReply : ∀ other target,
      ((Matcher.pending
          ((candidate :: candidates).map .plain) routes :
            Matcher E H).lookup other target).value.1 =
        (Selection.verdict E routes method path
          (candidate :: candidates)).bind fun strategy =>
            strategy.reply E routes other target := by
    intro other target
    rw [reply_pending,
      Selection.verdict_eq_verdict routes other target
        method path]
  have hSettled :=
    isSettledFrom_pending (E := E) candidate candidates
      routes method path
  rw [answers, List.map_cons]
  congr 1
  · exact congrArg Answer.found (hReply method path)
  · refine (hSettled.answers_eq later).trans ?_
    refine List.map_congr_left fun call _ => ?_
    cases call with
    | add registration => rfl
    | lookup other target =>
        exact congrArg Answer.found (hReply other target)

/- Behind its first lookup it has the verdict's strategy. -/
theorem active?_lookup_pending
    (candidates : List Strategy)
    (routes : List (Registration H))
    (method path : Text) :
    ((Matcher.pending (candidates.map .plain) routes :
        Matcher E H).lookup method path).value.2.active? =
      (Selection.verdict E routes method path
        candidates).toOption.map Strategy.name := by
  cases hVerdict :
      Selection.verdict E routes method path candidates with
  | error error =>
      rw [lookup_pending_of_error hVerdict]
      rfl
  | ok strategy =>
      rcases lookup_pending_of_ok hVerdict with
        ⟨matcher, found, hLoad, -, hLookup⟩
      rw [hLookup]
      have hName :=
        name_eq
          (isOf_lookup (Strategy.isOf_of_load hLoad) method
            path)
      exact congrArg some hName

/-
  A selector over plain strategies answers every run as the
  first candidate that does not refuse the routes.

  Before the first lookup it takes just the routes whose
  variants can all be parsed. With these routes, the first
  lookup finds a verdict: a strategy, which then replies to
  this and every later request as a fresh matcher with the
  routes would, or an error, which is then the answer to all
  requests. Routes are no longer taken.
-/
theorem answers_selector
    (candidate : Strategy)
    (candidates : List Strategy)
    (adds : List (Registration H))
    (method path : Text)
    (later : List (Call H)) :
    let strategies := candidate :: candidates
    let selector : Matcher E H :=
      (Blueprint.selector (strategies.map .plain)).fresh
    let routes := adds.filter (Registration.isWellFormed E)
    let verdict :=
      Selection.verdict E routes method path strategies
    (∀ registration : Registration H,
      registration.isWellFormed E = true ↔
        ∀ variant ∈ Path.variants registration.path,
          ∃ patterns : List (Pattern E),
            Pattern.parsePath variant = .ok patterns) ∧
      selector.answers (adds.map .add) =
        (adds.map fun registration =>
          .added (checkPath E registration.path)) ∧
      (selector.after (adds.map .add)).active? = none ∧
      selector.answers
          (adds.map .add ++ .lookup method path :: later) =
        (adds.map fun registration =>
          .added (checkPath E registration.path)) ++
          (.lookup method path :: later).map
            (Selection.answerOf E routes verdict) ∧
      (selector.after
          (adds.map .add ++
            .lookup method path :: later)).active? =
        verdict.toOption.map Strategy.name := by
  intro strategies selector routes verdict
  have hFresh :
      selector =
        .pending (strategies.map .plain) [] := rfl
  have hRoutes :
      selector.after (adds.map .add) =
        .pending (strategies.map .plain) routes := by
    rw [hFresh, after_adds, List.nil_append]
  refine ⟨isWellFormed_iff, ?_, ?_, ?_, ?_⟩
  · rw [hFresh, answers_adds]
  · rw [hRoutes]
    rfl
  · rw [answers_append, hRoutes, hFresh, answers_adds,
      answers_pending]
  · have hSettled :=
      isSettledFrom_pending (E := E) candidate candidates
        routes method path
    have hAfter := hSettled.after_eq later
    rw [after_append, hRoutes]
    refine (congrArg active? hAfter).trans ?_
    exact active?_lookup_pending strategies routes method path

/- A route with a parameter, which a literal table refuses. -/
def withParam : Registration Nat :=
  ⟨['G'], ['/', ':', 'x'], 1⟩

/-
  The literal table refuses the route, so that the trie is
  chosen: it answers all requests, and takes no more routes.
-/
theorem answers_selector_passed_over :
    let selector : Matcher Regex.treeEngine Nat :=
      (Blueprint.selector
        ([Strategy.static, .trie].map .plain)).fresh
    let calls : List (Call Nat) :=
      [.add withParam, .lookup ['G'] ['/', 'a'],
        .add withParam, .lookup ['G'] ['/']]
    (Strategy.static.reply Regex.treeEngine [withParam] ['G']
        ['/', 'a']).rejected? = some ['/', ':', 'x'] ∧
      selector.answers calls =
        [.added (.ok ()),
          .found (.ok (some ⟨[1], ⟨[(['x'], ['a'])]⟩⟩)),
          .added (.error .alreadyBuilt),
          .found (.ok none)] ∧
      (selector.after calls).active? = some "trie" := by
  intro selector calls
  rcases
      answers_selector (E := Regex.treeEngine) .static
        [.trie] [withParam] ['G'] ['/', 'a']
        [.add withParam, .lookup ['G'] ['/']] with
    ⟨-, -, -, hAnswers, hActive⟩
  refine
    ⟨by decide +kernel, hAnswers.trans rfl, hActive.trans ?_⟩
  decide +kernel

end Matcher

end RequestRouter
