import RequestRouter.Proofs.Router.Run
import RequestRouter.Proofs.Selector.History

/-
  What serves a router.

  A first lookup makes a router settle for a strategy, or
  shows that it cannot be served. Which of both it is, and
  for which strategy or with which error, depends on the
  routes only: every other first request tells the same.

  Key definitions include:
    * `Matcher.service`
    * `Router.service`

  Main statements:
    * `Matcher.service_eq_service`
    * `Router.service_eq_service`
-/

------------------------------------------------------------
-- Matchers
------------------------------------------------------------

namespace RequestRouter

variable {E : Regex.Engine}
variable {H : Type}

namespace Matcher

/-
  The strategy that serves a matcher behind a first lookup,
  or the error that the lookup ends with.
-/
def service
    (matcher : Matcher E H)
    (method path : Text) : Except RouteError String :=
  let outcome := (matcher.lookup method path).value
  outcome.1.map fun _ =>
    outcome.2.active?.getD outcome.2.name

/- A plain matcher is served by its own strategy. -/
theorem active?_of_isOf
    {strategy : Strategy}
    {matcher : Matcher E H}
    (hOf : matcher.IsOf strategy) :
    matcher.active? = some strategy.name := by
  rw [← name_eq hOf]
  cases matcher with
  | compiled | trie | linear | static => rfl
  | pending | chosen | failed => exact hOf.elim

/- It fails for every request or for none. -/
theorem service_of_isOf
    {strategy : Strategy}
    {matcher : Matcher E H}
    (hOf : matcher.IsOf strategy)
    (method path other target : Text) :
    matcher.service method path =
      matcher.service other target := by
  have hService : ∀ method path,
      matcher.service method path =
        (matcher.lookup method path).value.1.map fun _ =>
          strategy.name := by
    intro method path
    rw [service, active?_of_isOf (isOf_lookup hOf _ _)]
    rfl
  rw [hService, hService]
  cases hReply : (matcher.lookup method path).value.1 with
  | error error =>
      rw [lookup_eq_error hOf hReply other target]
  | ok found =>
      cases hOther :
          (matcher.lookup other target).value.1 with
      | ok twin => rfl
      | error error =>
          rw [lookup_eq_error hOf hOther method path]
            at hReply
          cases hReply

/- A selector is served by the strategy of its verdict. -/
theorem service_pending
    (candidates : List Strategy)
    (routes : List (Registration H))
    (method path : Text) :
    (Matcher.pending (candidates.map .plain) routes :
        Matcher E H).service method path =
      (Selection.verdict E routes method path
        candidates).map Strategy.name := by
  rw [service]
  cases hVerdict :
      Selection.verdict E routes method path
        candidates with
  | error error =>
      rw [lookup_pending_of_error hVerdict]
      rfl
  | ok strategy =>
      rcases lookup_pending_of_ok hVerdict with
        ⟨matcher, found, hLoad, -, hLookup⟩
      have hName :=
        name_eq
          (isOf_lookup (Strategy.isOf_of_load hLoad) method
            path)
      rw [hLookup]
      exact congrArg Except.ok hName

/-
  A matcher that has only been given routes is served in
  the same way whatever the first request is.
-/
theorem service_eq_service
    {blueprint : Blueprint}
    (hFlat : blueprint.IsFlat)
    {matcher : Matcher E H}
    (hOpen : blueprint.IsOpen matcher)
    (method path other target : Text) :
    matcher.service method path =
      matcher.service other target := by
  cases hFlat with
  | plain strategy =>
      exact service_of_isOf hOpen.1 method path other target
  | selector candidate candidates =>
      rcases hOpen with ⟨routes, rfl⟩
      rw [service_pending, service_pending,
        Selection.verdict_eq_verdict routes method path other
          target]

end Matcher

end RequestRouter

------------------------------------------------------------
-- Routers
------------------------------------------------------------

namespace RequestRouter

variable {E : Regex.Engine}
variable {H : Type}

namespace Router

/- Whether a router still takes routes. -/
def IsOpen
    (router : Router E H) : Prop :=
  (blueprint router.config).IsFlat ∧
    (blueprint router.config).IsOpen router.matcher

/- Settings name a strategy, or several in a selector. -/
theorem isFlat_blueprint
    {config : RouterConfig}
    (hValid : config.validate = .ok ()) :
    (blueprint config).IsFlat := by
  unfold blueprint
  split
  case h_1 strategy _ => exact .plain strategy
  case h_2 =>
      cases hStrategies : config.strategies with
      | nil =>
          simp [RouterConfig.validate, hStrategies] at hValid
      | cons candidate candidates =>
          exact .selector candidate candidates

/- A fresh router is open. -/
theorem isOpen_of_ofConfig
    {config : RouterConfig}
    {router : Router E H}
    (hRouter : ofConfig config = .ok router) :
    router.IsOpen := by
  have hOwn := eq_of_ofConfig hRouter
  rcases (Sequence.bind_eq_ok_iff _ _ _).mp hRouter with
    ⟨_, hValid, -⟩
  subst hOwn
  exact
    ⟨isFlat_blueprint hValid, Blueprint.isOpen_fresh _⟩

/- A router with one more route is open. -/
theorem isOpen_add
    {router next : Router E H}
    (hOpen : router.IsOpen)
    {registration : Registration H}
    (hAdd : (router.add registration).value = .ok next) :
    next.IsOpen := by
  rw [add, Traced.value_bind] at hAdd
  split at hAdd
  case h_1 => cases hAdd
  case h_2 matcher hOwn =>
      cases hAdd
      exact ⟨hOpen.1, Blueprint.isOpen_add hOpen.2 hOwn⟩

/-
  The strategy that serves a router behind a first lookup,
  or the error that the lookup ends with.
-/
def service
    (router : Router E H)
    (method path : Text) : Except RouteError String :=
  let outcome := (router.lookup method path).value
  outcome.1.map fun _ =>
    outcome.2.strategy?.getD outcome.2.name

/-
  An open router is served in the same way whatever the
  first request is.
-/
theorem service_eq_service
    {router : Router E H}
    (hOpen : router.IsOpen)
    (method path other target : Text) :
    router.service method path =
      router.service other target :=
  Matcher.service_eq_service hOpen.1 hOpen.2 _ _ _ _

end Router

end RequestRouter
