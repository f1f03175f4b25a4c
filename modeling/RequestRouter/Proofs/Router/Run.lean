import RequestRouter.Proofs.Selector.WellFormed
import RequestRouter.Proofs.Regex.Ways
import RequestRouter.Router

/-
  Runs of calls on a router.

  A router passes every call on to its matcher, with methods
  and paths in the form that its settings ask for. A run of
  calls on a router is a run on its matcher.

  Key definitions include:
    * `Router.passed`
    * `Router.after`
    * `Router.accepted`

  Main statements:
    * `Router.matcher_after`
    * `Router.map_registered_accepted`
    * `Match.isWellFormed_of_found`
-/

------------------------------------------------------------
-- Passing Calls On
------------------------------------------------------------

namespace RequestRouter

variable {E : Regex.Engine}
variable {H : Type}

namespace Router

/- The registration that a router passes on. -/
def registered
    (config : RouterConfig)
    (registration : Registration H) : Registration H :=
  ⟨Method.canonical registration.method,
    routePath config registration.path,
    registration.handler⟩

/- The call that a router passes on. -/
def passed
    (config : RouterConfig) : Call H → Call H
  | .add registration => .add (registered config registration)
  | .lookup method path =>
      .lookup (Method.canonical method)
        (requestPath config path)

/- The answer to one call, and the router behind it. -/
def perform
    (router : Router E H) :
    Call H → Answer H × Router E H
  | .add registration =>
      match (router.add registration).value with
      | .ok next => (.added (.ok ()), next)
      | .error error => (.added (.error error), router)
  | .lookup method path =>
      let outcome := (router.lookup method path).value
      (.found outcome.1, outcome.2)

/- The router behind a run of calls. -/
def after
    (router : Router E H)
    (calls : List (Call H)) : Router E H :=
  calls.foldl (fun router call => (router.perform call).2)
    router

/- The registrations that a run of calls accepts, in order. -/
def accepted
    (router : Router E H) :
    List (Call H) → List (Registration H)
  | [] => []
  | call :: rest =>
      Matcher.taken call (router.perform call).1 ++
        (router.perform call).2.accepted rest

/- A router answers as its matcher does to what is passed. -/
theorem perform_eq
    (router : Router E H)
    (call : Call H) :
    router.perform call =
      ((router.matcher.perform
          (passed router.config call)).1,
        ⟨router.config,
          (router.matcher.perform
            (passed router.config call)).2⟩) := by
  cases call with
  | lookup method path => rfl
  | add registration =>
      rw [perform, add, Traced.value_bind, passed,
        Matcher.perform, registered]
      cases (router.matcher.add
          ⟨Method.canonical registration.method,
            routePath router.config registration.path,
            registration.handler⟩).value <;> rfl

/- A route is taken in the form in which it is passed on. -/
theorem taken_passed
    (config : RouterConfig)
    (call : Call H)
    (answer : Answer H) :
    Matcher.taken (passed config call) answer =
      (Matcher.taken call answer).map
        (registered config) := by
  cases call with
  | lookup => rfl
  | add registration =>
      cases answer with
      | found => rfl
      | added result => cases result <;> rfl

/- Behind a run, the matcher is behind the run passed on. -/
theorem matcher_after
    (router : Router E H)
    (calls : List (Call H)) :
    router.after calls =
      ⟨router.config,
        router.matcher.after
          (calls.map (passed router.config))⟩ := by
  induction calls generalizing router with
  | nil => rfl
  | cons call rest ih =>
      refine (ih (router.perform call).2).trans ?_
      rw [perform_eq]
      rfl

/- What a router accepts, its matcher accepts as passed on. -/
theorem map_registered_accepted
    (router : Router E H)
    (calls : List (Call H)) :
    (router.accepted calls).map (registered router.config) =
      router.matcher.accepted
        (calls.map (passed router.config)) := by
  induction calls generalizing router with
  | nil => rfl
  | cons call rest ih =>
      have hRest := ih (router.perform call).2
      rw [perform_eq] at hRest
      rw [accepted, List.map_append, perform_eq,
        ← taken_passed, List.map_cons, Matcher.accepted]
      exact congrArg _ hRest

/- A router's settings are those it is made of. -/
theorem eq_of_ofConfig
    {config : RouterConfig}
    {router : Router E H}
    (hRouter : ofConfig config = .ok router) :
    router = ⟨config, (blueprint config).fresh⟩ := by
  rcases (Sequence.bind_eq_ok_iff _ _ _).mp hRouter with
    ⟨-, -, hOwn⟩
  cases hOwn
  rfl

end Router

end RequestRouter

------------------------------------------------------------
-- Well-Formed Answers
------------------------------------------------------------

namespace RequestRouter

variable {E : Regex.Engine}
variable {H : Type}

namespace Match

/-
  Every match that a lookup finds behind any run of calls is
  well formed with the registrations that the run accepted,
  for matchers of every strategy, selectors over any of them
  and routers with any settings. A router goes by canonical
  methods, both of the routes and of the request. Nothing is
  assumed of the regular expressions.
-/
theorem isWellFormed_of_found :
    (∀ (blueprint : Blueprint) (calls : List (Call H))
        (method path : Text) (found : Match H),
      let fresh : Matcher E H := blueprint.fresh
      ((fresh.after calls).lookup method path).value.1 =
          .ok (some found) →
        found.IsWellFormed (fresh.accepted calls) method) ∧
      ∀ (config : RouterConfig) (router : Router E H)
          (calls : List (Call H)) (method path : Text)
          (found : Match H),
        Router.ofConfig config = .ok router →
          ((router.after calls).lookup method
              path).value.1 = .ok (some found) →
            found.IsWellFormed
              ((router.accepted calls).map
                (Router.registered config))
              (Method.canonical method) := by
  refine ⟨?_, ?_⟩
  · intro blueprint calls method path found fresh hFound
    exact
      Matcher.isWellFormed_of_after blueprint calls hFound
  · intro config router calls method path found hRouter
      hFound
    have hOwn := Router.eq_of_ofConfig hRouter
    have hAccepted :=
      Router.map_registered_accepted router calls
    subst hOwn
    rw [Router.matcher_after] at hFound
    rw [hAccepted]
    exact
      Matcher.isWellFormed_of_after (Router.blueprint config)
        (calls.map (Router.passed config)) hFound

/- Routes for two methods that overlap, and a lookup. -/
def overlapping : List (Call Nat) :=
  [.add ⟨['a', 'l', 'l'], ['a', '/', '*'], 0⟩,
    .add ⟨['p'], ['a', '/', ':', 'x'], 1⟩,
    .lookup ['g'] ['/'],
    .add ⟨['g'], ['a', '/', ':', 'x', '?'], 2⟩]

/- The answers to one more lookup are well formed. -/
theorem isWellFormed_of_found_overlapping :
    let config : RouterConfig := ⟨false, [.trie]⟩
    let trie : Matcher Regex.treeEngine Nat :=
      (Blueprint.plain .trie).fresh
    let router : Router Regex.treeEngine Nat :=
      ⟨config, trie⟩
    let own : Match Nat := ⟨[2], ⟨[(['x'], ['b'])]⟩⟩
    let all : Match Nat := ⟨[0, 2], ⟨[(['x'], ['b'])]⟩⟩
    (((trie.after overlapping).lookup ['g']
        ['a', '/', 'b']).value.1 = .ok (some own) ∧
      own.IsWellFormed (trie.accepted overlapping) ['g']) ∧
      Router.ofConfig config = .ok router ∧
      ((router.after overlapping).lookup ['g']
        ['a', '/', 'b', '/']).value.1 = .ok (some all) ∧
      all.IsWellFormed
        ((router.accepted overlapping).map
          (Router.registered config))
        (Method.canonical ['g']) := by
  intro config trie router own all
  have hWell :=
    isWellFormed_of_found (E := Regex.treeEngine) (H := Nat)
  have hOwn :
      ((trie.after overlapping).lookup ['g']
        ['a', '/', 'b']).value.1 = .ok (some own) := by
    decide +kernel
  have hAll :
      ((router.after overlapping).lookup ['g']
        ['a', '/', 'b', '/']).value.1 = .ok (some all) := by
    decide +kernel
  have hRouter : Router.ofConfig config = .ok router := rfl
  exact
    ⟨⟨hOwn, hWell.1 (.plain .trie) _ _ _ _ hOwn⟩, hRouter,
      hAll, hWell.2 config router _ _ _ _ hRouter hAll⟩

end Match

end RequestRouter
