import RequestRouter.Proofs.Selector.Choice

/-
  Lookups do not depend on the calls before them.

  A matcher is open as long as it has only been given
  routes. A lookup leaves an open matcher as it is or makes
  it settle, so that every lookup of a run is answered from
  the routes accepted so far and from nothing else.

  Key definitions include:
    * `Blueprint.IsFlat`
    * `Blueprint.IsOpen`
    * `Blueprint.closes`

  Main statements:
    * `Blueprint.isOpen_or_isSettledFrom`
    * `Blueprint.lookup_after`
-/

------------------------------------------------------------
-- Open Matchers
------------------------------------------------------------

namespace RequestRouter

variable {E : Regex.Engine}
variable {H : Type}

namespace Blueprint

/-
  Whether a blueprint is one of a plain strategy or of a
  selector over some of them.
-/
inductive IsFlat : Blueprint → Prop where
  | plain (strategy : Strategy) : IsFlat (.plain strategy)
  | selector
      (candidate : Strategy)
      (candidates : List Strategy) :
      IsFlat
        (.selector ((candidate :: candidates).map .plain))

/- Whether a matcher of a blueprint still takes routes. -/
def IsOpen
    (blueprint : Blueprint)
    (matcher : Matcher E H) : Prop :=
  match blueprint with
  | .plain strategy =>
      matcher.IsOf strategy ∧
        ∀ compiled, matcher = .compiled compiled →
          compiled.built = none
  | .selector candidates =>
      ∃ routes, matcher = .pending candidates routes

/-
  Whether a call makes a matcher settle: a lookup of a
  compiled matcher if it does not fail, and every lookup of
  a selector.
-/
def closes
    (blueprint : Blueprint)
    (call : Call H)
    (answer : Answer H) : Bool :=
  match blueprint, call, answer with
  | .plain .compiled, .lookup _ _, .found (.ok _) => true
  | .selector _, .lookup _ _, _ => true
  | _, _, _ => false

variable {blueprint : Blueprint}
variable {matcher next : Matcher E H}

/- A fresh matcher is open. -/
theorem isOpen_fresh
    (blueprint : Blueprint) :
    blueprint.IsOpen (blueprint.fresh : Matcher E H) := by
  cases blueprint with
  | plain strategy =>
      refine ⟨Matcher.isOf_fresh strategy, ?_⟩
      rintro compiled hFresh
      cases strategy <;> cases hFresh
      rfl
  | selector candidates => exact ⟨[], rfl⟩

/- An open matcher with one more route is open. -/
theorem isOpen_add
    (hOpen : blueprint.IsOpen matcher)
    {registration : Registration H}
    (hAdd : (matcher.add registration).value = .ok next) :
    blueprint.IsOpen next := by
  cases blueprint with
  | selector candidates =>
      rcases hOpen with ⟨routes, rfl⟩
      cases Matcher.adds_of_add hAdd with
      | pending => exact ⟨_, rfl⟩
  | plain strategy =>
      refine ⟨Matcher.isOf_add hOpen.1 hAdd, ?_⟩
      rintro compiled rfl
      cases Matcher.adds_of_add hAdd with
      | compiled hOwn =>
          have hBuilt := hOpen.2 _ rfl
          rw [Compiled.add, hBuilt] at hOwn
          rcases (Sequence.bind_eq_ok_iff _ _ _).mp hOwn with
            ⟨route, -, hAfter⟩
          cases hAfter
          rfl

/- An open matcher does not say that it has been built. -/
theorem add_ne_alreadyBuilt
    (hOpen : blueprint.IsOpen matcher)
    (registration : Registration H) :
    (matcher.add registration).value ≠
      .error .alreadyBuilt := by
  intro hAdd
  cases blueprint with
  | selector candidates =>
      rcases hOpen with ⟨routes, rfl⟩
      exact
        Matcher.isDefinition_of_checkPath
          ((Sequence.map_eq_error_iff _ _ _).mp hAdd)
  | plain strategy =>
      cases matcher with
      | pending | chosen | failed => exact hOpen.1.elim
      | compiled matcher =>
          exact
            Compiled.isDefinition_of_add
              (hOpen.2 matcher rfl)
              ((Sequence.map_eq_error_iff _ _ _).mp hAdd)
      | trie matcher =>
          exact
            Trie.isDefinition_of_add
              ((Sequence.map_eq_error_iff _ _ _).mp hAdd)
      | static matcher =>
          rcases
              LiteralTable.isDefinition_of_add
                ((Sequence.map_eq_error_iff _ _ _).mp hAdd) with
            hDefinition | hPath
          · exact hDefinition
          · cases hPath
      | linear matcher =>
          cases hOwn : matcher.add registration with
          | ok next =>
              simp [Matcher.add, Traced.silent, hOwn] at hAdd
          | error fault =>
              have hError : fault.error = .alreadyBuilt := by
                simpa [Matcher.add, hOwn] using hAdd
              rcases LinearScan.isDefinition_of_add hOwn with
                hDefinition | ⟨path, -, hPath⟩
              · rw [hError] at hDefinition
                exact hDefinition
              · rw [hError] at hPath
                cases hPath

/-
  A lookup makes an open matcher settle, or leaves it as it
  is.
-/
theorem lookup_of_isOpen
    (hFlat : blueprint.IsFlat)
    (hOpen : blueprint.IsOpen matcher)
    (method path : Text) :
    let call : Call H := .lookup method path
    if blueprint.closes call (matcher.perform call).1 then
      matcher.IsSettledFrom (matcher.perform call).2
    else (matcher.perform call).2 = matcher := by
  intro call
  cases hFlat with
  | selector candidate candidates =>
      rcases hOpen with ⟨routes, rfl⟩
      rw [if_pos (by rfl)]
      exact
        Matcher.isSettledFrom_pending candidate candidates
          routes method path
  | plain strategy =>
      have hOf := hOpen.1
      cases matcher with
      | pending | chosen | failed => exact hOf.elim
      | trie | linear | static =>
          rw [Matcher.IsOf] at hOf
          subst hOf
          rw [if_neg (by simp [closes])]
          rfl
      | compiled matcher =>
          rw [Matcher.IsOf] at hOf
          subst hOf
          cases hPrograms : matcher.programs.value with
          | error error =>
              have hPerform :
                  (Matcher.compiled matcher).perform call =
                    (.found (.error error),
                      .compiled matcher) := by
                simp [call, Matcher.perform, Matcher.lookup,
                  Compiled.value_lookup, hPrograms, pure,
                  Traced.silent]
              rw [hPerform, if_neg (by simp [closes, call])]
          | ok programs =>
              have hFound :
                  (Matcher.perform (.compiled matcher)
                      call).1 =
                    .found
                      (.ok
                        (Compiled.find programs method
                          path)) := by
                simp [call, Matcher.perform, Matcher.lookup,
                  Compiled.value_lookup, hPrograms, pure,
                  Traced.silent]
              rw [hFound, if_pos (by simp [closes, call])]
              rcases
                  Matcher.lookup_of_isOf hOpen.1 method path
                with hSame | hSettled
              · simp [Matcher.lookup, Compiled.value_lookup,
                  hPrograms, pure, Traced.silent] at hSame
                have hBuilt := hOpen.2 matcher rfl
                rw [← hSame] at hBuilt
                cases hBuilt
              · exact hSettled

/-
  A call gives an open matcher one more route and leaves it
  open, or adds nothing and may make it settle.
-/
theorem perform_of_isOpen
    (hFlat : blueprint.IsFlat)
    (hOpen : blueprint.IsOpen matcher)
    (call : Call H) :
    (∃ registration next,
        call = .add registration ∧
          matcher.perform call = (.added (.ok ()), next) ∧
          blueprint.IsOpen next) ∨
      Matcher.taken call (matcher.perform call).1 = [] ∧
        if blueprint.closes call
            (matcher.perform call).1 then
          matcher.IsSettledFrom (matcher.perform call).2
        else (matcher.perform call).2 = matcher := by
  cases call with
  | lookup method path =>
      exact
        Or.inr
          ⟨rfl, lookup_of_isOpen hFlat hOpen method path⟩
  | add registration =>
      rcases matcher.perform_add registration with
        ⟨next, hAdd, hPerform⟩ | ⟨error, hPerform⟩
      · exact
          Or.inl
            ⟨registration, next, rfl, hPerform,
              isOpen_add hOpen hAdd⟩
      · right
        rw [hPerform, if_neg (by simp [closes])]
        exact ⟨rfl, rfl⟩

end Blueprint

end RequestRouter

------------------------------------------------------------
-- Runs
------------------------------------------------------------

namespace RequestRouter

variable {E : Regex.Engine}
variable {H : Type}

namespace Blueprint

variable {blueprint : Blueprint}

/- Whether a run of calls has made a matcher settle. -/
def isClosedBy
    (blueprint : Blueprint)
    (calls : List (Call H))
    (answers : List (Answer H)) : Bool :=
  (calls.zip answers).any fun entry =>
    blueprint.closes entry.1 entry.2

/- The last call of a run closes, or the ones before it do. -/
theorem isClosedBy_append
    (blueprint : Blueprint)
    (matcher : Matcher E H)
    (calls : List (Call H))
    (call : Call H) :
    blueprint.isClosedBy (calls ++ [call])
        (matcher.answers (calls ++ [call])) =
      (blueprint.isClosedBy calls (matcher.answers calls) ||
        blueprint.closes call
          ((matcher.after calls).perform call).1) := by
  have hLength :
      ∀ (matcher : Matcher E H) (calls : List (Call H)),
        calls.length = (matcher.answers calls).length := by
    intro matcher calls
    induction calls generalizing matcher with
    | nil => rfl
    | cons call rest ih =>
        rw [Matcher.answers, List.length_cons, ih]
        rfl
  unfold isClosedBy
  rw [Matcher.answers_append,
    List.zip_append (hLength matcher calls),
    List.any_append]
  simp [Matcher.answers]

/-
  Behind a run, a matcher is as fresh with the routes that
  the run accepted, or has settled from there.
-/
theorem isOpen_or_isSettledFrom
    (hFlat : blueprint.IsFlat)
    (calls : List (Call H)) :
    let fresh : Matcher E H := blueprint.fresh
    let routes := (fresh.accepted calls).map Call.add
    fresh.answers routes =
        routes.map (fun _ => .added (.ok ())) ∧
      blueprint.IsOpen (fresh.after routes) ∧
      if blueprint.isClosedBy calls (fresh.answers calls) then
        (fresh.after routes).IsSettledFrom
          (fresh.after calls)
      else fresh.after calls = fresh.after routes := by
  induction calls using List.reverseRecOn with
  | nil =>
      refine ⟨rfl, isOpen_fresh blueprint, ?_⟩
      rw [if_neg (by simp [isClosedBy])]
      rfl
  | append_singleton calls call ih =>
      dsimp only at ih ⊢
      rcases ih with ⟨hAnswers, hOpen, hBehind⟩
      rw [isClosedBy_append, Matcher.accepted_append,
        Matcher.after_append]
      split at hBehind
      case isTrue hClosed =>
          rw [hBehind.accepted_eq, List.append_nil,
            hBehind.after_eq, hClosed, Bool.true_or,
            if_pos rfl]
          exact ⟨hAnswers, hOpen, hBehind⟩
      case isFalse hClosed =>
          rw [Bool.not_eq_true] at hClosed
          rw [hClosed, Bool.false_or, hBehind,
            Matcher.accepted_singleton,
            Matcher.after_singleton]
          rcases perform_of_isOpen hFlat hOpen call with
            ⟨registration, next, rfl, hPerform, hNext⟩ |
              ⟨hTaken, hCall⟩
          · rw [hPerform, Matcher.taken, List.map_append,
              Matcher.answers_append, Matcher.after_append,
              hAnswers, List.map_singleton,
              Matcher.after_singleton, hPerform,
              if_neg (by simp [closes])]
            refine ⟨?_, hNext, rfl⟩
            simp [Matcher.answers, hPerform]
          · rw [hTaken, List.append_nil]
            exact ⟨hAnswers, hOpen, hCall⟩

/-
  Every lookup of a run is answered as by a fresh matcher
  that is given the routes accepted so far, all of which it
  accepts, and then this one request. A route is refused
  because the matcher has been built just behind a lookup
  that made it settle: one that did not fail for a compiled
  matcher, any for a selector, and none for the others.
-/
theorem lookup_after
    (hFlat : blueprint.IsFlat)
    (calls : List (Call H)) :
    let fresh : Matcher E H := blueprint.fresh
    let routes := (fresh.accepted calls).map Call.add
    fresh.answers routes =
        routes.map (fun _ => .added (.ok ())) ∧
      (∀ method path,
        ((fresh.after calls).lookup method path).value.1 =
          ((fresh.after routes).lookup method
            path).value.1) ∧
      ∀ registration,
        ((fresh.after calls).add registration).value =
            .error .alreadyBuilt ↔
          blueprint.isClosedBy calls
            (fresh.answers calls) = true := by
  intro fresh routes
  rcases isOpen_or_isSettledFrom (E := E) hFlat calls with
    ⟨hAnswers, hOpen, hBehind⟩
  refine ⟨hAnswers, ?_, ?_⟩
  · intro method path
    split at hBehind
    · rw [hBehind.lookup_eq]
    · rw [hBehind]
  · intro registration
    split at hBehind
    case isTrue hClosed =>
        exact
          iff_of_true (hBehind.add_eq registration) hClosed
    case isFalse hClosed =>
        refine iff_of_false ?_ hClosed
        rw [hBehind]
        exact add_ne_alreadyBuilt hOpen registration

/- Two routes in conflict, a lookup, and a third route. -/
def conflicting : List (Call Nat) :=
  [.add ⟨['G'], ['/', ':', 'a'], 0⟩,
    .add ⟨['G'], ['/', ':', 'b'], 1⟩,
    .lookup ['G'] ['/', 'x'],
    .add ⟨['G'], ['/', 'c', '/', 'd'], 2⟩]

/-
  A lookup that fails neither keeps the third route out nor
  changes what goes wrong.
-/
theorem lookup_after_conflicting :
    (Blueprint.plain .compiled).IsFlat ∧
      ((Blueprint.plain .compiled).fresh :
          Matcher Regex.treeEngine Nat).accepted
            conflicting =
        [⟨['G'], ['/', ':', 'a'], 0⟩,
          ⟨['G'], ['/', ':', 'b'], 1⟩,
          ⟨['G'], ['/', 'c', '/', 'd'], 2⟩] ∧
      ((((Blueprint.plain .compiled).fresh :
          Matcher Regex.treeEngine Nat).after
            conflicting).lookup ['P'] ['/', 'y']).value.1 =
        .error (.unsupportedPath ['/', ':', 'b']) := by
  have hFlat := IsFlat.plain .compiled
  rcases
      lookup_after (E := Regex.treeEngine) hFlat conflicting
    with ⟨-, hLookup, -⟩
  refine ⟨hFlat, by decide +kernel, ?_⟩
  refine (hLookup ['P'] ['/', 'y']).trans ?_
  decide +kernel

end Blueprint

end RequestRouter
