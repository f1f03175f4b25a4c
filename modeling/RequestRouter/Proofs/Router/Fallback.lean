import RequestRouter.Proofs.Router.Serving
import RequestRouter.Proofs.Selector.Refusal

/-
  Routers that fall back on the trie.

  A selector reads every path before it records a route, so
  that a strategy it tries can only fail by not supporting
  the routes. It then goes on to the next strategy, and the
  trie supports all routes.

  Main statements:
    * `Compiled.isUnsupported_of_programs`
    * `Blueprint.fault?_add`
    * `Strategy.isUnsupported_of_reply`
    * `Router.serves_of_trie`
-/

------------------------------------------------------------
-- Failures of a Build
------------------------------------------------------------

namespace RequestRouter

variable {E : Regex.Engine}
variable {H : Type}

namespace Step

/- A pattern without a step is not supported. -/
theorem isUnsupported_of_ofPatternsFrom
    {path : Text}
    {first : Bool}
    {patterns : List (Pattern E)}
    {error : RouteError}
    (hSteps :
      ofPatternsFrom path first patterns = .error error) :
    error.isUnsupported = true := by
  induction patterns generalizing first with
  | nil => cases hSteps
  | cons pattern rest ih =>
      have hLater : ∀ step : Step,
          (do
            let steps ←
              ofPatternsFrom (E := E) path false rest
            .ok (step :: steps)) = .error error →
            error.isUnsupported = true := by
        intro step hStep
        rcases (Sequence.bind_eq_error_iff _ _ _).mp hStep
          with hRest | ⟨steps, -, hOk⟩
        · exact ih hRest
        · cases hOk
      cases pattern with
      | literal | param | wildcard => exact hLater _ hSteps
      | constrained name constraint =>
          unfold ofPatternsFrom at hSteps
          dsimp only at hSteps
          split at hSteps
          case isTrue =>
              cases hSteps
              rfl
          case isFalse => exact hLater _ hSteps

end Step

namespace Plan

/- Leaves that do not fit into one tree are unsupported. -/
theorem isUnsupported_of_insertLeaves
    {tree : SegmentTree}
    {number : Nat}
    {leaves : List (Leaf H)}
    {error : RouteError}
    (hInsert :
      insertLeaves tree number leaves = .error error) :
    error.isUnsupported = true := by
  induction leaves generalizing tree number with
  | nil => cases hInsert
  | cons leaf rest ih =>
      unfold insertLeaves at hInsert
      split at hInsert
      case h_1 =>
          cases hInsert
          rfl
      case h_2 =>
          rcases
              (Sequence.bind_eq_error_iff _ _ _).mp hInsert
            with hRest | ⟨others, -, hOk⟩
          · exact ih hRest
          · cases hOk

/- So is all that keeps routes from being planned. -/
theorem isUnsupported_of_ofRoutes
    {routes : List (ParsedRoute E H)}
    {method : Text}
    {error : RouteError}
    (hPlan : ofRoutes routes method = .error error) :
    error.isUnsupported = true := by
  rcases (Sequence.bind_eq_error_iff _ _ _).mp hPlan with
    hPlanned | ⟨planned, -, hLeaves⟩
  · rcases Sequence.exists_of_mapM_eq_error hPlanned with
      ⟨route, -, hRoute⟩
    rcases (Sequence.bind_eq_error_iff _ _ _).mp hRoute with
      hVariants | ⟨variants, -, hOk⟩
    · rcases Sequence.exists_of_mapM_eq_error hVariants with
        ⟨variant, -, hVariant⟩
      rcases (Sequence.bind_eq_error_iff _ _ _).mp hVariant
        with hSteps | ⟨steps, -, hOk⟩
      · exact Step.isUnsupported_of_ofPatternsFrom hSteps
      · cases hOk
    · cases hOk
  · rcases (Sequence.bind_eq_error_iff _ _ _).mp hLeaves with
      hInsert | ⟨tables, -, hStatics⟩
    · exact isUnsupported_of_insertLeaves hInsert
    · dsimp only at hStatics
      split at hStatics
      · cases hStatics
        rfl
      · cases hStatics

end Plan

namespace Compiled

/- A build fails for routes that are not supported only. -/
theorem isUnsupported_of_buildAll
    {routes : List (ParsedRoute E H)}
    {methods : List Text}
    {error : RouteError}
    (hBuild :
      (buildAll routes methods).value = .error error) :
    error.isUnsupported = true := by
  induction methods with
  | nil => cases hBuild
  | cons method rest ih =>
      rw [buildAll, Traced.value_bind] at hBuild
      cases hFirst :
          (MethodProgram.build routes method).value with
      | error own =>
          rw [hFirst] at hBuild
          cases hBuild
          unfold MethodProgram.build at hFirst
          split at hFirst
          case h_1 own hPlan =>
              cases hFirst
              exact Plan.isUnsupported_of_ofRoutes hPlan
          case h_2 =>
              unfold MethodProgram.ofPlan at hFirst
              dsimp only at hFirst
              split at hFirst
              · cases hFirst
              · split at hFirst <;> cases hFirst
                rfl
      | ok program =>
          rw [hFirst] at hBuild
          dsimp only at hBuild
          rw [Traced.value_bind] at hBuild
          cases hRest : (buildAll routes rest).value with
          | error own =>
              rw [hRest] at hBuild
              cases hBuild
              exact ih hRest
          | ok others =>
              rw [hRest] at hBuild
              cases hBuild

/- So do the lookups of a compiled matcher. -/
theorem isUnsupported_of_programs
    {matcher : Compiled E H}
    {error : RouteError}
    (hPrograms : matcher.programs.value = .error error) :
    error.isUnsupported = true := by
  unfold programs at hPrograms
  split at hPrograms
  · cases hPrograms
  · exact isUnsupported_of_buildAll hPrograms

end Compiled

end RequestRouter

------------------------------------------------------------
-- Refusals of Open Matchers
------------------------------------------------------------

namespace RequestRouter

variable {E : Regex.Engine}
variable {H : Type}

namespace Blueprint

/-
  What an open matcher refuses does not depend on the routes
  that it has: it is what a fresh one refuses.
-/
theorem fault?_add
    {blueprint : Blueprint}
    {matcher : Matcher E H}
    (hOpen : blueprint.IsOpen matcher)
    (registration : Registration H) :
    Sequence.fault? (matcher.add registration).value =
      blueprint.refusal? E registration := by
  cases blueprint with
  | selector candidates =>
      rcases hOpen with ⟨routes, rfl⟩
      simp [refusal?, fresh, Matcher.add, Traced.silent]
  | plain strategy =>
      cases matcher with
      | pending | chosen | failed => exact hOpen.1.elim
      | compiled matcher =>
          cases hOpen.1
          rw [refusal?_compiled, Matcher.add, Traced.silent,
            Sequence.fault?_map,
            Compiled.fault?_add (hOpen.2 matcher rfl)]
      | trie matcher =>
          cases hOpen.1
          rw [refusal?_trie, Matcher.add, Traced.silent,
            Sequence.fault?_map, Trie.fault?_add]
      | static matcher =>
          cases hOpen.1
          rw [refusal?, fresh, Matcher.add, Matcher.add,
            Traced.silent, Traced.silent,
            Sequence.fault?_map, Sequence.fault?_map,
            LiteralTable.fault?_add]
      | linear matcher =>
          cases hOpen.1
          rw [refusal?_linear, Matcher.fault?_add_linear]

end Blueprint

end RequestRouter

------------------------------------------------------------
-- Replies to Well-Formed Routes
------------------------------------------------------------

namespace RequestRouter

variable {E : Regex.Engine}
variable {H : Type}

namespace Registration

/- A well-formed registration has no fault in its path. -/
theorem fault?_of_isWellFormed
    {registration : Registration H}
    (hWell : registration.isWellFormed E = true) :
    Path.fault? E registration.path = none := by
  rw [← Matcher.fault?_checkPath]
  rw [isWellFormed] at hWell
  cases hCheck : Matcher.checkPath E registration.path with
  | ok passed => rfl
  | error error =>
      rw [hCheck] at hWell
      cases hWell

end Registration

namespace Matcher

/- Registering in a row ends with the first refusal. -/
theorem fault?_addAll
    {blueprint : Blueprint}
    {matcher : Matcher E H}
    (hOpen : blueprint.IsOpen matcher)
    (routes : List (Registration H)) :
    Sequence.fault? (matcher.addAll routes).value =
      routes.findSome? (blueprint.refusal? E) := by
  induction routes generalizing matcher with
  | nil => rfl
  | cons registration rest ih =>
      have hFault := Blueprint.fault?_add hOpen registration
      rw [addAll, Traced.value_bind, List.findSome?_cons,
        ← hFault]
      cases hAdd : (matcher.add registration).value with
      | error error => rfl
      | ok next => exact ih (Blueprint.isOpen_add hOpen hAdd)

end Matcher

namespace Strategy

variable {strategy : Strategy}
variable {routes : List (Registration H)}

/- What a strategy loads ends with the first refusal. -/
theorem fault?_load
    (strategy : Strategy)
    (routes : List (Registration H)) :
    Sequence.fault? (strategy.load E routes) =
      routes.findSome?
        ((Blueprint.plain strategy).refusal? E) := by
  rw [load_eq]
  exact Matcher.fault?_addAll (Blueprint.isOpen_fresh _) routes

/-
  A strategy refuses a well-formed route, if at all, because
  it does not support it. A table of literals may refuse one
  for its question marks.
-/
theorem isUnsupported_of_refusal?
    (hStatic : strategy ≠ .static)
    {registration : Registration H}
    (hWell : registration.isWellFormed E = true)
    {error : RouteError}
    (hRefusal :
      (Blueprint.plain strategy).refusal? E registration =
        some error) :
    error.isUnsupported = true := by
  have hFault := Registration.fault?_of_isWellFormed hWell
  cases strategy with
  | static => exact absurd rfl hStatic
  | compiled =>
      rw [Blueprint.refusal?_compiled, hFault] at hRefusal
      cases hRefusal
  | trie =>
      rw [Blueprint.refusal?_trie, hFault] at hRefusal
      cases hRefusal
  | linear =>
      rw [Blueprint.refusal?_linear] at hRefusal
      rcases Option.map_eq_some_iff.mp hRefusal with
        ⟨fault, hScan, rfl⟩
      rcases List.exists_of_findSome?_eq_some hScan with
        ⟨variant, hVariant, hOwn⟩
      rcases ScanVariant.fault?_compile (E := E) variant with
        hSame | ⟨-, reason, hRejected⟩
      · have hRead :=
          List.findSome?_eq_none_iff.mp hFault variant
            hVariant
        rw [hSame, hRead] at hOwn
        cases hOwn
      · rw [hRejected] at hOwn
        cases hOwn
        rfl

/- Given such routes, it fails only for not supporting them. -/
theorem isUnsupported_of_reply
    (hStatic : strategy ≠ .static)
    (hWell :
      ∀ registration ∈ routes,
        registration.isWellFormed E = true)
    {method path : Text}
    {error : RouteError}
    (hReply :
      strategy.reply E routes method path =
        .error error) :
    error.isUnsupported = true := by
  unfold reply at hReply
  split at hReply
  case h_1 own hLoad =>
      cases hReply
      have hFault := fault?_load (E := E) strategy routes
      rw [hLoad] at hFault
      rcases List.exists_of_findSome?_eq_some hFault.symm
        with ⟨registration, hMember, hRefusal⟩
      exact
        isUnsupported_of_refusal? hStatic
          (hWell registration hMember) hRefusal
  case h_2 matcher hLoad =>
      have hOf := isOf_of_load hLoad
      cases matcher with
      | trie | linear | static => cases hReply
      | pending | chosen | failed => exact hOf.elim
      | compiled matcher =>
          cases hPrograms : matcher.programs.value with
          | error own =>
              simp [Matcher.lookup, Compiled.value_lookup,
                hPrograms, pure, Traced.silent] at hReply
              subst hReply
              exact
                Compiled.isUnsupported_of_programs hPrograms
          | ok programs =>
              simp [Matcher.lookup, Compiled.value_lookup,
                hPrograms, pure, Traced.silent] at hReply

/- A trie answers every request of an unfaulty route set. -/
theorem exists_reply_trie
    (hWell :
      ∀ registration ∈ routes,
        registration.isWellFormed E = true)
    (method path : Text) :
    ∃ found,
      Strategy.trie.reply E routes method path =
        .ok found := by
  cases hLoad : Strategy.trie.load E routes with
  | error error =>
      have hFault := fault?_load (E := E) .trie routes
      rw [hLoad] at hFault
      rcases List.exists_of_findSome?_eq_some hFault.symm
        with ⟨registration, hMember, hRefusal⟩
      rw [Blueprint.refusal?_trie,
        Registration.fault?_of_isWellFormed
          (hWell registration hMember)] at hRefusal
      cases hRefusal
  | ok matcher =>
      have hOf := isOf_of_load hLoad
      rw [reply, hLoad]
      cases matcher with
      | trie matcher => exact ⟨_, rfl⟩
      | compiled | linear | static => cases hOf
      | pending | chosen | failed => exact hOf.elim

end Strategy

namespace Matcher

/-
  A selector with a trie among its candidates answers every
  request. Whatever it tries before the trie answers or is
  passed over.
-/
theorem exists_found_of_trie
    {strategies : List Strategy}
    (hTrie : .trie ∈ strategies)
    (hStatic : .static ∉ strategies)
    {routes : List (Registration H)}
    (hWell :
      ∀ registration ∈ routes,
        registration.isWellFormed E = true)
    (method path : Text) :
    ∃ found,
      ((Matcher.pending (strategies.map .plain) routes :
          Matcher E H).lookup method path).value.1 =
        .ok found := by
  rw [reply_pending, Selection.verdict]
  cases hFind :
      strategies.find?
        (Strategy.supports E routes method path) with
  | none =>
      have hRefused :=
        List.find?_eq_none.mp hFind .trie hTrie
      rcases
          Strategy.exists_reply_trie hWell method path with
        ⟨found, hFound⟩
      rw [Strategy.supports, hFound] at hRefused
      exact absurd rfl hRefused
  | some chosen =>
      dsimp only
      cases hReply : chosen.reply E routes method path with
      | ok found =>
          exact ⟨found, by simp [Except.bind, Except.map,
            hReply]⟩
      | error error =>
          -- The error would have led on to the next one.
          have hPlain : chosen ≠ .static := by
            rintro rfl
            exact hStatic (List.mem_of_find?_eq_some hFind)
          have hUnsupported :=
            Strategy.isUnsupported_of_reply hPlain hWell
              hReply
          rcases (RouteError.isUnsupported_iff _).mp
              hUnsupported with ⟨unsupported, rfl⟩
          have hTaken := List.find?_some hFind
          rw [Strategy.supports, hReply] at hTaken
          cases hTaken

end Matcher

end RequestRouter

------------------------------------------------------------
-- Runs with a Trie
------------------------------------------------------------

namespace RequestRouter

variable {E : Regex.Engine}
variable {H : Type}

namespace Path

/- The fault of a path is found in the path as written. -/
theorem isDefinition_of_fault?
    {path : Text}
    {error : RouteError}
    (hFault : fault? E path = some error) :
    error.IsDefinition := by
  rcases List.exists_of_findSome?_eq_some hFault with
    ⟨variant, -, hVariant⟩
  exact
    Pattern.isDefinition_of_parsePath
      ((Sequence.fault?_eq_some_iff _ _).mp hVariant)

end Path

namespace Blueprint

/-
  Whether a blueprint is one of the trie, or of a selector
  that has the trie among its candidates but not the table
  of literals.
-/
inductive FallsBack : Blueprint → Prop where
  | trie : FallsBack (.plain .trie)
  | selector {strategies : List Strategy}
      (hTrie : .trie ∈ strategies)
      (hStatic : .static ∉ strategies) :
      FallsBack (.selector (strategies.map .plain))

namespace FallsBack

variable {blueprint : Blueprint}

/- Nothing is nested in such a blueprint. -/
theorem isFlat
    (hBack : blueprint.FallsBack) :
    blueprint.IsFlat := by
  cases hBack with
  | trie => exact .plain .trie
  | @selector strategies hTrie _ =>
      cases strategies with
      | nil => cases hTrie
      | cons candidate candidates =>
          exact .selector candidate candidates

/- A matcher of it refuses just the paths at fault. -/
theorem refusal?_eq
    (hBack : blueprint.FallsBack)
    (registration : Registration H) :
    blueprint.refusal? E registration =
      Path.fault? E registration.path := by
  cases hBack with
  | trie => exact refusal?_trie registration
  | selector => exact refusal?_selector _ registration

/- A matcher of it answers every lookup of every run. -/
theorem exists_found
    (hBack : blueprint.FallsBack)
    (calls : List (Call H))
    (method path : Text) :
    ∃ found,
      (((blueprint.fresh : Matcher E H).after calls).lookup
          method path).value.1 =
        .ok found := by
  let fresh : Matcher E H := blueprint.fresh
  let adds := (fresh.accepted calls).map Call.add
  have hOpen : ∃ found,
      ((fresh.after adds).lookup method path).value.1 =
        .ok found := by
    cases hBack with
    | trie =>
        rcases isOpen_or_isSettledFrom (E := E)
            (.plain .trie) calls with ⟨-, hOpen, -⟩
        have hOf : (fresh.after adds).IsOf .trie := hOpen.1
        generalize fresh.after adds = matcher at hOf
        cases matcher with
        | trie matcher => exact ⟨_, rfl⟩
        | compiled | linear | static => cases hOf
        | pending | chosen | failed => exact hOf.elim
    | selector hTrie hStatic =>
        rw [show fresh.after adds = _ from
          Matcher.after_adds _ _ _]
        apply Matcher.exists_found_of_trie hTrie hStatic
        intro registration hMember
        exact (List.mem_filter.mp hMember).2
  have hBehind :=
    (isOpen_or_isSettledFrom (E := E) hBack.isFlat calls).2.2
  split at hBehind
  · rw [hBehind.lookup_eq]
    exact hOpen
  · rw [hBehind]
    exact hOpen

end FallsBack

/- Registrations alone leave an open matcher open. -/
theorem isOpen_after_adds
    {blueprint : Blueprint}
    {matcher : Matcher E H}
    (hOpen : blueprint.IsOpen matcher)
    (routes : List (Registration H)) :
    blueprint.IsOpen (matcher.after (routes.map .add)) := by
  induction routes generalizing matcher with
  | nil => exact hOpen
  | cons registration rest ih =>
      apply ih
      change blueprint.IsOpen
        (matcher.perform (.add registration)).2
      rcases matcher.perform_add registration with
        ⟨next, hAdd, hPerform⟩ | ⟨error, hPerform⟩
      · rw [hPerform]
        exact isOpen_add hOpen hAdd
      · rw [hPerform]
        exact hOpen

end Blueprint

end RequestRouter

------------------------------------------------------------
-- Routers with a Trie
------------------------------------------------------------

namespace RequestRouter

namespace RouterConfig

/- Nothing is repeated in a list of different strategies. -/
theorem firstRepeated_eq_none
    {seen strategies : List Strategy}
    (hNodup : strategies.Nodup)
    (hNew : ∀ strategy ∈ strategies, strategy ∉ seen) :
    firstRepeated seen strategies = none := by
  induction strategies generalizing seen with
  | nil => rfl
  | cons strategy rest ih =>
      have hFirst : strategy ∉ seen :=
        hNew strategy (by simp)
      rw [firstRepeated, if_neg (by simpa using hFirst)]
      rw [List.nodup_cons] at hNodup
      apply ih hNodup.2
      intro other hOther
      rw [List.mem_cons, not_or]
      refine ⟨?_, hNew other (by simp [hOther])⟩
      rintro rfl
      exact hNodup.1 hOther

/- Settings with some different strategies are valid. -/
theorem validate_eq_ok
    {config : RouterConfig}
    (hSome : config.strategies ≠ [])
    (hNodup : config.strategies.Nodup) :
    config.validate = .ok () := by
  rw [validate, if_neg (by simpa using hSome),
    firstRepeated_eq_none hNodup (by simp)]

end RouterConfig

variable {E : Regex.Engine}
variable {H : Type}

namespace Router

variable {config : RouterConfig}

/- Settings with the trie make a matcher that falls back. -/
theorem fallsBack_blueprint
    (hTrie : .trie ∈ config.strategies)
    (hStatic : .static ∉ config.strategies) :
    (blueprint config).FallsBack := by
  unfold blueprint
  split
  case h_1 strategy hOnly =>
      rw [hOnly, List.mem_singleton] at hTrie
      subst hTrie
      exact .trie
  case h_2 => exact .selector hTrie hStatic

/- What a router refuses, its matcher refuses. -/
theorem fault?_add
    (router : Router E H)
    (registration : Registration H) :
    Sequence.fault? (router.add registration).value =
      Sequence.fault?
        (router.matcher.add
          (registered router.config registration)).value := by
  rw [add, Traced.value_bind, registered]
  cases (router.matcher.add
      ⟨Method.canonical registration.method,
        routePath router.config registration.path,
        registration.handler⟩).value <;> rfl

/-
  A router that has the trie among its strategies, but not
  the table of literals, answers every lookup of every run
  of calls, in whatever order they come. A route that it is
  given before the first lookup is refused for what its path
  says only.
-/
theorem serves_of_trie
    (hNodup : config.strategies.Nodup)
    (hTrie : .trie ∈ config.strategies)
    (hStatic : .static ∉ config.strategies) :
    ∃ router : Router E H,
      ofConfig config = .ok router ∧
        (∀ (calls : List (Call H)) (method path : Text),
          ∃ found,
            ((router.after calls).lookup method
              path).value.1 = .ok found) ∧
        ∀ (routes : List (Registration H))
            (registration : Registration H)
            (error : RouteError),
          ((router.after (routes.map .add)).add
              registration).value = .error error →
            error.IsDefinition := by
  have hValid :=
    RouterConfig.validate_eq_ok (List.ne_nil_of_mem hTrie)
      hNodup
  have hBack := fallsBack_blueprint hTrie hStatic
  refine ⟨⟨config, (blueprint config).fresh⟩, ?_, ?_, ?_⟩
  · rw [ofConfig, hValid]
    rfl
  · intro calls method path
    rw [matcher_after]
    exact hBack.exists_found _ _ _
  · intro routes registration error hAdd
    rw [← Sequence.fault?_eq_some_iff, fault?_add,
      matcher_after, List.map_map] at hAdd
    have hOpen :=
      Blueprint.isOpen_after_adds
        (Blueprint.isOpen_fresh (E := E) (H := H)
          (blueprint config))
        (routes.map (registered config))
    rw [List.map_map] at hOpen
    apply Path.isDefinition_of_fault? (E := E)
    refine Eq.trans ?_ hAdd
    rw [← hBack.refusal?_eq]
    exact (Blueprint.fault?_add hOpen _).symm

/- A route that binds a name twice. -/
def rebinding : Registration Nat :=
  ⟨['g'], ['/', ':', 'a', '/', ':', 'a', '/'], 2⟩

/-
  With the default settings, routes that one expression
  cannot tell apart are served by the trie, and a name that
  is bound twice is reported as such.
-/
theorem serves_of_trie_conflicting :
    let config : RouterConfig := {}
    let error : RouteError :=
      .duplicateParam ['a'] ['/', ':', 'a', '/', ':', 'a']
    config.strategies.Nodup ∧
      .trie ∈ config.strategies ∧
      .static ∉ config.strategies ∧
      ∃ router : Router Regex.treeEngine Nat,
        ofConfig config = .ok router ∧
          (router.after Blueprint.conflicting).strategy? =
            some "trie" ∧
          (∃ found,
            ((router.after Blueprint.conflicting).lookup
              ['g'] ['y']).value.1 = .ok found) ∧
          ((router.after
              ([⟨['g'], ['/', ':', 'a'], 0⟩].map .add)).add
                rebinding).value = .error error ∧
          error.IsDefinition := by
  intro config error
  have hNodup : config.strategies.Nodup := by decide
  have hTrie : .trie ∈ config.strategies := by decide
  have hStatic : .static ∉ config.strategies := by decide
  rcases
      serves_of_trie (E := Regex.treeEngine) (H := Nat)
        hNodup hTrie hStatic with
    ⟨router, hRouter, hFound, hRefused⟩
  have hOwn := eq_of_ofConfig hRouter
  have hName :
      (router.after Blueprint.conflicting).strategy? =
        some "trie" := by
    subst hOwn
    decide +kernel
  have hAdd :
      ((router.after
          ([⟨['g'], ['/', ':', 'a'], 0⟩].map .add)).add
            rebinding).value = .error error := by
    subst hOwn
    rw [← Sequence.fault?_eq_some_iff]
    decide +kernel
  exact
    ⟨hNodup, hTrie, hStatic, router, hRouter, hName,
      hFound Blueprint.conflicting ['g'] ['y'], hAdd,
      hRefused _ _ _ hAdd⟩

end Router

end RequestRouter
