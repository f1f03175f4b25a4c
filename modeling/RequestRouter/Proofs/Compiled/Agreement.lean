import RequestRouter.Compiled.Matcher
import RequestRouter.Proofs.Compiled.Finding
import RequestRouter.Proofs.Trie.Answers

/-
  The compiled strategy agrees with the trie.

  For routes without constraints, a built matcher answers
  every request on one line as a trie of the same
  registrations does: the same handlers, and the same
  parameters in the same order.

  Key definition:
    * `PlannedRoute.IsFor`

  Main statements:
    * `MethodProgram.find_eq_lookup`
    * `Compiled.lookup_eq_trie`
-/

------------------------------------------------------------
-- Planned Registrations
------------------------------------------------------------

namespace RequestRouter

variable {E : Regex.Engine}
variable {H : Type}

namespace PlannedRoute

/-
  Whether a planned route is made for a registration: it has
  its handler, and the steps of its variants one by one.
-/
def IsFor
    (E : Regex.Engine)
    (registration : Registration H)
    (route : PlannedRoute H) : Prop :=
  route.handler = registration.handler ∧
    List.Forall₂
      (fun path (variant : PlannedVariant) =>
        variant.path = path ∧
          ∃ patterns : List (Pattern E),
            Pattern.parsePath path = .ok patterns ∧
              Step.ofPatterns path patterns =
                .ok variant.steps)
      (Path.variants registration.path) route.variants

end PlannedRoute

namespace ParsedRoute

/- A parsed route keeps the method and the handler. -/
theorem forall₂_of_ofRegistration
    {registration : Registration H}
    {route : ParsedRoute E H}
    (hRoute : ofRegistration registration = .ok route) :
    route.method = registration.method ∧
      route.handler = registration.handler ∧
        List.Forall₂
          (fun path (entry : Text × List (Pattern E)) =>
            entry.1 = path ∧
              Pattern.parsePath path = .ok entry.2)
          (Path.variants registration.path)
          route.variants := by
  rcases (Sequence.bind_eq_ok_iff _ _ _).mp hRoute with
    ⟨variants, hVariants, hResult⟩
  cases hResult
  refine ⟨rfl, rfl, ?_⟩
  refine
    ((Sequence.mapM_eq_ok_iff _ _ _).mp hVariants).imp ?_
  intro path entry hEntry
  rcases (Sequence.bind_eq_ok_iff _ _ _).mp hEntry with
    ⟨patterns, hParse, hPair⟩
  cases hPair
  exact ⟨rfl, hParse⟩

/- Planning gives the steps of each variant. -/
theorem isFor_of_plan
    {registration : Registration H}
    {route : ParsedRoute E H}
    (hRoute : ofRegistration registration = .ok route)
    {planned : PlannedRoute H}
    (hPlan : route.plan = .ok planned) :
    PlannedRoute.IsFor E registration planned := by
  rcases forall₂_of_ofRegistration hRoute with
    ⟨-, hHandler, hVariants⟩
  rcases (Sequence.bind_eq_ok_iff _ _ _).mp hPlan with
    ⟨variants, hSteps, hResult⟩
  cases hResult
  refine ⟨hHandler, ?_⟩
  have hAll := (Sequence.mapM_eq_ok_iff _ _ _).mp hSteps
  clear hSteps hPlan
  revert hVariants hAll
  generalize Path.variants registration.path = paths
  generalize route.variants = entries
  intro hVariants hAll
  induction hVariants generalizing variants with
  | nil =>
      cases hAll
      exact .nil
  | @cons path entry _ _ hEntry _ ih =>
      cases hAll with
      | cons hFirst hRest =>
          refine .cons ?_ (ih _ hRest)
          rcases hEntry with ⟨rfl, hParse⟩
          rcases
              (Sequence.bind_eq_ok_iff _ _ _).mp hFirst with
            ⟨steps, hOwn, hVariant⟩
          cases hVariant
          exact ⟨rfl, entry.2, hParse, hOwn⟩

end ParsedRoute

namespace PlannedRoute

section Planned

variable {registration : Registration H}
variable {route : PlannedRoute H}

/- Each variant of a planned route comes from a path. -/
theorem IsFor.exists_path
    (hFor : IsFor E registration route)
    {variant : PlannedVariant}
    (hVariant : variant ∈ route.variants) :
    variant.path ∈ Path.variants registration.path ∧
      ∃ patterns : List (Pattern E),
        Pattern.parsePath variant.path = .ok patterns ∧
          Step.ofPatterns variant.path patterns =
            .ok variant.steps := by
  rcases Sequence.exists_of_mem_right hFor.2 hVariant with
    ⟨path, hPath, rfl, hSteps⟩
  exact ⟨hPath, hSteps⟩

/- Each path of the registration has a planned variant. -/
theorem IsFor.exists_variant
    (hFor : IsFor E registration route)
    {path : Text}
    (hPath : path ∈ Path.variants registration.path) :
    ∃ variant ∈ route.variants, variant.path = path := by
  rcases Sequence.exists_of_mem_left hFor.2 hPath with
    ⟨variant, hVariant, hSame, -⟩
  exact ⟨variant, hVariant, hSame⟩

/- Without braces all variants are plain. -/
theorem IsFor.isPlain
    (hFor : IsFor E registration route)
    (hBare : '{' ∉ registration.path)
    {variant : PlannedVariant}
    (hVariant : variant ∈ route.variants) :
    variant.IsPlain E := by
  rcases hFor.exists_path hVariant with ⟨hPath, hSteps⟩
  exact
    ⟨Path.brace_not_mem_of_mem_variants hBare hPath, hSteps⟩

/-
  Without braces, a variant that fits a path binds the parts
  at the places of its names, and no other way is taken.
-/
theorem IsFor.mem_takings_iff
    (hFor : IsFor E registration route)
    (hBare : '{' ∉ registration.path)
    {method : Text}
    (hServes :
      Method.serves registration.method method = true)
    (path : Text)
    (bindings : List (Text × Text)) :
    bindings ∈ registration.takings E method path ↔
      ∃ variant ∈ route.variants,
        variant.Fits (path.splitOn '/') ∧
          bindings =
            Step.named variant.steps (path.splitOn '/') := by
  have hAccepts :
      ∀ {variant : PlannedVariant}
        {patterns : List (Pattern E)},
        variant ∈ route.variants →
        Pattern.parsePath variant.path = .ok patterns →
        Step.ofPatterns variant.path patterns =
            .ok variant.steps →
          (Pattern.Accepts patterns (path.splitOn '/') ↔
            variant.Fits (path.splitOn '/')) ∧
          ∀ pattern ∈ patterns, pattern.IsPlain := by
    intro variant patterns hVariant hParse hSteps
    have hPlain : ∀ pattern ∈ patterns, pattern.IsPlain :=
      fun _ hPattern =>
        Pattern.isPlain_of_parsePath
          (hFor.isPlain hBare hVariant).1 hParse hPattern
    exact
      ⟨Step.accepts_iff_fits hSteps hPlain
        fun _ => List.splitOn_ne_nil _ _, hPlain⟩
  rw [Registration.mem_takings_iff]
  simp only [hServes, true_and]
  constructor
  · rintro ⟨own, hOwn, patterns, hParse, hTakes⟩
    rcases hFor.exists_variant hOwn with
      ⟨variant, hVariant, rfl⟩
    rcases (hFor.exists_path hVariant).2 with
      ⟨others, hOthers, hSteps⟩
    rw [hParse] at hOthers
    cases hOthers
    rcases hAccepts hVariant hParse hSteps with
      ⟨hFits, hPlain⟩
    refine
      ⟨variant, hVariant, hFits.mp ⟨_, hTakes⟩, ?_⟩
    rw [Step.named_eq_bound hSteps]
    exact
      Pattern.eq_bound_of_takes hTakes fun pattern hPattern =>
        (hPlain pattern hPattern).isConfined
  · rintro ⟨variant, hVariant, hFits, rfl⟩
    rcases hFor.exists_path hVariant with
      ⟨hPath, patterns, hParse, hSteps⟩
    rcases hAccepts hVariant hParse hSteps with
      ⟨hAccepted, hPlain⟩
    rcases hAccepted.mpr hFits with ⟨bindings, hTakes⟩
    refine
      ⟨variant.path, hPath, patterns, hParse, ?_⟩
    have hBound :=
      Pattern.eq_bound_of_takes hTakes fun pattern hPattern =>
        (hPlain pattern hPattern).isConfined
    rw [Step.named_eq_bound hSteps, ← hBound]
    exact hTakes

/- A registration answers where one of its variants fits. -/
theorem IsFor.answers_iff
    (hFor : IsFor E registration route)
    (hBare : '{' ∉ registration.path)
    {method : Text}
    (hServes :
      Method.serves registration.method method = true)
    (path : Text) :
    registration.Answers E method path ↔
      ∃ variant ∈ route.variants,
        variant.Fits (path.splitOn '/') := by
  rw [Registration.answers_iff_exists_taking]
  simp only [hFor.mem_takings_iff hBare hServes path]
  constructor
  · rintro ⟨_, variant, hVariant, hFits, -⟩
    exact ⟨variant, hVariant, hFits⟩
  · rintro ⟨variant, hVariant, hFits⟩
    exact ⟨_, variant, hVariant, hFits, rfl⟩

end Planned

end PlannedRoute

end RequestRouter

------------------------------------------------------------
-- Answers for One Method
------------------------------------------------------------

namespace RequestRouter

variable {E : Regex.Engine}
variable {H : Type}

namespace Leaf

/-
  A decisive leaf has the handlers of the registrations that
  answer.
-/
theorem handlers_answer
    {registrations : List (Registration H)}
    {routes : List (PlannedRoute H)}
    {method path : Text}
    (hRoutes :
      List.Forall₂ (PlannedRoute.IsFor E) registrations
        routes)
    (hBare :
      ∀ registration ∈ registrations,
        '{' ∉ registration.path)
    (hServes :
      ∀ registration ∈ registrations,
        Method.serves registration.method method = true)
    {leaf : PlannedVariant}
    (hOwned :
      ∀ variant, PlannedRoute.HaveVariant routes variant →
        (isOwnedBy leaf variant = true ↔
          variant.Fits (path.splitOn '/'))) :
    (routes.filterMap (owner? leaf)).map (·.handler) =
      Registration.answering E registrations method path := by
  induction hRoutes with
  | nil => rfl
  | @cons registration route _ _ hFor _ ih =>
      have hRest :=
        ih (fun later hLater =>
            hBare later (List.mem_cons_of_mem _ hLater))
          (fun later hLater =>
            hServes later (List.mem_cons_of_mem _ hLater))
          (fun variant ⟨later, hLater, hVariant⟩ =>
            hOwned variant
              ⟨later, List.mem_cons_of_mem _ hLater,
                hVariant⟩)
      have hAnswers :=
        hFor.answers_iff (hBare registration (by simp))
          (hServes registration (by simp)) path
      rw [Registration.answering, List.filterMap_cons,
        List.filter_cons]
      rw [Registration.answering] at hRest
      cases hOwning :
          route.variants.filter (isOwnedBy leaf) with
      | nil =>
          have hSilent :
              ¬ registration.Answers E method path := by
            rw [hAnswers]
            rintro ⟨variant, hVariant, hFits⟩
            have hOwner :=
              (hOwned variant
                ⟨route, by simp, hVariant⟩).mpr hFits
            have hMember :
                variant ∈
                  route.variants.filter (isOwnedBy leaf) :=
              List.mem_filter.mpr ⟨hVariant, hOwner⟩
            simp [hOwning] at hMember
          simp [owner?, hOwning, hSilent, hRest]
      | cons variant more =>
          have hMember :
              variant ∈
                route.variants.filter (isOwnedBy leaf) := by
            simp [hOwning]
          rcases List.mem_filter.mp hMember with
            ⟨hVariant, hOwner⟩
          have hSpeaks :
              registration.Answers E method path :=
            hAnswers.mpr
              ⟨variant, hVariant,
                (hOwned variant
                  ⟨route, by simp, hVariant⟩).mp hOwner⟩
          simp [owner?, hOwning, hSpeaks, hRest, hFor.1]

/-
  A decisive leaf binds what the registrations bind, in the
  order of registration.
-/
theorem params_answer
    {registrations : List (Registration H)}
    {routes : List (PlannedRoute H)}
    {method path : Text}
    (hRoutes :
      List.Forall₂ (PlannedRoute.IsFor E) registrations
        routes)
    (hBare :
      ∀ registration ∈ registrations,
        '{' ∉ registration.path)
    (hServes :
      ∀ registration ∈ registrations,
        Method.serves registration.method method = true)
    {leaf : PlannedVariant}
    (hOwned :
      ∀ variant, PlannedRoute.HaveVariant routes variant →
        (isOwnedBy leaf variant = true ↔
          variant.Fits (path.splitOn '/')))
    (params : Params) :
    params.insertAll
        (routes.flatMap fun route =>
          (route.variants.filter (isOwnedBy leaf)).flatMap
            fun variant =>
              Step.named variant.steps (path.splitOn '/')) =
      params.insertAll
        (registrations.flatMap fun registration =>
          (registration.takings E method path).flatten) := by
  induction hRoutes generalizing params with
  | nil => rfl
  | @cons registration route _ _ hFor _ ih =>
      have hRest :=
        ih (fun later hLater =>
            hBare later (List.mem_cons_of_mem _ hLater))
          (fun later hLater =>
            hServes later (List.mem_cons_of_mem _ hLater))
          (fun variant ⟨later, hLater, hVariant⟩ =>
            hOwned variant
              ⟨later, List.mem_cons_of_mem _ hLater,
                hVariant⟩)
      have hOwn := hBare registration (by simp)
      have hLists :
          ∀ list,
            list ∈ registration.takings E method path ↔
              list ∈
                (route.variants.filter (isOwnedBy leaf)).map
                  fun variant =>
                    Step.named variant.steps
                      (path.splitOn '/') := by
        intro list
        rw [hFor.mem_takings_iff hOwn
          (hServes registration (by simp)), List.mem_map]
        constructor
        · rintro ⟨variant, hVariant, hFits, rfl⟩
          refine ⟨variant, ?_, rfl⟩
          exact
            List.mem_filter.mpr
              ⟨hVariant,
                (hOwned variant
                  ⟨route, by simp, hVariant⟩).mpr hFits⟩
        · rintro ⟨variant, hFiltered, rfl⟩
          rcases List.mem_filter.mp hFiltered with
            ⟨hVariant, hOwner⟩
          exact
            ⟨variant, hVariant,
              (hOwned variant
                ⟨route, by simp, hVariant⟩).mp hOwner, rfl⟩
      have hSame :=
        Params.insertAll_flatten_eq
          (Registration.areChained_takings E
            (Registration.isConfined_of_bare E hOwn) method
            path)
          hLists params
      rw [List.flatMap_cons, List.flatMap_cons,
        Params.insertAll_append, Params.insertAll_append,
        hSame, List.flatMap_def, hRest]

/- A decisive leaf has an owner. -/
theorem IsDecisive.handlers_ne_nil
    {routes : List (PlannedRoute H)}
    {parts : List Text}
    {leaf : PlannedVariant}
    (hLeaf : IsDecisive routes parts leaf) :
    (answer routes parts leaf).handlers ≠ [] := by
  rcases hLeaf.known with ⟨route, hRoute, hVariant⟩
  have hMember :
      leaf ∈ route.variants.filter (isOwnedBy leaf) :=
    List.mem_filter.mpr
      ⟨hVariant, by simp [isOwnedBy]⟩
  cases hOwning :
      route.variants.filter (isOwnedBy leaf) with
  | nil => simp [hOwning] at hMember
  | cons variant more =>
      have hOwner :
          owner? leaf route =
            some ⟨route.handler,
              (variant :: more).map (·.steps)⟩ := by
        simp [owner?, hOwning]
      refine List.ne_nil_of_mem (a := route.handler) ?_
      exact
        List.mem_map_of_mem (f := Owner.handler)
          (List.mem_filterMap.mpr ⟨route, hRoute, hOwner⟩)

end Leaf

namespace Registration

/- Where no planned variant fits, no registration answers. -/
theorem answering_eq_nil
    {registrations : List (Registration H)}
    {routes : List (PlannedRoute H)}
    {method path : Text}
    (hRoutes :
      List.Forall₂ (PlannedRoute.IsFor E) registrations
        routes)
    (hBare :
      ∀ registration ∈ registrations,
        '{' ∉ registration.path)
    (hServes :
      ∀ registration ∈ registrations,
        Method.serves registration.method method = true)
    (hNone :
      ∀ variant, PlannedRoute.HaveVariant routes variant →
        ¬ variant.Fits (path.splitOn '/')) :
    answering E registrations method path = [] := by
  rw [answering, List.map_eq_nil_iff,
    List.filter_eq_nil_iff]
  intro registration hMember
  rcases List.mem_iff_getElem.mp hMember with
    ⟨index, hIndex, rfl⟩
  have hBound := hRoutes.length_eq ▸ hIndex
  have hFor : PlannedRoute.IsFor E registrations[index] _ :=
    hRoutes.get hIndex hBound
  have hAnswers :=
    hFor.answers_iff (hBare _ hMember)
      (hServes _ hMember) path
  rw [decide_eq_true_iff, hAnswers]
  rintro ⟨variant, hVariant, hFits⟩
  exact
    hNone variant
      ⟨_, List.getElem_mem hBound, hVariant⟩ hFits

/- Only registrations that serve a method answer for it. -/
theorem answering_filter
    (registrations : List (Registration H))
    (method path : Text) :
    answering E
        (registrations.filter
          (Method.serves ·.method method))
        method path =
      answering E registrations method path := by
  unfold answering
  rw [List.filter_filter]
  congr 1
  refine List.filter_congr fun registration _ => ?_
  by_cases hAnswers : registration.Answers E method path
  · simp [hAnswers, hAnswers.1]
  · simp [hAnswers]

/- The others bind nothing. -/
theorem flatMap_takings_serving
    (registrations : List (Registration H))
    (method path : Text) :
    (registrations.filter
        (Method.serves ·.method method)).flatMap
        (fun registration =>
          (registration.takings E method path).flatten) =
      registrations.flatMap fun registration =>
        (registration.takings E method path).flatten := by
  apply flatMap_takings_filter
  intro registration hOther
  rw [takings, if_neg]
  simpa using hOther

end Registration

namespace MethodProgram

variable {registrations : List (Registration H)}
variable {routes : List (ParsedRoute E H)}

/- The routes of a plan are made for registrations. -/
theorem exists_planned_of_ofRoutes
    (hRoutes :
      List.Forall₂
        (fun registration route =>
          ParsedRoute.ofRegistration registration =
            .ok route)
        registrations routes)
    {method : Text}
    {plan : Plan H}
    (hPlan : Plan.ofRoutes routes method = .ok plan) :
    ∃ planned,
      Plan.ofLeaves (Leaf.ofRoutes planned) = .ok plan ∧
        List.Forall₂ (PlannedRoute.IsFor E)
          (registrations.filter
            (Method.serves ·.method method))
          planned := by
  rcases (Sequence.bind_eq_ok_iff _ _ _).mp hPlan with
    ⟨planned, hPlanned, hLeaves⟩
  refine ⟨planned, hLeaves, ?_⟩
  have hServing :=
    List.rel_filter
      (p := fun registration : Registration H =>
        Method.serves registration.method method)
      (q := fun route : ParsedRoute E H =>
        Method.serves route.method method)
      (fun _ _ hRoute => by
        simp only
        rw [(ParsedRoute.forall₂_of_ofRegistration
          hRoute).1])
      hRoutes
  have hAll := (Sequence.mapM_eq_ok_iff _ _ _).mp hPlanned
  revert hServing hAll
  generalize routes.filter
    (fun route => Method.serves route.method method) =
      serving
  generalize registrations.filter
    (fun registration =>
      Method.serves registration.method method) = wanted
  intro hServing hAll
  clear hPlanned hPlan hLeaves
  induction hServing generalizing planned with
  | nil =>
      cases hAll
      exact .nil
  | cons hFirst _ ih =>
      cases hAll with
      | cons hOwn hRest =>
          exact
            .cons (ParsedRoute.isFor_of_plan hFirst hOwn)
              (ih _ hRest)

/-
  The program of a method answers as a trie does that holds
  the same registrations.
-/
theorem find_eq_lookup
    (hE : E.IsLeftmostFirst)
    (hBare :
      ∀ registration ∈ registrations,
        '{' ∉ registration.path)
    (hRoutes :
      List.Forall₂
        (fun registration route =>
          ParsedRoute.ofRegistration registration =
            .ok route)
        registrations routes)
    {trie : Trie E H}
    (hTrie : trie.Reflects registrations)
    {method : Text}
    {program : MethodProgram E H}
    (hBuild : (build routes method).value = .ok program)
    {path : Text}
    (hLine : '\n' ∉ path) :
    program.find path = trie.lookup method path := by
  cases hPlan : Plan.ofRoutes routes method with
  | error error =>
      simp [build, hPlan, Traced.silent] at hBuild
  | ok plan =>
      have hProgram : (ofPlan method plan).value =
          .ok program := by
        simpa [build, hPlan] using hBuild
      rcases exists_planned_of_ofRoutes hRoutes hPlan with
        ⟨planned, hLeaves, hPlanned⟩
      have hServing :
          ∀ registration ∈
            registrations.filter
              (Method.serves ·.method method),
            '{' ∉ registration.path ∧
              Method.serves registration.method method =
                true := by
        intro registration hMember
        rcases List.mem_filter.mp hMember with
          ⟨hMember, hServes⟩
        exact ⟨hBare registration hMember, hServes⟩
      have hPlain : PlannedRoute.ArePlain E planned := by
        intro route hRoute variant hVariant
        rcases Sequence.exists_of_mem_right hPlanned hRoute
          with ⟨registration, hMember, hFor⟩
        exact
          hFor.isPlain (hServing _ hMember).1 hVariant
      have hHolds : plan.Holds (Leaf.ofRoutes planned) := by
        refine Plan.holds_of_ofLeaves hLeaves ?_
        intro leaf hLeaf
        exact
          (Plan.isPlain_of_haveVariant hPlain
            (Plan.exists_variant hLeaf).1).openLast
      rw [Trie.lookup_eq_takings hBare hTrie,
        ← Registration.answering_filter,
        ← Registration.flatMap_takings_serving]
      rcases find_cases hE hPlain hHolds hProgram hLine with
        ⟨hNone, hFind⟩ | ⟨leaf, hDecisive, hFind⟩
      · rw [hFind,
          Registration.answering_eq_nil hPlanned
            (fun _ hMember => (hServing _ hMember).1)
            (fun _ hMember => (hServing _ hMember).2) hNone]
        rfl
      · have hHandlers :=
          Leaf.handlers_answer hPlanned
            (fun _ hMember => (hServing _ hMember).1)
            (fun _ hMember => (hServing _ hMember).2)
            hDecisive.owned_iff
        have hParams :=
          Leaf.params_answer hPlanned
            (fun _ hMember => (hServing _ hMember).1)
            (fun _ hMember => (hServing _ hMember).2)
            hDecisive.owned_iff .empty
        have hSome := hDecisive.handlers_ne_nil
        unfold Leaf.answer at hFind hSome
        rw [hHandlers] at hFind hSome
        rw [hFind, Match.ofHandlers?, if_neg (by simpa),
          Params.ofList, hParams]
        rfl

end MethodProgram

end RequestRouter

------------------------------------------------------------
-- Answers of a Matcher
------------------------------------------------------------

namespace RequestRouter

open Regex

variable {E : Engine}
variable {H : Type}

namespace MethodProgram

/- The method is named in events only. -/
theorem value_ofPlan
    (method other : Text)
    (plan : Plan H) :
    (ofPlan (E := E) method plan).value =
      (ofPlan other plan).value := by
  unfold ofPlan
  dsimp only
  split
  · rfl
  · split <;> rfl

/- A method without routes of its own has those for all. -/
theorem value_build_of_not_mem
    {routes : List (ParsedRoute E H)}
    {method : Text}
    (hOther : ∀ route ∈ routes, route.method ≠ method) :
    (build routes method).value =
      (build routes Method.all).value := by
  have hServes :
      routes.filter (Method.serves ·.method method) =
        routes.filter
          (Method.serves ·.method Method.all) := by
    refine List.filter_congr fun route hRoute => ?_
    have hMethod := hOther route hRoute
    simp [Method.serves, hMethod]
  unfold build Plan.ofRoutes
  rw [hServes]
  split
  · rfl
  · exact value_ofPlan _ _ _

end MethodProgram

namespace Compiled

/- A matcher with registrations holds their routes, unbuilt. -/
theorem routes_of_adds
    {registrations : List (Registration H)}
    {matcher : Compiled E H}
    (hAdds :
      registrations.foldlM add empty = .ok matcher) :
    matcher.built = none ∧
      List.Forall₂
        (fun registration route =>
          ParsedRoute.ofRegistration registration =
            .ok route)
        registrations matcher.routes := by
  induction registrations using List.reverseRecOn
    generalizing matcher with
  | nil =>
      cases hAdds
      exact ⟨rfl, .nil⟩
  | append_singleton registrations registration ih =>
      rw [Sequence.foldlM_concat_eq_ok_iff] at hAdds
      rcases hAdds with ⟨before, hBefore, hAdd⟩
      rcases ih hBefore with ⟨hBuilt, hRoutes⟩
      rw [add, hBuilt] at hAdd
      rcases (Sequence.bind_eq_ok_iff _ _ _).mp hAdd with
        ⟨route, hRoute, hAfter⟩
      cases hAfter
      exact
        ⟨rfl,
          List.rel_append hRoutes (.cons hRoute .nil)⟩

/- What the matcher takes, a trie takes. -/
theorem exists_trie
    {registrations : List (Registration H)}
    {routes : List (ParsedRoute E H)}
    (hRoutes :
      List.Forall₂
        (fun registration route =>
          ParsedRoute.ofRegistration registration =
            .ok route)
        registrations routes)
    (start : Trie E H) :
    ∃ trie,
      registrations.foldlM Trie.add start = .ok trie := by
  apply Trie.exists_of_reads
  intro registration hMember variant hVariant
  rcases Sequence.exists_of_mem_left hRoutes hMember with
    ⟨route, -, hRoute⟩
  rcases
      Sequence.exists_of_mem_left
        (ParsedRoute.forall₂_of_ofRegistration hRoute).2.2
        hVariant with
    ⟨entry, -, -, hParse⟩
  exact ⟨entry.2, hParse⟩

/- The programs that are built, method by method. -/
theorem lookup_of_buildAll
    {routes : List (ParsedRoute E H)}
    {methods : List Text}
    {programs : Programs E H}
    (hBuild : (buildAll routes methods).value = .ok programs)
    (method : Text) :
    if method ∈ methods then
      ∃ program, programs.lookup method = some program ∧
        (MethodProgram.build routes method).value =
          .ok program
    else programs.lookup method = none := by
  induction methods generalizing programs with
  | nil =>
      cases hBuild
      simp
  | cons first rest ih =>
      rw [buildAll, Traced.value_bind] at hBuild
      cases hFirst :
          (MethodProgram.build routes first).value with
      | error error =>
          rw [hFirst] at hBuild
          cases hBuild
      | ok program =>
          rw [hFirst] at hBuild
          dsimp only at hBuild
          rw [Traced.value_bind] at hBuild
          cases hRest : (buildAll routes rest).value with
          | error error =>
              rw [hRest] at hBuild
              cases hBuild
          | ok others =>
              rw [hRest] at hBuild
              cases hBuild
              by_cases hSame : method = first
              · subst hSame
                simp [hFirst]
              · simp only [List.mem_cons, hSame, false_or,
                  List.lookup_cons, beq_false_of_ne hSame]
                exact ih hRest

/- For every method there is a program that answers. -/
theorem exists_program
    {routes : List (ParsedRoute E H)}
    {programs : Programs E H}
    (hBuild :
      (buildAll routes (methods routes)).value =
        .ok programs)
    (method : Text) :
    ∃ program,
      (MethodProgram.build routes method).value =
          .ok program ∧
        ∀ path,
          find programs method path = program.find path := by
  have hOwn := lookup_of_buildAll hBuild method
  split at hOwn
  case isTrue =>
      rcases hOwn with ⟨program, hProgram, hValue⟩
      exact ⟨program, hValue, by simp [find, hProgram]⟩
  case isFalse hOther =>
      have hAll := lookup_of_buildAll hBuild Method.all
      rw [if_pos (by simp [methods])] at hAll
      rcases hAll with ⟨program, hProgram, hValue⟩
      refine ⟨program, ?_, by simp [find, hOwn, hProgram]⟩
      rw [← hValue]
      refine MethodProgram.value_build_of_not_mem ?_
      rintro route hRoute rfl
      refine hOther ?_
      rw [methods, List.mem_eraseDups]
      exact
        List.mem_cons_of_mem _ (List.mem_map_of_mem hRoute)

/- The value of a lookup comes from the programs. -/
theorem value_lookup
    (matcher : Compiled E H)
    (method path : Text) :
    (matcher.lookup method path).value =
      match matcher.programs.value with
      | .error error => (.error error, matcher)
      | .ok programs =>
          (.ok (find programs method path),
            { matcher with built := some programs }) := by
  rw [lookup, Traced.value_bind]
  cases matcher.programs.value <;> rfl

/- The matcher that lookups leave behind. -/
def afterLookups
    (matcher : Compiled E H)
    (requests : List (Text × Text)) : Compiled E H :=
  requests.foldl
    (fun matcher request =>
      (matcher.lookup request.1 request.2).value.2)
    matcher

/- Lookups do not change the programs. -/
theorem programs_afterLookups
    (matcher : Compiled E H)
    (requests : List (Text × Text)) :
    (matcher.afterLookups requests).programs.value =
      matcher.programs.value := by
  induction requests generalizing matcher with
  | nil => rfl
  | cons request rest ih =>
      refine (ih _).trans ?_
      simp only [value_lookup]
      cases hPrograms : matcher.programs.value with
      | error error => exact hPrograms
      | ok programs => rfl

/-
  For routes without constraints, a matcher whose lookups do
  not fail agrees with a trie of the same registrations: on
  every request on one line, and after any lookups, it gives
  the same handlers and the same parameters in the same
  order.
-/
theorem lookup_eq_trie
    (hE : E.IsLeftmostFirst)
    {registrations : List (Registration H)}
    (hBare :
      ∀ registration ∈ registrations,
        '{' ∉ registration.path)
    {matcher : Compiled E H}
    (hAdds :
      registrations.foldlM add empty = .ok matcher)
    {first target : Text}
    {answer : Option (Match H)}
    (hLookup :
      (matcher.lookup first target).value.1 = .ok answer) :
    ∃ trie : Trie E H,
      registrations.foldlM Trie.add Trie.empty = .ok trie ∧
        ∀ requests method path, '\n' ∉ path →
          ((matcher.afterLookups requests).lookup method
              path).value.1 =
            .ok (trie.lookup method path) := by
  rcases routes_of_adds hAdds with ⟨hBuilt, hRoutes⟩
  rcases exists_trie hRoutes .empty with ⟨trie, hTrie⟩
  refine ⟨trie, hTrie, ?_⟩
  intro requests method path hLine
  rw [value_lookup] at hLookup ⊢
  rw [programs_afterLookups]
  cases hPrograms : matcher.programs.value with
  | error error =>
      rw [hPrograms] at hLookup
      cases hLookup
  | ok programs =>
      have hBuild :
          (buildAll matcher.routes
            (methods matcher.routes)).value =
              .ok programs := by
        rw [← hPrograms, Compiled.programs, hBuilt]
      rcases exists_program hBuild method with
        ⟨program, hValue, hFind⟩
      dsimp only
      rw [hFind,
        MethodProgram.find_eq_lookup hE hBare hRoutes
          (Trie.reflects_of_adds hTrie) hValue hLine]

/-
  An optional parameter, a wildcard for all methods and a
  literal.
-/
def mixed : List (Registration Nat) :=
  [⟨['G'],
      ['/', 'a', '/', ':', 'x', '/', ':', 'y', '?'], 0⟩,
    ⟨Method.all,
      ['/', 'a', '/', ':', 'x', '/', ':', 'y', '/', '*'], 1⟩,
    ⟨['G'], ['/', 'b'], 2⟩]

/- The optional parameter and the wildcard both answer. -/
theorem lookup_eq_trie_mixed :
    ∃ matcher : Compiled treeEngine Nat,
      mixed.foldlM add empty = .ok matcher ∧
        (matcher.lookup ['G']
            ['/', 'a', '/', 'c', '/', 'd']).value.1 =
          .ok
            (some
              ⟨[0, 1],
                ⟨[(['x'], ['c']), (['y'], ['d'])]⟩⟩) := by
  have hBare :
      ∀ registration ∈ mixed, '{' ∉ registration.path := by
    decide
  rcases
      @lookup_eq_trie treeEngine Nat
        isLeftmostFirst_treeEngine mixed hBare _ rfl ['G']
        ['/', 'b'] (some ⟨[2], ⟨[]⟩⟩) (by decide +kernel) with
    ⟨trie, hTrie, hAll⟩
  refine ⟨_, rfl, ?_⟩
  refine (hAll [] ['G'] _ (by decide)).trans ?_
  cases hTrie
  decide +kernel

end Compiled

end RequestRouter
