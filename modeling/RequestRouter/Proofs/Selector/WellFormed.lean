import RequestRouter.Proofs.Compiled.Reordering
import RequestRouter.Proofs.LinearScan.Agreement
import RequestRouter.Proofs.Selector.Choice

/-
  Answers are well formed.

  Whatever the regular expressions find, a match has at least
  one handler, its handlers are those of registrations that
  serve the method, in the order of registration and each of
  them once, and no parameter is bound twice. This is shown
  for each strategy from the registrations that a matcher
  keeps, and for selectors from the matchers they choose.

  Key definitions include:
    * `Match.IsWellFormed`
    * `Matcher.Keeps`

  Main statements:
    * `Match.isWellFormed_of_ofHandlers?`
    * `MethodProgram.isWellFormed_of_find`
    * `Matcher.keeps_perform`
    * `Matcher.isWellFormed_of_after`
-/

------------------------------------------------------------
-- Well-Formed Matches
------------------------------------------------------------

namespace RequestRouter

variable {H : Type}

namespace Match

/-
  Whether a match is well formed for a method when the given
  registrations have been accepted. The registrations that
  it is picked from are some of them in their order, each at
  most once.
-/
structure IsWellFormed
    (registrations : List (Registration H))
    (method : Text)
    (found : Match H) : Prop where
  handlers_ne_nil : found.handlers ≠ []
  exists_picked :
    ∃ picked : List (Registration H),
      picked.Sublist registrations ∧
        found.handlers = picked.map (·.handler) ∧
        ∀ registration ∈ picked,
          Method.serves registration.method method = true
  nodup_names : found.params.names.Nodup

/-
  Things that are chosen among the companions of some
  registrations are picked from these.
-/
theorem exists_picked_of_forall₂
    {α β : Type}
    {registrations : List (Registration H)}
    {companions : List α}
    {choose : α → Option β}
    {handler : β → H}
    {wanted : Registration H → Prop}
    (hAll :
      List.Forall₂
        (fun registration companion =>
          ∀ chosen, choose companion = some chosen →
            handler chosen = registration.handler ∧
              wanted registration)
        registrations companions) :
    ∃ picked : List (Registration H),
      picked.Sublist registrations ∧
        (companions.filterMap choose).map handler =
          picked.map (·.handler) ∧
        ∀ registration ∈ picked, wanted registration := by
  induction hAll with
  | nil => exact ⟨[], .slnil, rfl, by simp⟩
  | @cons registration companion _ _ hFirst _ ih =>
      rcases ih with ⟨picked, hSublist, hHandlers, hWanted⟩
      cases hChoose : choose companion with
      | none =>
          refine ⟨picked, hSublist.cons _, ?_, hWanted⟩
          rw [List.filterMap_cons_none hChoose, hHandlers]
      | some chosen =>
          rcases hFirst chosen hChoose with
            ⟨hHandler, hOwn⟩
          refine
            ⟨registration :: picked, hSublist.cons_cons _,
              ?_, List.forall_mem_cons.mpr ⟨hOwn, hWanted⟩⟩
          rw [List.filterMap_cons_some hChoose,
            List.map_cons, hHandler, hHandlers,
            List.map_cons]

/-
  A match that is made of handlers picked that way is well
  formed.
-/
theorem isWellFormed_of_ofHandlers?
    {registrations : List (Registration H)}
    {method : Text}
    {handlers : List H}
    (hPicked :
      ∃ picked : List (Registration H),
        picked.Sublist registrations ∧
          handlers = picked.map (·.handler) ∧
          ∀ registration ∈ picked,
            Method.serves registration.method method = true)
    {params : Params}
    (hNodup : params.names.Nodup)
    {found : Match H}
    (hFound : ofHandlers? handlers params = some found) :
    found.IsWellFormed registrations method := by
  unfold ofHandlers? at hFound
  split at hFound
  case isTrue => cases hFound
  case isFalse hSome =>
      cases hFound
      exact ⟨by simpa using hSome, hPicked, hNodup⟩

end Match

end RequestRouter

------------------------------------------------------------
-- Answers of Strategies
------------------------------------------------------------

namespace RequestRouter

variable {E : Regex.Engine}
variable {H : Type}
variable {registrations : List (Registration H)}
variable {method path : Text}
variable {found : Match H}

/- A trie answers with those that match. -/
theorem Trie.isWellFormed_of_lookup
    {trie : Trie E H}
    (hTrie : trie.Reflects registrations)
    (hFound : trie.lookup method path = some found) :
    found.IsWellFormed registrations method := by
  refine
    Match.isWellFormed_of_ofHandlers? ?_
      (Params.nodup_ofList _) hFound
  refine
    ⟨_, List.filter_sublist,
      handlersOf_hits hTrie method path, ?_⟩
  intro registration hMember
  have hAnswers := (List.mem_filter.mp hMember).2
  exact (of_decide_eq_true hAnswers).1

/- A scan answers with those whose variants match. -/
theorem LinearScan.isWellFormed_of_lookup
    {scan : LinearScan E H}
    (hRoutes :
      List.Forall₂ ScanRoute.IsFor registrations scan.routes)
    (hFound : scan.lookup method path = some found) :
    found.IsWellFormed registrations method := by
  refine
    Match.isWellFormed_of_ofHandlers? ?_
      (Params.nodup_ofList _) hFound
  refine Match.exists_picked_of_forall₂ (hRoutes.imp ?_)
  intro registration route hFor chosen hChosen
  rw [← hFor.method, ← hFor.handler]
  split at hChosen
  case isTrue hServes =>
      rcases Option.map_eq_some_iff.mp hChosen with
        ⟨bindings, -, rfl⟩
      exact ⟨rfl, hServes⟩
  case isFalse => cases hChosen

/- A table of literals answers with those of the same path. -/
theorem LiteralTable.isWellFormed_of_lookup
    {table : LiteralTable H}
    (hFound : table.lookup method path = some found) :
    found.IsWellFormed table.entries method := by
  refine
    Match.isWellFormed_of_ofHandlers? ?_
      (by simp [Params.empty, Params.names]) hFound
  refine ⟨_, List.filter_sublist, rfl, ?_⟩
  intro registration hMember
  have hAnswers := (List.mem_filter.mp hMember).2
  rw [answers, Bool.and_eq_true] at hAnswers
  exact hAnswers.2

end RequestRouter

------------------------------------------------------------
-- Answers of Compiled Matchers
------------------------------------------------------------

namespace RequestRouter

variable {E : Regex.Engine}
variable {H : Type}
variable {registrations : List (Registration H)}
variable {method path : Text}
variable {found : Match H}

namespace Leaf

/- The route that a leaf is made for owns it. -/
theorem handlers_ne_nil
    {routes : List (PlannedRoute H)}
    {leaf : Leaf H}
    (hLeaf : leaf ∈ ofRoutes routes) :
    leaf.handlers ≠ [] := by
  rcases exists_variant_of_mem_ofRoutes hLeaf with
    ⟨route, hRoute, variant, hVariant, rfl⟩
  have hOwning :
      variant ∈ route.variants.filter
        (isOwnedBy variant) :=
    List.mem_filter.mpr ⟨hVariant, by simp [isOwnedBy]⟩
  have hOwner : ∃ owner, owner? variant route = some owner := by
    rw [owner?]
    split
    case h_1 hNone =>
        rw [hNone] at hOwning
        cases hOwning
    case h_2 => exact ⟨_, rfl⟩
  rcases hOwner with ⟨owner, hOwner⟩
  have hMember :
      owner ∈ routes.filterMap (owner? variant) :=
    List.mem_filterMap.mpr ⟨route, hRoute, hOwner⟩
  exact
    List.ne_nil_of_mem
      (List.mem_map_of_mem (f := Owner.handler) hMember)

/- The owners of a leaf are routes that serve its method. -/
theorem exists_picked
    {planned : List (PlannedRoute H)}
    (hPlanned :
      List.Forall₂ (PlannedRoute.IsFor E)
        (registrations.filter
          (Method.serves ·.method method))
        planned)
    {leaf : Leaf H}
    (hLeaf : leaf ∈ ofRoutes planned) :
    ∃ picked : List (Registration H),
      picked.Sublist registrations ∧
        leaf.handlers = picked.map (·.handler) ∧
        ∀ registration ∈ picked,
          Method.serves registration.method method =
            true := by
  rcases exists_variant_of_mem_ofRoutes hLeaf with
    ⟨-, -, variant, -, rfl⟩
  have hOwners :
      List.Forall₂
        (fun (registration : Registration H)
            (route : PlannedRoute H) =>
          ∀ owner, owner? variant route = some owner →
            owner.handler = registration.handler ∧ True)
        (registrations.filter
          (Method.serves ·.method method))
        planned := by
    refine hPlanned.imp fun registration route hFor => ?_
    intro owner hOwner
    rw [handler_of_owner? hOwner]
    exact ⟨hFor.1, trivial⟩
  rcases Match.exists_picked_of_forall₂ hOwners with
    ⟨picked, hSublist, hHandlers, -⟩
  refine
    ⟨picked, hSublist.trans List.filter_sublist, hHandlers,
      ?_⟩
  intro registration hMember
  exact (List.mem_filter.mp (hSublist.subset hMember)).2

end Leaf

namespace DynamicTable

/- A table of leaves answers for one of them. -/
theorem exists_leaf_of_find
    {program : E.Program}
    {emission : Emission}
    {dynamics : List (Leaf H × List Nat)}
    (hFound :
      (ofPlan program emission dynamics).find path =
        some found) :
    found.params.names.Nodup ∧
      ∃ entry ∈ dynamics,
        found.handlers = entry.1.handlers := by
  unfold find at hFound
  rcases Option.bind_eq_some_iff.mp hFound with
    ⟨captures, -, hMarker⟩
  rcases Option.bind_eq_some_iff.mp hMarker with
    ⟨⟨group, index⟩, -, hIndexed⟩
  rcases Option.bind_eq_some_iff.mp hIndexed with
    ⟨leaf, hLeaf, hMatch⟩
  cases hMatch
  rcases List.mem_map.mp (List.mem_of_getElem? hLeaf) with
    ⟨⟨own, trail⟩, hEntry, rfl⟩
  exact
    ⟨Params.nodup_ofList _, (own, trail), hEntry, rfl⟩

end DynamicTable

namespace MethodProgram

/- A program answers for a leaf of the plan it is built from. -/
theorem exists_leaf_of_find
    {plan : Plan H}
    {program : MethodProgram E H}
    (hProgram : (ofPlan method plan).value = .ok program)
    (hFound : program.find path = some found) :
    found.params.names.Nodup ∧
      ∃ leaf : Leaf H,
        (leaf ∈ plan.statics ∨
          leaf ∈ plan.dynamics.map Prod.fst) ∧
        found.handlers = leaf.handlers := by
  rcases exists_of_ofPlan hProgram with
    ⟨hStatics, hDynamics⟩
  unfold find at hFound
  split at hFound
  case h_1 handlers hLookup =>
      cases hFound
      rw [hStatics, List.lookup_eq_some_iff] at hLookup
      rcases hLookup with ⟨front, back, hSplit, -⟩
      have hEntry :
          (path, handlers) ∈ staticsOf plan := by
        rw [hSplit]
        simp
      rcases List.mem_map.mp hEntry with
        ⟨leaf, hLeaf, hPair⟩
      cases hPair
      exact
        ⟨by simp [Params.empty, Params.names], leaf,
          Or.inl hLeaf, rfl⟩
  case h_2 =>
      rcases Option.bind_eq_some_iff.mp hFound with
        ⟨table, hTable, hFind⟩
      rcases hDynamics with
        ⟨-, hNone⟩ | ⟨-, compiled, -, hSome⟩
      · rw [hNone] at hTable
        cases hTable
      · rw [hSome, Option.some_inj] at hTable
        subst hTable
        rcases DynamicTable.exists_leaf_of_find hFind with
          ⟨hNodup, ⟨leaf, trail⟩, hEntry, hHandlers⟩
        exact
          ⟨hNodup, leaf,
            Or.inr (List.mem_map_of_mem hEntry), hHandlers⟩

/- A program for registrations answers with some of them. -/
theorem isWellFormed_of_find
    {routes : List (ParsedRoute E H)}
    (hRoutes :
      List.Forall₂
        (fun registration route =>
          ParsedRoute.ofRegistration registration =
            .ok route)
        registrations routes)
    {program : MethodProgram E H}
    (hBuild : (build routes method).value = .ok program)
    (hFound : program.find path = some found) :
    found.IsWellFormed registrations method := by
  unfold build at hBuild
  split at hBuild
  case h_1 => cases hBuild
  case h_2 plan hPlan =>
      rcases exists_planned_of_ofRoutes hRoutes hPlan with
        ⟨planned, hLeaves, hPlanned⟩
      have hRead : PlannedRoute.AreRead E planned := by
        intro variant hVariant
        rcases List.mem_flatMap.mp hVariant with
          ⟨route, hRoute, hOwn⟩
        rcases Sequence.exists_of_mem_right hPlanned hRoute
          with ⟨registration, -, hFor⟩
        exact (hFor.exists_path hOwn).2
      have hHolds :=
        Plan.holds_of_ofLeaves hLeaves
          (Plan.openLast_ofRoutes hRead)
      rcases exists_leaf_of_find hBuild hFound with
        ⟨hNodup, leaf, hLeaf, hHandlers⟩
      have hMember : leaf ∈ Leaf.ofRoutes planned := by
        rw [hHolds.statics, hHolds.dynamics] at hLeaf
        rcases hLeaf with hLeaf | hLeaf
        · exact (List.mem_filter.mp hLeaf).1
        · exact (List.mem_filter.mp hLeaf).1
      refine ⟨?_, ?_, hNodup⟩
      · rw [hHandlers]
        exact Leaf.handlers_ne_nil hMember
      · rw [hHandlers]
        exact Leaf.exists_picked hPlanned hMember

end MethodProgram

namespace Compiled

/- So do the programs of a matcher. -/
theorem isWellFormed_of_find
    {routes : List (ParsedRoute E H)}
    (hRoutes :
      List.Forall₂
        (fun registration route =>
          ParsedRoute.ofRegistration registration =
            .ok route)
        registrations routes)
    {programs : Programs E H}
    (hBuild :
      (buildAll routes (methods routes)).value =
        .ok programs)
    (hFound : find programs method path = some found) :
    found.IsWellFormed registrations method := by
  rcases exists_program hBuild method with
    ⟨program, hProgram, hFind⟩
  rw [hFind] at hFound
  exact
    MethodProgram.isWellFormed_of_find hRoutes hProgram
      hFound

end Compiled

end RequestRouter

------------------------------------------------------------
-- What Matchers Keep
------------------------------------------------------------

namespace RequestRouter

variable {E : Regex.Engine}
variable {H : Type}

namespace Matcher

/-
  Whether a matcher keeps just the given registrations, in
  their order. The programs of a compiled matcher are those
  of the routes that it keeps. A selector keeps what it has
  recorded, and then what its choice keeps; one that failed
  answers nothing.
-/
def Keeps
    (registrations : List (Registration H)) :
    Matcher E H → Prop
  | .compiled matcher =>
      List.Forall₂
        (fun registration route =>
          ParsedRoute.ofRegistration registration =
            .ok route)
        registrations matcher.routes ∧
      ∀ programs, matcher.built = some programs →
        (Compiled.buildAll matcher.routes
          (Compiled.methods matcher.routes)).value =
            .ok programs
  | .trie matcher => matcher.Reflects registrations
  | .linear matcher =>
      List.Forall₂ ScanRoute.IsFor registrations
        matcher.routes
  | .static matcher => matcher.entries = registrations
  | .pending _ routes => routes = registrations
  | .chosen matcher => matcher.Keeps registrations
  | .failed _ => True

/- A fresh matcher keeps nothing. -/
theorem keeps_fresh
    (blueprint : Blueprint) :
    Keeps [] (blueprint.fresh : Matcher E H) := by
  match blueprint with
  | .plain .compiled =>
      exact ⟨.nil, fun _ hBuilt => by cases hBuilt⟩
  | .plain .trie => exact Trie.reflects_empty
  | .plain .linear => exact .nil
  | .plain .static => rfl
  | .selector candidates => rfl

/- What a matcher takes it keeps behind the others. -/
theorem keeps_add
    {registrations : List (Registration H)}
    {matcher next : Matcher E H}
    (hKeeps : matcher.Keeps registrations)
    {registration : Registration H}
    (hAdd : (matcher.add registration).value = .ok next) :
    next.Keeps (registrations ++ [registration]) := by
  cases adds_of_add hAdd with
  | trie hOwn => exact Trie.reflects_add hKeeps hOwn
  | pending => exact congrArg (· ++ [registration]) hKeeps
  | @compiled own after hOwn =>
      rw [Compiled.add] at hOwn
      split at hOwn
      case isTrue => cases hOwn
      case isFalse hBuilt =>
          rcases (Sequence.bind_eq_ok_iff _ _ _).mp hOwn with
            ⟨route, hRoute, hAfter⟩
          cases hAfter
          refine
            ⟨List.rel_append hKeeps.1 (.cons hRoute .nil),
              ?_⟩
          intro programs hPrograms
          have hSome : own.built = some programs := hPrograms
          exact absurd (by simp [hSome]) hBuilt
  | linear hOwn =>
      rcases (Sequence.bind_eq_ok_iff _ _ _).mp hOwn with
        ⟨variants, hVariants, hAfter⟩
      cases hAfter
      have hFor :=
        (Sequence.mapM_eq_ok_iff _ _ _).mp hVariants
      exact
        List.rel_append hKeeps (.cons ⟨rfl, rfl, hFor⟩ .nil)
  | static hOwn =>
      rcases (Sequence.bind_eq_ok_iff _ _ _).mp hOwn with
        ⟨patterns, -, hAfter⟩
      split at hAfter
      · cases hAfter
      · cases hAfter
        exact congrArg (· ++ [registration]) hKeeps

/- So it does with several in a row. -/
theorem keeps_addAll
    {registrations routes : List (Registration H)}
    {matcher next : Matcher E H}
    (hKeeps : matcher.Keeps registrations)
    (hAdds : (matcher.addAll routes).value = .ok next) :
    next.Keeps (registrations ++ routes) := by
  induction routes generalizing matcher registrations with
  | nil =>
      cases hAdds
      rw [List.append_nil]
      exact hKeeps
  | cons registration rest ih =>
      rw [addAll, Traced.value_bind] at hAdds
      cases hFirst : (matcher.add registration).value with
      | error error =>
          rw [hFirst] at hAdds
          cases hAdds
      | ok middle =>
          rw [hFirst] at hAdds
          rw [List.append_cons]
          exact ih (keeps_add hKeeps hFirst) hAdds

end Matcher

end RequestRouter

------------------------------------------------------------
-- Lookups
------------------------------------------------------------

namespace RequestRouter

variable {E : Regex.Engine}
variable {H : Type}
variable {registrations : List (Registration H)}

namespace Matcher

/-
  Whether a reply is no match or a well-formed one, and the
  matcher behind it keeps the registrations.
-/
structure RepliesWell
    (registrations : List (Registration H))
    (method : Text)
    (reply : Reply H)
    (matcher : Matcher E H) : Prop where
  keeps : matcher.Keeps registrations
  isWellFormed :
    ∀ found, reply = .ok (some found) →
      found.IsWellFormed registrations method

/- Programs that are there already are the same ones. -/
theorem Keeps.buildAll
    {matcher : Compiled E H}
    (hKeeps : (compiled matcher).Keeps registrations)
    {programs : Programs E H}
    (hPrograms : matcher.programs.value = .ok programs) :
    (Compiled.buildAll matcher.routes
      (Compiled.methods matcher.routes)).value =
        .ok programs := by
  rw [Compiled.programs] at hPrograms
  split at hPrograms
  case h_1 built hBuilt =>
      cases hPrograms
      exact hKeeps.2 _ hBuilt
  case h_2 => exact hPrograms

/- A plain matcher replies well from what it keeps. -/
theorem repliesWell_of_isOf
    {strategy : Strategy}
    {matcher : Matcher E H}
    (hOf : matcher.IsOf strategy)
    (hKeeps : matcher.Keeps registrations)
    (method path : Text) :
    RepliesWell registrations method
      (matcher.lookup method path).value.1
      (matcher.lookup method path).value.2 := by
  cases matcher with
  | pending | chosen | failed => exact hOf.elim
  | trie matcher =>
      refine ⟨hKeeps, fun found hFound => ?_⟩
      exact
        Trie.isWellFormed_of_lookup hKeeps
          (Except.ok.inj hFound)
  | linear matcher =>
      refine ⟨hKeeps, fun found hFound => ?_⟩
      exact
        LinearScan.isWellFormed_of_lookup hKeeps
          (Except.ok.inj hFound)
  | static matcher =>
      refine ⟨hKeeps, fun found hFound => ?_⟩
      rw [Keeps] at hKeeps
      subst hKeeps
      exact
        LiteralTable.isWellFormed_of_lookup
          (Except.ok.inj hFound)
  | compiled matcher =>
      have hLookup :
          ((Matcher.compiled matcher).lookup method
              path).value =
            ((matcher.lookup method path).value.1,
              .compiled
                (matcher.lookup method path).value.2) := rfl
      rw [hLookup, Compiled.value_lookup]
      cases hBuild : matcher.programs.value with
      | error error =>
          exact ⟨hKeeps, fun _ hFound => by cases hFound⟩
      | ok programs =>
          have hOwn := hKeeps.buildAll hBuild
          refine ⟨⟨hKeeps.1, ?_⟩, fun found hFound => ?_⟩
          · rintro _ ⟨⟩
            exact hOwn
          · exact
              Compiled.isWellFormed_of_find hKeeps.1 hOwn
                (Except.ok.inj hFound)

end Matcher

namespace Selection

/- Whether a trial, if it succeeds, replies well. -/
def FitsTrial
    (routes : List (Registration H))
    (method : Text)
    (trial : Trial E H) : Prop :=
  ∀ answer matcher, trial = .ok (answer, matcher) →
    Matcher.RepliesWell routes method (.ok answer) matcher

/- A plain matcher that is tried on routes replies well. -/
theorem fitsTrial_plain
    (routes : List (Registration H))
    (method path : Text)
    (strategy : Strategy) :
    FitsTrial routes method
      (attempt (E := E) routes method path
        (.plain strategy)).value := by
  intro answer next hTrial
  rw [value_attempt] at hTrial
  cases hLoad : strategy.load E routes with
  | error error =>
      rw [hLoad] at hTrial
      cases hTrial
  | ok matcher =>
      rw [hLoad] at hTrial
      have hKeeps : matcher.Keeps routes := by
        have hAdds := hLoad
        rw [Strategy.load_eq] at hAdds
        have hAll :=
          Matcher.keeps_addAll
            (Matcher.keeps_fresh (.plain strategy)) hAdds
        rwa [List.nil_append] at hAll
      have hReplies :=
        Matcher.repliesWell_of_isOf
          (Strategy.isOf_of_load hLoad) hKeeps method path
      cases hReply :
          (matcher.lookup method path).value.1 with
      | error error =>
          simp [Except.bind, Except.map, hReply] at hTrial
      | ok found =>
          simp only [Except.bind, Except.map, hReply,
            Except.ok.injEq, Prod.mk.injEq] at hTrial
          rcases hTrial with ⟨rfl, rfl⟩
          rwa [hReply] at hReplies

mutual

/- A candidate that is tried on routes replies well. -/
theorem fitsTrial_attempt
    (routes : List (Registration H))
    (method path : Text)
    (blueprint : Blueprint) :
    FitsTrial routes method
      (attempt (E := E) routes method path
        blueprint).value := by
  cases blueprint with
  | plain strategy =>
      exact fitsTrial_plain routes method path strategy
  | selector candidates =>
      intro answer next hTrial
      have hChoose :=
        fitsTrial_choose routes method path path candidates
      rw [attempt, Traced.value_bind] at hTrial
      split at hTrial
      case h_1 => cases hTrial
      case h_2 =>
          rw [Traced.value_bind] at hTrial
          split at hTrial
          case h_1 => cases hTrial
          case h_2 found matcher hOwn =>
              cases hTrial
              have hReplies := hChoose _ _ hOwn
              exact ⟨hReplies.keeps, hReplies.isWellFormed⟩

/- So does the one that is chosen. -/
theorem fitsTrial_choose
    (routes : List (Registration H))
    (method path rejected : Text)
    (candidates : List Blueprint) :
    FitsTrial routes method
      (choose (E := E) routes method path rejected
        candidates).value := by
  cases candidates with
  | nil =>
      intro answer next hTrial
      rw [choose, Traced.value_bind] at hTrial
      cases hTrial
  | cons candidate rest =>
      have hFirst :=
        fitsTrial_attempt routes method path candidate
      have hRest := fun unsupported =>
        fitsTrial_choose routes method path unsupported rest
      intro answer next hTrial
      rw [choose, Traced.value_bind] at hTrial
      split at hTrial
      case h_1 trial hOwn =>
          exact hFirst answer next (hOwn.trans hTrial)
      case h_2 unsupported hOwn =>
          exact hRest unsupported answer next hTrial
      case h_3 => cases hTrial

end

end Selection

namespace Matcher

/- Every matcher replies well from what it keeps. -/
theorem repliesWell_lookup
    {matcher : Matcher E H}
    (hKeeps : matcher.Keeps registrations)
    (method path : Text) :
    RepliesWell registrations method
      (matcher.lookup method path).value.1
      (matcher.lookup method path).value.2 := by
  induction matcher with
  | compiled matcher =>
      have hOf :
          (Matcher.compiled matcher : Matcher E H).IsOf
            .compiled := rfl
      exact repliesWell_of_isOf hOf hKeeps method path
  | trie matcher =>
      have hOf :
          (Matcher.trie matcher : Matcher E H).IsOf
            .trie := rfl
      exact repliesWell_of_isOf hOf hKeeps method path
  | linear matcher =>
      have hOf :
          (Matcher.linear matcher : Matcher E H).IsOf
            .linear := rfl
      exact repliesWell_of_isOf hOf hKeeps method path
  | static matcher =>
      have hOf :
          (Matcher.static matcher : Matcher E H).IsOf
            .static := rfl
      exact repliesWell_of_isOf hOf hKeeps method path
  | failed error =>
      exact ⟨trivial, fun _ hFound => by cases hFound⟩
  | chosen matcher ih =>
      have hReplies := ih hKeeps
      exact ⟨hReplies.keeps, hReplies.isWellFormed⟩
  | pending candidates routes =>
      have hTrial :=
        Selection.fitsTrial_choose (E := E) routes method path
          path candidates
      rw [Keeps] at hKeeps
      subst hKeeps
      rw [lookup, Traced.value_bind]
      cases hChoose :
          (Selection.choose (E := E) routes method path path
            candidates).value with
      | error error =>
          exact ⟨trivial, fun _ hFound => by cases hFound⟩
      | ok outcome =>
          rw [hChoose] at hTrial
          have hReplies := hTrial outcome.1 outcome.2 rfl
          exact ⟨hReplies.keeps, hReplies.isWellFormed⟩

/- A call leaves a matcher with what it has accepted. -/
theorem keeps_perform
    {matcher : Matcher E H}
    (hKeeps : matcher.Keeps registrations)
    (call : Call H) :
    (matcher.perform call).2.Keeps
      (registrations ++
        taken call (matcher.perform call).1) := by
  cases call with
  | lookup method path =>
      rw [taken, List.append_nil]
      exact (repliesWell_lookup hKeeps method path).keeps
      all_goals simp
  | add registration =>
      rcases matcher.perform_add registration with
        ⟨next, hAdd, hPerform⟩ | ⟨error, hPerform⟩
      · rw [hPerform]
        exact keeps_add hKeeps hAdd
      · rw [hPerform, taken, List.append_nil]
        · exact hKeeps
        all_goals simp

/- So does a run of calls. -/
theorem keeps_after
    {matcher : Matcher E H}
    (hKeeps : matcher.Keeps registrations)
    (calls : List (Call H)) :
    (matcher.after calls).Keeps
      (registrations ++ matcher.accepted calls) := by
  induction calls generalizing matcher registrations with
  | nil =>
      rw [accepted, List.append_nil]
      exact hKeeps
  | cons call rest ih =>
      rw [accepted, ← List.append_assoc]
      exact ih (keeps_perform hKeeps call)

/-
  Every match that a matcher finds after a run of calls is
  well formed with the registrations that the run accepted.
-/
theorem isWellFormed_of_after
    (blueprint : Blueprint)
    (calls : List (Call H))
    {method path : Text}
    {found : Match H}
    (hFound :
      (((blueprint.fresh : Matcher E H).after calls).lookup
        method path).value.1 = .ok (some found)) :
    found.IsWellFormed
      ((blueprint.fresh : Matcher E H).accepted calls)
      method := by
  have hKeeps :=
    keeps_after (keeps_fresh (E := E) blueprint) calls
  rw [List.nil_append] at hKeeps
  exact
    (repliesWell_lookup hKeeps method path).isWellFormed
      found hFound

end Matcher

end RequestRouter
