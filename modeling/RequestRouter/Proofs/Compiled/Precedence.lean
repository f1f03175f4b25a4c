import RequestRouter.Proofs.Compiled.Spelling
import RequestRouter.Proofs.SegmentTree.Precedence

/-
  Registrations that are not shadowed by others.

  The edges of a set of paths may share a capture that can
  leave its segment. If none of the paths part behind such a
  capture, every registration that matches a request alone
  is among the owners of the answer. If some do, the first
  way of a combined expression may be that of another path.

  Key definitions include:
    * `Registration.edgesFor`

  Main statements:
    * `MethodProgram.exists_owned`
    * `Compiled.lookup_of_alone`
-/

------------------------------------------------------------
-- Owners of Spelled Paths
------------------------------------------------------------

namespace RequestRouter

open Regex

variable {E : Engine}
variable {H : Type}

namespace PlannedVariant

variable {variant : PlannedVariant}

/- The edges of a variant are written. -/
theorem IsRead.areWritten
    (hRead : variant.IsRead E) :
    Edge.AreWritten (Step.edges variant.steps) := by
  rcases hRead with ⟨patterns, hParse, hSteps⟩
  exact Step.areWritten_of_ofPatterns hParse hSteps

/- A variant has steps. -/
theorem IsRead.edges_ne_nil
    (hRead : variant.IsRead E) :
    Step.edges variant.steps ≠ [] := by
  rcases hRead with ⟨patterns, hParse, hSteps⟩
  have hLabels := Step.followLabels_of_ofPatternsFrom hSteps
  rw [Pattern.map_label_of_parsePath hParse] at hLabels
  intro hNone
  rw [hNone] at hLabels
  exact
    Path.split_ne_nil variant.path
      (List.forall₂_nil_left_iff.mp hLabels)

end PlannedVariant

section Planned

variable {routes : List (PlannedRoute H)}
variable {plan : Plan H}

namespace Plan

/- The edges to all leaves of the tree are written. -/
theorem isWritten
    (hRead : PlannedRoute.AreRead E routes)
    (hPlan : plan.Holds (Leaf.ofRoutes routes)) :
    plan.tree.root.IsWritten := by
  intro edges trail number hHas
  rcases (hPlan.hasLeaf_iff _ _ _).mp hHas with
    ⟨leaf, hLeaf, rfl⟩
  rcases
      Leaf.exists_variant_of_mem_ofRoutes
        (hPlan.mem_of_dynamics hLeaf).1 with
    ⟨route, hRoute, variant, hVariant, rfl⟩
  have hOwn :=
    hRead variant
      (List.mem_flatMap.mpr ⟨route, hRoute, hVariant⟩)
  exact hOwn.areWritten

/-
  A literal path of the table is owned by every variant that
  spells it.
-/
theorem isOwnedBy_of_static
    (hRead : PlannedRoute.AreRead E routes)
    (hPlan : plan.Holds (Leaf.ofRoutes routes))
    {leaf variant : PlannedVariant}
    (hLeaf : leaf ∈ routes.flatMap (·.variants))
    (hLiteral : Step.allLiteral leaf.steps = true)
    (hAdmits : plan.tree.admits leaf.steps = true)
    (hVariant : variant ∈ routes.flatMap (·.variants))
    {texts : List (Option Text)}
    (hSpells : variant.Spells leaf.path texts) :
    Leaf.isOwnedBy leaf variant = true := by
  have hOwn := hRead leaf hLeaf
  have hOther := hRead variant hVariant
  cases hKind : Step.allLiteral variant.steps with
  | true =>
      have hPath :=
        (hOther.spells_iff_of_literal hKind leaf.path).mp
          ⟨texts, hSpells⟩
      simp [Leaf.isOwnedBy, hPath]
  | false =>
      rcases
          exists_dynamics_of_mem hRead hPlan hVariant
            hKind with
        ⟨trail, number, -, hHas⟩
      rcases
          (hOwn.spells_iff_of_literal hLiteral
            leaf.path).mpr rfl with
        ⟨ownTexts, hOwnSpells⟩
      have hSome : leaf.steps ≠ [] := by
        intro hNone
        exact hOwn.edges_ne_nil (by simp [hNone, Step.edges])
      have hCovers :=
        TreeNode.covers_of_spells_of_admits
          hPlan.sound.orderly hHas hOther.areWritten hSpells
          hLiteral hOwn.areWritten hOwnSpells
          (Or.inr ⟨hOther.edges_ne_nil, hSome⟩) hAdmits
      rcases (Step.edgeCovers_iff _ _).mp hCovers with
        hSame | hCovers
      · rw [Step.allLiteral_eq, hSame, ← Step.allLiteral_eq,
          hLiteral] at hKind
        cases hKind
      · simp [Leaf.isOwnedBy, hCovers]

/-
  The foremost leaf is owned by every variant of the tree
  that spells the path and parts from it early.
-/
theorem isOwnedBy_of_foremost
    (hRead : PlannedRoute.AreRead E routes)
    (hPlan : plan.Holds (Leaf.ofRoutes routes))
    {leaf variant : PlannedVariant}
    {path : Text}
    {trail : List Nat}
    (hKnown : leaf ∈ routes.flatMap (·.variants))
    (hLeaf :
      (Leaf.ofVariant routes leaf, trail) ∈ plan.dynamics)
    (hForemost :
      plan.tree.root.IsForemost [] (Place.start path)
        (Step.edges leaf.steps))
    (hVariant : variant ∈ routes.flatMap (·.variants))
    (hDynamic : Step.allLiteral variant.steps = false)
    {texts : List (Option Text)}
    (hSpells : variant.Spells path texts)
    (hEarly :
      Edge.PartEarly (Step.edges leaf.steps)
        (Step.edges variant.steps)) :
    Leaf.isOwnedBy leaf variant = true := by
  rcases List.mem_iff_getElem?.mp hLeaf with
    ⟨number, hNumber⟩
  have hHas :=
    (hPlan.hasLeaf_iff _ _ _).mpr ⟨_, hNumber, rfl⟩
  rcases
      exists_dynamics_of_mem hRead hPlan hVariant
        hDynamic with
    ⟨others, other, hOther, hOtherHas⟩
  have hSome := (hRead leaf hKnown).edges_ne_nil
  have hCovers :=
    hForemost.covers hPlan.sound.orderly
      (isWritten hRead hPlan) hOtherHas hSpells
      (Or.inr hSome) hEarly
  rcases (Step.edgeCovers_iff _ _).mp hCovers with
    hSame | hCovers
  · -- Edges determine a leaf, and a leaf its path.
    rw [hSame] at hOtherHas
    rcases
        TreeNode.hasLeaf_unique hPlan.sound.orderly hHas
          hOtherHas with
      ⟨-, rfl⟩
    rw [hNumber] at hOther
    have hPath : leaf.path = variant.path :=
      congrArg (fun entry => entry.1.path)
        (Option.some.inj hOther)
    simp [Leaf.isOwnedBy, hPath]
  · simp [Leaf.isOwnedBy, hCovers]

end Plan

namespace MethodProgram

/-
  Where a variant spells a path, and parts early from all
  others, the program of a counted plan answers for a leaf
  that the variant owns.
-/
theorem exists_owned
    (hE : E.IsLeftmostFirst)
    (hRead : PlannedRoute.AreRead E routes)
    (hCounted : PlannedRoute.AreCounted routes)
    (hPlan : plan.Holds (Leaf.ofRoutes routes))
    {method : Text}
    {program : MethodProgram E H}
    (hProgram : (ofPlan method plan).value = .ok program)
    {variant : PlannedVariant}
    (hVariant : variant ∈ routes.flatMap (·.variants))
    {path : Text}
    {texts : List (Option Text)}
    (hSpells : variant.Spells path texts)
    (hEarly :
      ∀ leaf ∈ routes.flatMap (·.variants),
        Edge.PartEarly (Step.edges leaf.steps)
          (Step.edges variant.steps)) :
    ∃ leaf found,
      Leaf.isOwnedBy leaf variant = true ∧
        program.find path = some found ∧
        found.handlers =
          (Leaf.ofVariant routes leaf).handlers := by
  rcases exists_of_ofPlan hProgram with
    ⟨hStatics, hDynamics⟩
  unfold find
  rw [hStatics]
  cases hTable : (staticsOf plan).lookup path with
  | some handlers =>
      rcases exists_static hRead hPlan hTable with
        ⟨leaf, hLeaf, rfl, hLiteral, hAdmits, rfl⟩
      have hOwned :=
        Plan.isOwnedBy_of_static hRead hPlan hLeaf hLiteral
          hAdmits hVariant hSpells
      exact ⟨leaf, _, hOwned, rfl, rfl⟩
  | none =>
      have hDynamic :
          Step.allLiteral variant.steps = false := by
        cases hKind : Step.allLiteral variant.steps with
        | false => rfl
        | true =>
            exact
              absurd hSpells
                (not_spells_of_literal hRead hPlan hTable
                  hVariant hKind texts)
      rcases
          Plan.exists_dynamics_of_mem hRead hPlan hVariant
            hDynamic with
        ⟨trail, number, hNumber, -⟩
      dsimp only
      rcases hDynamics with
        ⟨hEmpty, -⟩ | ⟨hSome, compiled, hCompile, hTree⟩
      · simp [hEmpty] at hNumber
      · rw [hTree]
        rcases
            DynamicTable.find_spells hE hRead hCounted hPlan
              hSome hCompile path with
          ⟨hNone, -⟩ |
            ⟨leaf, hLeaf, ownTexts, -, hForemost,
              ⟨ownTrail, hOwn⟩, hFind⟩
        · exact
            absurd hSpells
              (hNone variant hVariant hDynamic texts)
        · have hOwned :=
            Plan.isOwnedBy_of_foremost hRead hPlan hLeaf hOwn
              hForemost hVariant hDynamic hSpells
              (hEarly leaf hLeaf)
          exact ⟨leaf, _, hOwned, hFind, rfl⟩

end MethodProgram

end Planned

end RequestRouter

------------------------------------------------------------
-- Owners among Registrations
------------------------------------------------------------

namespace RequestRouter

open Regex

variable {E : Engine}
variable {H : Type}

namespace Registration

/- A registration with a variant that owns a leaf owns it. -/
theorem isSome_ownerFor?
    {registration : Registration H}
    {route : ParsedRoute E H}
    (hParsed :
      ParsedRoute.ofRegistration registration = .ok route)
    {method : Text}
    (hServes : Method.serves route.method method = true)
    {planned : PlannedRoute H}
    (hPlan : route.plan = .ok planned)
    {leaf variant : PlannedVariant}
    (hVariant : variant ∈ planned.variants)
    (hOwned : Leaf.isOwnedBy leaf variant = true) :
    (registration.ownerFor? E method leaf).isSome =
      true := by
  have hMember :
      variant ∈ planned.variants.filter (Leaf.isOwnedBy leaf) :=
    List.mem_filter.mpr ⟨hVariant, hOwned⟩
  have hOwner : (Leaf.owner? leaf planned).isSome = true := by
    unfold Leaf.owner?
    cases hOwning :
        planned.variants.filter (Leaf.isOwnedBy leaf) with
    | nil => simp [hOwning] at hMember
    | cons first rest => rfl
  simpa [ownerFor?, hParsed, hServes, hPlan,
    Except.toOption] using hOwner

/- The edges of the variants that serve a method. -/
def edgesFor
    (E : Engine)
    (registrations : List (Registration H))
    (method : Text) : List (List Edge) :=
  ((parsed E registrations).filter
      (Method.serves ·.method method)).flatMap fun route =>
    route.variants.filterMap fun variant =>
      (Step.ofPatterns variant.1 variant.2).toOption.map
        Step.edges

/- They are the edges of planned variants. -/
theorem mem_edgesFor
    {registrations : List (Registration H)}
    {method : Text}
    {variant : PlannedVariant}
    (hVariant :
      HaveVariant E registrations method variant) :
    Step.edges variant.steps ∈
      edgesFor E registrations method := by
  rcases hVariant with
    ⟨route, hRoute, hServes, patterns, hMember, hSteps⟩
  refine
    List.mem_flatMap.mpr
      ⟨route, List.mem_filter.mpr ⟨hRoute, hServes⟩, ?_⟩
  refine List.mem_filterMap.mpr ⟨_, hMember, ?_⟩
  simp [hSteps, Except.toOption]

end Registration

namespace Compiled

/-
  A registration that matches a request where it is alone
  has a variant that spells the path.
-/
theorem exists_spells_of_alone
    (hE : E.IsLeftmostFirst)
    {registration : Registration H}
    (hCounted :
      ∀ route ∈ Registration.parsed E [registration],
        route.IsCounted)
    {method path : Text}
    {found : Match H}
    (hAlone :
      ((ofRegistrations E [registration]).lookup method
        path).value.1 = .ok (some found)) :
    ∃ (route : ParsedRoute E H) (planned : PlannedRoute H),
      ParsedRoute.ofRegistration registration = .ok route ∧
        Method.serves route.method method = true ∧
        route.plan = .ok planned ∧
        ∃ variant ∈ planned.variants, ∃ texts,
          variant.Spells path texts := by
  have hAfter :
      (((ofRegistrations E [registration]).afterLookups
        []).lookup method path).value.1 =
          .ok (some found) := hAlone
  rcases exists_plan hAfter with
    ⟨routes, plan, program, hPlanned, hLeaves, hProgram,
      hFound⟩
  have hRead := Registration.areRead_of_mapM hPlanned
  have hHolds :=
    Plan.holds_of_ofLeaves hLeaves
      (Plan.openLast_ofRoutes hRead)
  rcases
      MethodProgram.find_spells hE hRead
        (Registration.areCounted_of_mapM hPlanned hCounted)
        hHolds hProgram path with
    ⟨-, hNone⟩ | ⟨variant, hVariant, texts, hSpells, -, -⟩
  · rw [hNone] at hFound
    cases hFound
  · rcases List.mem_flatMap.mp hVariant with
      ⟨own, hOwn, hVariant⟩
    rcases Sequence.exists_of_mem_mapM hPlanned hOwn with
      ⟨route, hRoute, hPlan⟩
    rcases List.mem_filter.mp hRoute with
      ⟨hRoute, hServes⟩
    rcases Registration.exists_of_mem_parsed hRoute with
      ⟨only, hOnly, hParsed⟩
    rw [List.mem_singleton.mp hOnly] at hParsed
    exact
      ⟨route, own, hParsed, hServes, hPlan, variant,
        hVariant, texts, hSpells⟩

/-
  A registration that alone matches a request owns the
  answer of a counted set where no paths part behind a
  capture that may leave its segment.
-/
theorem lookup_of_alone
    (hE : E.IsLeftmostFirst)
    {registrations : List (Registration H)}
    (hCounted :
      ∀ route ∈ Registration.parsed E registrations,
        route.IsCounted)
    {method : Text}
    (hEarly :
      ∀ first ∈
          Registration.edgesFor E registrations method,
        ∀ second ∈
            Registration.edgesFor E registrations method,
          Edge.PartEarly first second)
    (requests : List (Text × Text))
    {path : Text}
    {answer : Option (Match H)}
    (hLookup :
      (((ofRegistrations E registrations).afterLookups
        requests).lookup method path).value.1 =
          .ok answer)
    {registration : Registration H}
    (hMember : registration ∈ registrations)
    {found : Match H}
    (hAlone :
      ((ofRegistrations E [registration]).lookup method
        path).value.1 = .ok (some found)) :
    ∃ whole, answer = some whole ∧
      registration.handler ∈ whole.handlers := by
  rcases exists_plan hLookup with
    ⟨routes, plan, program, hPlanned, hLeaves, hProgram,
      rfl⟩
  have hRead := Registration.areRead_of_mapM hPlanned
  have hHolds :=
    Plan.holds_of_ofLeaves hLeaves
      (Plan.openLast_ofRoutes hRead)
  have hKnown := Registration.mem_planned_iff hPlanned
  have hOnly :
      ∀ route ∈ Registration.parsed E [registration],
        route.IsCounted := by
    intro route hRoute
    rcases Registration.exists_of_mem_parsed hRoute with
      ⟨only, hOnly, hParsed⟩
    rw [List.mem_singleton.mp hOnly] at hParsed
    exact
      hCounted route
        (Registration.mem_parsed hMember hParsed)
  rcases exists_spells_of_alone hE hOnly hAlone with
    ⟨route, planned, hParsed, hServes, hPlan, variant,
      hVariant, texts, hSpells⟩
  have hHave :
      Registration.HaveVariant E registrations method
        variant := by
    rcases
        (ParsedRoute.mem_variants_iff hPlan variant).mp
          hVariant with
      ⟨patterns, hPatterns, hSteps⟩
    exact
      ⟨route, Registration.mem_parsed hMember hParsed,
        hServes, patterns, hPatterns, hSteps⟩
  rcases
      MethodProgram.exists_owned hE hRead
        (Registration.areCounted_of_mapM hPlanned hCounted)
        hHolds hProgram ((hKnown variant).mpr hHave) hSpells
        (fun leaf hLeaf =>
          hEarly _
            (Registration.mem_edgesFor
              ((hKnown leaf).mp hLeaf)) _
            (Registration.mem_edgesFor hHave)) with
    ⟨leaf, whole, hOwned, hFind, hHandlers⟩
  refine ⟨whole, hFind, ?_⟩
  rw [hHandlers,
    Registration.handlers_ofVariant registrations hPlanned]
  apply List.mem_map_of_mem
  exact
    List.mem_filter.mpr
      ⟨hMember,
        Registration.isSome_ownerFor? hParsed hServes hPlan
          hVariant hOwned⟩

/- Paths that part behind a capture of letters only. -/
def parted : List (Registration Nat) :=
  [⟨['G'],
      ['/', ':', 'x', '{', '[', 'a', '-', 'z', ']', '+', '}',
        '/', 'b'], 0⟩,
    ⟨['G'],
      ['/', ':', 'x', '{', '[', 'a', '-', 'z', ']', '+', '}',
        '/', 'b', '/', '*'], 1⟩]

/- The wildcard behind a path owns the answer for it. -/
theorem lookup_of_alone_parted :
    (∀ route ∈ Registration.parsed treeEngine parted,
        route.IsCounted) ∧
      (∀ first ∈
          Registration.edgesFor treeEngine parted ['G'],
        ∀ second ∈
            Registration.edgesFor treeEngine parted ['G'],
          Edge.PartEarly first second) ∧
      ∃ whole,
        (some ⟨[0, 1], ⟨[(['x'], ['v'])]⟩⟩ :
            Option (Match Nat)) = some whole ∧
          1 ∈ whole.handlers := by
  have hCounted :
      ∀ route ∈ Registration.parsed treeEngine parted,
        route.IsCounted := by
    decide +kernel
  have hEarly :
      ∀ first ∈
          Registration.edgesFor treeEngine parted ['G'],
        ∀ second ∈
            Registration.edgesFor treeEngine parted ['G'],
          Edge.PartEarly first second := by
    decide +kernel
  have hLookup :
      (((ofRegistrations treeEngine parted).afterLookups
        []).lookup ['G'] ['/', 'v', '/', 'b']).value.1 =
        .ok (some ⟨[0, 1], ⟨[(['x'], ['v'])]⟩⟩) := by
    decide +kernel
  have hAlone :
      ((ofRegistrations treeEngine
        [⟨['G'],
            ['/', ':', 'x', '{', '[', 'a', '-', 'z', ']',
              '+', '}', '/', 'b', '/', '*'], 1⟩]).lookup
          ['G'] ['/', 'v', '/', 'b']).value.1 =
        .ok (some ⟨[1], ⟨[(['x'], ['v'])]⟩⟩) := by
    decide +kernel
  exact
    ⟨hCounted, hEarly,
      lookup_of_alone isLeftmostFirst_treeEngine hCounted
        hEarly [] hLookup
        (List.mem_cons_of_mem _ List.mem_cons_self) hAlone⟩

/- Paths that part behind a capture which takes slashes. -/
def shadowed : List (Registration Nat) :=
  [⟨['G'],
      ['/', 'p', '/', ':', 'x', '{', '.', '+', '}', '/', ':',
        'y'], 0⟩,
    ⟨['G'],
      ['/', 'p', '/', ':', 'x', '{', '.', '+', '}', '/', ':',
        'y', '/', 'z'], 1⟩]

/-
  The shorter path answers alone, since its capture takes
  all it can, though the longer one matches where it is
  alone.
-/
theorem lookup_shadowed :
    ((ofRegistrations treeEngine shadowed).lookup ['G']
        ['/', 'p', '/', 'a', '/', 'b', '/', 'z']).value.1 =
        .ok
          (some
            ⟨[0],
              ⟨[(['x'], ['a', '/', 'b']), (['y'], ['z'])]⟩⟩) ∧
      ((ofRegistrations treeEngine (shadowed.drop 1)).lookup
        ['G']
        ['/', 'p', '/', 'a', '/', 'b', '/', 'z']).value.1 =
          .ok
            (some
              ⟨[1], ⟨[(['x'], ['a']), (['y'], ['b'])]⟩⟩) := by
  decide +kernel

end Compiled

end RequestRouter
