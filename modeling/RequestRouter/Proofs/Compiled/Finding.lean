import RequestRouter.Compiled.MethodProgram
import RequestRouter.Proofs.Compiled.Captures
import RequestRouter.Proofs.Compiled.Plan
import RequestRouter.Proofs.Route.Params
import RequestRouter.Proofs.SegmentTree.Steps

/-
  What the program of a method finds, for routes without
  constraints.

  If variants of the routes fit a path, then one of them is
  a leaf that is owned by exactly those that fit, and the
  program answers for it. Otherwise it answers nothing.

  Key definitions include:
    * `PlannedVariant.IsRead`
    * `PlannedVariant.IsPlain`
    * `PlannedVariant.Fits`
    * `Leaf.IsDecisive`
    * `Leaf.answer`

  Main statements:
    * `Plan.isDecisive_of_static`
    * `Plan.isDecisive_of_select`
    * `MethodProgram.find_cases`
-/

------------------------------------------------------------
-- Variants with Their Steps
------------------------------------------------------------

namespace RequestRouter

variable {E : Regex.Engine}

namespace PlannedVariant

/- Whether a variant has the steps that its path is read as. -/
def IsRead
    (E : Regex.Engine)
    (variant : PlannedVariant) : Prop :=
  ∃ patterns : List (Pattern E),
    Pattern.parsePath variant.path = .ok patterns ∧
      Step.ofPatterns variant.path patterns =
        .ok variant.steps

namespace IsRead

variable {variant other : PlannedVariant}

/- A wildcard comes last in a variant that is read. -/
theorem openLast
    (hRead : variant.IsRead E) :
    Step.OpenLast variant.steps := by
  rcases hRead with ⟨patterns, -, hSteps⟩
  exact Step.openLast_of_ofPatternsFrom hSteps

/- Variants that are read from one path are the same. -/
theorem eq_of_path_eq
    (hRead : variant.IsRead E)
    (hOther : other.IsRead E)
    (hPath : variant.path = other.path) :
    variant = other := by
  rcases variant with ⟨path, steps⟩
  rcases other with ⟨_, others⟩
  cases hPath
  rcases hRead with ⟨patterns, hParse, hSteps⟩
  rcases hOther with ⟨_, hParse', hSteps'⟩
  dsimp only at hParse hParse' hSteps hSteps'
  rw [hParse] at hParse'
  cases hParse'
  rw [hSteps] at hSteps'
  cases hSteps'
  rfl

/- What owns a leaf has edges that cover its own. -/
theorem covers_of_isOwnedBy
    (hLeaf : variant.IsRead E)
    (hOther : other.IsRead E)
    (hOwned : Leaf.isOwnedBy variant other = true) :
    Edge.Covers (Step.edges other.steps)
      (Step.edges variant.steps) := by
  apply (Step.edgeCovers_iff _ _).mpr
  rcases Bool.or_eq_true_iff.mp hOwned with hPath | hCovers
  · rw [hOther.eq_of_path_eq hLeaf (beq_iff_eq.mp hPath)]
    exact Or.inl rfl
  · exact Or.inr hCovers

end IsRead

end PlannedVariant

end RequestRouter

------------------------------------------------------------
-- Plain Variants
------------------------------------------------------------

namespace RequestRouter

variable (E : Regex.Engine)

namespace PlannedVariant

/-
  Whether a variant has no braces in its path, and the steps
  of this path.
-/
def IsPlain
    (variant : PlannedVariant) : Prop :=
  '{' ∉ variant.path ∧
    ∃ patterns : List (Pattern E),
      Pattern.parsePath variant.path = .ok patterns ∧
        Step.ofPatterns variant.path patterns =
          .ok variant.steps

/- Whether the edges of a variant fit the parts of a path. -/
def Fits
    (variant : PlannedVariant)
    (parts : List Text) : Prop :=
  Edge.Fits (Step.edges variant.steps) parts

namespace IsPlain

variable {E}
variable {variant other : PlannedVariant}

/- A wildcard comes last in a variant. -/
theorem openLast
    (hPlain : variant.IsPlain E) :
    Step.OpenLast variant.steps := by
  have hRead : variant.IsRead E := hPlain.2
  exact hRead.openLast

/- The edges of a variant are plain. -/
theorem arePlain
    (hPlain : variant.IsPlain E) :
    Edge.ArePlain (Step.edges variant.steps) := by
  rcases hPlain with ⟨hBare, patterns, hParse, hSteps⟩
  exact
    Step.arePlain_of_ofPatterns hSteps
      (Pattern.ne_nil_of_parsePath hParse)
      fun _ hPattern =>
        Pattern.isPlain_of_parsePath hBare hParse hPattern

/- A path has one list of steps. -/
theorem steps_eq
    (hPlain : variant.IsPlain E)
    (hOther : other.IsPlain E)
    (hPath : variant.path = other.path) :
    variant.steps = other.steps := by
  have hRead : variant.IsRead E := hPlain.2
  rw [hRead.eq_of_path_eq hOther.2 hPath]

/- A literal variant has the segments of its path. -/
theorem edges_eq_of_literal
    (hPlain : variant.IsPlain E)
    (hLiteral : Step.allLiteral variant.steps = true) :
    Step.edges variant.steps =
      (variant.path.splitOn '/').map Edge.literal := by
  rcases hPlain with ⟨hBare, patterns, hParse, hSteps⟩
  rw [Step.edges_eq_of_allLiteral hSteps hLiteral,
    Pattern.map_label_of_parsePath hParse,
    Path.split_eq_splitOn hBare]

end IsPlain

end PlannedVariant

namespace Edge

/- Literal edges fit the parts they are made of, and no others. -/
theorem fits_map_literal_iff
    (texts parts : List Text) :
    Fits (texts.map literal) parts ↔ texts = parts := by
  induction texts generalizing parts with
  | nil => simp [Fits, eq_comm]
  | cons text texts ih =>
      cases parts with
      | nil => simp [Fits]
      | cons part parts => simp [Fits, ih]

end Edge

namespace PlannedVariant

/- A literal variant fits its own path only. -/
theorem fits_iff_of_literal
    {E : Regex.Engine}
    {variant : PlannedVariant}
    (hPlain : variant.IsPlain E)
    (hLiteral : Step.allLiteral variant.steps = true)
    (path : Text) :
    variant.Fits (path.splitOn '/') ↔
      variant.path = path := by
  unfold Fits
  rw [hPlain.edges_eq_of_literal hLiteral,
    Edge.fits_map_literal_iff]
  exact
    ⟨Path.eq_of_splitOn_eq, fun hSame => by rw [hSame]⟩

/-
  A variant fits where an owner of the leaf for this variant
  does.
-/
theorem fits_of_isOwnedBy
    {E : Regex.Engine}
    {leaf variant : PlannedVariant}
    (hLeaf : leaf.IsPlain E)
    (hVariant : variant.IsPlain E)
    (hOwned : Leaf.isOwnedBy leaf variant = true)
    {parts : List Text}
    (hParts : parts ≠ [])
    (hFits : leaf.Fits parts) :
    variant.Fits parts := by
  unfold Fits at hFits ⊢
  rcases Bool.or_eq_true_iff.mp hOwned with hPath | hCovers
  · rw [hVariant.steps_eq hLeaf (beq_iff_eq.mp hPath)]
    exact hFits
  · rcases (Step.covers_iff _ _).mp hCovers with
      ⟨front, last, hEdges, hOpen, hFront⟩
    rw [hEdges]
    refine
      Edge.fits_append_open hFront hOpen ?_ hFits
    rintro rfl
    refine ⟨?_, hParts⟩
    have hPlain := hVariant.arePlain
    rw [hEdges] at hPlain
    rcases hPlain with hAny | ⟨-, -, hAll⟩
    · exact (List.append_inj' hAny rfl).1
    · exact (hAll .any (by simp)).elim

end PlannedVariant

end RequestRouter

------------------------------------------------------------
-- Decisive Leaves
------------------------------------------------------------

namespace RequestRouter

variable {E : Regex.Engine}
variable {H : Type}

namespace PlannedRoute

/- Whether all variants of routes are plain. -/
def ArePlain
    (E : Regex.Engine)
    (routes : List (PlannedRoute H)) : Prop :=
  ∀ route ∈ routes, ∀ variant ∈ route.variants,
    variant.IsPlain E

/- Whether a variant belongs to one of the routes. -/
def HaveVariant
    (routes : List (PlannedRoute H))
    (variant : PlannedVariant) : Prop :=
  ∃ route ∈ routes, variant ∈ route.variants

end PlannedRoute

namespace Leaf

/- The path of a leaf with its steps. -/
def variant
    (leaf : Leaf H) : PlannedVariant :=
  ⟨leaf.path, leaf.steps⟩

/-
  Whether the leaf of a variant decides what answers a path:
  its owners are those that fit.
-/
structure IsDecisive
    (routes : List (PlannedRoute H))
    (parts : List Text)
    (leaf : PlannedVariant) : Prop where
  known : PlannedRoute.HaveVariant routes leaf
  owned_iff :
    ∀ variant, PlannedRoute.HaveVariant routes variant →
      (isOwnedBy leaf variant = true ↔ variant.Fits parts)

/-
  The answer of a leaf: its owners, and the parts at the
  places of their names.
-/
def answer
    (routes : List (PlannedRoute H))
    (parts : List Text)
    (leaf : PlannedVariant) : Match H :=
  ⟨(routes.filterMap (owner? leaf)).map (·.handler),
    .ofList <| routes.flatMap fun route =>
      (route.variants.filter (isOwnedBy leaf)).flatMap
        fun variant => Step.named variant.steps parts⟩

end Leaf

namespace Plan

variable {routes : List (PlannedRoute H)}
variable {plan : Plan H}

/- The leaf of a variant, with the same path and steps. -/
theorem exists_leaf
    (hPlain : PlannedRoute.ArePlain E routes)
    {variant : PlannedVariant}
    (hVariant : PlannedRoute.HaveVariant routes variant) :
    ∃ leaf ∈ Leaf.ofRoutes routes,
      leaf.path = variant.path ∧
        leaf.steps = variant.steps := by
  rcases hVariant with ⟨route, hRoute, hVariant⟩
  rcases Leaf.exists_mem_ofRoutes hRoute hVariant with
    ⟨leaf, hLeaf, hPath⟩
  rcases Leaf.exists_variant_of_mem_ofRoutes hLeaf with
    ⟨origin, hOrigin, other, hOther, rfl⟩
  exact
    ⟨_, hLeaf, hPath,
      (hPlain origin hOrigin other hOther).steps_eq
        (hPlain route hRoute variant hVariant) hPath⟩

/- A leaf is that of a variant, with its owners. -/
theorem exists_variant
    {leaf : Leaf H}
    (hLeaf : leaf ∈ Leaf.ofRoutes routes) :
    PlannedRoute.HaveVariant routes leaf.variant ∧
      leaf.owners =
        routes.filterMap (Leaf.owner? leaf.variant) := by
  rcases Leaf.exists_variant_of_mem_ofRoutes hLeaf with
    ⟨route, hRoute, variant, hVariant, rfl⟩
  exact ⟨⟨route, hRoute, hVariant⟩, rfl⟩

/- The variants of plain routes are plain. -/
theorem isPlain_of_haveVariant
    (hPlain : PlannedRoute.ArePlain E routes)
    {variant : PlannedVariant}
    (hVariant : PlannedRoute.HaveVariant routes variant) :
    variant.IsPlain E := by
  rcases hVariant with ⟨route, hRoute, hVariant⟩
  exact hPlain route hRoute variant hVariant

/-
  A leaf decides if it fits and the edges of all variants
  that fit cover its own.
-/
theorem isDecisive_of_covers
    (hPlain : PlannedRoute.ArePlain E routes)
    {parts : List Text}
    (hParts : parts ≠ [])
    {leaf : PlannedVariant}
    (hLeaf : PlannedRoute.HaveVariant routes leaf)
    (hFits : leaf.Fits parts)
    (hCovers :
      ∀ variant, PlannedRoute.HaveVariant routes variant →
        variant.Fits parts →
          variant.path = leaf.path ∨
            Step.covers variant.steps leaf.steps = true) :
    Leaf.IsDecisive routes parts leaf := by
  refine ⟨hLeaf, ?_⟩
  intro variant hVariant
  constructor
  · intro hOwned
    exact
      PlannedVariant.fits_of_isOwnedBy
        (isPlain_of_haveVariant hPlain hLeaf)
        (isPlain_of_haveVariant hPlain hVariant) hOwned hParts
        hFits
  · intro hOther
    rcases hCovers variant hVariant hOther with
      hPath | hCovers
    · simp [Leaf.isOwnedBy, hPath]
    · simp [Leaf.isOwnedBy, hCovers]

/- A variant that is not literal lies in the tree. -/
theorem exists_hasLeaf_of_variant
    (hPlain : PlannedRoute.ArePlain E routes)
    (hPlan : plan.Holds (Leaf.ofRoutes routes))
    {variant : PlannedVariant}
    (hVariant : PlannedRoute.HaveVariant routes variant)
    (hDynamic : Step.allLiteral variant.steps = false) :
    ∃ leaf trail number,
      plan.dynamics[number]? = some (leaf, trail) ∧
        leaf.path = variant.path ∧
        plan.tree.root.HasLeaf (Step.edges variant.steps)
          trail number := by
  rcases exists_leaf hPlain hVariant with
    ⟨leaf, hLeaf, hPath, hSteps⟩
  have hOwn : leaf.isStatic = false := by
    rw [Leaf.isStatic, hSteps, hDynamic]
  rcases hPlan.exists_hasLeaf hLeaf hOwn with
    ⟨trail, number, hNumber, hHas⟩
  exact
    ⟨leaf, trail, number, hNumber, hPath, hSteps ▸ hHas⟩

/- The leaf of a literal path decides for this path. -/
theorem isDecisive_of_static
    (hPlain : PlannedRoute.ArePlain E routes)
    (hPlan : plan.Holds (Leaf.ofRoutes routes))
    {leaf : Leaf H}
    (hLeaf : leaf ∈ plan.statics) :
    Leaf.IsDecisive routes (leaf.path.splitOn '/')
      leaf.variant := by
  have hAdmits := hPlan.admits leaf hLeaf
  rw [hPlan.statics, List.mem_filter] at hLeaf
  have hKnown := (exists_variant hLeaf.1).1
  have hOwn := isPlain_of_haveVariant hPlain hKnown
  have hLiteral :
      Step.allLiteral leaf.variant.steps = true := hLeaf.2
  have hEdges := hOwn.edges_eq_of_literal hLiteral
  refine
    isDecisive_of_covers hPlain (List.splitOn_ne_nil _ _)
      hKnown
      ((PlannedVariant.fits_iff_of_literal hOwn hLiteral
        _).mpr rfl) ?_
  intro variant hVariant hFits
  cases hKind : Step.allLiteral variant.steps with
  | true =>
      exact
        Or.inl
          ((PlannedVariant.fits_iff_of_literal
            (isPlain_of_haveVariant hPlain hVariant) hKind
            _).mp hFits)
  | false =>
      rcases
          exists_hasLeaf_of_variant hPlain hPlan hVariant
            hKind with
        ⟨other, trail, number, -, -, hHas⟩
      have hCovers :=
        TreeNode.covers_of_admits hPlan.sound.orderly hHas
          hFits hEdges hAdmits
      rcases (Step.edgeCovers_iff _ _).mp hCovers with
        hSame | hCovers
      · -- A path with literal edges only is not dynamic.
        have hAll : Step.allLiteral variant.steps = true := by
          have hEach :
              ∀ edge ∈ Step.edges variant.steps,
                edge.isLiteral = true := by
            rw [hSame]
            intro edge hEdge
            rcases List.mem_map.mp hEdge with
              ⟨step, hStep, rfl⟩
            exact List.all_eq_true.mp hLiteral step hStep
          exact
            List.all_eq_true.mpr fun step hStep =>
              hEach _ (List.mem_map_of_mem hStep)
        simp [hAll] at hKind
      · exact Or.inr hCovers

/- A literal variant fits only a path in the table. -/
theorem not_fits_of_allLiteral
    (hPlain : PlannedRoute.ArePlain E routes)
    (hPlan : plan.Holds (Leaf.ofRoutes routes))
    {path : Text}
    (hTable :
      ∀ leaf ∈ plan.statics, leaf.path ≠ path)
    {variant : PlannedVariant}
    (hVariant : PlannedRoute.HaveVariant routes variant)
    (hLiteral : Step.allLiteral variant.steps = true) :
    ¬ variant.Fits (path.splitOn '/') := by
  intro hFits
  have hPath :=
    (PlannedVariant.fits_iff_of_literal
      (isPlain_of_haveVariant hPlain hVariant) hLiteral
      path).mp hFits
  rcases exists_leaf hPlain hVariant with
    ⟨leaf, hLeaf, hSame, hSteps⟩
  refine hTable leaf ?_ (hSame.trans hPath)
  rw [hPlan.statics, List.mem_filter]
  exact ⟨hLeaf, by rw [Leaf.isStatic, hSteps, hLiteral]⟩

/-
  If a path is not in the table and the tree selects nothing
  for it, no variant fits.
-/
theorem not_fits_of_select
    (hPlain : PlannedRoute.ArePlain E routes)
    (hPlan : plan.Holds (Leaf.ofRoutes routes))
    {path : Text}
    (hTable :
      ∀ leaf ∈ plan.statics, leaf.path ≠ path)
    (hNone :
      plan.dynamics = [] ∨
        plan.tree.root.select (path.splitOn '/') = none)
    {variant : PlannedVariant}
    (hVariant : PlannedRoute.HaveVariant routes variant) :
    ¬ variant.Fits (path.splitOn '/') := by
  intro hFits
  cases hKind : Step.allLiteral variant.steps with
  | true =>
      exact
        not_fits_of_allLiteral hPlain hPlan hTable hVariant
          hKind hFits
  | false =>
      rcases
          exists_hasLeaf_of_variant hPlain hPlan hVariant
            hKind with
        ⟨leaf, trail, number, hNumber, -, hHas⟩
      rcases hNone with hEmpty | hSelect
      · simp [hEmpty] at hNumber
      · rcases
            TreeNode.exists_select hPlan.sound.orderly hHas
              hFits with
          ⟨selected, -, -, hFound, -⟩
        simp [hSelect] at hFound

/-
  The leaf that the tree selects decides for a path that is
  not in the table.
-/
theorem isDecisive_of_select
    (hPlain : PlannedRoute.ArePlain E routes)
    (hPlan : plan.Holds (Leaf.ofRoutes routes))
    {path : Text}
    (hTable :
      ∀ leaf ∈ plan.statics, leaf.path ≠ path)
    {leaf : Leaf H}
    {trail : List Nat}
    {selected : Selected}
    (hLeaf :
      plan.dynamics[selected.leaf]? = some (leaf, trail))
    (hSelect :
      plan.tree.root.select (path.splitOn '/') =
        some selected)
    (hFits : leaf.variant.Fits (path.splitOn '/')) :
    Leaf.IsDecisive routes (path.splitOn '/')
      leaf.variant := by
  have hMember := (hPlan.mem_of_dynamics hLeaf).1
  have hKnown := (exists_variant hMember).1
  refine
    isDecisive_of_covers hPlain (List.splitOn_ne_nil _ _)
      hKnown hFits ?_
  intro variant hVariant hOther
  cases hKind : Step.allLiteral variant.steps with
  | true =>
      exact
        absurd hOther
          (not_fits_of_allLiteral hPlain hPlan hTable
            hVariant hKind)
  | false =>
      rcases
          exists_hasLeaf_of_variant hPlain hPlan hVariant
            hKind with
        ⟨own, ownTrail, number, hNumber, hPath, hHas⟩
      rcases
          TreeNode.exists_select hPlan.sound.orderly hHas
            hOther with
        ⟨again, found, way, hAgain, hSelects, hCovers⟩
      rw [hSelect] at hAgain
      cases hAgain
      rcases (hPlan.hasLeaf_iff _ _ _).mp hSelects.1 with
        ⟨same, hSame, rfl⟩
      rw [hLeaf] at hSame
      cases hSame
      rcases (Step.edgeCovers_iff _ _).mp hCovers with
        hEdges | hCovers
      · rw [hEdges] at hHas
        rcases
            TreeNode.hasLeaf_unique hPlan.sound.orderly hHas
              hSelects.1 with
          ⟨-, rfl⟩
        rw [hLeaf] at hNumber
        cases hNumber
        exact Or.inl hPath.symm
      · exact Or.inr hCovers

end Plan

end RequestRouter

------------------------------------------------------------
-- Parameters of Leaves
------------------------------------------------------------

namespace RequestRouter

variable {E : Regex.Engine}
variable {H : Type}

namespace Leaf

/- The names of steps with the groups of their nodes. -/
def pairs
    (captureGroups : List (Nat × Nat))
    (trail : List Nat)
    (steps : List Step) : List (Text × Nat) :=
  (steps.zip trail).filterMap fun (step, node) => do
    let name ← step.name
    let group ← captureGroups.lookup node
    some (name, group)

/- A leaf keeps the first pair of each name. -/
theorem paramGroups_eq
    (captureGroups : List (Nat × Nat))
    (trail : List Nat)
    (leaf : Leaf H) :
    leaf.paramGroups captureGroups trail =
      ((leaf.owners.flatMap (·.variants)).flatMap
        (pairs captureGroups trail)).foldl
          Params.keepFirst [] :=
  rfl

/- The values of pairs are those at the nodes. -/
theorem valuesOf_pairs
    (value : Nat → Option Text)
    (captureGroups : List (Nat × Nat))
    (trail : List Nat)
    (steps : List Step) :
    Params.valuesOf value (pairs captureGroups trail steps) =
      Step.bound
        (fun node => (captureGroups.lookup node).bind value)
        steps trail := by
  rw [Params.valuesOf, pairs, List.filterMap_filterMap,
    Step.bound]
  congr 1
  funext entry
  cases hName : entry.1.name with
  | none => simp [hName]
  | some name =>
      cases hGroup : captureGroups.lookup entry.2 <;>
        simp [hName, hGroup]

/- The values of pairs in a row are in a row. -/
theorem valuesOf_flatMap
    {α : Type}
    (value : Nat → Option Text)
    (items : List α)
    (f : α → List (Text × Nat)) :
    Params.valuesOf value (items.flatMap f) =
      items.flatMap fun item =>
        Params.valuesOf value (f item) := by
  rw [Params.valuesOf, List.filterMap_flatMap]
  rfl

/- The owners of a leaf own it by the variants that do. -/
theorem flatMap_owners
    {β : Type}
    (routes : List (PlannedRoute H))
    (leaf : PlannedVariant)
    (f : List Step → List β) :
    ((routes.filterMap (owner? leaf)).flatMap
        (·.variants)).flatMap f =
      routes.flatMap fun route =>
        (route.variants.filter (isOwnedBy leaf)).flatMap
          fun variant => f variant.steps := by
  induction routes with
  | nil => rfl
  | cons route rest ih =>
      rw [List.filterMap_cons, List.flatMap_cons, ← ih]
      cases hOwning :
          route.variants.filter (isOwnedBy leaf) with
      | nil => simp [owner?, hOwning]
      | cons variant more =>
          simp [owner?, hOwning, List.flatMap_map]

/- Pairs have values if their nodes have. -/
theorem isSome_of_mem_pairs
    {captureGroups : List (Nat × Nat)}
    {value caught : Nat → Option Text}
    (hValue :
      ∀ node,
        (captureGroups.lookup node).bind value = caught node)
    {trail : List Nat}
    {steps : List Step}
    (hCaught :
      ∀ step node, (step, node) ∈ steps.zip trail →
        step.name ≠ none → (caught node).isSome = true)
    {pair : Text × Nat}
    (hPair : pair ∈ pairs captureGroups trail steps) :
    (value pair.2).isSome = true := by
  rcases List.mem_filterMap.mp hPair with
    ⟨⟨step, node⟩, hZip, hGives⟩
  cases hName : step.name with
  | none => simp [hName] at hGives
  | some own =>
      cases hGroup : captureGroups.lookup node with
      | none => simp [hName, hGroup] at hGives
      | some found =>
          simp only [hName, hGroup, Option.bind_eq_bind,
            Option.bind_some, Option.some.injEq] at hGives
          have hSame := hValue node
          rw [hGroup, Option.bind_some] at hSame
          rw [← hGives, hSame]
          exact hCaught step node hZip (by simp [hName])

/-
  The names of a leaf's owners are bound to what stands at
  their nodes, the first one of each name.
-/
theorem ofList_valuesOf_paramGroups
    {routes : List (PlannedRoute H)}
    {leaf : Leaf H}
    {variant : PlannedVariant}
    (hOwners :
      leaf.owners = routes.filterMap (owner? variant))
    {captureGroups : List (Nat × Nat)}
    {trail : List Nat}
    {value : Nat → Option Text}
    (named : List Step → List (Text × Text))
    (hBound :
      ∀ route ∈ routes,
        ∀ other ∈ route.variants.filter (isOwnedBy variant),
          Step.bound
              (fun node =>
                (captureGroups.lookup node).bind value)
              other.steps trail =
            named other.steps ∧
          ∀ pair ∈ pairs captureGroups trail other.steps,
            (value pair.2).isSome = true) :
    Params.ofList
        (Params.valuesOf value
          (leaf.paramGroups captureGroups trail)) =
      .ofList (routes.flatMap fun route =>
        (route.variants.filter (isOwnedBy variant)).flatMap
          fun other => named other.steps) := by
  rw [paramGroups_eq, hOwners, flatMap_owners,
    Params.ofList_firsts, valuesOf_flatMap]
  · congr 1
    refine List.flatMap_congr fun route hRoute => ?_
    rw [valuesOf_flatMap]
    refine List.flatMap_congr fun other hOther => ?_
    rw [valuesOf_pairs]
    exact (hBound route hRoute other hOther).1
  · intro pair hPair
    rcases List.mem_flatMap.mp hPair with
      ⟨route, hRoute, hPair⟩
    rcases List.mem_flatMap.mp hPair with
      ⟨other, hOther, hPair⟩
    exact (hBound route hRoute other hOther).2 pair hPair

end Leaf

namespace Step

/- At a named step of a zip with a trail, a part is caught. -/
theorem isSome_caught
    {leaf : List Step}
    (hOpen : OpenLast leaf)
    {trail : List Nat}
    (hNodup : trail.Nodup)
    (hLength : trail.length = leaf.length)
    {parts : List Text}
    (hFits : Edge.Fits (edges leaf) parts)
    {path : Text}
    {patterns : List (Pattern E)}
    {steps : List Step}
    (hSteps : ofPatterns path patterns = .ok steps)
    (hCovers : Edge.Covers (edges steps) (edges leaf))
    {step : Step}
    {node : Nat}
    (hMember : (step, node) ∈ steps.zip trail)
    (hNamed : step.name ≠ none) :
    ((Edge.caught (edges leaf) trail parts).lookup
      node).isSome = true := by
  rcases List.mem_iff_getElem?.mp hMember with
    ⟨index, hIndex⟩
  rcases List.getElem?_zip_eq_some.mp hIndex with
    ⟨hStep, hNode⟩
  have hCapture :=
    isCapture_of_named hSteps (List.mem_of_getElem? hStep)
      hNamed
  have hEdge : (edges steps)[index]? = some step.edge := by
    simp [edges, hStep]
  rcases
      exists_caught hOpen hNodup hLength hFits
        (hCovers.getElem?_eq hEdge
          (Edge.isOpenEnded_of_isCapture hCapture))
        hCapture with
    ⟨other, part, hOther, -, hCaught⟩
  rw [hNode] at hOther
  cases hOther
  rw [hCaught]
  rfl

end Step

end RequestRouter

------------------------------------------------------------
-- Finding
------------------------------------------------------------

namespace RequestRouter

open Regex

variable {E : Engine}
variable {H : Type}
variable {routes : List (PlannedRoute H)}
variable {plan : Plan H}

namespace Plan

/- The tree of plain routes is plain. -/
theorem isPlain_tree
    (hPlain : PlannedRoute.ArePlain E routes)
    (hPlan : plan.Holds (Leaf.ofRoutes routes)) :
    plan.tree.IsPlain where
  orderly := hPlan.sound.orderly
  nodup := hPlan.sound.nodup
  plain := by
    intro edges trail number hHas
    rcases (hPlan.hasLeaf_iff _ _ _).mp hHas with
      ⟨leaf, hLeaf, rfl⟩
    have hMember := (hPlan.mem_of_dynamics hLeaf).1
    exact
      (isPlain_of_haveVariant hPlain
        (exists_variant hMember).1).arePlain

/-
  The names of a leaf's owners are bound to the parts at
  their places.
-/
theorem ofList_paramGroups
    (hPlain : PlannedRoute.ArePlain E routes)
    (hPlan : plan.Holds (Leaf.ofRoutes routes))
    {leaf : Leaf H}
    {trail : List Nat}
    {number : Nat}
    (hLeaf : plan.dynamics[number]? = some (leaf, trail))
    {parts : List Text}
    (hFits : leaf.variant.Fits parts)
    {captureGroups : List (Nat × Nat)}
    {value : Nat → Option Text}
    (hValue :
      ∀ node,
        (captureGroups.lookup node).bind value =
          (Edge.caught (Step.edges leaf.steps) trail
            parts).lookup node) :
    Params.ofList
        (Params.valuesOf value
          (leaf.paramGroups captureGroups trail)) =
      (Leaf.answer routes parts leaf.variant).params := by
  have hHas :=
    (hPlan.hasLeaf_iff _ _ _).mpr ⟨leaf, hLeaf, rfl⟩
  have hMember := (hPlan.mem_of_dynamics hLeaf).1
  rcases exists_variant hMember with ⟨hKnown, hOwners⟩
  have hRead := isPlain_of_haveVariant hPlain hKnown
  have hNodup := hHas.nodup_trail hPlan.sound.nodup
  have hLength : trail.length = leaf.steps.length := by
    simpa [Step.edges] using hHas.length_trail
  refine
    Leaf.ofList_valuesOf_paramGroups hOwners
      (Step.named · parts) ?_
  intro route hRoute variant hVariant
  rcases List.mem_filter.mp hVariant with
    ⟨hVariant, hOwned⟩
  have hOwn := hPlain route hRoute variant hVariant
  have hCovers :=
    PlannedVariant.IsRead.covers_of_isOwnedBy hRead.2 hOwn.2
      hOwned
  rcases hOwn with ⟨-, patterns, -, hSteps⟩
  constructor
  · rw [funext hValue]
    exact
      Step.bound_eq hRead.openLast hNodup hLength hFits hSteps
        hCovers
  · intro pair hPair
    apply Leaf.isSome_of_mem_pairs hValue ?_ hPair
    intro step node hZip hNamed
    exact
      Step.isSome_caught hRead.openLast hNodup hLength hFits
        hSteps hCovers hZip hNamed

end Plan

end RequestRouter

------------------------------------------------------------
-- The Program of a Method
------------------------------------------------------------

namespace RequestRouter

open Regex

variable {E : Engine}
variable {H : Type}
variable {routes : List (PlannedRoute H)}
variable {plan : Plan H}

namespace DynamicTable

/-
  If the captures of a path answer with the record of a
  selection, the table answers for the selected leaf, with
  what was caught at its nodes.
-/
theorem find_of_records
    (hNodup : plan.tree.root.ids.Nodup)
    {program : E.Program}
    {path : Text}
    {captures : Captures}
    (hCaptures : E.find program path = some captures)
    {record : List (Nat × Text)}
    {selected : Selected}
    (hRecords : plan.tree.flatten.Records record selected)
    (hAnswered :
      plan.tree.flatten.IsAnsweredBy captures record)
    {leaf : Leaf H}
    {trail : List Nat}
    (hLeaf :
      plan.dynamics[selected.leaf]? = some (leaf, trail)) :
    (ofPlan program plan.tree.flatten
        plan.dynamics : DynamicTable E H).find path =
      some
        ⟨leaf.handlers,
          .ofList
            (Params.valuesOf captures.group?
              (leaf.paramGroups
                plan.tree.flatten.captureGroups trail))⟩ ∧
      ∀ node,
        (plan.tree.flatten.captureGroups.lookup node).bind
            captures.group? =
          selected.caught.lookup node := by
  have hNumbered := plan.tree.root.isNumbered_flatten [] 1
  have hNodes := TreeNode.nodup_nodes hNodup [] 1
  rcases
      Emission.find?_leafGroups hNumbered.nodup hRecords
        hAnswered with
    ⟨marker, hMarker⟩
  change
    plan.tree.flatten.leafGroups.find? _ =
      some (marker, selected.leaf) at hMarker
  constructor
  · simp only [find, ofPlan, hCaptures, Option.bind_eq_bind,
      Option.bind_some, hMarker, List.getElem?_map, hLeaf,
      Option.map_some]
    rfl
  · exact
      Emission.bind_lookup_captureGroups hNumbered.nodup
        hNodes hRecords hAnswered

/-
  The table of a plain plan answers for the leaf that its
  tree selects.
-/
theorem find_ofPlan
    (hE : E.IsLeftmostFirst)
    (hPlain : PlannedRoute.ArePlain E routes)
    (hPlan : plan.Holds (Leaf.ofRoutes routes))
    (hSome : plan.dynamics ≠ [])
    {program : E.Program}
    (hCompile :
      E.compile plan.tree.flatten.source = .ok program)
    {path : Text}
    (hLine : '\n' ∉ path) :
    plan.tree.root.select (path.splitOn '/') = none ∧
        (ofPlan program plan.tree.flatten
          plan.dynamics : DynamicTable E H).find path =
            none ∨
      ∃ selected leaf trail,
        plan.tree.root.select (path.splitOn '/') =
            some selected ∧
          plan.dynamics[selected.leaf]? =
            some (leaf, trail) ∧
          leaf.variant.Fits (path.splitOn '/') ∧
          (ofPlan program plan.tree.flatten
            plan.dynamics : DynamicTable E H).find path =
              some (Leaf.answer routes (path.splitOn '/')
                leaf.variant) := by
  cases hSplit : path.splitOn '/' with
  | nil => exact absurd hSplit (List.splitOn_ne_nil _ _)
  | cons part parts =>
      have hParts :
          ∀ other ∈ part :: parts, Path.IsPart other :=
        fun other hOther =>
          Path.isPart_of_mem_splitOn hLine (hSplit ▸ hOther)
      have hFound :=
        SegmentTree.rel_find_select hE
          (Plan.isPlain_tree hPlain hPlan) (hPlan.used hSome)
          hCompile hParts
      rw [← Path.eq_append_behindSlashes hSplit] at hFound
      cases hCaptures : E.find program path with
      | none =>
          rw [hCaptures] at hFound
          cases hSelect :
              plan.tree.root.select (part :: parts) with
          | some selected =>
              rw [hSelect] at hFound
              cases hFound
          | none =>
              exact
                Or.inl
                  ⟨rfl, by simp [find, ofPlan, hCaptures]⟩
      | some captures =>
          rw [hCaptures] at hFound
          cases hSelect :
              plan.tree.root.select (part :: parts) with
          | none =>
              rw [hSelect] at hFound
              cases hFound
          | some selected =>
              rw [hSelect] at hFound
              cases hFound with
              | some hRecord =>
              rcases hRecord with
                ⟨record, hRecords, hAnswered⟩
              rcases
                  TreeNode.exists_selects_of_select hSelect with
                ⟨edges, trail, hHas, hFits, hCaught⟩
              rcases (hPlan.hasLeaf_iff _ _ _).mp hHas with
                ⟨leaf, hLeaf, rfl⟩
              rcases
                  find_of_records hPlan.sound.nodup hCaptures
                    hRecords hAnswered hLeaf with
                ⟨hFind, hCaughtAt⟩
              rw [hCaught] at hCaughtAt
              have hParams :=
                Plan.ofList_paramGroups hPlain hPlan hLeaf
                  hFits hCaughtAt
              have hOwners :=
                (Plan.exists_variant
                  (hPlan.mem_of_dynamics hLeaf).1).2
              refine
                Or.inr
                  ⟨selected, leaf, trail, rfl, hLeaf, hFits,
                    ?_⟩
              rw [hFind, hParams, Leaf.handlers, hOwners]
              rfl

end DynamicTable

namespace MethodProgram

/- What a program is built from. -/
theorem exists_of_ofPlan
    {method : Text}
    {program : MethodProgram E H}
    (hProgram :
      (ofPlan method plan).value = .ok program) :
    program.statics = staticsOf plan ∧
      (plan.dynamics = [] ∧ program.dynamics = none ∨
        plan.dynamics ≠ [] ∧
          ∃ compiled,
            E.compile plan.tree.flatten.source =
                .ok compiled ∧
              program.dynamics =
                some (.ofPlan compiled plan.tree.flatten
                  plan.dynamics)) := by
  unfold ofPlan at hProgram
  dsimp only at hProgram
  split at hProgram
  case h_1 hNone =>
      cases hProgram
      exact ⟨rfl, Or.inl ⟨hNone, rfl⟩⟩
  case h_2 leaf trail others hSome =>
      split at hProgram
      case h_1 => cases hProgram
      case h_2 compiled hCompile =>
          cases hProgram
          refine
            ⟨rfl, Or.inr ⟨by simp [hSome], compiled,
              hCompile, ?_⟩⟩
          rw [hSome]

/- A literal path in the table answers without parameters. -/
theorem answer_of_static
    (hPlain : PlannedRoute.ArePlain E routes)
    (hPlan : plan.Holds (Leaf.ofRoutes routes))
    {leaf : Leaf H}
    (hLeaf : leaf ∈ plan.statics)
    (parts : List Text) :
    Leaf.answer routes parts leaf.variant =
      ⟨leaf.handlers, .empty⟩ := by
  rw [hPlan.statics, List.mem_filter] at hLeaf
  rcases Plan.exists_variant hLeaf.1 with ⟨hKnown, hOwners⟩
  have hNames :
      ∀ route ∈ routes,
        ∀ variant ∈
          route.variants.filter
            (Leaf.isOwnedBy leaf.variant),
        Step.named variant.steps parts = [] := by
    intro route hRoute variant hVariant
    rcases List.mem_filter.mp hVariant with
      ⟨hVariant, hOwned⟩
    have hOwn := hPlain route hRoute variant hVariant
    have hRead := Plan.isPlain_of_haveVariant hPlain hKnown
    have hCovers :=
      PlannedVariant.IsRead.covers_of_isOwnedBy hRead.2
        hOwn.2 hOwned
    rcases hOwn with ⟨-, patterns, -, hSteps⟩
    rw [Step.named, List.filterMap_eq_nil_iff]
    rintro ⟨step, part⟩ hZip
    cases hName : step.name with
    | none => simp [hName]
    | some name =>
        rcases List.mem_iff_getElem?.mp hZip with
          ⟨index, hIndex⟩
        have hStep :=
          (List.getElem?_zip_eq_some.mp hIndex).1
        have hCapture :=
          Step.isCapture_of_named hSteps
            (List.mem_of_getElem? hStep) (by simp [hName])
        have hOwnEdge :
            (Step.edges variant.steps)[index]? =
              some step.edge := by
          simp [Step.edges, hStep]
        have hEdge :=
          hCovers.getElem?_eq hOwnEdge
            (Edge.isOpenEnded_of_isCapture hCapture)
        rcases List.mem_map.mp
            (List.mem_of_getElem? hEdge) with
          ⟨own, hOwnStep, hSame⟩
        have hLiteral :=
          List.all_eq_true.mp hLeaf.2 own hOwnStep
        rw [hSame] at hLiteral
        cases hKind : step.edge <;>
          simp_all [Edge.isLiteral, Edge.isCapture]
  unfold Leaf.answer Leaf.handlers
  rw [hOwners]
  congr 1
  have hNone :
      routes.flatMap (fun route =>
        (route.variants.filter
          (Leaf.isOwnedBy leaf.variant)).flatMap
            fun variant => Step.named variant.steps parts) =
        [] := by
    rw [List.flatMap_eq_nil_iff]
    intro route hRoute
    rw [List.flatMap_eq_nil_iff]
    exact hNames route hRoute
  rw [hNone]
  rfl

/-
  A program answers for a leaf that decides, or for nothing
  if no variant fits.
-/
theorem find_cases
    (hE : E.IsLeftmostFirst)
    (hPlain : PlannedRoute.ArePlain E routes)
    (hPlan : plan.Holds (Leaf.ofRoutes routes))
    {method : Text}
    {program : MethodProgram E H}
    (hProgram :
      (ofPlan method plan).value = .ok program)
    {path : Text}
    (hLine : '\n' ∉ path) :
    (∀ variant, PlannedRoute.HaveVariant routes variant →
        ¬ variant.Fits (path.splitOn '/')) ∧
        program.find path = none ∨
      ∃ leaf,
        Leaf.IsDecisive routes (path.splitOn '/') leaf ∧
          program.find path =
            some (Leaf.answer routes (path.splitOn '/')
              leaf) := by
  rcases exists_of_ofPlan hProgram with
    ⟨hStatics, hDynamics⟩
  cases hTable : program.statics.lookup path with
  | some handlers =>
      have hFind :
          program.find path = some ⟨handlers, .empty⟩ := by
        simp [find, hTable]
      rcases List.lookup_eq_some_iff.mp hTable with
        ⟨before, after, hEntries, -⟩
      have hEntry : (path, handlers) ∈ staticsOf plan := by
        rw [← hStatics, hEntries]
        simp
      rcases List.mem_map.mp hEntry with
        ⟨leaf, hLeaf, hSame⟩
      cases hSame
      refine
        Or.inr
          ⟨leaf.variant,
            Plan.isDecisive_of_static hPlain hPlan hLeaf, ?_⟩
      rw [hFind, answer_of_static hPlain hPlan hLeaf]
  | none =>
      have hFind :
          program.find path =
            program.dynamics.bind (·.find path) := by
        simp [find, hTable]
      have hOther :
          ∀ leaf ∈ plan.statics, leaf.path ≠ path := by
        intro leaf hLeaf hSame
        have hEntry :
            (leaf.path, leaf.handlers) ∈ program.statics := by
          rw [hStatics]
          exact List.mem_map_of_mem hLeaf
        have hNone :=
          List.lookup_eq_none_iff.mp hTable _ hEntry
        simp [hSame] at hNone
      rcases hDynamics with
        ⟨hNone, hProgram⟩ | ⟨hSome, compiled, hCompile, hTree⟩
      · refine Or.inl ⟨?_, by rw [hFind, hProgram]; rfl⟩
        intro variant hVariant
        exact
          Plan.not_fits_of_select hPlain hPlan hOther
            (Or.inl hNone) hVariant
      · rw [hFind, hTree, Option.bind_some]
        rcases
            DynamicTable.find_ofPlan hE hPlain hPlan hSome
              hCompile hLine with
          ⟨hSelect, hNone⟩ |
            ⟨selected, leaf, trail, hSelect, hLeaf, hFits,
              hAnswer⟩
        · refine Or.inl ⟨?_, hNone⟩
          intro variant hVariant
          exact
            Plan.not_fits_of_select hPlain hPlan hOther
              (Or.inr hSelect) hVariant
        · exact
            Or.inr
              ⟨leaf.variant,
                Plan.isDecisive_of_select hPlain hPlan hOther
                  hLeaf hSelect hFits,
                hAnswer⟩

end MethodProgram

end RequestRouter
