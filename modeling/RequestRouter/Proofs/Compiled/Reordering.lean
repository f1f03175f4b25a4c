import RequestRouter.Proofs.Compiled.Agreement
import RequestRouter.Proofs.Compiled.PlanOrder

/-
  The order of registrations and the compiled strategy.

  Registrations in another order are planned with the same
  leaves, so that either both orders can be built or neither
  can. For each request both programs select the same leaf;
  its handlers are those of the registrations that own it,
  each time in the order of the list. Of the engine nothing
  is assumed but that the same source has the same program.

  Key definitions include:
    * `Leaf.ofVariant`
    * `Compiled.ofRegistrations`
    * `Compiled.AreAlike`

  Main statements:
    * `Leaf.perm_distinct`
    * `MethodProgram.rel_find_of_perm`
    * `Compiled.lookup_of_perm`
-/

------------------------------------------------------------
-- Distinct Variants
------------------------------------------------------------

namespace RequestRouter

variable {E : Regex.Engine}
variable {H : Type}

namespace Leaf

/- Paths that are kept differ from each other. -/
theorem nodup_foldl
    {kept variants : List PlannedVariant}
    (hKept : (kept.map (·.path)).Nodup) :
    ((variants.foldl
        (fun kept variant =>
          if kept.any (·.path == variant.path) then kept
          else kept ++ [variant])
        kept).map (·.path)).Nodup := by
  induction variants generalizing kept with
  | nil => exact hKept
  | cons variant rest ih =>
      rw [List.foldl_cons]
      apply ih
      split
      case isTrue => exact hKept
      case isFalse hNew =>
          rw [List.map_append]
          refine List.nodup_append.mpr
            ⟨hKept, by simp, ?_⟩
          intro path hPath other hOther hSame
          rcases List.mem_map.mp hPath with
            ⟨old, hOld, rfl⟩
          apply hNew
          apply List.any_eq_true.mpr
          exact ⟨old, hOld, by simpa [hSame] using hOther⟩

/- Distinct variants have different paths. -/
theorem nodup_distinct
    (variants : List PlannedVariant) :
    ((distinct variants).map (·.path)).Nodup :=
  nodup_foldl List.nodup_nil

/- Variants that are read are all among the distinct ones. -/
theorem mem_distinct_iff
    {variants : List PlannedVariant}
    (hRead : ∀ variant ∈ variants, variant.IsRead E)
    (variant : PlannedVariant) :
    variant ∈ distinct variants ↔ variant ∈ variants := by
  have hOnly :
      ∀ kept ∈ distinct variants, kept ∈ variants := by
    intro kept hMember
    rcases mem_of_mem_foldl hMember with hNone | hSome
    · cases hNone
    · exact hSome
  constructor
  · exact hOnly variant
  · intro hMember
    have hSome : variant ∈ [] ∨ variant ∈ variants :=
      Or.inr hMember
    rcases exists_mem_foldl hSome with
      ⟨kept, hKept, hPath⟩
    have hSame :=
      (hRead kept (hOnly kept hKept)).eq_of_path_eq
        (hRead variant hMember) hPath
    exact hSame ▸ hKept

/- Reordered variants are distinct up to their order. -/
theorem perm_distinct
    {variants others : List PlannedVariant}
    (hRead : ∀ variant ∈ variants, variant.IsRead E)
    (hPerm : variants.Perm others) :
    (distinct variants).Perm (distinct others) := by
  have hOthers : ∀ variant ∈ others, variant.IsRead E :=
    fun variant hVariant =>
      hRead variant (hPerm.mem_iff.mpr hVariant)
  apply
    (List.perm_ext_iff_of_nodup (nodup_distinct _).of_map
      (nodup_distinct _).of_map).mpr
  intro variant
  rw [mem_distinct_iff hRead, mem_distinct_iff hOthers,
    hPerm.mem_iff]

/- The leaf of a variant among routes. -/
def ofVariant
    (routes : List (PlannedRoute H))
    (variant : PlannedVariant) : Leaf H :=
  ⟨variant.path, variant.steps,
    routes.filterMap (owner? variant)⟩

/- The leaves of routes are those of distinct variants. -/
theorem ofRoutes_eq
    (routes : List (PlannedRoute H)) :
    ofRoutes routes =
      (distinct (routes.flatMap (·.variants))).map
        (ofVariant routes) :=
  rfl

end Leaf

end RequestRouter

------------------------------------------------------------
-- Programs of Reordered Routes
------------------------------------------------------------

namespace RequestRouter

variable {E : Regex.Engine}
variable {H : Type}

namespace PlannedRoute

/- Whether all variants of routes are read from their paths. -/
def AreRead
    (E : Regex.Engine)
    (routes : List (PlannedRoute H)) : Prop :=
  ∀ variant ∈ routes.flatMap (·.variants), variant.IsRead E

end PlannedRoute

/- Whether matches have the handlers of one variant's leaf. -/
def Match.ShareLeaf
    (routes others : List (PlannedRoute H))
    (found twin : Match H) : Prop :=
  ∃ variant,
    found.handlers = (Leaf.ofVariant routes variant).handlers ∧
      twin.handlers = (Leaf.ofVariant others variant).handlers

/- The first member with a key is the same in every order. -/
theorem find?_eq_of_perm
    {α : Type}
    {key : α → Text}
    {items others : List α}
    (hPerm : items.Perm others)
    (hKeys : (items.map key).Nodup)
    (wanted : Text) :
    items.find? (key · == wanted) =
      others.find? (key · == wanted) := by
  cases hFind : items.find? (key · == wanted) with
  | none =>
      symm
      apply List.find?_eq_none.mpr
      intro item hItem
      exact
        List.find?_eq_none.mp hFind item
          (hPerm.mem_iff.mpr hItem)
  | some item =>
      have hItem := List.mem_of_find?_eq_some hFind
      have hKey := List.find?_some hFind
      cases hOther : others.find? (key · == wanted) with
      | none =>
          have hNone :=
            List.find?_eq_none.mp hOther item
              (hPerm.mem_iff.mp hItem)
          exact absurd hKey hNone
      | some other =>
          have hMember :=
            hPerm.mem_iff.mpr
              (List.mem_of_find?_eq_some hOther)
          have hTwin : (key other == wanted) = true := by
            simpa using List.find?_some hOther
          have hSame : key item = key other :=
            (beq_iff_eq.mp hKey).trans
              (beq_iff_eq.mp hTwin).symm
          rw [List.inj_on_of_nodup_map hKeys hItem hMember
            hSame]

/- What stands under a key that members are kept under. -/
theorem lookup_map_eq
    {α β : Type}
    (key : α → Text)
    (value : α → β)
    (items : List α)
    (wanted : Text) :
    (items.map fun item => (key item, value item)).lookup
        wanted =
      (items.find? (key · == wanted)).map value := by
  induction items with
  | nil => rfl
  | cons item rest ih =>
      rw [List.map_cons, List.lookup_cons, List.find?_cons,
        ih, Bool.beq_comm]
      cases key item == wanted <;> rfl

namespace Plan

variable {routes others : List (PlannedRoute H)}
variable {plan other : Plan H}

/- The literal paths of a plan by the variants of its routes. -/
theorem staticsOf_eq
    (hPlan : ofLeaves (Leaf.ofRoutes routes) = .ok plan) :
    MethodProgram.staticsOf plan =
      ((Leaf.distinct (routes.flatMap (·.variants))).filter
          (Step.allLiteral ·.steps)).map fun variant =>
        (variant.path,
          (Leaf.ofVariant routes variant).handlers) := by
  rcases (ofLeaves_eq_ok_iff _ _).mp hPlan with
    ⟨hStatics, -, -⟩
  rw [MethodProgram.staticsOf, hStatics, Leaf.ofRoutes_eq,
    List.filter_map, List.map_map]
  rfl

/- The steps of the leaves of reordered routes. -/
theorem perm_steps_ofRoutes
    (hRead : PlannedRoute.AreRead E routes)
    (hPerm : routes.Perm others) :
    ((Leaf.ofRoutes routes).map (·.steps)).Perm
      ((Leaf.ofRoutes others).map (·.steps)) := by
  have hVariants :=
    Leaf.perm_distinct hRead
      (hPerm.flatMap_right (·.variants))
  rw [Leaf.ofRoutes_eq, Leaf.ofRoutes_eq, List.map_map,
    List.map_map]
  exact hVariants.map (·.steps)

/- The leaves of routes that are read end in wildcards. -/
theorem openLast_ofRoutes
    (hRead : PlannedRoute.AreRead E routes) :
    ∀ leaf ∈ Leaf.ofRoutes routes,
      Step.OpenLast leaf.steps := by
  intro leaf hLeaf
  rcases List.mem_map.mp hLeaf with
    ⟨variant, hVariant, rfl⟩
  exact
    (hRead variant
      ((Leaf.mem_distinct_iff hRead variant).mp
        hVariant)).openLast

/- A literal path has one leaf in plans of both orders. -/
theorem rel_lookup_statics
    (hRead : PlannedRoute.AreRead E routes)
    (hPerm : routes.Perm others)
    (hPlan : ofLeaves (Leaf.ofRoutes routes) = .ok plan)
    (hOther : ofLeaves (Leaf.ofRoutes others) = .ok other)
    (path : Text) :
    Option.Rel
      (fun handlers twins =>
        ∃ variant,
          handlers =
              (Leaf.ofVariant routes variant).handlers ∧
            twins =
              (Leaf.ofVariant others variant).handlers)
      ((MethodProgram.staticsOf plan).lookup path)
      ((MethodProgram.staticsOf other).lookup path) := by
  have hVariants :=
    (Leaf.perm_distinct hRead
      (hPerm.flatMap_right (·.variants))).filter
        (Step.allLiteral ·.steps)
  have hKeys :
      (((Leaf.distinct
          (routes.flatMap (·.variants))).filter
            (Step.allLiteral ·.steps)).map
              (·.path)).Nodup :=
    (Leaf.nodup_distinct _).sublist
      (List.filter_sublist.map _)
  rw [staticsOf_eq hPlan, staticsOf_eq hOther,
    lookup_map_eq PlannedVariant.path,
    lookup_map_eq PlannedVariant.path,
    find?_eq_of_perm hVariants hKeys]
  cases List.find? _ _ with
  | none => exact .none
  | some variant => exact .some ⟨variant, rfl, rfl⟩

/- The leaf of a variant that is not literal is dynamic. -/
theorem exists_dynamics_of_mem
    (hRead : PlannedRoute.AreRead E routes)
    (hHolds : plan.Holds (Leaf.ofRoutes routes))
    {variant : PlannedVariant}
    (hVariant : variant ∈ routes.flatMap (·.variants))
    (hDynamic : Step.allLiteral variant.steps = false) :
    ∃ trail number,
      plan.dynamics[number]? =
          some (Leaf.ofVariant routes variant, trail) ∧
        plan.tree.root.HasLeaf (Step.edges variant.steps)
          trail number := by
  have hLeaf :
      Leaf.ofVariant routes variant ∈
        Leaf.ofRoutes routes := by
    rw [Leaf.ofRoutes_eq]
    exact
      List.mem_map_of_mem
        ((Leaf.mem_distinct_iff hRead variant).mpr hVariant)
  exact hHolds.exists_hasLeaf hLeaf hDynamic

/- Twins in the trees of both orders are of one variant. -/
theorem exists_variant_of_areTwins
    (hRead : PlannedRoute.AreRead E routes)
    (hPerm : routes.Perm others)
    (hHolds : plan.Holds (Leaf.ofRoutes routes))
    (hOther : other.Holds (Leaf.ofRoutes others))
    {leaf twin : Nat}
    (hTwins :
      plan.tree.root.AreTwins other.tree.root leaf twin) :
    ∃ variant trail trail',
      plan.dynamics[leaf]? =
          some (Leaf.ofVariant routes variant, trail) ∧
        other.dynamics[twin]? =
          some (Leaf.ofVariant others variant, trail') := by
  have hVariants := hPerm.flatMap_right (·.variants)
  have hOthers : PlannedRoute.AreRead E others :=
    fun variant hVariant =>
      hRead variant (hVariants.mem_iff.mpr hVariant)
  rcases hTwins with ⟨edges, trail, trail', hFirst, hSecond⟩
  rcases (hHolds.hasLeaf_iff _ _ _).mp hFirst with
    ⟨own, hOwn, rfl⟩
  rcases hHolds.mem_of_dynamics hOwn with
    ⟨hMember, hDynamic⟩
  rcases List.mem_map.mp hMember with
    ⟨variant, hVariant, rfl⟩
  rw [Leaf.mem_distinct_iff hRead] at hVariant
  rcases
      exists_dynamics_of_mem hOthers hOther
        (hVariants.mem_iff.mp hVariant) hDynamic with
    ⟨found, number, hNumber, hHas⟩
  rcases
      TreeNode.hasLeaf_unique hOther.sound.orderly hHas
        hSecond with
    ⟨-, rfl⟩
  exact ⟨variant, trail, found, hOwn, hNumber⟩

end Plan

/- The first entries of one kind in tables side by side. -/
theorem rel_find?_of_forall₂
    {related : Nat → Nat → Prop}
    {table other : List (Nat × Nat)}
    (hTable :
      List.Forall₂
        (fun entry twin =>
          entry.1 = twin.1 ∧ related entry.2 twin.2)
        table other)
    (wanted : Nat → Bool) :
    Option.Rel (fun entry twin => related entry.2 twin.2)
      (table.find? (wanted ·.1))
      (other.find? (wanted ·.1)) := by
  induction hTable with
  | nil => exact .none
  | @cons entry twin _ _ hFirst _ ih =>
      rw [List.find?_cons, List.find?_cons, hFirst.1]
      cases wanted twin.1 with
      | true => exact .some hFirst.2
      | false => exact ih

/- What follows related values is related. -/
theorem rel_bind
    {α β γ δ : Type}
    {related : α → β → Prop}
    {wanted : γ → δ → Prop}
    {value : Option α}
    {other : Option β}
    {next : α → Option γ}
    {follow : β → Option δ}
    (hValues : Option.Rel related value other)
    (hNext :
      ∀ a b, related a b →
        Option.Rel wanted (next a) (follow b)) :
    Option.Rel wanted (value.bind next)
      (other.bind follow) := by
  cases hValues with
  | none => exact .none
  | some hRelated => exact hNext _ _ hRelated

namespace DynamicTable

variable {routes others : List (PlannedRoute H)}
variable {plan other : Plan H}

/-
  With the same program, the tables of both orders select
  leaves of one variant.
-/
theorem rel_find_of_perm
    (hRead : PlannedRoute.AreRead E routes)
    (hPerm : routes.Perm others)
    (hHolds : plan.Holds (Leaf.ofRoutes routes))
    (hOther : other.Holds (Leaf.ofRoutes others))
    (hLike : plan.tree.root.IsLike other.tree.root)
    (program : E.Program)
    (path : Text) :
    Option.Rel (Match.ShareLeaf routes others)
      ((ofPlan program plan.tree.flatten
        plan.dynamics).find path)
      ((ofPlan program other.tree.flatten
        other.dynamics).find path) := by
  have hMirrors :=
    TreeNode.mirrors_flatten hLike hHolds.sound.orderly
      hOther.sound.orderly [] 1
  unfold find ofPlan
  cases hCaptures : E.find program path with
  | none => exact .none
  | some captures =>
      have hFound :=
        rel_find?_of_forall₂ hMirrors.leafGroups
          fun group => (captures.group? group).isSome
      simp only [Option.bind_eq_bind, Option.bind_some]
      refine rel_bind hFound ?_
      intro entry twin hTwins
      rcases
          Plan.exists_variant_of_areTwins hRead hPerm hHolds
            hOther hTwins with
        ⟨variant, trail, trail', hFirst, hSecond⟩
      simp only [List.getElem?_map, hFirst, hSecond,
        Option.map_some]
      exact .some ⟨variant, rfl, rfl⟩

end DynamicTable

namespace MethodProgram

variable {routes others : List (PlannedRoute H)}
variable {plan other : Plan H}

/- A plan has a program if its source does, or needs none. -/
theorem exists_ofPlan
    (method : Text)
    {plan : Plan H}
    (hCompile :
      plan.dynamics = [] ∨
        ∃ compiled,
          E.compile plan.tree.flatten.source =
            .ok compiled) :
    ∃ program : MethodProgram E H,
      (ofPlan method plan).value = .ok program := by
  unfold ofPlan
  cases hDynamics : plan.dynamics with
  | nil => exact ⟨_, rfl⟩
  | cons entry rest =>
      rcases hCompile with hNone | ⟨compiled, hCompile⟩
      · simp [hDynamics] at hNone
      · simp only [hCompile]
        exact ⟨_, rfl⟩

/- The plans of both orders need a program, or neither does. -/
theorem dynamics_eq_nil_iff_of_perm
    (hHolds : plan.Holds (Leaf.ofRoutes routes))
    (hOther : other.Holds (Leaf.ofRoutes others))
    (hSteps :
      ((Leaf.ofRoutes routes).map (·.steps)).Perm
        ((Leaf.ofRoutes others).map (·.steps))) :
    plan.dynamics = [] ↔ other.dynamics = [] := by
  have hLength :
      ∀ {routes : List (PlannedRoute H)} {plan : Plan H},
        plan.Holds (Leaf.ofRoutes routes) →
          plan.dynamics.length =
            (((Leaf.ofRoutes routes).map (·.steps)).filter
              (!Step.allLiteral ·)).length := by
    intro routes plan hHolds
    rw [← Plan.map_steps_dynamic, ← hHolds.dynamics]
    simp
  have hSame :
      plan.dynamics.length = other.dynamics.length := by
    rw [hLength hHolds, hLength hOther]
    exact (hSteps.filter _).length_eq
  rw [← List.length_eq_zero_iff, hSame,
    List.length_eq_zero_iff]

/-
  If the routes of a method can be built in one order, they
  can in every other, and both programs find leaves of one
  variant.
-/
theorem rel_find_of_perm
    (hRead : PlannedRoute.AreRead E routes)
    (hPerm : routes.Perm others)
    (hPlan : Plan.ofLeaves (Leaf.ofRoutes routes) = .ok plan)
    {method : Text}
    {program : MethodProgram E H}
    (hProgram : (ofPlan method plan).value = .ok program)
    (label : Text) :
    ∃ (other : Plan H) (twin : MethodProgram E H),
      Plan.ofLeaves (Leaf.ofRoutes others) = .ok other ∧
        (ofPlan label other).value = .ok twin ∧
          ∀ path,
            Option.Rel (Match.ShareLeaf routes others)
              (program.find path) (twin.find path) := by
  have hSteps := Plan.perm_steps_ofRoutes hRead hPerm
  have hOpen := Plan.openLast_ofRoutes hRead
  rcases Plan.exists_ofLeaves_of_perm hSteps hOpen hPlan with
    ⟨other, hOther, hOrderly, hOrderly', hLike⟩
  have hVariants := hPerm.flatMap_right (·.variants)
  have hOthers : PlannedRoute.AreRead E others :=
    fun variant hVariant =>
      hRead variant (hVariants.mem_iff.mpr hVariant)
  have hHolds := Plan.holds_of_ofLeaves hPlan hOpen
  have hHolds' :=
    Plan.holds_of_ofLeaves hOther
      (Plan.openLast_ofRoutes hOthers)
  have hNone :=
    dynamics_eq_nil_iff_of_perm hHolds hHolds' hSteps
  have hSource :
      plan.tree.flatten.source = other.tree.flatten.source :=
    congrArg ('^' :: ·)
      (TreeNode.mirrors_flatten hLike hOrderly hOrderly' []
        1).source
  rcases exists_of_ofPlan hProgram with
    ⟨hStatics, hDynamics⟩
  have hCompile :
      other.dynamics = [] ∨
        ∃ compiled,
          E.compile other.tree.flatten.source =
            .ok compiled := by
    rw [← hNone, ← hSource]
    rcases hDynamics with
      ⟨hEmpty, -⟩ | ⟨-, compiled, hCompile, -⟩
    · exact Or.inl hEmpty
    · exact Or.inr ⟨compiled, hCompile⟩
  rcases exists_ofPlan label hCompile with ⟨twin, hTwin⟩
  refine ⟨other, twin, hOther, hTwin, ?_⟩
  rcases exists_of_ofPlan hTwin with
    ⟨hStatics', hDynamics'⟩
  intro path
  have hLookup :=
    Plan.rel_lookup_statics hRead hPerm hPlan hOther path
  unfold find
  rw [hStatics, hStatics']
  revert hLookup
  generalize (staticsOf plan).lookup path = handlers
  generalize (staticsOf other).lookup path = twins
  intro hLookup
  cases hLookup with
  | some hShared =>
      rcases hShared with ⟨variant, hFirst, hSecond⟩
      exact .some ⟨variant, hFirst, hSecond⟩
  | none =>
      dsimp only
      rcases hDynamics with
        ⟨hEmpty, hNoTable⟩ | ⟨hSome, compiled, hOwn, hTable⟩
      · rcases hDynamics' with
          ⟨-, hNoTable'⟩ | ⟨hSome', -⟩
        · rw [hNoTable, hNoTable']
          exact .none
        · exact absurd (hNone.mp hEmpty) hSome'
      · rcases hDynamics' with
          ⟨hEmpty', -⟩ | ⟨-, compiled', hOwn', hTable'⟩
        · exact absurd (hNone.mpr hEmpty') hSome
        · rw [hSource, hOwn'] at hOwn
          cases hOwn
          rw [hTable, hTable']
          exact
            DynamicTable.rel_find_of_perm hRead hPerm hHolds
              hHolds' hLike compiled path

end MethodProgram

end RequestRouter

------------------------------------------------------------
-- Owners among Registrations
------------------------------------------------------------

namespace RequestRouter

variable {E : Regex.Engine}
variable {H : Type}

namespace Leaf

/- An owner has the handler of its route. -/
theorem handler_of_owner?
    {leaf : PlannedVariant}
    {route : PlannedRoute H}
    {owner : Owner H}
    (hOwner : owner? leaf route = some owner) :
    owner.handler = route.handler := by
  unfold owner? at hOwner
  cases hOwning :
      route.variants.filter (isOwnedBy leaf) with
  | nil => simp [hOwning] at hOwner
  | cons first rest =>
      simp only [hOwning, Option.some.injEq] at hOwner
      rw [← hOwner]

end Leaf

namespace Registration

/-
  The part of a registration that owns a variant's leaf for
  a method, if it can be parsed and planned and serves.
-/
def ownerFor?
    (E : Regex.Engine)
    (method : Text)
    (variant : PlannedVariant)
    (registration : Registration H) : Option (Owner H) :=
  (ParsedRoute.ofRegistration (E := E)
    registration).toOption.bind fun route =>
      if Method.serves route.method method then
        route.plan.toOption.bind (Leaf.owner? variant)
      else none

/- The routes of the registrations that can be parsed. -/
def parsed
    (E : Regex.Engine)
    (registrations : List (Registration H)) :
    List (ParsedRoute E H) :=
  registrations.filterMap fun registration =>
    (ParsedRoute.ofRegistration registration).toOption

/- An owner has the handler of its registration. -/
theorem handler_of_ownerFor?
    {method : Text}
    {variant : PlannedVariant}
    {registration : Registration H}
    {owner : Owner H}
    (hOwner :
      registration.ownerFor? E method variant =
        some owner) :
    owner.handler = registration.handler := by
  rcases Option.bind_eq_some_iff.mp hOwner with
    ⟨route, hRoute, hServing⟩
  have hParsed := (Sequence.toOption_eq_some_iff _ _).mp hRoute
  split at hServing
  case isFalse => cases hServing
  case isTrue =>
      rcases Option.bind_eq_some_iff.mp hServing with
        ⟨planned, hPlanned, hOwn⟩
      have hPlan :=
        (Sequence.toOption_eq_some_iff _ _).mp hPlanned
      have hFor := ParsedRoute.isFor_of_plan hParsed hPlan
      rw [← hFor.1]
      exact Leaf.handler_of_owner? hOwn

/- The owners of a leaf are the registrations that own it. -/
theorem owners_ofVariant
    (registrations : List (Registration H))
    {method : Text}
    {planned : List (PlannedRoute H)}
    (hPlanned :
      ((parsed E registrations).filter
          (Method.serves ·.method method)).mapM
        ParsedRoute.plan = .ok planned)
    (variant : PlannedVariant) :
    (Leaf.ofVariant planned variant).owners =
      registrations.filterMap
        (ownerFor? E method variant) := by
  rw [Sequence.eq_filterMap_of_mapM hPlanned, parsed,
    Leaf.ofVariant, List.filterMap_filterMap,
    List.filterMap_filter, List.filterMap_filterMap]
  rfl

/- The handlers of a leaf are those of its owners, in order. -/
theorem handlers_ofVariant
    (registrations : List (Registration H))
    {method : Text}
    {planned : List (PlannedRoute H)}
    (hPlanned :
      ((parsed E registrations).filter
          (Method.serves ·.method method)).mapM
        ParsedRoute.plan = .ok planned)
    (variant : PlannedVariant) :
    (Leaf.ofVariant planned variant).handlers =
      (registrations.filter fun registration =>
        (registration.ownerFor? E method
          variant).isSome).map (·.handler) := by
  rw [Leaf.handlers,
    owners_ofVariant registrations hPlanned variant]
  clear hPlanned
  induction registrations with
  | nil => rfl
  | cons registration rest ih =>
      rw [List.filterMap_cons, List.filter_cons]
      cases hOwner :
          registration.ownerFor? E method variant with
      | none => simpa using ih
      | some owner =>
          simp [ih, handler_of_ownerFor? hOwner]

end Registration

end RequestRouter

------------------------------------------------------------
-- Programs of Reordered Registrations
------------------------------------------------------------

namespace RequestRouter

variable {E : Regex.Engine}
variable {H : Type}

namespace Registration

/- A registration that can be parsed is among the parsed. -/
theorem mem_parsed
    {registrations : List (Registration H)}
    {registration : Registration H}
    (hMember : registration ∈ registrations)
    {route : ParsedRoute E H}
    (hParsed :
      ParsedRoute.ofRegistration registration = .ok route) :
    route ∈ parsed E registrations := by
  refine List.mem_filterMap.mpr ⟨_, hMember, ?_⟩
  simp [hParsed, Except.toOption]

/- A route that is parsed comes from some registration. -/
theorem exists_of_mem_parsed
    {registrations : List (Registration H)}
    {route : ParsedRoute E H}
    (hRoute : route ∈ parsed E registrations) :
    ∃ registration ∈ registrations,
      ParsedRoute.ofRegistration registration = .ok route := by
  rcases List.mem_filterMap.mp hRoute with
    ⟨registration, hMember, hParsed⟩
  exact
    ⟨registration, hMember,
      (Sequence.toOption_eq_some_iff _ _).mp hParsed⟩

/- What registrations are planned as is read from paths. -/
theorem areRead_of_mapM
    {registrations : List (Registration H)}
    {method : Text}
    {planned : List (PlannedRoute H)}
    (hPlanned :
      ((parsed E registrations).filter
          (Method.serves ·.method method)).mapM
        ParsedRoute.plan = .ok planned) :
    PlannedRoute.AreRead E planned := by
  intro variant hVariant
  rcases List.mem_flatMap.mp hVariant with
    ⟨route, hRoute, hOwn⟩
  rcases Sequence.exists_of_mem_mapM hPlanned hRoute with
    ⟨own, hServing, hPlan⟩
  rcases
      exists_of_mem_parsed (List.mem_filter.mp hServing).1
    with ⟨registration, -, hParsed⟩
  exact
    ((ParsedRoute.isFor_of_plan hParsed hPlan).exists_path
      hOwn).2

end Registration

/- Whether matches have the handlers of the same owners. -/
def Match.ShareOwners
    (registrations others : List (Registration H))
    (found twin : Match H) : Prop :=
  ∃ picked : Registration H → Bool,
    found.handlers =
        (registrations.filter picked).map (·.handler) ∧
      twin.handlers =
        (others.filter picked).map (·.handler)

namespace MethodProgram

/-
  If registrations can be built for a method in one order,
  they can in every other, and what both programs find has
  the handlers of the same registrations.
-/
theorem exists_build_of_perm
    {registrations others : List (Registration H)}
    (hPerm : registrations.Perm others)
    {method : Text}
    {program : MethodProgram E H}
    (hBuild :
      (build (Registration.parsed E registrations)
        method).value = .ok program) :
    ∃ twin : MethodProgram E H,
      (build (Registration.parsed E others) method).value =
          .ok twin ∧
        ∀ path,
          Option.Rel (Match.ShareOwners registrations others)
            (program.find path) (twin.find path) := by
  unfold build at hBuild
  cases hPlan :
      Plan.ofRoutes (Registration.parsed E registrations)
        method with
  | error error =>
      simp [hPlan, Traced.silent] at hBuild
  | ok plan =>
      simp only [hPlan] at hBuild
      rcases (Sequence.bind_eq_ok_iff _ _ _).mp hPlan with
        ⟨planned, hPlanned, hLeaves⟩
      have hRoutes :
          ((Registration.parsed E registrations).filter
              (Method.serves ·.method method)).Perm
            ((Registration.parsed E others).filter
              (Method.serves ·.method method)) :=
        (hPerm.filterMap _).filter _
      rcases
          Sequence.exists_mapM_of_perm hRoutes hPlanned with
        ⟨twins, hTwins, hSame⟩
      rcases
          rel_find_of_perm
            (Registration.areRead_of_mapM hPlanned) hSame
            hLeaves hBuild method with
        ⟨other, twin, hOther, hTwin, hFind⟩
      have hOfRoutes :
          Plan.ofRoutes (Registration.parsed E others)
            method = .ok other :=
        (Sequence.bind_eq_ok_iff _ _ _).mpr
          ⟨twins, hTwins, hOther⟩
      refine ⟨twin, by simp [build, hOfRoutes, hTwin], ?_⟩
      intro path
      have hShared := hFind path
      revert hShared
      generalize program.find path = found
      generalize twin.find path = answer
      intro hShared
      cases hShared with
      | none => exact .none
      | some hLeaf =>
          rcases hLeaf with ⟨variant, hFirst, hSecond⟩
          have hOwners :=
            hFirst.trans
              (Registration.handlers_ofVariant registrations
                hPlanned variant)
          have hTwinOwners :=
            hSecond.trans
              (Registration.handlers_ofVariant others hTwins
                variant)
          exact .some ⟨_, hOwners, hTwinOwners⟩

end MethodProgram

end RequestRouter

------------------------------------------------------------
-- Reordered Matchers
------------------------------------------------------------

namespace RequestRouter

variable {E : Regex.Engine}
variable {H : Type}

namespace Compiled

/-
  The matcher that registrations leave behind; one that is
  refused changes nothing.
-/
def ofRegistrations
    (E : Regex.Engine)
    (registrations : List (Registration H)) :
    Compiled E H :=
  registrations.foldl
    (fun matcher registration =>
      (matcher.add registration).toOption.getD matcher)
    empty

/- It holds the registrations that can be parsed, unbuilt. -/
theorem ofRegistrations_eq
    (registrations : List (Registration H)) :
    ofRegistrations E registrations =
      ⟨Registration.parsed E registrations, none⟩ := by
  unfold ofRegistrations
  induction registrations using List.reverseRecOn with
  | nil => rfl
  | append_singleton registrations registration ih =>
      rw [List.foldl_append, ih, Registration.parsed,
        Registration.parsed, List.filterMap_append]
      cases hRoute :
          ParsedRoute.ofRegistration (E := E)
            registration with
      | error error =>
          simp [add, hRoute, Except.toOption, bind,
            Except.bind]
      | ok route =>
          simp [add, hRoute, Except.toOption, bind,
            Except.bind]

/- All programs are built if the one of each method is. -/
theorem exists_buildAll_iff
    (routes : List (ParsedRoute E H))
    (methods : List Text) :
    (∃ programs,
        (buildAll routes methods).value = .ok programs) ↔
      ∀ method ∈ methods, ∃ program,
        (MethodProgram.build routes method).value =
          .ok program := by
  induction methods with
  | nil => simp [buildAll, Traced.silent]
  | cons method rest ih =>
      rw [List.forall_mem_cons, ← ih, buildAll,
        Traced.value_bind]
      cases (MethodProgram.build routes method).value with
      | error error =>
          simp [pure, Traced.silent]
      | ok program =>
          dsimp only
          rw [Traced.value_bind]
          cases (buildAll routes rest).value with
          | error error => simp [pure, Traced.silent]
          | ok others => simp [pure, Traced.silent]

/- The methods of reordered routes are the same. -/
theorem mem_methods_iff_of_perm
    {routes others : List (ParsedRoute E H)}
    (hPerm : routes.Perm others)
    (method : Text) :
    method ∈ methods routes ↔ method ∈ methods others := by
  simp only [methods, List.mem_eraseDups, List.mem_cons,
    (hPerm.map (·.method)).mem_iff]

/-
  If a matcher can be built with registrations in one order,
  it can in every other.
-/
theorem exists_buildAll_of_perm
    {registrations others : List (Registration H)}
    (hPerm : registrations.Perm others)
    {programs : Programs E H}
    (hBuild :
      (buildAll (Registration.parsed E registrations)
        (methods (Registration.parsed E registrations))).value
          = .ok programs) :
    ∃ twins,
      (buildAll (Registration.parsed E others)
        (methods (Registration.parsed E others))).value =
          .ok twins := by
  rw [exists_buildAll_iff]
  intro method hMethod
  have hOwn :=
    (mem_methods_iff_of_perm (hPerm.filterMap _) method).mpr
      hMethod
  rcases
      (exists_buildAll_iff _ _).mp ⟨programs, hBuild⟩ method
        hOwn with
    ⟨program, hProgram⟩
  rcases
      MethodProgram.exists_build_of_perm hPerm hProgram with
    ⟨twin, hTwin, -⟩
  exact ⟨twin, hTwin⟩

/-
  Whether two answers, given for registrations in two orders,
  are alike: both are errors, or neither finds anything, or
  both have the handlers of the same registrations, each in
  the order of its own list.
-/
inductive AreAlike
    (registrations others : List (Registration H)) :
    Except RouteError (Option (Match H)) →
      Except RouteError (Option (Match H)) → Prop where
  | refused (error other) :
      AreAlike registrations others (.error error)
        (.error other)
  | nothing :
      AreAlike registrations others (.ok none) (.ok none)
  | found {found twin}
      (hShared :
        found.ShareOwners registrations others twin) :
      AreAlike registrations others (.ok (some found))
        (.ok (some twin))

/-
  The order of registrations does not decide whether a
  matcher can serve them: after any lookups, the answers to
  a request are alike for every two orders.
-/
theorem lookup_of_perm
    {registrations others : List (Registration H)}
    (hPerm : registrations.Perm others)
    (requests targets : List (Text × Text))
    (method path : Text) :
    AreAlike registrations others
      (((ofRegistrations E registrations).afterLookups
        requests).lookup method path).value.1
      (((ofRegistrations E others).afterLookups
        targets).lookup method path).value.1 := by
  rw [value_lookup, value_lookup, programs_afterLookups,
    programs_afterLookups, ofRegistrations_eq,
    ofRegistrations_eq]
  unfold programs
  dsimp only
  cases hFirst :
      (buildAll (Registration.parsed E registrations)
        (methods
          (Registration.parsed E registrations))).value with
  | error error =>
      cases hSecond :
          (buildAll (Registration.parsed E others)
            (methods (Registration.parsed E others))).value
        with
      | error other => exact .refused error other
      | ok twins =>
          rcases
              exists_buildAll_of_perm hPerm.symm hSecond with
            ⟨programs, hPrograms⟩
          rw [hFirst] at hPrograms
          cases hPrograms
  | ok programs =>
      rcases exists_buildAll_of_perm hPerm hFirst with
        ⟨twins, hSecond⟩
      rw [hSecond]
      rcases exists_program hFirst method with
        ⟨program, hProgram, hFind⟩
      rcases exists_program hSecond method with
        ⟨twin, hTwin, hFindTwin⟩
      rcases
          MethodProgram.exists_build_of_perm hPerm hProgram
        with ⟨own, hOwn, hShared⟩
      rw [hTwin] at hOwn
      cases hOwn
      dsimp only
      rw [hFind, hFindTwin]
      have hAnswers := hShared path
      revert hAnswers
      generalize program.find path = answer
      generalize twin.find path = other
      intro hAnswers
      cases hAnswers with
      | none => exact .nothing
      | some hOwners => exact .found hOwners

/- The reversed list is served as well, by the same routes. -/
theorem lookup_of_perm_reversed :
    mixed.Perm mixed.reverse ∧
      AreAlike mixed mixed.reverse
        (.ok
          (some
            ⟨[0, 1], ⟨[(['x'], ['c']), (['y'], ['d'])]⟩⟩))
        ((ofRegistrations Regex.treeEngine
            mixed.reverse).lookup ['G']
              ['/', 'a', '/', 'c', '/', 'd']).value.1 := by
  have hFirst :
      ((ofRegistrations Regex.treeEngine mixed).lookup ['G']
          ['/', 'a', '/', 'c', '/', 'd']).value.1 =
        .ok
          (some
            ⟨[0, 1],
              ⟨[(['x'], ['c']), (['y'], ['d'])]⟩⟩) := by
    decide +kernel
  have hPerm : mixed.Perm mixed.reverse :=
    (List.reverse_perm mixed).symm
  rw [← hFirst]
  exact
    ⟨hPerm,
      @lookup_of_perm Regex.treeEngine Nat mixed mixed.reverse
        hPerm [] [] ['G'] ['/', 'a', '/', 'c', '/', 'd']⟩

end Compiled

end RequestRouter
