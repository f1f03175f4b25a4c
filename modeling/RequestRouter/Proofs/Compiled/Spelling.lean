import RequestRouter.Proofs.Compiled.Reordering
import RequestRouter.Proofs.SegmentTree.Foremost

/-
  Answers by the paths that variants spell.

  A constraint is counted if its source is closed and its
  groups are as many as the source opens. If the constraints
  of all routes are, a compiled matcher answers a path with
  the owners of the foremost variant whose edges spell the
  path, and binds their names to what these edges catch; no
  group is taken for that of another parameter or leaf. Where
  it has no answer, no variant spells the path.

  Key definitions include:
    * `PlannedVariant.Spells`
    * `Owner.answer`
    * `Plan.Prefers`
    * `ParsedRoute.IsCounted`
    * `Compiled.IsSpelled`

  Main statements:
    * `MethodProgram.find_spells`
    * `Compiled.isSpelled_of_lookup`
-/

------------------------------------------------------------
-- Answers of a Table
------------------------------------------------------------

namespace RequestRouter

open Regex

variable {E : Engine}
variable {H : Type}

namespace PlannedVariant

/- Whether the edges of a variant spell a path. -/
def Spells
    (variant : PlannedVariant)
    (path : Text)
    (texts : List (Option Text)) : Prop :=
  Edge.Spells [] (Step.edges variant.steps)
    (Place.start path) texts

/- A literal variant spells its own path, and binds nothing. -/
theorem IsRead.spells_iff_of_literal
    {variant : PlannedVariant}
    (hRead : variant.IsRead E)
    (hLiteral : Step.allLiteral variant.steps = true)
    (path : Text) :
    (∃ texts, variant.Spells path texts) ↔
      variant.path = path := by
  rcases hRead with ⟨patterns, hParse, hSteps⟩
  unfold Spells
  rw [Step.edges_eq_of_allLiteral hSteps hLiteral,
    Pattern.map_label_of_parsePath hParse]
  simp only [Edge.spells_path_iff (Path.split_ne_nil _),
    Path.intercalate_split]
  constructor
  · intro hSpells
    rcases hSpells with ⟨texts, rfl, -⟩
    rfl
  · rintro rfl
    exact ⟨_, rfl, rfl⟩

end PlannedVariant

namespace Owner

/-
  The answer of the owners of a leaf: their handlers, and
  their names with what the edges of the leaf catch.
-/
def answer
    (texts : List (Option Text))
    (owners : List (Owner H)) : Match H :=
  ⟨owners.map (·.handler),
    .ofList ((owners.flatMap (·.variants)).flatMap
      (Step.spelled · texts))⟩

end Owner

namespace PlannedRoute

/- Whether the edges of all variants of routes are counted. -/
def AreCounted
    (routes : List (PlannedRoute H)) : Prop :=
  ∀ variant ∈ routes.flatMap (·.variants),
    ∀ edge ∈ Step.edges variant.steps, edge.IsCounted

end PlannedRoute

/- A list looks up the same without what is not asked for. -/
theorem lookup_filter
    (keep : Nat → Bool)
    {key : Nat}
    (hKeep : keep key = true)
    (entries : List (Nat × Text)) :
    (entries.filter (keep ·.1)).lookup key =
      entries.lookup key := by
  induction entries with
  | nil => rfl
  | cons entry rest ih =>
      rcases entry with ⟨own, text⟩
      cases hSame : key == own with
      | true =>
          have hOwn : keep own = true :=
            beq_iff_eq.mp hSame ▸ hKeep
          simp [hOwn, List.lookup_cons, hSame]
      | false =>
          cases hOwn : keep own with
          | true => simp [hOwn, List.lookup_cons, hSame, ih]
          | false => simp [hOwn, List.lookup_cons, hSame, ih]

section Planned

variable {routes : List (PlannedRoute H)}
variable {plan : Plan H}

namespace Plan

/-
  Which variant a plan answers a path for: the literal one
  with this path, or else the foremost leaf of the tree that
  spells it.
-/
inductive Prefers
    (plan : Plan H)
    (path : Text) : PlannedVariant → Prop where
  | literal {variant}
      (hLiteral : Step.allLiteral variant.steps = true)
      (hPath : variant.path = path) :
      Prefers plan path variant
  | dynamic {variant}
      (hFree : ∀ leaf ∈ plan.statics, leaf.path ≠ path)
      (hForemost :
        plan.tree.root.IsForemost [] (Place.start path)
          (Step.edges variant.steps)) :
      Prefers plan path variant

/- The leaves of the tree have counted edges. -/
theorem allEdges_isCounted
    (hCounted : PlannedRoute.AreCounted routes)
    (hPlan : plan.Holds (Leaf.ofRoutes routes)) :
    plan.tree.root.AllEdges Edge.IsCounted := by
  intro edges trail number hHas
  rcases (hPlan.hasLeaf_iff _ _ _).mp hHas with
    ⟨leaf, hLeaf, rfl⟩
  rcases
      Leaf.exists_variant_of_mem_ofRoutes
        (hPlan.mem_of_dynamics hLeaf).1 with
    ⟨route, hRoute, variant, hVariant, rfl⟩
  exact
    hCounted variant
      (List.mem_flatMap.mpr ⟨route, hRoute, hVariant⟩)

/- The names of a leaf's owners are bound to what is caught. -/
theorem ofList_paramGroups_spelled
    (hRead : PlannedRoute.AreRead E routes)
    (hPlan : plan.Holds (Leaf.ofRoutes routes))
    {variant : PlannedVariant}
    (hVariant : variant ∈ routes.flatMap (·.variants))
    {trail : List Nat}
    {number : Nat}
    (hLeaf :
      plan.dynamics[number]? =
        some (Leaf.ofVariant routes variant, trail))
    {path : Text}
    {texts : List (Option Text)}
    (hSpells : variant.Spells path texts)
    {captureGroups : List (Nat × Nat)}
    {value : Nat → Option Text}
    (hValue :
      ∀ node,
        (captureGroups.lookup node).bind value =
          (Edge.caughtAt trail texts).lookup node) :
    Params.ofList
        (Params.valuesOf value
          ((Leaf.ofVariant routes variant).paramGroups
            captureGroups trail)) =
      (Owner.answer texts
        (Leaf.ofVariant routes variant).owners).params := by
  have hHas :=
    (hPlan.hasLeaf_iff _ _ _).mpr ⟨_, hLeaf, rfl⟩
  have hNodup := hHas.nodup_trail hPlan.sound.nodup
  have hLength : trail.length = variant.steps.length := by
    simpa [Step.edges, Leaf.ofVariant] using hHas.length_trail
  refine
    (Leaf.ofList_valuesOf_paramGroups rfl
      (Step.spelled · texts) ?_).trans ?_
  · intro route hRoute other hOther
    rcases List.mem_filter.mp hOther with
      ⟨hOther, hOwned⟩
    have hOwn :=
      hRead other
        (List.mem_flatMap.mpr ⟨route, hRoute, hOther⟩)
    have hCovers :=
      (hRead variant hVariant).covers_of_isOwnedBy hOwn hOwned
    rcases hOwn with ⟨patterns, -, hSteps⟩
    constructor
    · rw [funext hValue]
      exact
        Step.bound_caughtAt hSpells hNodup hLength hSteps
          hCovers
    · intro pair hPair
      apply Leaf.isSome_of_mem_pairs hValue ?_ hPair
      intro step node hZip hNamed
      rcases List.mem_iff_getElem?.mp hZip with
        ⟨index, hIndex⟩
      rcases List.getElem?_zip_eq_some.mp hIndex with
        ⟨hStep, hNode⟩
      rcases
          Step.exists_text_of_named hSpells hSteps hCovers
            hStep hNamed with
        ⟨text, hText⟩
      rw [Edge.lookup_caughtAt hNodup hNode hText]
      rfl
  · exact
      congrArg Params.ofList
        (Leaf.flatMap_owners routes variant
          (Step.spelled · texts)).symm

end Plan

namespace DynamicTable

/-
  What is found for the expression of a counted plan is the
  first way of its tree, by the counted ways of its edges.
-/
theorem exists_rel_find_ways
    (hE : E.IsLeftmostFirst)
    (hCounted : PlannedRoute.AreCounted routes)
    (hPlan : plan.Holds (Leaf.ofRoutes routes))
    (hSome : plan.dynamics ≠ [])
    {program : E.Program}
    (hCompile :
      E.compile plan.tree.flatten.source = .ok program) :
    ∃ preferred, IsPreference preferred ∧
      ∀ path,
        Option.Rel
          (fun captures (way : Way) =>
            plan.tree.flatten.IsAnsweredBy captures
              way.record)
          (E.find program path)
          (plan.tree.root.ways (Edge.closedWays preferred) []
            1 (Place.start path)).head? := by
  rcases hE with ⟨preferred, hPreferred, hEngine⟩
  rcases hEngine hCompile with ⟨e, hParse, -, hFinds⟩
  have hEdges := Plan.allEdges_isCounted hCounted hPlan
  have hDenotes :=
    TreeNode.denotes_flatten hPreferred plan.tree.root
      hPlan.sound.orderly (hPlan.used hSome)
      (fun edges trail leaf hHas edge hEdge =>
        Edge.isReadWell_of_isCounted
          (hEdges edges trail leaf hHas edge hEdge))
      (Or.inl rfl) 0
  refine ⟨preferred, hPreferred, fun path => ?_⟩
  exact
    SegmentTree.rel_finds_flatten hPreferred hDenotes hParse
      (hFinds path)

/-
  Where the expression of a counted plan matches a path, the
  captures report the foremost leaf of the tree that spells
  the path, with what its edges catch.
-/
theorem exists_records
    (hE : E.IsLeftmostFirst)
    (hRead : PlannedRoute.AreRead E routes)
    (hCounted : PlannedRoute.AreCounted routes)
    (hPlan : plan.Holds (Leaf.ofRoutes routes))
    (hSome : plan.dynamics ≠ [])
    {program : E.Program}
    (hCompile :
      E.compile plan.tree.flatten.source = .ok program)
    {path : Text}
    {captures : Captures}
    (hCaptures : E.find program path = some captures) :
    ∃ variant ∈ routes.flatMap (·.variants),
      ∃ texts trail number record,
        variant.Spells path texts ∧
          plan.tree.root.IsForemost [] (Place.start path)
            (Step.edges variant.steps) ∧
          plan.dynamics[number]? =
            some (Leaf.ofVariant routes variant, trail) ∧
          plan.tree.flatten.Records record
            ⟨number, Edge.caughtAt trail texts⟩ ∧
          plan.tree.flatten.IsAnsweredBy captures record := by
  have hEdges := Plan.allEdges_isCounted hCounted hPlan
  rcases
      exists_rel_find_ways hE hCounted hPlan hSome hCompile
    with ⟨preferred, hPreferred, hFinds⟩
  have hFound := hFinds path
  rw [hCaptures] at hFound
  revert hFound
  generalize hHead :
    (plan.tree.root.ways (Edge.closedWays preferred) [] 1
      (Place.start path)).head? = first
  intro hFound
  cases hFound with
  | @some _ way hAnswered =>
      rcases
          TreeNode.exists_foremost hPreferred
            plan.tree.root hPlan.sound.orderly hEdges
            hHead with
        ⟨edges, trail, number, texts, hHas, hSpells,
          hForemost, -, hReports⟩
      rcases (hPlan.hasLeaf_iff _ _ _).mp hHas with
        ⟨leaf, hLeaf, rfl⟩
      have hMember := (hPlan.mem_of_dynamics hLeaf).1
      rw [Leaf.ofRoutes_eq] at hMember
      rcases List.mem_map.mp hMember with
        ⟨variant, hVariant, rfl⟩
      rw [Leaf.mem_distinct_iff hRead] at hVariant
      refine
        ⟨variant, hVariant, texts, trail, number, _,
          hSpells, hForemost, hLeaf, hReports, ?_⟩
      intro group hGroup
      rw [hAnswered group hGroup]
      exact
        (lookup_filter
          (fun key =>
            decide (key ∈ plan.tree.flatten.groups))
          (decide_eq_true hGroup) way.record).symm

/- Where it does not match, no variant of it spells a path. -/
theorem not_spells_of_find_eq_none
    (hE : E.IsLeftmostFirst)
    (hRead : PlannedRoute.AreRead E routes)
    (hCounted : PlannedRoute.AreCounted routes)
    (hPlan : plan.Holds (Leaf.ofRoutes routes))
    (hSome : plan.dynamics ≠ [])
    {program : E.Program}
    (hCompile :
      E.compile plan.tree.flatten.source = .ok program)
    {path : Text}
    (hCaptures : E.find program path = none)
    {variant : PlannedVariant}
    (hVariant : variant ∈ routes.flatMap (·.variants))
    (hDynamic : Step.allLiteral variant.steps = false)
    (texts : List (Option Text)) :
    ¬ variant.Spells path texts := by
  rcases
      exists_rel_find_ways hE hCounted hPlan hSome hCompile
    with ⟨preferred, hPreferred, hFinds⟩
  have hFound := hFinds path
  rw [hCaptures] at hFound
  intro hSpells
  rcases
      Plan.exists_dynamics_of_mem hRead hPlan hVariant
        hDynamic with
    ⟨trail, number, -, hHas⟩
  rcases
      TreeNode.exists_way_of_spells hPreferred hHas hSpells 1
    with ⟨way, hWay⟩
  revert hFound
  generalize hHead :
    (plan.tree.root.ways (Edge.closedWays preferred) [] 1
      (Place.start path)).head? = first
  intro hFound
  cases hFound
  rw [List.head?_eq_none_iff.mp hHead] at hWay
  cases hWay

/-
  The table of a counted plan answers for the foremost leaf
  of the tree that spells the path, or no variant of the
  tree spells it.
-/
theorem find_spells
    (hE : E.IsLeftmostFirst)
    (hRead : PlannedRoute.AreRead E routes)
    (hCounted : PlannedRoute.AreCounted routes)
    (hPlan : plan.Holds (Leaf.ofRoutes routes))
    (hSome : plan.dynamics ≠ [])
    {program : E.Program}
    (hCompile :
      E.compile plan.tree.flatten.source = .ok program)
    (path : Text) :
    (∀ variant ∈ routes.flatMap (·.variants),
        Step.allLiteral variant.steps = false →
          ∀ texts, ¬ variant.Spells path texts) ∧
        (ofPlan program plan.tree.flatten
          plan.dynamics : DynamicTable E H).find path =
            none ∨
      ∃ variant ∈ routes.flatMap (·.variants), ∃ texts,
        variant.Spells path texts ∧
          plan.tree.root.IsForemost [] (Place.start path)
            (Step.edges variant.steps) ∧
          (∃ trail,
            (Leaf.ofVariant routes variant, trail) ∈
              plan.dynamics) ∧
          (ofPlan program plan.tree.flatten
            plan.dynamics : DynamicTable E H).find path =
              some
                (Owner.answer texts
                  (Leaf.ofVariant routes variant).owners) := by
  cases hCaptures : E.find program path with
  | none =>
      refine
        Or.inl ⟨?_, by simp [find, ofPlan, hCaptures]⟩
      intro variant hVariant hDynamic texts
      exact
        not_spells_of_find_eq_none hE hRead hCounted hPlan
          hSome hCompile hCaptures hVariant hDynamic texts
  | some captures =>
      rcases
          exists_records hE hRead hCounted hPlan hSome
            hCompile hCaptures with
        ⟨variant, hVariant, texts, trail, number, record,
          hSpells, hForemost, hLeaf, hRecords, hAnswered⟩
      rcases
          find_of_records hPlan.sound.nodup hCaptures
            hRecords hAnswered hLeaf with
        ⟨hFind, hValue⟩
      refine
        Or.inr
          ⟨variant, hVariant, texts, hSpells, hForemost,
            ⟨trail, List.mem_of_getElem? hLeaf⟩, ?_⟩
      rw [hFind,
        Plan.ofList_paramGroups_spelled hRead hPlan
          hVariant hLeaf hSpells hValue]
      rfl

end DynamicTable

namespace MethodProgram

/- A path in the table is that of a variant it answers for. -/
theorem exists_static
    (hRead : PlannedRoute.AreRead E routes)
    (hPlan : plan.Holds (Leaf.ofRoutes routes))
    {path : Text}
    {handlers : List H}
    (hTable :
      (staticsOf plan).lookup path = some handlers) :
    ∃ variant ∈ routes.flatMap (·.variants),
      variant.path = path ∧
        Step.allLiteral variant.steps = true ∧
        plan.tree.admits variant.steps = true ∧
        handlers =
          (Leaf.ofVariant routes variant).handlers := by
  rcases List.lookup_eq_some_iff.mp hTable with
    ⟨before, after, hEntries, -⟩
  have hEntry : (path, handlers) ∈ staticsOf plan := by
    simp [hEntries]
  rcases List.mem_map.mp hEntry with ⟨leaf, hLeaf, hSame⟩
  cases hSame
  have hAdmits := hPlan.admits leaf hLeaf
  rw [hPlan.statics, Leaf.ofRoutes_eq, List.mem_filter]
    at hLeaf
  rcases hLeaf with ⟨hLeaf, hLiteral⟩
  rcases List.mem_map.mp hLeaf with
    ⟨variant, hVariant, rfl⟩
  rw [Leaf.mem_distinct_iff hRead] at hVariant
  exact ⟨variant, hVariant, rfl, hLiteral, hAdmits, rfl⟩

/- It spells this path, and nothing is bound. -/
theorem answer_of_literal
    (hRead : PlannedRoute.AreRead E routes)
    {variant : PlannedVariant}
    (hVariant : variant ∈ routes.flatMap (·.variants))
    (hLiteral : Step.allLiteral variant.steps = true) :
    ∃ texts,
      variant.Spells variant.path texts ∧
        (⟨(Leaf.ofVariant routes variant).handlers,
            .empty⟩ : Match H) =
          Owner.answer texts
            (Leaf.ofVariant routes variant).owners := by
  rcases
      ((hRead variant hVariant).spells_iff_of_literal
        hLiteral variant.path).mpr rfl with
    ⟨texts, hSpells⟩
  refine ⟨texts, hSpells, ?_⟩
  have hNone : ∀ text ∈ texts, text = none := by
    apply hSpells.eq_none_of_literals
    intro edge hEdge
    rcases List.mem_map.mp hEdge with ⟨step, hStep, rfl⟩
    exact List.all_eq_true.mp hLiteral step hStep
  have hNames :
      ((Leaf.ofVariant routes variant).owners.flatMap
        (·.variants)).flatMap (Step.spelled · texts) = [] := by
    apply List.flatMap_eq_nil_iff.mpr
    intro steps _
    exact Step.spelled_of_none steps hNone
  unfold Owner.answer
  rw [hNames]
  rfl

/- No literal variant spells a path outside the table. -/
theorem not_spells_of_literal
    (hRead : PlannedRoute.AreRead E routes)
    (hPlan : plan.Holds (Leaf.ofRoutes routes))
    {path : Text}
    (hTable : (staticsOf plan).lookup path = none)
    {variant : PlannedVariant}
    (hVariant : variant ∈ routes.flatMap (·.variants))
    (hLiteral : Step.allLiteral variant.steps = true)
    (texts : List (Option Text)) :
    ¬ variant.Spells path texts := by
  intro hSpells
  have hPath :=
    ((hRead variant hVariant).spells_iff_of_literal hLiteral
      path).mp ⟨texts, hSpells⟩
  have hLeaf :
      Leaf.ofVariant routes variant ∈ plan.statics := by
    rw [hPlan.statics, Leaf.ofRoutes_eq, List.mem_filter]
    refine ⟨List.mem_map_of_mem ?_, hLiteral⟩
    exact (Leaf.mem_distinct_iff hRead variant).mpr hVariant
  have hNone :=
    List.lookup_eq_none_iff.mp hTable _
      (List.mem_map_of_mem hLeaf)
  simp [Leaf.ofVariant, hPath] at hNone

/-
  The program of a counted plan answers for the variant that
  it prefers, which spells the path, or no variant spells it.
-/
theorem find_spells
    (hE : E.IsLeftmostFirst)
    (hRead : PlannedRoute.AreRead E routes)
    (hCounted : PlannedRoute.AreCounted routes)
    (hPlan : plan.Holds (Leaf.ofRoutes routes))
    {method : Text}
    {program : MethodProgram E H}
    (hProgram : (ofPlan method plan).value = .ok program)
    (path : Text) :
    (∀ variant ∈ routes.flatMap (·.variants), ∀ texts,
        ¬ variant.Spells path texts) ∧
        program.find path = none ∨
      ∃ variant ∈ routes.flatMap (·.variants), ∃ texts,
        variant.Spells path texts ∧
          plan.Prefers path variant ∧
          program.find path =
            some
              (Owner.answer texts
                (Leaf.ofVariant routes variant).owners) := by
  rcases exists_of_ofPlan hProgram with
    ⟨hStatics, hDynamics⟩
  unfold find
  rw [hStatics]
  cases hTable : (staticsOf plan).lookup path with
  | some handlers =>
      rcases exists_static hRead hPlan hTable with
        ⟨variant, hVariant, rfl, hLiteral, -, rfl⟩
      rcases answer_of_literal hRead hVariant hLiteral with
        ⟨texts, hSpells, hAnswer⟩
      exact
        Or.inr
          ⟨variant, hVariant, texts, hSpells,
            .literal hLiteral rfl, congrArg some hAnswer⟩
  | none =>
      have hFree : ∀ leaf ∈ plan.statics, leaf.path ≠ path := by
        intro leaf hLeaf hPath
        have hNone :=
          List.lookup_eq_none_iff.mp hTable _
            (List.mem_map_of_mem hLeaf)
        simp [hPath] at hNone
      have hLiteral :
          ∀ variant ∈ routes.flatMap (·.variants),
            Step.allLiteral variant.steps = true →
              ∀ texts, ¬ variant.Spells path texts :=
        fun variant hVariant hKind texts =>
          not_spells_of_literal hRead hPlan hTable hVariant
            hKind texts
      dsimp only
      rcases hDynamics with
        ⟨hEmpty, hNoTable⟩ | ⟨hSome, compiled, hCompile, hTree⟩
      · rw [hNoTable]
        refine Or.inl ⟨?_, rfl⟩
        intro variant hVariant
        cases hKind : Step.allLiteral variant.steps with
        | true => exact hLiteral variant hVariant hKind
        | false =>
            rcases
                Plan.exists_dynamics_of_mem hRead hPlan
                  hVariant hKind with
              ⟨trail, number, hNumber, -⟩
            simp [hEmpty] at hNumber
      · rw [hTree]
        rcases
            DynamicTable.find_spells hE hRead hCounted hPlan
              hSome hCompile path with
          ⟨hNone, hFind⟩ |
            ⟨variant, hVariant, texts, hSpells, hForemost, -,
              hFind⟩
        · refine Or.inl ⟨?_, hFind⟩
          intro variant hVariant
          cases hKind : Step.allLiteral variant.steps with
          | true => exact hLiteral variant hVariant hKind
          | false => exact hNone variant hVariant hKind
        · exact
            Or.inr
              ⟨variant, hVariant, texts, hSpells,
                .dynamic hFree hForemost, hFind⟩

end MethodProgram

end Planned

end RequestRouter

------------------------------------------------------------
-- Answers of a Matcher
------------------------------------------------------------

namespace RequestRouter

open Regex

variable {E : Engine}
variable {H : Type}

namespace ParsedRoute

/- Whether the constraints of all its variants are counted. -/
def IsCounted
    (route : ParsedRoute E H) : Prop :=
  ∀ variant ∈ route.variants, ∀ pattern ∈ variant.2,
    pattern.IsCounted

instance : DecidablePred (IsCounted (E := E) (H := H)) :=
  fun _ => inferInstanceAs (Decidable (∀ _ ∈ _, _))

/- A planned variant has the steps of a parsed one. -/
theorem mem_variants_iff
    {route : ParsedRoute E H}
    {planned : PlannedRoute H}
    (hPlan : route.plan = .ok planned)
    (variant : PlannedVariant) :
    variant ∈ planned.variants ↔
      ∃ patterns,
        (variant.path, patterns) ∈ route.variants ∧
          Step.ofPatterns variant.path patterns =
            .ok variant.steps := by
  rcases (Sequence.bind_eq_ok_iff _ _ _).mp hPlan with
    ⟨variants, hVariants, hResult⟩
  cases hResult
  constructor
  · intro hVariant
    rcases Sequence.exists_of_mem_mapM hVariants hVariant
      with ⟨⟨path, patterns⟩, hMember, hOwn⟩
    rcases (Sequence.bind_eq_ok_iff _ _ _).mp hOwn with
      ⟨steps, hSteps, hSame⟩
    cases hSame
    exact ⟨patterns, hMember, hSteps⟩
  · intro hVariant
    rcases hVariant with ⟨patterns, hMember, hSteps⟩
    rcases Sequence.exists_of_mem_items hVariants hMember
      with ⟨found, hFound, hOwn⟩
    rcases (Sequence.bind_eq_ok_iff _ _ _).mp hOwn with
      ⟨steps, hOther, hSame⟩
    rw [hSteps] at hOther
    cases hOther
    cases hSame
    exact hFound

end ParsedRoute

namespace Registration

/-
  Whether a variant, with its steps, is one of a registration
  that serves a method.
-/
def HaveVariant
    (E : Engine)
    (registrations : List (Registration H))
    (method : Text)
    (variant : PlannedVariant) : Prop :=
  ∃ route ∈ parsed E registrations,
    Method.serves route.method method = true ∧
      ∃ patterns,
        (variant.path, patterns) ∈ route.variants ∧
          Step.ofPatterns variant.path patterns =
            .ok variant.steps

/- These are the variants that are planned for the method. -/
theorem mem_planned_iff
    {registrations : List (Registration H)}
    {method : Text}
    {planned : List (PlannedRoute H)}
    (hPlanned :
      ((parsed E registrations).filter
          (Method.serves ·.method method)).mapM
        ParsedRoute.plan = .ok planned)
    (variant : PlannedVariant) :
    variant ∈ planned.flatMap (·.variants) ↔
      HaveVariant E registrations method variant := by
  constructor
  · intro hVariant
    rcases List.mem_flatMap.mp hVariant with
      ⟨own, hOwn, hVariant⟩
    rcases Sequence.exists_of_mem_mapM hPlanned hOwn with
      ⟨route, hRoute, hPlan⟩
    rcases List.mem_filter.mp hRoute with
      ⟨hRoute, hServes⟩
    exact
      ⟨route, hRoute, hServes,
        (ParsedRoute.mem_variants_iff hPlan variant).mp
          hVariant⟩
  · intro hVariant
    rcases hVariant with ⟨route, hRoute, hServes, hSteps⟩
    have hServing :
        route ∈
          (parsed E registrations).filter
            (Method.serves ·.method method) :=
      List.mem_filter.mpr ⟨hRoute, hServes⟩
    rcases Sequence.exists_of_mem_items hPlanned hServing
      with ⟨own, hOwn, hPlan⟩
    exact
      List.mem_flatMap.mpr
        ⟨own, hOwn,
          (ParsedRoute.mem_variants_iff hPlan variant).mpr
            hSteps⟩

/- Planned routes of counted constraints are counted. -/
theorem areCounted_of_mapM
    {registrations : List (Registration H)}
    {method : Text}
    {planned : List (PlannedRoute H)}
    (hPlanned :
      ((parsed E registrations).filter
          (Method.serves ·.method method)).mapM
        ParsedRoute.plan = .ok planned)
    (hCounted :
      ∀ route ∈ parsed E registrations, route.IsCounted) :
    PlannedRoute.AreCounted planned := by
  intro variant hVariant
  rcases (mem_planned_iff hPlanned variant).mp hVariant with
    ⟨route, hRoute, -, patterns, hMember, hSteps⟩
  exact
    Step.isCounted_of_ofPatternsFrom hSteps
      (hCounted route hRoute _ hMember)

end Registration

namespace Compiled

/- A built matcher has the plan of each method. -/
theorem exists_plan
    {registrations : List (Registration H)}
    {requests : List (Text × Text)}
    {method path : Text}
    {answer : Option (Match H)}
    (hLookup :
      (((ofRegistrations E registrations).afterLookups
        requests).lookup method path).value.1 =
          .ok answer) :
    ∃ (planned : List (PlannedRoute H)) (plan : Plan H)
      (program : MethodProgram E H),
      ((Registration.parsed E registrations).filter
          (Method.serves ·.method method)).mapM
            ParsedRoute.plan = .ok planned ∧
        Plan.ofLeaves (Leaf.ofRoutes planned) = .ok plan ∧
          (MethodProgram.ofPlan method plan).value =
              .ok program ∧
            answer = program.find path := by
  rw [value_lookup, programs_afterLookups,
    ofRegistrations_eq] at hLookup
  unfold programs at hLookup
  dsimp only at hLookup
  cases hBuild :
      (buildAll (Registration.parsed E registrations)
        (methods
          (Registration.parsed E registrations))).value with
  | error error =>
      rw [hBuild] at hLookup
      cases hLookup
  | ok programs =>
      rw [hBuild] at hLookup
      rcases exists_program hBuild method with
        ⟨program, hProgram, hFind⟩
      unfold MethodProgram.build at hProgram
      cases hPlan :
          Plan.ofRoutes
            (Registration.parsed E registrations) method with
      | error error =>
          simp [hPlan, Traced.silent] at hProgram
      | ok plan =>
          simp only [hPlan] at hProgram
          rcases (Sequence.bind_eq_ok_iff _ _ _).mp hPlan
            with ⟨planned, hPlanned, hLeaves⟩
          have hAnswer := Except.ok.inj hLookup
          exact
            ⟨planned, plan, program, hPlanned, hLeaves,
              hProgram, hAnswer.symm.trans (hFind path)⟩

/-
  Whether an answer is that of the variant that the plan for
  the method prefers, which spells the path: the handlers of
  its owners, and what its edges catch. There is none if no
  variant for the method spells the path.
-/
def IsSpelled
    (E : Engine)
    (registrations : List (Registration H))
    (method path : Text) : Option (Match H) → Prop
  | some found =>
      ∃ plan variant texts,
        Plan.ofRoutes (Registration.parsed E registrations)
            method = .ok plan ∧
          Registration.HaveVariant E registrations method
            variant ∧
          variant.Spells path texts ∧
          plan.Prefers path variant ∧
          found =
            Owner.answer texts
              (registrations.filterMap
                (Registration.ownerFor? E method variant))
  | none =>
      ∀ variant,
        Registration.HaveVariant E registrations method
            variant →
          ∀ texts, ¬ variant.Spells path texts

/- If all constraints are counted, answers are spelled. -/
theorem isSpelled_of_lookup
    (hE : E.IsLeftmostFirst)
    {registrations : List (Registration H)}
    (hCounted :
      ∀ route ∈ Registration.parsed E registrations,
        route.IsCounted)
    {requests : List (Text × Text)}
    {method path : Text}
    {answer : Option (Match H)}
    (hLookup :
      (((ofRegistrations E registrations).afterLookups
        requests).lookup method path).value.1 =
          .ok answer) :
    IsSpelled E registrations method path answer := by
  rcases exists_plan hLookup with
    ⟨planned, plan, program, hPlanned, hLeaves, hProgram,
      rfl⟩
  have hPlan :
      Plan.ofRoutes (Registration.parsed E registrations)
        method = .ok plan :=
    (Sequence.bind_eq_ok_iff _ _ _).mpr
      ⟨planned, hPlanned, hLeaves⟩
  have hRead := Registration.areRead_of_mapM hPlanned
  have hVariants := Registration.mem_planned_iff hPlanned
  have hEdges :=
    Registration.areCounted_of_mapM hPlanned hCounted
  have hHolds :=
    Plan.holds_of_ofLeaves hLeaves
      (Plan.openLast_ofRoutes hRead)
  rcases
      MethodProgram.find_spells hE hRead hEdges hHolds
        hProgram path with
    ⟨hNone, hFind⟩ |
      ⟨variant, hVariant, texts, hSpells, hPrefers, hFind⟩
  · rw [hFind]
    intro variant hVariant
    exact hNone variant ((hVariants variant).mpr hVariant)
  · rw [hFind,
      Registration.owners_ofVariant registrations hPlanned]
    exact
      ⟨plan, variant, texts, hPlan,
        (hVariants variant).mp hVariant, hSpells, hPrefers,
        rfl⟩

end Compiled

end RequestRouter
