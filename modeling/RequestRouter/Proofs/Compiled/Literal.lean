import RequestRouter.Proofs.Compiled.Reordering
import RequestRouter.Proofs.LiteralTable.Lookup

/-
  Literal routes in the compiled strategy.

  The plan of literal routes has no dynamic leaves, so that
  nothing is compiled and nothing can be in conflict. The
  leaf of a path is owned by the registrations of this path,
  which are those that a table of literals finds, for every
  method that is registered and for all others.

  Key definitions include:
    * `PlannedVariant.ofLiteral`
    * `PlannedRoute.ofLiteral`
    * `ParsedRoute.ofLiteral`
    * `Compiled.ofLiterals`

  Main statements:
    * `Plan.lookup_staticsOf_literal`
    * `MethodProgram.exists_build_literal`
    * `Compiled.lookup_eq_lookup_table`
-/

------------------------------------------------------------
-- Steps of Literal Paths
------------------------------------------------------------

namespace RequestRouter

variable {E : Regex.Engine}
variable {H : Type}

namespace Step

/- The step of a literal segment. -/
def ofLiteral
    (text : Text) : Step :=
  ⟨.literal text, none⟩

/- Literal patterns become literal steps. -/
theorem ofPatterns_literals
    (path : Text)
    (texts : List Text) :
    ofPatterns path (Pattern.literals (E := E) texts) =
      .ok (texts.map ofLiteral) := by
  suffices hFrom :
      ∀ first,
        ofPatternsFrom path first
            (Pattern.literals (E := E) texts) =
          .ok (texts.map ofLiteral) from
    hFrom true
  induction texts with
  | nil => exact fun _ => rfl
  | cons text rest ih =>
      intro first
      change (do
        let steps ←
          ofPatternsFrom path false (Pattern.literals rest)
        .ok (ofLiteral text :: steps)) = _
      rw [ih]
      rfl

/- Literal steps are all literal. -/
theorem allLiteral_ofLiteral
    (texts : List Text) :
    allLiteral (texts.map ofLiteral) = true := by
  simp [allLiteral, ofLiteral, Edge.isLiteral]

/- Literal steps cover nothing. -/
theorem covers_ofLiteral
    (texts : List Text)
    (leaf : List Step) :
    covers (texts.map ofLiteral) leaf = false := by
  unfold covers
  rw [List.getLast?_map]
  cases texts.getLast? with
  | none => rfl
  | some text => rfl

end Step

namespace PlannedVariant

/- The variant of a literal path. -/
def ofLiteral
    (path : Text) : PlannedVariant :=
  ⟨path, (Path.split path).map Step.ofLiteral⟩

end PlannedVariant

namespace PlannedRoute

/- The planned route of a literal registration. -/
def ofLiteral
    (registration : Registration H) : PlannedRoute H :=
  ⟨registration.handler, [.ofLiteral registration.path]⟩

end PlannedRoute

namespace ParsedRoute

/- The parsed route of a literal registration. -/
def ofLiteral
    (registration : Registration H) : ParsedRoute E H :=
  ⟨registration.method, registration.handler,
    [(registration.path,
      Pattern.literals (Path.split registration.path))]⟩

/- A literal registration is parsed so. -/
theorem ofRegistration_literal
    {registration : Registration H}
    (hLiteral : Path.IsLiteral E registration.path) :
    ofRegistration registration =
      .ok (ofLiteral (E := E) registration) := by
  rw [ofRegistration, hLiteral.variants_eq]
  simp only [List.mapM_cons, List.mapM_nil,
    hLiteral.parsePath_eq]
  rfl

/- It is planned without fault. -/
theorem plan_ofLiteral
    (registration : Registration H) :
    (ofLiteral (E := E) registration).plan =
      .ok (.ofLiteral registration) := by
  simp only [plan, ofLiteral, List.mapM_cons,
    List.mapM_nil, Step.ofPatterns_literals]
  rfl

end ParsedRoute

end RequestRouter

------------------------------------------------------------
-- Plans of Literal Routes
------------------------------------------------------------

namespace RequestRouter

variable {H : Type}

namespace Leaf

/- A literal registration owns the leaf of its own path. -/
theorem owner?_ofLiteral
    (path : Text)
    (registration : Registration H) :
    owner? (.ofLiteral path) (.ofLiteral registration) =
      if registration.path == path then
        some
          ⟨registration.handler,
            [(PlannedVariant.ofLiteral
              registration.path).steps]⟩
      else none := by
  have hOwned :
      isOwnedBy (.ofLiteral path)
          (.ofLiteral registration.path) =
        (registration.path == path) := by
    change (registration.path == path ||
      Step.covers (List.map Step.ofLiteral _) _) = _
    rw [Step.covers_ofLiteral, Bool.or_false]
  rw [owner?, PlannedRoute.ofLiteral, List.filter_cons,
    hOwned]
  cases registration.path == path <;> rfl

/- So its handlers are those of the registrations of a path. -/
theorem handlers_ofLiteral
    (registrations : List (Registration H))
    (path : Text) :
    (ofVariant (registrations.map .ofLiteral)
        (.ofLiteral path)).handlers =
      (registrations.filter (·.path == path)).map
        (·.handler) := by
  rw [handlers, ofVariant]
  induction registrations with
  | nil => rfl
  | cons registration rest ih =>
      rw [List.map_cons, List.filterMap_cons,
        owner?_ofLiteral, List.filter_cons]
      cases registration.path == path with
      | false => exact ih
      | true => exact congrArg (List.cons _) ih

/- The leaves of literal registrations are of their paths. -/
theorem exists_of_mem_ofLiteral
    {registrations : List (Registration H)}
    {leaf : Leaf H}
    (hLeaf :
      leaf ∈ ofRoutes (registrations.map .ofLiteral)) :
    ∃ registration ∈ registrations,
      leaf =
        ofVariant (registrations.map .ofLiteral)
          (.ofLiteral registration.path) := by
  rcases exists_variant_of_mem_ofRoutes hLeaf with
    ⟨route, hRoute, variant, hVariant, rfl⟩
  rcases List.mem_map.mp hRoute with
    ⟨registration, hMember, rfl⟩
  rw [PlannedRoute.ofLiteral, List.mem_singleton] at hVariant
  rw [hVariant]
  exact ⟨registration, hMember, rfl⟩

/- A path has a leaf if a literal registration is made for it. -/
theorem map_find?_ofLiteral
    (registrations : List (Registration H))
    (path : Text) :
    ((ofRoutes (registrations.map .ofLiteral)).find?
        (·.path == path)).map
          (fun leaf => ⟨leaf.handlers, Params.empty⟩) =
      Match.ofHandlers?
        ((registrations.filter (·.path == path)).map
          (·.handler))
        .empty := by
  cases hFind :
      (ofRoutes (registrations.map .ofLiteral)).find?
        (·.path == path) with
  | none =>
      have hNone :
          registrations.filter (·.path == path) = [] := by
        rw [List.filter_eq_nil_iff]
        intro registration hMember hPath
        have hRoute :
            PlannedRoute.ofLiteral registration ∈
              registrations.map .ofLiteral :=
          List.mem_map_of_mem hMember
        rcases
            exists_mem_ofRoutes hRoute
              (List.mem_singleton_self _) with
          ⟨leaf, hLeaf, hSame⟩
        refine List.find?_eq_none.mp hFind leaf hLeaf ?_
        rw [hSame]
        exact hPath
      rw [hNone]
      rfl
  | some leaf =>
      have hPath := List.find?_some hFind
      rcases
          exists_of_mem_ofLiteral
            (List.mem_of_find?_eq_some hFind) with
        ⟨registration, hMember, rfl⟩
      have hOwn : registration.path = path :=
        beq_iff_eq.mp hPath
      have hKept :
          registration ∈
            registrations.filter (·.path == path) :=
        List.mem_filter.mpr ⟨hMember, by simpa using hOwn⟩
      have hSome :
          ¬ ((registrations.filter (·.path == path)).map
            (·.handler)).isEmpty = true := by
        rw [List.isEmpty_iff, List.map_eq_nil_iff]
        exact List.ne_nil_of_mem hKept
      rw [hOwn, Option.map_some, handlers_ofLiteral,
        Match.ofHandlers?, if_neg hSome]

end Leaf

namespace Plan

/- The plan of literal registrations: all leaves are static. -/
def ofLiterals
    (registrations : List (Registration H)) : Plan H :=
  ⟨Leaf.ofRoutes (registrations.map .ofLiteral), [], .empty⟩

/- No leaf of literal registrations is refused. -/
theorem ofLeaves_ofLiteral
    (registrations : List (Registration H)) :
    ofLeaves
        (Leaf.ofRoutes (registrations.map .ofLiteral)) =
      .ok (ofLiterals registrations) := by
  have hStatic :
      ∀ leaf ∈ Leaf.ofRoutes (registrations.map .ofLiteral),
        leaf.isStatic = true := by
    intro leaf hLeaf
    rcases Leaf.exists_of_mem_ofLiteral hLeaf with
      ⟨registration, -, rfl⟩
    exact Step.allLiteral_ofLiteral _
  rw [ofLeaves_eq_ok_iff]
  refine ⟨?_, ?_, ?_⟩
  · exact (List.filter_eq_self.mpr hStatic).symm
  · have hNone :
        (Leaf.ofRoutes (registrations.map .ofLiteral)).filter
            (!·.isStatic) = [] := by
      rw [List.filter_eq_nil_iff]
      intro leaf hLeaf
      simp [hStatic leaf hLeaf]
    rw [hNone]
    rfl
  · intro leaf _
    -- The empty tree has no capture to be in the way.
    change TreeNode.admits leaf.steps (.fresh 0 false) = true
    cases leaf.steps with
    | nil => rfl
    | cons step rest => rfl

/- Literal registrations are planned for every method. -/
theorem ofRoutes_ofLiteral
    {E : Regex.Engine}
    (registrations : List (Registration H))
    (method : Text) :
    ofRoutes
        (registrations.map
          (ParsedRoute.ofLiteral (E := E))) method =
      .ok
        (ofLiterals
          (registrations.filter
            (Method.serves ·.method method))) := by
  have hPlanned :
      ((registrations.map
            (ParsedRoute.ofLiteral (E := E))).filter
          (Method.serves ·.method method)).mapM
        ParsedRoute.plan =
          .ok
            ((registrations.filter
              (Method.serves ·.method method)).map
                .ofLiteral) := by
    rw [List.filter_map, Sequence.mapM_eq_ok_iff,
      List.forall₂_map_left_iff, List.forall₂_map_right_iff]
    exact
      List.forall₂_same.mpr fun registration _ =>
        ParsedRoute.plan_ofLiteral registration
  rw [ofRoutes, hPlanned]
  exact ofLeaves_ofLiteral _

end Plan

end RequestRouter

------------------------------------------------------------
-- Programs of Literal Routes
------------------------------------------------------------

namespace RequestRouter

variable {E : Regex.Engine}
variable {H : Type}

namespace MethodProgram

/-
  For each method a program is built that answers as a table
  of the same literal registrations.
-/
theorem exists_build_literal
    (registrations : List (Registration H))
    (method : Text) :
    ∃ program : MethodProgram E H,
      (build (registrations.map .ofLiteral) method).value =
          .ok program ∧
        ∀ path,
          program.find path =
            (LiteralTable.mk registrations).lookup method
              path := by
  refine
    ⟨⟨staticsOf
        (.ofLiterals
          (registrations.filter
            (Method.serves ·.method method))),
      none⟩, ?_, ?_⟩
  · rw [build, Plan.ofRoutes_ofLiteral]
    rfl
  · intro path
    have hFound :=
      Leaf.map_find?_ofLiteral
        (registrations.filter
          (Method.serves ·.method method)) path
    rw [List.filter_filter] at hFound
    refine Eq.trans ?_ hFound
    unfold find
    dsimp only
    rw [staticsOf, lookup_map_eq Leaf.path Leaf.handlers]
    change _ = ((Plan.ofLiterals _).statics.find? _).map _
    cases (Plan.ofLiterals _).statics.find?
      (Leaf.path · == path) <;> rfl

end MethodProgram

namespace Compiled

/- The matcher of literal registrations, with nothing built. -/
def ofLiterals
    (registrations : List (Registration H)) :
    Compiled E H :=
  ⟨registrations.map .ofLiteral, none⟩

/- Literal registrations are all recorded. -/
theorem foldlM_add_literal
    {registrations : List (Registration H)}
    (hLiteral :
      ∀ registration ∈ registrations,
        Path.IsLiteral E registration.path) :
    registrations.foldlM add empty =
      .ok (ofLiterals (E := E) registrations) := by
  refine Sequence.foldlM_eq_ok_of_step ofLiterals ?_ []
  intro front registration hMember
  rw [add, ParsedRoute.ofRegistration_literal
    (hLiteral registration hMember), ofLiterals, ofLiterals,
    List.map_append]
  rfl

/-
  Literal registrations are never refused: whatever has been
  looked up before, a compiled matcher answers every request
  as a table of the same registrations.
-/
theorem lookup_eq_lookup_table
    {registrations : List (Registration H)}
    (hLiteral :
      ∀ registration ∈ registrations,
        Path.IsLiteral E registration.path) :
    ∃ (matcher : Compiled E H) (table : LiteralTable H),
      registrations.foldlM add empty = .ok matcher ∧
        registrations.foldlM (LiteralTable.add E)
            LiteralTable.empty = .ok table ∧
          ∀ requests method path,
            ((matcher.afterLookups requests).lookup method
                path).value.1 =
              .ok (table.lookup method path) := by
  refine
    ⟨_, _, foldlM_add_literal hLiteral,
      LiteralTable.foldlM_add_eq hLiteral, ?_⟩
  intro requests method path
  rw [value_lookup, programs_afterLookups]
  rcases
      (exists_buildAll_iff
        (registrations.map (ParsedRoute.ofLiteral (E := E)))
        (methods (registrations.map .ofLiteral))).mpr
          fun method _ =>
            (MethodProgram.exists_build_literal registrations
              method).imp fun _ hBoth => hBoth.1 with
    ⟨programs, hBuild⟩
  rcases exists_program hBuild method with
    ⟨program, hValue, hFind⟩
  rcases
      MethodProgram.exists_build_literal (E := E)
        registrations method with
    ⟨twin, hTwin, hTable⟩
  rw [hValue] at hTwin
  cases hTwin
  simp only [Compiled.programs, ofLiterals, hBuild, hFind,
    hTable]

/-
  One path twice for one method and once for all, and a path
  with a slash in braces.
-/
def repeated : List (Registration Nat) :=
  [⟨['G'], ['/', 'a'], 0⟩,
    ⟨Method.all, ['/', 'a'], 1⟩,
    ⟨['G'], ['/', 'a'], 2⟩,
    ⟨['G'], ['/', '{', 'b', '/', 'c', '}'], 3⟩]

/-
  A request for another method finds the route for all, and
  one behind it the path in braces.
-/
theorem lookup_eq_lookup_table_repeated :
    ∃ matcher : Compiled Regex.engine Nat,
      repeated.foldlM add empty = .ok matcher ∧
        (matcher.lookup ['P'] ['/', 'a']).value.1 =
            .ok (some ⟨[1], .empty⟩) ∧
          ((matcher.afterLookups
              [(['P'], ['/', 'a'])]).lookup ['G']
                ['/', '{', 'b', '/', 'c', '}']).value.1 =
            .ok (some ⟨[3], .empty⟩) := by
  have hLiteral :
      ∀ registration ∈ repeated,
        Path.IsLiteral Regex.engine registration.path := by
    decide
  rcases lookup_eq_lookup_table hLiteral with
    ⟨matcher, table, hMatcher, hTable, hSame⟩
  rw [LiteralTable.foldlM_add_eq hLiteral] at hTable
  cases hTable
  refine ⟨matcher, hMatcher, ?_, ?_⟩
  · refine (hSame [] ['P'] ['/', 'a']).trans ?_
    decide
  · refine (hSame _ ['G'] _).trans ?_
    decide

end Compiled

end RequestRouter
