import RequestRouter.Proofs.Compiled.Markers
import RequestRouter.Proofs.LinearScan.Parentheses

/-
  The groups of both combined strategies are their own.

  A strategy writes constraints into larger sources, and
  reads back by number what their parentheses caught. If the
  groups of all constraints are counted as they are opened,
  every number is that of the parenthesis it is recorded
  for, and the leaf that answers is the one whose marker took
  part. A constraint whose groups are not counted so shifts
  all that follow it.

  Key definition:
    * `ScanRoute.IsExactFor`

  Main statement:
    * `Registration.numbers_are_own`
-/

------------------------------------------------------------
-- Scanned Registrations
------------------------------------------------------------

namespace RequestRouter

open Regex

variable {E : Engine}
variable {H : Type}

namespace ScanRoute

/-
  Whether a route stands for a registration, and each of its
  variants has the numbers of its own parentheses and binds
  what its path spells.
-/
structure IsExactFor
    (registration : Registration H)
    (route : ScanRoute E H) : Prop where
  method : route.method = registration.method
  handler : route.handler = registration.handler
  variants :
    List.Forall₂
      (fun path variant =>
        ∃ patterns,
          Pattern.parsePath path = .ok patterns ∧
            variant.HasOwnNumbers patterns ∧
            variant.BindsSpelled patterns)
      (Path.variants registration.path) route.variants

/- A route of counted constraints is exact. -/
theorem IsFor.isExactFor
    (hE : E.IsLeftmostFirst)
    {registration : Registration H}
    {route : ScanRoute E H}
    (hFor : IsFor registration route)
    (hCounted :
      ∀ path ∈ Path.variants registration.path,
        ∀ patterns : List (Pattern E),
          Pattern.parsePath path = .ok patterns →
            ∀ pattern ∈ patterns, pattern.IsCounted) :
    IsExactFor registration route := by
  refine ⟨hFor.method, hFor.handler, ?_⟩
  have hVariants := hFor.variants
  revert hVariants hCounted
  generalize Path.variants registration.path = paths
  generalize route.variants = variants
  intro hCounted hVariants
  induction hVariants with
  | nil => exact .nil
  | cons hCompile _ ih =>
      rcases List.forall_mem_cons.mp hCounted with
        ⟨hFirst, hRest⟩
      rcases ScanVariant.exists_of_compile hCompile with
        ⟨patterns, hParse, -, -⟩
      have hOwn := hFirst patterns hParse
      refine .cons ⟨patterns, hParse, ?_, ?_⟩ (ih hRest)
      · exact
          ScanVariant.hasOwnNumbers_of_compile hE hCompile
            hParse hOwn
      · exact
          ScanVariant.bindsSpelled_of_compile hE hCompile
            hParse hOwn

end ScanRoute

namespace Registration

/-
  A registration that can be scanned can be parsed, and has
  the patterns of each of its paths.
-/
theorem exists_parsed_of_isFor
    {registration : Registration H}
    {route : ScanRoute E H}
    (hFor : ScanRoute.IsFor registration route) :
    ∃ parsed : ParsedRoute E H,
      ParsedRoute.ofRegistration registration = .ok parsed ∧
        ∀ path ∈ Path.variants registration.path,
          ∀ patterns, Pattern.parsePath path = .ok patterns →
            (path, patterns) ∈ parsed.variants := by
  have hReads :
      ∀ path ∈ Path.variants registration.path,
        ∃ variant : Text × List (Pattern E),
          (do
              let patterns ← Pattern.parsePath path
              Except.ok (path, patterns)) =
            .ok variant := by
    intro path hPath
    rcases
        Sequence.exists_of_mem_left hFor.variants hPath with
      ⟨variant, -, hCompile⟩
    rcases ScanVariant.exists_of_compile hCompile with
      ⟨patterns, hParse, -, -⟩
    exact ⟨(path, patterns), by rw [hParse]; rfl⟩
  rcases Sequence.exists_mapM_eq_ok hReads with
    ⟨variants, hVariants⟩
  refine
    ⟨⟨registration.method, registration.handler, variants⟩,
      ?_, ?_⟩
  · unfold ParsedRoute.ofRegistration
    rw [hVariants]
    rfl
  · intro path hPath patterns hParse
    rcases Sequence.exists_of_mem_items hVariants hPath with
      ⟨variant, hMember, hOwn⟩
    rw [hParse] at hOwn
    cases hOwn
    exact hMember

/-
  If all constraints are counted, the routes of a scan are
  exact for their registrations.
-/
theorem areExact_of_adds
    (hE : E.IsLeftmostFirst)
    {registrations : List (Registration H)}
    (hCounted :
      ∀ route ∈ parsed E registrations, route.IsCounted)
    {scan : LinearScan E H}
    (hAdds :
      registrations.foldlM LinearScan.add LinearScan.empty =
        .ok scan) :
    List.Forall₂ ScanRoute.IsExactFor registrations
      scan.routes := by
  have hRoutes := LinearScan.routes_of_adds hAdds
  apply List.forall₂_iff_get.mpr
  rcases List.forall₂_iff_get.mp hRoutes with
    ⟨hLength, hEach⟩
  refine ⟨hLength, ?_⟩
  intro index hFirst hSecond
  have hFor := hEach index hFirst hSecond
  rcases exists_parsed_of_isFor hFor with
    ⟨own, hParsed, hVariants⟩
  have hOwn :=
    mem_parsed (List.get_mem registrations ⟨index, hFirst⟩)
      hParsed
  refine hFor.isExactFor hE ?_
  intro path hPath patterns hParse
  exact
    hCounted own hOwn _ (hVariants path hPath patterns hParse)

/-
  If all constraints are counted, the numbers of both
  combined strategies are those of their own parentheses.
  Every route of a scan has the numbers of its parameters,
  and binds what the paths of its registration spell. A
  compiled matcher that has been built answers by a program
  that has the numbers of all markers and captures, and
  wherever its expression matches a path answers with the
  leaf whose marker took part. This is the leaf of the
  variant that is preferred among those that spell the path.
-/
theorem numbers_are_own
    (hE : E.IsLeftmostFirst)
    {registrations : List (Registration H)}
    (hCounted :
      ∀ route ∈ parsed E registrations, route.IsCounted) :
    (∀ scan,
        registrations.foldlM LinearScan.add LinearScan.empty =
            .ok scan →
          List.Forall₂ (ScanRoute.IsExactFor (E := E))
            registrations scan.routes) ∧
      ∀ requests method path answer,
        (((Compiled.ofRegistrations E
            registrations).afterLookups requests).lookup
              method path).value.1 = .ok answer →
          ∃ (plan : Plan H) (program : MethodProgram E H),
            Plan.ofRoutes (parsed E registrations) method =
                .ok plan ∧
              (MethodProgram.ofPlan method plan).value =
                .ok program ∧
              (∀ table,
                program.dynamics = some table →
                  table.IsExactFor plan) ∧
              answer = program.find path ∧
              Compiled.IsSpelled E registrations method path
                answer := by
  constructor
  · exact fun _ hAdds => areExact_of_adds hE hCounted hAdds
  · intro requests method path answer hLookup
    rcases Compiled.exists_plan hLookup with
      ⟨planned, plan, program, hPlanned, hLeaves, hProgram,
        hAnswer⟩
    have hPlan :
        Plan.ofRoutes (parsed E registrations) method =
          .ok plan :=
      (Sequence.bind_eq_ok_iff _ _ _).mpr
        ⟨planned, hPlanned, hLeaves⟩
    have hRead := areRead_of_mapM hPlanned
    have hHolds :=
      Plan.holds_of_ofLeaves hLeaves
        (Plan.openLast_ofRoutes hRead)
    refine
      ⟨plan, program, hPlan, hProgram, fun table hTable => ?_,
        hAnswer,
        Compiled.isSpelled_of_lookup hE hCounted hLookup⟩
    exact
      MethodProgram.isExactFor_of_ofPlan hE hRead
        (areCounted_of_mapM hPlanned hCounted) hHolds
        hProgram hTable

/-
  The tables of a method's tree, each beside what its own
  parentheses are numbered with.
-/
def numbersOf
    (registrations : List (Registration Nat))
    (method : Text) :
    Except RouteError
      ((List (Nat × Nat) × List (Option Nat)) ×
        (List (Nat × Nat) × List (Option Nat))) :=
  (Plan.ofRoutes (parsed treeEngine registrations)
    method).map fun plan =>
      let emission := plan.tree.flatten
      let own (entries : List (Nat × Nat)) :=
        entries.map fun entry =>
          numberAt? emission.source entry.2
      ((emission.leafGroups, own plan.tree.markerPositions),
        (emission.captureGroups,
          own plan.tree.capturePositions))

/- Two paths with a group inside a constraint, one longer. -/
def grouped : List (Registration Nat) :=
  [⟨['G'],
      ['/', ':', 'x', '{', '(', 'a', '|', 'b', ')', '}', '/',
        ':', 'y'], 0⟩,
    ⟨['G'],
      ['/', ':', 'x', '{', '(', 'a', '|', 'b', ')', '}', '/',
        ':', 'y', '/', 'z'], 1⟩]

/-
  The longer path answers, with both of its parameters. Its
  marker is group 5, behind the markers and captures that
  are written in front of it.
-/
theorem numbers_are_own_grouped :
    (∀ route ∈ parsed treeEngine grouped,
        route.IsCounted) ∧
      (∃ scan : LinearScan treeEngine Nat,
        grouped.foldlM LinearScan.add LinearScan.empty =
            .ok scan ∧
          List.Forall₂ ScanRoute.IsExactFor grouped
            scan.routes) ∧
      numbersOf grouped ['G'] =
        .ok
          (([(4, 0), (5, 1)], [some 4, some 5]),
            ([(2, 1), (3, 3)], [some 1, some 3])) ∧
      ∃ (plan : Plan Nat)
        (program : MethodProgram treeEngine Nat),
        Plan.ofRoutes (parsed treeEngine grouped) ['G'] =
            .ok plan ∧
          (∀ table,
            program.dynamics = some table →
              table.IsExactFor plan) ∧
          program.find ['/', 'b', '/', 'v', '/', 'z'] =
            some
              ⟨[1], ⟨[(['x'], ['b']), (['y'], ['v'])]⟩⟩ ∧
          Compiled.IsSpelled treeEngine grouped ['G']
            ['/', 'b', '/', 'v', '/', 'z']
            (some
              ⟨[1],
                ⟨[(['x'], ['b']), (['y'], ['v'])]⟩⟩) := by
  have hCounted :
      ∀ route ∈ parsed treeEngine grouped,
        route.IsCounted := by
    decide +kernel
  have hTaken :
      (grouped.foldlM (LinearScan.add (E := treeEngine))
        LinearScan.empty).isOk = true := by
    decide +kernel
  have hLookup :
      (((Compiled.ofRegistrations treeEngine
          grouped).afterLookups []).lookup ['G']
            ['/', 'b', '/', 'v', '/', 'z']).value.1 =
        .ok
          (some
            ⟨[1], ⟨[(['x'], ['b']), (['y'], ['v'])]⟩⟩) := by
    decide +kernel
  have hBoth :=
    numbers_are_own isLeftmostFirst_treeEngine hCounted
  rcases hBoth.2 [] _ _ _ hLookup with
    ⟨plan, program, hPlan, -, hExact, hFind, hSpelled⟩
  cases hAdds :
      grouped.foldlM (LinearScan.add (E := treeEngine))
        LinearScan.empty with
  | error fault =>
      rw [hAdds] at hTaken
      cases hTaken
  | ok scan =>
      exact
        ⟨hCounted, ⟨scan, rfl, hBoth.1 scan hAdds⟩,
          by decide +kernel, plan, program, hPlan, hExact,
          hFind.symm, hSpelled⟩

/-
  Two paths with a group inside a constraint that is dropped,
  since it is repeated no times, and is not counted.
-/
def dropped : List (Registration Nat) :=
  [⟨['G'],
      ['/', ':', 'x', '{', '(', 'a', ')', '{', '0', '}',
        'b', '}', '/', 'q', '/', ':', 'y'], 0⟩,
    ⟨['G'],
      ['/', ':', 'x', '{', '(', 'a', ')', '{', '0', '}',
        'b', '}', '/', 'q', '/', ':', 'y', '/', 'z'], 1⟩]

/-
  The parameter of each path is group 3, but 2 is recorded
  for it, and the markers are groups 4 and 5, but 3 and 4
  are recorded. So the compiled matcher answers with the
  shorter path for the longer one, though only the longer
  one matches where each is alone: the group of the parameter
  is taken for the marker of the other leaf. A scan loses the
  parameter.
-/
theorem numbers_shift_dropped :
    numbersOf dropped ['G'] =
        .ok
          (([(3, 0), (4, 1)], [some 4, some 5]),
            ([(2, 1), (4, 2)], [some 1, some 3])) ∧
      ((Compiled.ofRegistrations treeEngine dropped).lookup
        ['G']
        ['/', 'b', '/', 'q', '/', 'v', '/', 'z']).value.1 =
        .ok (some ⟨[0], ⟨[(['x'], ['b'])]⟩⟩) ∧
      ((Compiled.ofRegistrations treeEngine
        (dropped.take 1)).lookup ['G']
        ['/', 'b', '/', 'q', '/', 'v', '/', 'z']).value.1 =
          .ok none ∧
      ((Compiled.ofRegistrations treeEngine
        (dropped.drop 1)).lookup ['G']
        ['/', 'b', '/', 'q', '/', 'v', '/', 'z']).value.1 =
          .ok (some ⟨[1], ⟨[(['x'], ['b'])]⟩⟩) ∧
      (dropped.foldlM (LinearScan.add (E := treeEngine))
          LinearScan.empty).map (fun scan =>
        scan.lookup ['G']
          ['/', 'b', '/', 'q', '/', 'v', '/', 'z']) =
        .ok (some ⟨[1], ⟨[(['x'], ['b'])]⟩⟩) := by
  decide +kernel

end Registration

end RequestRouter
