import RequestRouter.Proofs.Bookkeeping
import RequestRouter.Proofs.LinearScan.Parity

/-
  When a scan and a trie bind the same.

  A scan finds one way for each variant of a path that takes
  a request, and a trie finds all of them. What they bind is
  the same in every view in which the ways of a registration
  are chained. With the values left out they always are, so
  that both bind the same names in the same order. If there
  is a choice how a request is taken, the values may differ.

  Main statements:
    * `ScanVariant.takes_of_bindings?`
    * `ScanVariant.exists_bindings?_of_takes`
    * `LinearScan.ofList_found`
    * `LinearScan.params_eq_params_trie`
-/

------------------------------------------------------------
-- Variants That Take
------------------------------------------------------------

namespace RequestRouter

open Regex

variable {E : Engine}

namespace ScanVariant

variable {patterns : List (Pattern E)}
variable {variant : ScanVariant E}
variable {request : Text}
variable {bindings : List (Text × Text)}

/- What a variant binds is a way to take the request. -/
theorem takes_of_bindings?
    (hSpelled : variant.BindsSpelled patterns)
    (hFloating : ∀ pattern ∈ patterns, pattern.IsFloating)
    (hSome : patterns ≠ [])
    (hLine : '\n' ∉ request)
    (hBindings :
      variant.bindings? request = some bindings) :
    Pattern.Takes patterns (request.splitOn '/')
      bindings :=
  (Pattern.exists_spelled_start_iff hFloating hSome hLine
    bindings).mp ((hSpelled request).1 bindings hBindings)

/-
  If there is a way to take the request, the variant binds
  as many pairs.
-/
theorem exists_bindings?_of_takes
    (hSpelled : variant.BindsSpelled patterns)
    (hFloating : ∀ pattern ∈ patterns, pattern.IsFloating)
    (hSome : patterns ≠ [])
    (hLine : '\n' ∉ request)
    (hTakes :
      Pattern.Takes patterns (request.splitOn '/')
        bindings) :
    ∃ own, variant.bindings? request = some own ∧
      own.length = bindings.length := by
  cases hOwn : variant.bindings? request with
  | none =>
      rcases
          (Pattern.exists_spelled_start_iff hFloating hSome
            hLine bindings).mpr hTakes with
        ⟨texts, hSpells, -⟩
      exact absurd hSpells ((hSpelled request).2 hOwn texts)
  | some own =>
      have hNames :=
        (Pattern.map_fst_of_takes
          (takes_of_bindings? hSpelled hFloating hSome hLine
            hOwn)).trans
          (Pattern.map_fst_of_takes hTakes).symm
      exact
        ⟨own, rfl, by simpa using congrArg List.length hNames⟩

end ScanVariant

end RequestRouter

------------------------------------------------------------
-- Routes That Take
------------------------------------------------------------

namespace RequestRouter

open Regex

variable {E : Engine}
variable {H : Type}

namespace ScanRoute

/- What the variants of a route bind for a request. -/
def bound
    (route : ScanRoute E H)
    (method path : Text) : List (List (Text × Text)) :=
  if Method.serves route.method method then
    route.variants.filterMap (·.bindings? path)
  else []

variable {registration : Registration H}
variable {route : ScanRoute E H}
variable {method path : Text}
variable {bindings : List (Text × Text)}

/- It is among the ways that the registration has. -/
theorem IsExactFor.mem_takings
    (hE : E.IsLeftmostFirst)
    (hExact : IsExactFor registration route)
    (hFloating : Path.IsFloating E registration.path)
    (hLine : '\n' ∉ path)
    (hBound : bindings ∈ route.bound method path) :
    bindings ∈ registration.takings E method path := by
  unfold bound at hBound
  split at hBound
  case isFalse => cases hBound
  case isTrue hServes =>
      rcases List.mem_filterMap.mp hBound with
        ⟨variant, hVariant, hBindings⟩
      rcases
          Sequence.exists_of_mem_right hExact.variants
            hVariant with
        ⟨own, hOwn, patterns, hParse, -, hSpelled⟩
      refine
        (Registration.mem_takings_iff E _ _ _ _).mpr
          ⟨hExact.method ▸ hServes, own, hOwn, patterns,
            hParse, ?_⟩
      exact
        ScanVariant.takes_of_bindings? hSpelled
          (Pattern.isFloating_of_parsePath hE hFloating hOwn
            hParse)
          (Pattern.ne_nil_of_parsePath hParse) hLine hBindings

/- For each of these ways something as long is bound. -/
theorem IsExactFor.exists_mem_bound
    (hE : E.IsLeftmostFirst)
    (hExact : IsExactFor registration route)
    (hFloating : Path.IsFloating E registration.path)
    (hLine : '\n' ∉ path)
    (hTaking :
      bindings ∈ registration.takings E method path) :
    ∃ own ∈ route.bound method path,
      own.length = bindings.length := by
  rcases
      (Registration.mem_takings_iff E _ _ _ _).mp hTaking with
    ⟨hServes, variant, hVariant, patterns, hParse, hTakes⟩
  rcases
      Sequence.exists_of_mem_left hExact.variants
        hVariant with
    ⟨compiled, hCompiled, others, hOthers, -, hSpelled⟩
  rw [hParse] at hOthers
  cases hOthers
  rcases
      ScanVariant.exists_bindings?_of_takes hSpelled
        (Pattern.isFloating_of_parsePath hE hFloating
          hVariant hParse)
        (Pattern.ne_nil_of_parsePath hParse) hLine
        hTakes with
    ⟨own, hOwn, hLength⟩
  refine ⟨own, ?_, hLength⟩
  rw [bound, if_pos (hExact.method ▸ hServes)]
  exact List.mem_filterMap.mpr ⟨compiled, hCompiled, hOwn⟩

end ScanRoute

end RequestRouter

------------------------------------------------------------
-- Scans That Take
------------------------------------------------------------

namespace RequestRouter

open Regex

variable {E : Engine}
variable {H : Type}

namespace LinearScan

/- A scan binds what its routes bind, in their order. -/
theorem flatMap_snd_found
    (scan : LinearScan E H)
    (method path : Text) :
    (scan.found method path).flatMap Prod.snd =
      scan.routes.flatMap fun route =>
        (route.bound method path).flatten := by
  unfold found
  induction scan.routes with
  | nil => rfl
  | cons route routes ih =>
      rw [List.filterMap_cons, List.flatMap_cons, ← ih,
        ScanRoute.bound, ScanRoute.bindings?]
      cases Method.serves route.method method with
      | false => rfl
      | true =>
          cases
            route.variants.filterMap (·.bindings? path) <;>
              rfl

/-
  In a view in which the ways of every registration are
  chained, a scan binds what its registrations bind, in the
  order of registration.
-/
theorem ofList_found
    (hE : E.IsLeftmostFirst)
    {view : Text × Text → Text × Text}
    {registrations : List (Registration H)}
    (hFloating :
      ∀ registration ∈ registrations,
        Path.IsFloating E registration.path)
    {scan : LinearScan E H}
    (hExact :
      List.Forall₂ ScanRoute.IsExactFor registrations
        scan.routes)
    {method path : Text}
    (hLine : '\n' ∉ path)
    (hChain :
      ∀ registration ∈ registrations,
        Params.AreChained
          ((registration.takings E method path).map
            (List.map view))) :
    Params.ofList
        (((scan.found method path).flatMap Prod.snd).map
          view) =
      .ofList
        ((registrations.flatMap fun registration =>
          (registration.takings E method
            path).flatten).map view) := by
  rw [flatMap_snd_found, List.map_flatMap, List.map_flatMap]
  refine (Params.insertAll_flatMap_eq ?_ .empty).symm
  revert hExact
  generalize scan.routes = routes
  intro hExact
  induction hExact with
  | nil => exact .nil
  | cons hFirst _ ih =>
      rcases List.forall_mem_cons.mp hFloating with
        ⟨hOwn, hRest⟩
      rcases List.forall_mem_cons.mp hChain with
        ⟨hOwnChain, hRestChain⟩
      refine .cons (fun params => ?_) (ih hRest hRestChain)
      exact
        (Params.insertAll_map_flatten_eq hOwnChain
          (fun list hList =>
            hFirst.mem_takings hE hOwn hLine hList)
          (fun list hList =>
            hFirst.exists_mem_bound hE hOwn hLine hList)
          params).symm

/-
  In a view in which the ways of every registration are
  chained, a scan binds what a trie of the same
  registrations binds.
-/
theorem ofList_found_eq
    (hE : E.IsLeftmostFirst)
    (view : Text × Text → Text × Text)
    {registrations : List (Registration H)}
    (hFloating :
      ∀ registration ∈ registrations,
        Path.IsFloating E registration.path)
    (hCounted :
      ∀ route ∈ Registration.parsed E registrations,
        route.IsCounted)
    {scan : LinearScan E H}
    (hScan : registrations.foldlM add empty = .ok scan)
    {trie : Trie E H}
    (hTrie :
      registrations.foldlM Trie.add Trie.empty = .ok trie)
    {method path : Text}
    (hLine : '\n' ∉ path)
    (hChain :
      ∀ registration ∈ registrations,
        Params.AreChained
          ((registration.takings E method path).map
            (List.map view))) :
    Params.ofList
        (((scan.found method path).flatMap Prod.snd).map
          view) =
      .ofList
        ((trie.pairsOf
          (TrieSearch.hits trie.root method path)).map
            view) :=
  (ofList_found hE hFloating
    (Registration.areExact_of_adds hE hCounted hScan) hLine
    hChain).trans
    (Trie.ofList_pairsOf_hits view hChain
      (Trie.reflects_of_adds hTrie)).symm

/- They find the same handlers. -/
theorem map_fst_found_eq
    (hE : E.IsLeftmostFirst)
    {registrations : List (Registration H)}
    (hFloating :
      ∀ registration ∈ registrations,
        Path.IsFloating E registration.path)
    {scan : LinearScan E H}
    (hScan : registrations.foldlM add empty = .ok scan)
    {trie : Trie E H}
    (hTrie :
      registrations.foldlM Trie.add Trie.empty = .ok trie)
    (method : Text)
    {path : Text}
    (hLine : '\n' ∉ path) :
    (scan.found method path).map Prod.fst =
      trie.handlersOf
        (TrieSearch.hits trie.root method path) :=
  (map_fst_found hE hFloating (routes_of_adds hScan) method
    hLine).trans
    (Trie.handlersOf_hits (Trie.reflects_of_adds hTrie) method
      path).symm

/-
  Where the ways of every registration are chained, the
  answers are the same.
-/
theorem lookup_eq_of_chained
    (hE : E.IsLeftmostFirst)
    {registrations : List (Registration H)}
    (hFloating :
      ∀ registration ∈ registrations,
        Path.IsFloating E registration.path)
    (hCounted :
      ∀ route ∈ Registration.parsed E registrations,
        route.IsCounted)
    {scan : LinearScan E H}
    (hScan : registrations.foldlM add empty = .ok scan)
    {trie : Trie E H}
    (hTrie :
      registrations.foldlM Trie.add Trie.empty = .ok trie)
    {method path : Text}
    (hLine : '\n' ∉ path)
    (hChain :
      ∀ registration ∈ registrations,
        Params.AreChained
          (registration.takings E method path)) :
    scan.lookup method path = trie.lookup method path := by
  have hParams :=
    ofList_found_eq hE id hFloating hCounted hScan hTrie hLine
      (by simpa using hChain)
  rw [List.map_id, List.map_id] at hParams
  unfold lookup Trie.lookup
  dsimp only
  rw [map_fst_found_eq hE hFloating hScan hTrie method hLine,
    hParams]
  rfl

/-
  So they are on every request if no constraint accepts a
  slash.
-/
theorem lookup_eq_of_confined
    (hE : E.IsLeftmostFirst)
    {registrations : List (Registration H)}
    (hFloating :
      ∀ registration ∈ registrations,
        Path.IsFloating E registration.path)
    (hCounted :
      ∀ route ∈ Registration.parsed E registrations,
        route.IsCounted)
    (hConfined :
      ∀ registration ∈ registrations,
        registration.IsConfined E)
    {scan : LinearScan E H}
    (hScan : registrations.foldlM add empty = .ok scan)
    {trie : Trie E H}
    (hTrie :
      registrations.foldlM Trie.add Trie.empty = .ok trie)
    (method : Text)
    {path : Text}
    (hLine : '\n' ∉ path) :
    scan.lookup method path = trie.lookup method path :=
  lookup_eq_of_chained hE hFloating hCounted hScan hTrie hLine
    fun registration hMember =>
      Registration.areChained_takings E
        (hConfined registration hMember) method path

/-
  Floating registrations with counted constraints bind the
  same names in the same order, whether they are scanned or
  kept in a trie. The values are the same as well if no
  registration has a choice how to take the request, that
  is, if of any two of its ways one starts the other.
-/
theorem params_eq_params_trie
    (hE : E.IsLeftmostFirst)
    {registrations : List (Registration H)}
    (hFloating :
      ∀ registration ∈ registrations,
        Path.IsFloating E registration.path)
    (hCounted :
      ∀ route ∈ Registration.parsed E registrations,
        route.IsCounted)
    {scan : LinearScan E H}
    (hScan : registrations.foldlM add empty = .ok scan)
    {trie : Trie E H}
    (hTrie :
      registrations.foldlM Trie.add Trie.empty = .ok trie)
    (method : Text)
    {path : Text}
    (hLine : '\n' ∉ path) :
    (scan.lookup method path).map
          (fun found => (found.handlers, found.params.names)) =
        (trie.lookup method path).map
          (fun found =>
            (found.handlers, found.params.names)) ∧
      ((∀ registration ∈ registrations,
          Params.AreChained
            (registration.takings E method path)) →
        scan.lookup method path =
          trie.lookup method path) := by
  refine ⟨?_, fun hChain => ?_⟩
  · have hNames :
        (Params.ofList
            ((scan.found method path).flatMap
              Prod.snd)).names =
          (Params.ofList
            (trie.pairsOf
              (TrieSearch.hits trie.root method
                path))).names := by
      rw [← Params.names_ofList_map_blank,
        ofList_found_eq hE Params.blank hFloating hCounted
          hScan hTrie hLine fun registration _ =>
            Registration.areChained_blank E registration
              method path,
        Params.names_ofList_map_blank]
    unfold lookup Trie.lookup Match.ofHandlers?
    dsimp only
    rw [map_fst_found_eq hE hFloating hScan hTrie method
      hLine]
    split
    case isTrue => rfl
    case isFalse =>
        rw [Option.map_some, Option.map_some, hNames]
        rfl
  · exact
      lookup_eq_of_chained hE hFloating hCounted hScan hTrie
        hLine hChain

/-
  A constraint with a group of its own that takes two parts,
  in front of an optional parameter, and a wildcard.
-/
def ranged : List (Registration Nat) :=
  [⟨['G'],
      ['/', ':', 'x', '{', '(', 'a', '|', 'b', ')', '/', 'c',
        '}', '/', ':', 'y', '?'], 0⟩,
    ⟨Method.all, ['/', ':', 'z', '/', '*'], 1⟩]

/- Both bind the two parts, and the third one behind them. -/
theorem params_eq_params_trie_ranged :
    ∃ (scan : LinearScan treeEngine Nat)
      (trie : Trie treeEngine Nat),
      ranged.foldlM add empty = .ok scan ∧
        ranged.foldlM Trie.add Trie.empty = .ok trie ∧
          scan.lookup ['G'] ['/', 'a', '/', 'c', '/', 'd'] =
            some
              ⟨[0, 1],
                ⟨[(['x'], ['a', '/', 'c']), (['y'], ['d']),
                  (['z'], ['a'])]⟩⟩ ∧
            trie.lookup ['G']
                ['/', 'a', '/', 'c', '/', 'd'] =
              some
                ⟨[0, 1],
                  ⟨[(['x'], ['a', '/', 'c']), (['y'], ['d']),
                    (['z'], ['a'])]⟩⟩ := by
  have hFloating :
      ∀ registration ∈ ranged,
        Path.IsFloating treeEngine registration.path := by
    have hAlone :
        ∀ registration ∈ ranged,
          ∀ source ∈ Path.constraints registration.path,
            (treeEngine.compile source).isOk = true := by
      decide +kernel
    have hUnanchored :
        ∀ registration ∈ ranged,
          ∀ source ∈ Path.constraints registration.path,
            readsAnchored source = false := by
      decide +kernel
    have hLiterals :
        ∀ registration ∈ ranged,
          ∀ text ∈ Path.literals registration.path,
            '/' ∉ text := by
      decide +kernel
    intro registration hMember
    exact
      ⟨hAlone registration hMember,
        hUnanchored registration hMember,
        hLiterals registration hMember⟩
  have hCounted :
      ∀ route ∈ Registration.parsed treeEngine ranged,
        route.IsCounted := by
    decide +kernel
  have hChain :
      ∀ registration ∈ ranged,
        Params.AreChained
          (registration.takings treeEngine ['G']
            ['/', 'a', '/', 'c', '/', 'd']) := by
    unfold Params.AreChained
    decide +kernel
  have hTaken :
      (ranged.foldlM (add (E := treeEngine)) empty).isOk =
        true := by
    decide +kernel
  have hAnswer :
      (ranged.foldlM (Trie.add (E := treeEngine))
          Trie.empty).map (fun trie =>
        trie.lookup ['G'] ['/', 'a', '/', 'c', '/', 'd']) =
        .ok
          (some
            ⟨[0, 1],
              ⟨[(['x'], ['a', '/', 'c']), (['y'], ['d']),
                (['z'], ['a'])]⟩⟩) := by
    decide +kernel
  have hLine : '\n' ∉ ['/', 'a', '/', 'c', '/', 'd'] := by
    decide
  cases hScan :
      ranged.foldlM (add (E := treeEngine)) empty with
  | error fault =>
      rw [hScan] at hTaken
      cases hTaken
  | ok scan =>
      rcases exists_trie (routes_of_adds hScan) with
        ⟨trie, hTrie⟩
      have hSame :=
        (params_eq_params_trie isLeftmostFirst_treeEngine
          hFloating hCounted hScan hTrie ['G']
          hLine).2 hChain
      rw [hTrie] at hAnswer
      have hFound := Except.ok.inj hAnswer
      exact
        ⟨scan, trie, rfl, hTrie, hSame.trans hFound, hFound⟩

/- Two constraints in a row that may both take more parts. -/
def forked : List (Registration Nat) :=
  [⟨['G'],
      ['/', ':', 'x', '{', '.', '+', '}', '/', ':', 'y', '{',
        '.', '+', '}'], 0⟩]

/-
  A scan gives the first constraint as many parts as it can
  take, and a trie as few.
-/
theorem params_parted :
    (forked.foldlM (add (E := treeEngine)) empty).map
        (fun scan =>
          scan.lookup ['G'] ['/', 'a', '/', 'b', '/', 'c']) =
        .ok
          (some
            ⟨[0],
              ⟨[(['x'], ['a', '/', 'b']),
                (['y'], ['c'])]⟩⟩) ∧
      (forked.foldlM (Trie.add (E := treeEngine))
          Trie.empty).map (fun trie =>
            trie.lookup ['G']
              ['/', 'a', '/', 'b', '/', 'c']) =
        .ok
          (some
            ⟨[0],
              ⟨[(['x'], ['a']),
                (['y'], ['b', '/', 'c'])]⟩⟩) := by
  decide +kernel

end LinearScan

end RequestRouter
