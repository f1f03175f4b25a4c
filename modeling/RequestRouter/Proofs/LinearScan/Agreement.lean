import RequestRouter.LinearScan.Matcher
import RequestRouter.Proofs.LinearScan.Expression
import RequestRouter.Proofs.Trie.Answers

/-
  The linear strategy agrees with the trie.

  The expression of a bare path matches the requests whose
  parts its patterns take, and gives each parameter the part
  at its place. Hence a registration binds through its
  variants just what it takes, and a scan over routes
  without constraints answers every request on one line as
  a trie of the same registrations does.

  Key definitions include:
    * `ScanSource.Binds`
    * `ScanRoute.IsFor`

  Main statements:
    * `ScanSource.areBound_waysFrom_root`
    * `ScanVariant.bindings?_eq_head?_takings`
    * `LinearScan.lookup_eq_trie`
-/

------------------------------------------------------------
-- Single Ways
------------------------------------------------------------

namespace RequestRouter

namespace Pattern

variable {E : Regex.Engine}

/- Plain patterns take parts in one way at most. -/
theorem length_takings_le_one
    {patterns : List (Pattern E)}
    (hPlain : ∀ pattern ∈ patterns, pattern.IsPlain)
    (parts : List Text) :
    (takings patterns parts).length ≤ 1 := by
  induction patterns generalizing parts with
  | nil =>
      cases parts <;> simp [takings]
  | cons pattern rest ih =>
      have hRest :=
        ih fun later hLater =>
          hPlain later (List.mem_cons_of_mem _ hLater)
      cases pattern with
      | constrained name constraint =>
          exact
            (hPlain (.constrained name constraint)
              (by simp)).elim
      | literal text =>
          cases parts with
          | nil => simp [takings]
          | cons part parts =>
              by_cases hText : text = part
              · simpa [takings, hText] using hRest parts
              · simp [takings, hText]
      | param name =>
          cases parts with
          | nil => simp [takings]
          | cons part parts =>
              by_cases hPart : part = []
              · simp [takings, hPart]
              · simpa [takings, hPart] using hRest parts
      | wildcard =>
          by_cases hLast : rest = []
          · simp [takings, hLast]
          · cases parts with
            | nil => simp [takings, hLast]
            | cons part parts =>
                by_cases hPart : part = []
                · simp [takings, hLast, hPart]
                · simpa [takings, hLast, hPart]
                    using hRest parts

/- Their first way, if there is one, is the only one. -/
theorem toList_head?_takings
    {patterns : List (Pattern E)}
    (hPlain : ∀ pattern ∈ patterns, pattern.IsPlain)
    (parts : List Text) :
    (takings patterns parts).head?.toList =
      takings patterns parts := by
  have hLength := length_takings_le_one hPlain parts
  revert hLength
  generalize takings patterns parts = found
  intro hLength
  match found, hLength with
  | [], _ => rfl
  | [_], _ => rfl

end Pattern

end RequestRouter

------------------------------------------------------------
-- Records of Parameters
------------------------------------------------------------

namespace RequestRouter

namespace ScanSource

/-
  Whether a record gives parameters the values that are
  bound: each the text of its group, in turn.
-/
inductive Binds :
    List (Text × Nat) → List (Nat × Text) →
      List (Text × Text) → Prop where
  | nil : Binds [] [] []
  | cons {name group part params record bindings}
      (hRest : Binds params record bindings) :
      Binds ((name, group) :: params)
        ((group, part) :: record)
        ((name, part) :: bindings)

/- Whether ways record what is bound, one by one. -/
abbrev AreBound
    (params : List (Text × Nat)) :
    List Regex.Way → List (List (Text × Text)) → Prop :=
  List.Forall₂ fun way bindings =>
    Binds params way.record bindings

/- Where groups differ, the values can be looked up. -/
theorem Binds.filterMap_lookup
    {params : List (Text × Nat)}
    {record : List (Nat × Text)}
    {bindings : List (Text × Text)}
    (hBinds : Binds params record bindings)
    (hSorted : params.Pairwise (·.2 < ·.2)) :
    params.filterMap (fun entry =>
        (record.lookup entry.2).map (entry.1, ·)) =
      bindings := by
  induction hBinds with
  | nil => rfl
  | @cons name group part params record bindings hRest ih =>
      rw [List.pairwise_cons] at hSorted
      have hLater :
          params.filterMap (fun entry =>
              (((group, part) :: record).lookup
                entry.2).map (entry.1, ·)) =
            bindings := by
        rw [← ih hSorted.2]
        refine List.filterMap_congr fun entry hEntry => ?_
        have hOther := hSorted.1 entry hEntry
        rw [List.lookup_cons,
          beq_false_of_ne (Nat.ne_of_gt hOther)]
      simp [hLater]

end ScanSource

end RequestRouter

------------------------------------------------------------
-- Ways of Patterns
------------------------------------------------------------

namespace RequestRouter

open Regex

namespace ScanPiece

/-
  A segment without a group takes a whole part that is not
  empty.
-/
theorem segment_andThen
    {next : Ways}
    (hNext : next.AwaitsSlash)
    (inner : Text → Nat → Ways)
    (first : Bool)
    (group : Nat)
    {part : Text}
    (hPart : Path.IsPart part)
    (parts : List Text)
    (before : Option Char) :
    Ways.andThen (segment.ways inner first group) next
        ⟨before,
          separator first ++
            (part ++ Path.behindSlashes parts)⟩ =
      if part = [] then []
      else
        next
          (Place.behind before (separator first ++ part)
            (Path.behindSlashes parts)) := by
  have hSeparator :=
    Ways.text_append_rest (separator first) before
      (part ++ Path.behindSlashes parts)
  rw [ways, Ways.andThen_assoc,
    Ways.andThen_of_eq_singleton hSeparator]
  simp only [List.nil_append, List.map_id']
  rw [Edge.segmentWays, Ways.andThen_unrecorded,
    Place.behind_append]
  exact
    Edge.flatMap_segment hPart parts
      (fun way => next way.place)
      (fun before c later hSlash =>
        hNext before c later hSlash) _

end ScanPiece

namespace ScanSource

variable {E : Engine}

/- The end of a path awaits the end of the text. -/
theorem awaitsEnd_waysFrom_nil
    (inner : Text → Nat → Ways)
    (first : Bool)
    (group : Nat) :
    (waysFrom inner first group
      ([] : List (Pattern E))).AwaitsEnd := by
  intro before c rest
  simp [waysFrom, Ways.check, Assertion.holds]

/- What stands behind a pattern awaits a slash. -/
theorem awaitsSlash_waysFrom
    (inner : Text → Nat → Ways)
    (group : Nat)
    (patterns : List (Pattern E)) :
    (waysFrom inner false group patterns).AwaitsSlash := by
  intro before c rest hSlash
  have hText :
      ∀ text,
        Ways.text ('/' :: text) ⟨before, c :: rest⟩ =
          [] := by
    intro text
    apply Ways.text_eq_nil
    intro hStart
    exact hSlash (List.cons_prefix_cons.mp hStart).1.symm
  cases patterns with
  | nil => exact awaitsEnd_waysFrom_nil inner false group _ _ _
  | cons pattern later =>
      cases pattern with
      | literal text =>
          exact Ways.andThen_of_eq_nil (hText text) _
      | param | constrained =>
          refine Ways.andThen_of_eq_nil ?_ _
          exact Ways.andThen_of_eq_nil (hText []) _
      | wildcard =>
          cases later with
          | nil =>
              refine
                (Edge.tail_andThen_eq _ inner ['/'] group
                  ⟨before, c :: rest⟩).trans ?_
              simp [Ways.andThen, Ways.pass, hSlash,
                waysFrom, Ways.check, Assertion.holds]
          | cons =>
              refine Ways.andThen_of_eq_nil ?_ _
              exact Ways.andThen_of_eq_nil (hText []) _

/-
  A plain pattern in front of a part: its ways record what
  the pattern takes, if those of the patterns behind it do.
-/
theorem areBound_waysFrom_cons
    {pattern : Pattern E}
    (hPlain : pattern.IsPlain)
    {rest : List (Pattern E)}
    {first : Bool}
    {group : Nat}
    {part : Text}
    {parts : List Text}
    (hParts :
      ∀ other ∈ part :: parts, Path.IsPart other)
    (hLater :
      ∀ group before,
        AreBound (ofPatternsFrom false group rest).params
          (waysFrom Edge.plainWays false group rest
            ⟨before, Path.behindSlashes parts⟩)
          (Pattern.takings rest parts))
    (before : Option Char) :
    AreBound
      (ofPatternsFrom first group (pattern :: rest)).params
      (waysFrom Edge.plainWays first group (pattern :: rest)
        ⟨before,
          ScanPiece.separator first ++
            (part ++ Path.behindSlashes parts)⟩)
      (Pattern.takings (pattern :: rest)
        (part :: parts)) := by
  have hPart := hParts part (by simp)
  have hNext :=
    fun group =>
      awaitsSlash_waysFrom Edge.plainWays group rest
  rw [ofPatternsFrom_cons, waysFrom]
  cases pattern with
  | constrained => exact hPlain.elim
  | literal text =>
      simp only [ScanPiece.ofPattern, ScanPiece.ways,
        ScanPiece.groupAfter, Edge.groupAfter,
        Pattern.name?, Option.map_none, Option.toList_none,
        List.nil_append, Pattern.takings]
      rw [Edge.literal_andThen hPlain (hNext group) _ _ _
        hPart]
      by_cases hText : text = part
      · rw [if_pos hText, if_pos hText]
        exact hLater group _
      · rw [if_neg hText, if_neg hText]
        exact .nil
  | param name =>
      simp only [ScanPiece.ofPattern, ScanPiece.ways,
        ScanPiece.groupAfter, Edge.segment, Edge.groupAfter,
        Pattern.name?, Option.map_some, Option.toList_some,
        List.singleton_append, Pattern.takings]
      rw [Edge.capture_andThen (hNext _) _ _ hPart]
      cases part with
      | nil => exact .nil
      | cons c word =>
          rw [if_neg (by simp), if_neg (by simp)]
          apply List.forall₂_map_left_iff.mpr
          apply List.forall₂_map_right_iff.mpr
          exact (hLater _ _).imp fun _ _ hRest => .cons hRest
  | wildcard =>
      by_cases hLast : rest = []
      case pos =>
          subst hLast
          have hEnd :=
            awaitsEnd_waysFrom_nil (E := E) Edge.plainWays
              false group
          have hTaken :
              ∀ last,
                AreBound []
                  (waysFrom (E := E) Edge.plainWays false
                    group [] ⟨last, []⟩) [[]] :=
            fun last => .cons .nil .nil
          cases first with
          | true =>
              have hLine :
                  '\n' ∉ part ++ Path.behindSlashes parts := by
                have hAll := Path.not_mem_behindSlashes hParts
                simpa [Path.behindSlashes] using hAll
              have hWays :=
                Edge.lineWays_andThen hEnd hLine before
              exact hWays ▸ hTaken _
          | false =>
              rcases
                  Edge.tail_andThen hEnd Edge.plainWays ['/']
                    group (part :: parts) hParts before with
                ⟨last, hWays⟩
              exact hWays ▸ hTaken last
      case neg =>
          have hInside : rest.isEmpty = false := by
            simpa using hLast
          simp only [ScanPiece.ofPattern, hInside,
            Bool.not_false, if_true, ScanPiece.groupAfter,
            Pattern.name?, Option.map_none,
            Option.toList_none, List.nil_append,
            Pattern.takings]
          rw [ScanPiece.segment_andThen (hNext group) _ _ _
            hPart]
          cases part with
          | nil => exact .nil
          | cons c word => exact hLater group _

/- Without parts, only a last wildcard is passed over. -/
theorem areBound_waysFrom_end
    {patterns : List (Pattern E)}
    (hPlain : ∀ pattern ∈ patterns, pattern.IsPlain)
    (group : Nat)
    (before : Option Char) :
    AreBound (ofPatternsFrom false group patterns).params
      (waysFrom Edge.plainWays false group patterns
        ⟨before, []⟩)
      (Pattern.takings patterns []) := by
  cases patterns with
  | nil => exact .cons .nil .nil
  | cons pattern rest =>
      cases pattern with
      | literal | param => exact .nil
      | constrained name constraint =>
          exact
            (hPlain (.constrained name constraint)
              (by simp)).elim
      | wildcard =>
          cases rest with
          | cons => exact .nil
          | nil =>
              have hEnd :=
                awaitsEnd_waysFrom_nil (E := E)
                  Edge.plainWays false group
              rcases
                  Edge.tail_andThen hEnd Edge.plainWays ['/']
                    group [] (by simp) before with
                ⟨last, hWays⟩
              change AreBound [] (Ways.andThen _ _ _) [[]]
              exact hWays ▸ .cons .nil .nil

/-
  In front of parts behind slashes, the ways of plain
  patterns record what the patterns take.
-/
theorem areBound_waysFrom
    {patterns : List (Pattern E)}
    (hPlain : ∀ pattern ∈ patterns, pattern.IsPlain)
    {parts : List Text}
    (hParts : ∀ part ∈ parts, Path.IsPart part)
    (group : Nat)
    (before : Option Char) :
    AreBound (ofPatternsFrom false group patterns).params
      (waysFrom Edge.plainWays false group patterns
        ⟨before, Path.behindSlashes parts⟩)
      (Pattern.takings patterns parts) := by
  induction patterns generalizing parts group before with
  | nil =>
      cases parts with
      | nil => exact .cons .nil .nil
      | cons part parts => exact .nil
  | cons pattern rest ih =>
      cases parts with
      | nil => exact areBound_waysFrom_end hPlain group before
      | cons part parts =>
          have hRest :=
            ih (fun later hLater =>
              hPlain later (List.mem_cons_of_mem _ hLater))
              (fun later hLater =>
                hParts later (List.mem_cons_of_mem _ hLater))
          change
            AreBound _
              (waysFrom Edge.plainWays false group _
                ⟨before, ScanPiece.separator false ++ _⟩) _
          exact
            areBound_waysFrom_cons (hPlain pattern (by simp))
              hParts hRest before

/-
  In front of a whole path, the ways of plain patterns
  record what the patterns take.
-/
theorem areBound_waysFrom_root
    {patterns : List (Pattern E)}
    (hPlain : ∀ pattern ∈ patterns, pattern.IsPlain)
    (hSome : patterns ≠ [])
    {part : Text}
    {parts : List Text}
    (hParts :
      ∀ other ∈ part :: parts, Path.IsPart other)
    (group : Nat) :
    AreBound (ofPatternsFrom true group patterns).params
      (waysFrom Edge.plainWays true group patterns
        (Place.start (part ++ Path.behindSlashes parts)))
      (Pattern.takings patterns (part :: parts)) := by
  cases patterns with
  | nil => exact absurd rfl hSome
  | cons pattern rest =>
      have hRest :=
        areBound_waysFrom
          (fun later hLater =>
            hPlain later (List.mem_cons_of_mem _ hLater))
          (fun later hLater =>
            hParts later (List.mem_cons_of_mem _ hLater))
      change
        AreBound _
          (waysFrom Edge.plainWays true group _
            ⟨none, ScanPiece.separator true ++ _⟩) _
      exact
        areBound_waysFrom_cons (hPlain pattern (by simp))
          hParts hRest none

end ScanSource

end RequestRouter

------------------------------------------------------------
-- Variants
------------------------------------------------------------

namespace RequestRouter

open Regex

variable {E : Engine}

namespace ScanPiece

/- The piece of a plain pattern is read as it is meant. -/
theorem isReadWell_of_isPlain
    {preferred : Expr → Ways}
    (hPreferred : IsPreference preferred)
    {pattern : Pattern E}
    (hPlain : pattern.IsPlain)
    (first last : Bool) :
    (ofPattern first last pattern).IsReadWell preferred
      Edge.plainWays := by
  cases pattern with
  | literal => exact trivial
  | constrained => exact hPlain.elim
  | param =>
      have hSegment : Edge.segment.IsPlain := ⟨rfl, rfl⟩
      exact
        Edge.isReadWell_of_isPlain hPreferred (Or.inl hSegment)
  | wildcard =>
      cases first <;> cases last <;> exact trivial

end ScanPiece

namespace ScanVariant

/- A compiled path has the program of its source. -/
theorem exists_of_compile
    {path : Text}
    {variant : ScanVariant E}
    (hCompile : compile path = .ok variant) :
    ∃ patterns : List (Pattern E),
      Pattern.parsePath path = .ok patterns ∧
        E.compile (ScanSource.ofPatterns patterns).source =
          .ok variant.program ∧
        variant.params =
          (ScanSource.ofPatterns patterns).params := by
  unfold compile at hCompile
  cases hParse : Pattern.parsePath (E := E) path with
  | error error => simp [hParse] at hCompile
  | ok patterns =>
      simp only [hParse] at hCompile
      cases hProgram :
          E.compile
            (ScanSource.ofPatterns patterns).source with
      | error reason => simp [hProgram] at hCompile
      | ok program =>
          simp only [hProgram, Except.ok.injEq] at hCompile
          subst hCompile
          exact ⟨patterns, rfl, hProgram, rfl⟩

/-
  A bare path binds for a request on one line what its
  patterns take first.
-/
theorem bindings?_eq_head?_takings
    (hE : E.IsLeftmostFirst)
    {path : Text}
    (hBare : '{' ∉ path)
    {variant : ScanVariant E}
    (hCompile : compile path = .ok variant)
    {patterns : List (Pattern E)}
    (hParse : Pattern.parsePath path = .ok patterns)
    {request : Text}
    (hLine : '\n' ∉ request) :
    variant.bindings? request =
      (Pattern.takings patterns
        (request.splitOn '/')).head? := by
  rcases exists_of_compile hCompile with
    ⟨own, hOwn, hProgram, hParams⟩
  rw [hParse] at hOwn
  cases hOwn
  have hPlain : ∀ pattern ∈ patterns, pattern.IsPlain :=
    fun _ hPattern =>
      Pattern.isPlain_of_parsePath hBare hParse hPattern
  rcases hE with ⟨preferred, hPreferred, hEngine⟩
  rcases hEngine hProgram with ⟨e, hRead, -, hFinds⟩
  have hWell :
      ScanSource.AreReadWell preferred Edge.plainWays
        patterns :=
    fun pattern hPattern first last =>
      ScanPiece.isReadWell_of_isPlain hPreferred
        (hPlain pattern hPattern) first last
  have hFound :=
    ScanSource.rel_finds_ways hPreferred hWell hRead
      (hFinds request)
  have hBound :
      ScanSource.AreBound
        (ScanSource.ofPatterns patterns).params
        (ScanSource.waysFrom Edge.plainWays true 1 patterns
          (Place.start request))
        (Pattern.takings patterns (request.splitOn '/')) := by
    cases hSplit : request.splitOn '/' with
    | nil => exact absurd hSplit (List.splitOn_ne_nil _ _)
    | cons part parts =>
        rw [Path.eq_append_behindSlashes hSplit]
        refine
          ScanSource.areBound_waysFrom_root hPlain
            (Pattern.ne_nil_of_parsePath hParse) ?_ 1
        intro other hOther
        exact
          Path.isPart_of_mem_splitOn hLine (hSplit ▸ hOther)
  have hSorted :=
    (ScanSource.sorted_params true 1 patterns).2
  unfold bindings?
  rw [hParams]
  revert hFound hBound
  generalize E.find variant.program request = found
  generalize
    ScanSource.waysFrom Edge.plainWays true 1 patterns
      (Place.start request) = ways
  generalize
    Pattern.takings patterns (request.splitOn '/') = takings
  intro hFound hBound
  cases hBound with
  | nil =>
      cases hFound
      rfl
  | cons hFirst =>
      cases hFound with
      | some hAnswers =>
          simp only [Option.map_some, List.head?_cons]
          rw [← hFirst.filterMap_lookup hSorted]
          congr 1
          refine List.filterMap_congr fun entry hEntry => ?_
          rw [hAnswers entry hEntry]

end ScanVariant

end RequestRouter

------------------------------------------------------------
-- Registrations
------------------------------------------------------------

namespace RequestRouter

open Regex

variable {E : Engine}
variable {H : Type}

namespace ScanRoute

/-
  Whether a route is made for a registration: it has its
  method and handler, and its variants compiled in turn.
-/
structure IsFor
    (registration : Registration H)
    (route : ScanRoute E H) : Prop where
  method : route.method = registration.method
  handler : route.handler = registration.handler
  variants :
    List.Forall₂
      (fun path variant =>
        ScanVariant.compile path = .ok variant)
      (Path.variants registration.path) route.variants

/-
  The variants of a bare registration bind what it takes,
  way by way.
-/
theorem IsFor.filterMap_bindings?
    (hE : E.IsLeftmostFirst)
    {registration : Registration H}
    {route : ScanRoute E H}
    (hFor : IsFor registration route)
    (hBare : '{' ∉ registration.path)
    {method path : Text}
    (hServes :
      Method.serves registration.method method = true)
    (hLine : '\n' ∉ path) :
    route.variants.filterMap (·.bindings? path) =
      registration.takings E method path := by
  have hBares :
      ∀ variant ∈ Path.variants registration.path,
        '{' ∉ variant :=
    fun _ hVariant =>
      Path.brace_not_mem_of_mem_variants hBare hVariant
  have hVariants := hFor.variants
  rw [Registration.takings, if_pos hServes]
  clear hFor
  revert hVariants hBares
  generalize Path.variants registration.path = paths
  generalize route.variants = variants
  intro hBares hVariants
  induction hVariants with
  | nil => rfl
  | @cons own variant paths variants hCompile _ ih =>
      have hOwn := hBares own (by simp)
      rcases ScanVariant.exists_of_compile hCompile with
        ⟨patterns, hParse, -, -⟩
      have hBindings :=
        ScanVariant.bindings?_eq_head?_takings hE hOwn
          hCompile hParse hLine
      have hOnly :=
        Pattern.toList_head?_takings
          (fun _ hPattern =>
            Pattern.isPlain_of_parsePath hOwn hParse hPattern)
          (path.splitOn '/')
      have hRest :=
        ih fun other hOther =>
          hBares other (List.mem_cons_of_mem _ hOther)
      rw [List.flatMap_cons, hParse, ← hRest]
      dsimp only
      rw [← hOnly, ← hBindings, List.filterMap_cons]
      cases variant.bindings? path <;> rfl

/- A route of a bare registration binds all that it takes. -/
theorem IsFor.bindings?_eq
    (hE : E.IsLeftmostFirst)
    {registration : Registration H}
    {route : ScanRoute E H}
    (hFor : IsFor registration route)
    (hBare : '{' ∉ registration.path)
    {method path : Text}
    (hServes :
      Method.serves registration.method method = true)
    (hLine : '\n' ∉ path) :
    route.bindings? path =
      if registration.Answers E method path then
        some (registration.takings E method path).flatten
      else none := by
  have hAnswers :=
    Registration.answers_iff_exists_taking E registration
      method path
  unfold bindings?
  rw [hFor.filterMap_bindings? hE hBare hServes hLine]
  cases hTakings : registration.takings E method path with
  | nil =>
      rw [if_neg (by simp [hAnswers, hTakings])]
  | cons first rest =>
      rw [if_pos
        (hAnswers.mpr ⟨first, by simp [hTakings]⟩)]

end ScanRoute

end RequestRouter

------------------------------------------------------------
-- Scans
------------------------------------------------------------

namespace RequestRouter

open Regex

variable {E : Engine}
variable {H : Type}

namespace LinearScan

/- A scan over registrations holds a route for each. -/
theorem routes_of_adds
    {registrations : List (Registration H)}
    {scan : LinearScan E H}
    (hAdds : registrations.foldlM add empty = .ok scan) :
    List.Forall₂ ScanRoute.IsFor registrations
      scan.routes := by
  induction registrations using List.reverseRecOn
    generalizing scan with
  | nil =>
      cases hAdds
      exact .nil
  | append_singleton registrations registration ih =>
      rw [Sequence.foldlM_concat_eq_ok_iff] at hAdds
      rcases hAdds with ⟨before, hBefore, hAdd⟩
      rcases (Sequence.bind_eq_ok_iff _ _ _).mp hAdd with
        ⟨variants, hVariants, hAfter⟩
      cases hAfter
      have hOwn :=
        (Sequence.mapM_eq_ok_iff _ _ _).mp hVariants
      exact
        List.rel_append (ih hBefore)
          (.cons ⟨rfl, rfl, hOwn⟩ .nil)

/- What a scan takes, a trie takes. -/
theorem exists_trie
    {registrations : List (Registration H)}
    {routes : List (ScanRoute E H)}
    (hRoutes :
      List.Forall₂ ScanRoute.IsFor registrations routes) :
    ∃ trie : Trie E H,
      registrations.foldlM Trie.add Trie.empty =
        .ok trie := by
  apply Trie.exists_of_reads
  intro registration hMember variant hVariant
  rcases Sequence.exists_of_mem_left hRoutes hMember with
    ⟨route, -, hFor⟩
  rcases
      Sequence.exists_of_mem_left hFor.variants hVariant with
    ⟨compiled, -, hCompile⟩
  rcases ScanVariant.exists_of_compile hCompile with
    ⟨patterns, hParse, -, -⟩
  exact ⟨patterns, hParse⟩

/-
  What a scan finds: the handlers of the registrations that
  answer, with what they take.
-/
theorem found_eq
    (hE : E.IsLeftmostFirst)
    {registrations : List (Registration H)}
    (hBare :
      ∀ registration ∈ registrations,
        '{' ∉ registration.path)
    {scan : LinearScan E H}
    (hRoutes :
      List.Forall₂ ScanRoute.IsFor registrations scan.routes)
    (method : Text)
    {path : Text}
    (hLine : '\n' ∉ path) :
    scan.found method path =
      (registrations.filter
        (·.Answers E method path)).map fun registration =>
          (registration.handler,
            (registration.takings E method path).flatten) := by
  unfold found
  revert hRoutes
  generalize scan.routes = routes
  intro hRoutes
  induction hRoutes with
  | nil => rfl
  | @cons registration route registrations routes hFor _ ih =>
      have hRest :=
        ih fun later hLater =>
          hBare later (List.mem_cons_of_mem _ hLater)
      rw [List.filterMap_cons, hRest, hFor.method,
        hFor.handler, List.filter_cons]
      by_cases hServes :
          Method.serves registration.method method = true
      case pos =>
          rw [if_pos hServes,
            hFor.bindings?_eq hE (hBare _ (by simp)) hServes
              hLine]
          by_cases hAnswers :
              registration.Answers E method path
          · simp [hAnswers]
          · simp [hAnswers]
      case neg =>
          have hAnswers :
              ¬ registration.Answers E method path :=
            fun hOwn => hServes hOwn.1
          simp [hServes, hAnswers]

/-
  For routes without constraints, a scan agrees with a trie
  of the same registrations: on every request on one line it
  gives the same handlers and the same parameters in the
  same order.
-/
theorem lookup_eq_lookup_trie
    (hE : E.IsLeftmostFirst)
    {registrations : List (Registration H)}
    (hBare :
      ∀ registration ∈ registrations,
        '{' ∉ registration.path)
    {scan : LinearScan E H}
    (hAdds : registrations.foldlM add empty = .ok scan) :
    ∃ trie : Trie E H,
      registrations.foldlM Trie.add Trie.empty = .ok trie ∧
        ∀ method path, '\n' ∉ path →
          scan.lookup method path =
            trie.lookup method path := by
  have hRoutes := routes_of_adds hAdds
  rcases exists_trie hRoutes with ⟨trie, hTrie⟩
  refine ⟨trie, hTrie, ?_⟩
  intro method path hLine
  have hFound := found_eq hE hBare hRoutes method hLine
  have hParams :
      (scan.found method path).flatMap Prod.snd =
        registrations.flatMap fun registration =>
          (registration.takings E method path).flatten := by
    rw [hFound, List.flatMap_map]
    exact Registration.flatMap_takings_answering E _ _ _
  have hHandlers :
      (scan.found method path).map Prod.fst =
        Registration.answering E registrations method
          path := by
    rw [hFound, List.map_map]
    rfl
  unfold lookup
  rw [Trie.lookup_eq_takings hBare
    (Trie.reflects_of_adds hTrie)]
  dsimp only
  rw [hHandlers, hParams]

/-
  An escaped literal, a wildcard inside a path for all
  methods, and one at the end behind an optional parameter.
-/
def mixed : List (Registration Nat) :=
  [⟨['G'], ['/', 'a', '.', '/', ':', 'x'], 0⟩,
    ⟨Method.all, ['/', '*', '/', ':', 'y', '?'], 1⟩,
    ⟨['G'], ['/', 'a', '.', '/', '*'], 2⟩]

/- All three answer, and the first value of a name stays. -/
theorem lookup_eq_lookup_trie_mixed :
    ∃ scan : LinearScan treeEngine Nat,
      mixed.foldlM add empty = .ok scan ∧
        scan.lookup ['G'] ['/', 'a', '.', '/', 'c'] =
          some
            ⟨[0, 1, 2],
              ⟨[(['x'], ['c']), (['y'], ['c'])]⟩⟩ := by
  have hBare :
      ∀ registration ∈ mixed, '{' ∉ registration.path := by
    decide
  have hTaken :
      (mixed.foldlM (add (E := treeEngine)) empty).isOk =
        true := by
    decide +kernel
  cases hAdds : mixed.foldlM (add (E := treeEngine)) empty with
  | error fault =>
      rw [hAdds] at hTaken
      cases hTaken
  | ok scan =>
      rcases
          lookup_eq_lookup_trie isLeftmostFirst_treeEngine
            hBare hAdds with
        ⟨trie, hTrie, hAll⟩
      refine ⟨scan, rfl, ?_⟩
      refine (hAll ['G'] _ (by decide)).trans ?_
      cases hTrie
      decide +kernel

end LinearScan

end RequestRouter
