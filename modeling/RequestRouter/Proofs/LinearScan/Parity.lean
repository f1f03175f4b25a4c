import RequestRouter.Proofs.LinearScan.Agreement
import RequestRouter.Proofs.LinearScan.Floating

/-
  When a scan and a trie agree on constraints.

  A trie tests a constraint on the text of some parts alone,
  and a scan where it stands in the path. For constraints
  without anchors, each a regular expression of its own, it
  is the same. So a scan gives the handlers that a trie of
  the same registrations gives, if no literal segment holds
  a slash.

  Key definitions include:
    * `Path.constraints`
    * `Path.literals`
    * `Path.IsFloating`

  Main statements:
    * `ScanVariant.isSome_bindings?_iff_accepts`
    * `ScanRoute.IsFor.isSome_bindings?_iff`
    * `LinearScan.handlers_eq_handlers_trie`
-/

------------------------------------------------------------
-- Constraints of a Path
------------------------------------------------------------

namespace RequestRouter

open Regex

variable {E : Engine}

namespace SegmentShape

/- The source of a constraint. -/
def source? : SegmentShape → Option Text
  | .constrained _ source => some source
  | _ => none

end SegmentShape

namespace Path

/- The sources of the constraints in a registered path. -/
def constraints
    (path : Text) : List Text :=
  (variants path).flatMap fun variant =>
    (split variant).filterMap fun segment =>
      (SegmentShape.ofText segment).source?

/- The literal segments of a registered path. -/
def literals
    (path : Text) : List Text :=
  (variants path).flatMap fun variant =>
    (split variant).filter fun segment =>
      SegmentShape.ofText segment = .literal

end Path

namespace Regex

/- Whether a source is read as an anchored expression. -/
def readsAnchored
    (source : Text) : Bool :=
  match parse source with
  | .ok e => e.isAnchored
  | .error _ => false

end Regex

namespace Pattern

/-
  The pattern of a segment floats if its constraint is a
  regular expression of its own without anchors, and if as
  a literal it holds no slash.
-/
theorem isFloating_of_parse
    (hE : E.IsLeftmostFirst)
    {segment : Text}
    {pattern : Pattern E}
    (hParse : parse segment = .ok pattern)
    (hConstraint :
      ∀ source,
        (SegmentShape.ofText segment).source? = some source →
          (E.compile source).isOk = true ∧
            readsAnchored source = false)
    (hLiteral :
      SegmentShape.ofText segment = .literal →
        '/' ∉ segment) :
    pattern.IsFloating := by
  unfold parse at hParse
  split at hParse
  case h_1 hShape =>
      cases hParse
      exact hLiteral hShape
  case h_2 =>
      cases hParse
      exact trivial
  case h_3 =>
      cases hParse
      exact trivial
  case h_4 name source hShape =>
      rcases hConstraint source (by rw [hShape]; rfl) with
        ⟨hAlone, hAnchored⟩
      split at hParse
      case h_2 => cases hParse
      case h_1 constraint hCompile =>
          cases hParse
          cases hProgram : E.compile source with
          | error reason =>
              rw [hProgram] at hAlone
              cases hAlone
          | ok program =>
              rcases
                  Constraint.exists_means_of_compile hE
                    hCompile hProgram with
                ⟨body, hBody, hMeans⟩
              refine ⟨body, hMeans, ?_⟩
              simpa [readsAnchored, hBody] using hAnchored

end Pattern

end RequestRouter

------------------------------------------------------------
-- Floating Paths
------------------------------------------------------------

namespace RequestRouter

open Regex

variable {E : Engine}

namespace Path

variable (E) in
/-
  Whether a registered path means the same in parts and as a
  whole: its constraints are regular expressions of their
  own without anchors, and its literals hold no slash.
-/
structure IsFloating
    (path : Text) : Prop where
  compiles :
    ∀ source ∈ constraints path,
      (E.compile source).isOk = true
  unanchored :
    ∀ source ∈ constraints path,
      readsAnchored source = false
  literals :
    ∀ text ∈ literals path, '/' ∉ text

end Path

namespace Pattern

/- The patterns of a floating path float. -/
theorem isFloating_of_parsePath
    (hE : E.IsLeftmostFirst)
    {path variant : Text}
    (hPath : Path.IsFloating E path)
    (hVariant : variant ∈ Path.variants path)
    {patterns : List (Pattern E)}
    (hParse : parsePath variant = .ok patterns) :
    ∀ pattern ∈ patterns, pattern.IsFloating := by
  intro pattern hPattern
  rcases
      Sequence.exists_of_mem_mapM
        (mapM_parse_of_parsePath hParse) hPattern with
    ⟨segment, hSegment, hOwn⟩
  refine isFloating_of_parse hE hOwn ?_ ?_
  · intro source hSource
    have hMember : source ∈ Path.constraints path :=
      List.mem_flatMap.mpr
        ⟨variant, hVariant,
          List.mem_filterMap.mpr ⟨segment, hSegment, hSource⟩⟩
    exact
      ⟨hPath.compiles _ hMember, hPath.unanchored _ hMember⟩
  · intro hShape
    refine hPath.literals _ (List.mem_flatMap.mpr ?_)
    exact
      ⟨variant, hVariant,
        List.mem_filter.mpr ⟨hSegment, by simpa using hShape⟩⟩

end Pattern

namespace ScanVariant

/-
  A path of floating patterns binds something for the
  requests on one line that its patterns accept.
-/
theorem isSome_bindings?_iff_accepts
    (hE : E.IsLeftmostFirst)
    {path : Text}
    {variant : ScanVariant E}
    (hCompile : compile path = .ok variant)
    {patterns : List (Pattern E)}
    (hParse : Pattern.parsePath path = .ok patterns)
    (hFloating : ∀ pattern ∈ patterns, pattern.IsFloating)
    {request : Text}
    (hLine : '\n' ∉ request) :
    (variant.bindings? request).isSome = true ↔
      Pattern.Accepts patterns (request.splitOn '/') :=
  (isSome_bindings?_iff hE hCompile hParse
      (fun pattern hPattern =>
        (hFloating pattern hPattern).isClosed)
      request).trans
    (Pattern.exists_spells_start_iff hFloating
      (Pattern.ne_nil_of_parsePath hParse) hLine)

end ScanVariant

end RequestRouter

------------------------------------------------------------
-- Floating Registrations
------------------------------------------------------------

namespace RequestRouter

open Regex

variable {E : Engine}
variable {H : Type}

namespace ScanRoute

/- A route binds something if one of its variants does. -/
theorem isSome_bindings?_iff
    (route : ScanRoute E H)
    (path : Text) :
    (route.bindings? path).isSome = true ↔
      ∃ variant ∈ route.variants,
        (variant.bindings? path).isSome = true := by
  have hFound :
      (∃ variant ∈ route.variants,
          (variant.bindings? path).isSome = true) ↔
        route.variants.filterMap (·.bindings? path) ≠ [] := by
    simp [List.filterMap_eq_nil_iff,
      Option.isSome_iff_ne_none]
  rw [hFound, bindings?]
  cases route.variants.filterMap (·.bindings? path) with
  | nil => simp
  | cons first rest => simp

/-
  The route of a floating registration binds something for
  the requests on one line that one of its variants accepts.
-/
theorem IsFor.isSome_bindings?_iff
    (hE : E.IsLeftmostFirst)
    {registration : Registration H}
    {route : ScanRoute E H}
    (hFor : IsFor registration route)
    (hFloating : Path.IsFloating E registration.path)
    {path : Text}
    (hLine : '\n' ∉ path) :
    (route.bindings? path).isSome = true ↔
      ∃ variant ∈ Path.variants registration.path,
        Pattern.PathAccepts E variant
          (path.splitOn '/') := by
  rw [ScanRoute.isSome_bindings?_iff]
  constructor
  · rintro ⟨compiled, hCompiled, hSome⟩
    rcases
        Sequence.exists_of_mem_right hFor.variants
          hCompiled with
      ⟨variant, hVariant, hCompile⟩
    rcases ScanVariant.exists_of_compile hCompile with
      ⟨patterns, hParse, -, -⟩
    have hPatterns :=
      Pattern.isFloating_of_parsePath hE hFloating hVariant
        hParse
    exact
      ⟨variant, hVariant, patterns, hParse,
        (ScanVariant.isSome_bindings?_iff_accepts hE hCompile
          hParse hPatterns hLine).mp hSome⟩
  · rintro ⟨variant, hVariant, patterns, hParse, hAccepts⟩
    rcases
        Sequence.exists_of_mem_left hFor.variants
          hVariant with
      ⟨compiled, hCompiled, hCompile⟩
    have hPatterns :=
      Pattern.isFloating_of_parsePath hE hFloating hVariant
        hParse
    exact
      ⟨compiled, hCompiled,
        (ScanVariant.isSome_bindings?_iff_accepts hE hCompile
          hParse hPatterns hLine).mpr hAccepts⟩

end ScanRoute

namespace LinearScan

/-
  What a scan over floating registrations finds: the
  handlers of those that answer.
-/
theorem map_fst_found
    (hE : E.IsLeftmostFirst)
    {registrations : List (Registration H)}
    (hFloating :
      ∀ registration ∈ registrations,
        Path.IsFloating E registration.path)
    {scan : LinearScan E H}
    (hRoutes :
      List.Forall₂ ScanRoute.IsFor registrations scan.routes)
    (method : Text)
    {path : Text}
    (hLine : '\n' ∉ path) :
    (scan.found method path).map Prod.fst =
      Registration.answering E registrations method path := by
  unfold found Registration.answering
  revert hRoutes
  generalize scan.routes = routes
  intro hRoutes
  induction hRoutes with
  | nil => rfl
  | @cons registration route registrations routes hFor _ ih =>
      rcases List.forall_mem_cons.mp hFloating with
        ⟨hFirst, hRest⟩
      have hBinds :
          registration.Answers E method path ↔
            Method.serves registration.method method = true ∧
              (route.bindings? path).isSome = true := by
        rw [hFor.isSome_bindings?_iff hE hFirst hLine]
        rfl
      rw [List.filterMap_cons, List.filter_cons, hFor.method,
        hFor.handler]
      simp only [hBinds]
      cases Method.serves registration.method method with
      | false => simpa using ih hRest
      | true =>
          cases route.bindings? path with
          | none => simpa using ih hRest
          | some bindings => simpa using ih hRest

/-
  For constraints that are regular expressions of their own
  without anchors, and literals without slashes, a scan and
  a trie of the same registrations give the same handlers on
  every request on one line.
-/
theorem handlers_eq_handlers_trie
    (hE : E.IsLeftmostFirst)
    {registrations : List (Registration H)}
    (hAlone :
      ∀ registration ∈ registrations,
        ∀ source ∈ Path.constraints registration.path,
          (E.compile source).isOk = true)
    (hUnanchored :
      ∀ registration ∈ registrations,
        ∀ source ∈ Path.constraints registration.path,
          readsAnchored source = false)
    (hLiterals :
      ∀ registration ∈ registrations,
        ∀ text ∈ Path.literals registration.path, '/' ∉ text)
    {scan : LinearScan E H}
    (hScan : registrations.foldlM add empty = .ok scan)
    {trie : Trie E H}
    (hTrie :
      registrations.foldlM Trie.add Trie.empty = .ok trie)
    (method : Text)
    {path : Text}
    (hLine : '\n' ∉ path) :
    (scan.lookup method path).map (·.handlers) =
      (trie.lookup method path).map (·.handlers) := by
  have hFloating :
      ∀ registration ∈ registrations,
        Path.IsFloating E registration.path :=
    fun registration hMember =>
      ⟨hAlone registration hMember,
        hUnanchored registration hMember,
        hLiterals registration hMember⟩
  have hFound :=
    map_fst_found hE hFloating (routes_of_adds hScan) method
      hLine
  have hHits :=
    Trie.handlersOf_hits (Trie.reflects_of_adds hTrie)
      method path
  unfold lookup Trie.lookup Match.ofHandlers?
  dsimp only
  rw [hFound, hHits]
  split <;> rfl

/-
  A constraint that spans a slash between word boundaries,
  and one that may be empty in front of an optional
  parameter.
-/
def spanning : List (Registration Nat) :=
  [⟨['G'],
      ['/', ':', 'x', '{', '\\', 'b', '.', '+', '/', '.',
        '\\', 'b', '}', '/', 'c'], 0⟩,
    ⟨Method.all,
      ['/', ':', 'x', '{', '[', 'a', '-', 'b', '/', ']', '*',
        '}', '/', ':', 'y', '?'], 1⟩,
    ⟨['G'],
      ['/', '*', '/', ':', 'x', '{', '\\', 'B', '.', '*',
        '}'], 2⟩]

/- Both answer with the first two. -/
theorem handlers_eq_handlers_trie_spanning :
    ∃ (scan : LinearScan treeEngine Nat)
      (trie : Trie treeEngine Nat),
      spanning.foldlM add empty = .ok scan ∧
        spanning.foldlM Trie.add Trie.empty = .ok trie ∧
          (scan.lookup ['G']
              ['/', 'a', '/', 'b', '/', 'c']).map
            (·.handlers) = some [0, 1] ∧
          (trie.lookup ['G']
              ['/', 'a', '/', 'b', '/', 'c']).map
            (·.handlers) = some [0, 1] := by
  have hAlone :
      ∀ registration ∈ spanning,
        ∀ source ∈ Path.constraints registration.path,
          (treeEngine.compile source).isOk = true := by
    decide +kernel
  have hUnanchored :
      ∀ registration ∈ spanning,
        ∀ source ∈ Path.constraints registration.path,
          readsAnchored source = false := by
    decide +kernel
  have hLiterals :
      ∀ registration ∈ spanning,
        ∀ text ∈ Path.literals registration.path,
          '/' ∉ text := by
    decide +kernel
  have hTaken :
      (spanning.foldlM (add (E := treeEngine)) empty).isOk =
        true := by
    decide +kernel
  have hAnswer :
      (spanning.foldlM (Trie.add (E := treeEngine))
          Trie.empty).map (fun trie =>
        (trie.lookup ['G'] ['/', 'a', '/', 'b', '/', 'c']).map
          (·.handlers)) = .ok (some [0, 1]) := by
    decide +kernel
  have hLine : '\n' ∉ ['/', 'a', '/', 'b', '/', 'c'] := by
    decide
  cases hScan :
      spanning.foldlM (add (E := treeEngine)) empty with
  | error fault =>
      rw [hScan] at hTaken
      cases hTaken
  | ok scan =>
      rcases exists_trie (routes_of_adds hScan) with
        ⟨trie, hTrie⟩
      have hSame :=
        handlers_eq_handlers_trie isLeftmostFirst_treeEngine
          hAlone hUnanchored hLiterals hScan hTrie ['G'] hLine
      rw [hTrie] at hAnswer
      have hHandlers := Except.ok.inj hAnswer
      exact
        ⟨scan, trie, rfl, hTrie, hSame.trans hHandlers,
          hHandlers⟩

/- A route whose constraint holds an anchor. -/
def anchored : List (Registration Nat) :=
  [⟨['G'], ['/', ':', 'x', '{', '^', 'a', '}'], 0⟩]

/- A route whose literal segment holds a slash in braces. -/
def braced : List (Registration Nat) :=
  [⟨['G'], ['/', '{', 'a', '/', 'b', '}'], 0⟩]

/-
  Behind a slash the start of the path is not at hand, so a
  scan never answers with a constraint that is anchored to
  it. A trie never answers with a literal that holds a
  slash, because no part of a path does.
-/
theorem handlers_parted :
    ((treeEngine.compile ['^', 'a']).isOk = true ∧
      (anchored.foldlM (add (E := treeEngine)) empty).map
          (fun scan =>
            (scan.lookup ['G'] ['/', 'a']).map
              (·.handlers)) = .ok none ∧
      (anchored.foldlM (Trie.add (E := treeEngine))
          Trie.empty).map (fun trie =>
            (trie.lookup ['G'] ['/', 'a']).map
              (·.handlers)) = .ok (some [0])) ∧
    (braced.foldlM (add (E := treeEngine)) empty).map
        (fun scan =>
          (scan.lookup ['G']
            ['/', '{', 'a', '/', 'b', '}']).map
              (·.handlers)) = .ok (some [0]) ∧
      (braced.foldlM (Trie.add (E := treeEngine))
        Trie.empty).map (fun trie =>
          (trie.lookup ['G']
            ['/', '{', 'a', '/', 'b', '}']).map
              (·.handlers)) = .ok none := by
  decide +kernel

end LinearScan

end RequestRouter
