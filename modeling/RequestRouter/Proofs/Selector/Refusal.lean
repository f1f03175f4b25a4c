import RequestRouter.Proofs.Route.Refusal
import RequestRouter.Proofs.Regex.Ways
import RequestRouter.Selector

/-
  Refusals that do not depend on the strategy.

  The compiled strategy, the trie and every selector read all
  variants of a path before they do anything else, and refuse
  it for the first one at fault. The scan compiles variant by
  variant, so that a variant without an expression may hide a
  later fault. The table of literals reads the path as it is
  written, with its question marks.

  Key definitions include:
    * `Path.fault?`
    * `LinearScan.MayHideFaults`
    * `Blueprint.refusal?`

  Main statements:
    * `Blueprint.fault?_of_refusal?`
    * `Blueprint.refusal?_of_fault?`
    * `Blueprint.refusal_of_isDefinition`
-/

------------------------------------------------------------
-- Faults of a Path
------------------------------------------------------------

namespace RequestRouter

variable (E : Regex.Engine)

namespace Path

/- The fault of the first variant that cannot be read. -/
def fault?
    (path : Text) : Option RouteError :=
  (variants path).findSome? fun variant =>
    Sequence.fault? (Pattern.parsePath (E := E) variant)

/- A path that is not expanded is its only variant. -/
theorem fault?_of_expandOptional
    {path : Text}
    (hPlain : expandOptional path = none) :
    fault? E path =
      Sequence.fault? (Pattern.parsePath (E := E) path) := by
  rw [fault?, variants, hPlain, Option.getD_none,
    List.findSome?_singleton]

end Path

namespace LinearScan

/-
  Whether a path is expanded and the engine refuses the
  expression of one of its variants.
-/
def MayHideFaults
    (path : Text) : Prop :=
  ∃ variants, Path.expandOptional path = some variants ∧
    ∃ variant ∈ variants, ∃ reason,
      ScanVariant.compile (E := E) variant =
        .error (.rejected variant reason)

end LinearScan

end RequestRouter

------------------------------------------------------------
-- Faults of a Scan
------------------------------------------------------------

namespace RequestRouter

variable {E : Regex.Engine}

namespace ScanVariant

/-
  A variant is refused for what it says, or because the
  engine refuses its expression.
-/
theorem fault?_compile
    (variant : Text) :
    Sequence.fault? (compile (E := E) variant) =
        (Sequence.fault?
          (Pattern.parsePath (E := E) variant)).map .route ∨
      Sequence.fault? (Pattern.parsePath (E := E) variant) =
          none ∧
        ∃ reason,
          compile (E := E) variant =
            .error (.rejected variant reason) := by
  unfold compile
  cases Pattern.parsePath (E := E) variant with
  | error error => exact Or.inl rfl
  | ok patterns =>
      dsimp only
      cases
          E.compile
            (ScanSource.ofPatterns (E := E) patterns).source
        with
      | error reason => exact Or.inr ⟨rfl, reason, rfl⟩
      | ok program => exact Or.inl rfl

end ScanVariant

namespace LinearScan

/- The fault of the first variant that is not compiled. -/
def fault?
    (E : Regex.Engine)
    (variants : List Text) : Option ScanFault :=
  variants.findSome? fun variant =>
    Sequence.fault? (ScanVariant.compile (E := E) variant)

/-
  A faulty definition that a scan reports is the first one
  among the variants.
-/
theorem findSome?_of_isDefinition
    {variants : List Text}
    {fault : ScanFault}
    (hFault : fault? E variants = some fault)
    (hDefinition : fault.error.IsDefinition) :
    (variants.findSome? fun variant =>
        Sequence.fault?
          (Pattern.parsePath (E := E) variant)) =
      some fault.error := by
  induction variants with
  | nil => cases hFault
  | cons variant rest ih =>
      rw [fault?, List.findSome?_cons] at hFault
      rw [List.findSome?_cons]
      rcases ScanVariant.fault?_compile (E := E) variant with
        hSame | ⟨-, reason, hRejected⟩
      · rw [hSame] at hFault
        cases hOwn :
            Sequence.fault?
              (Pattern.parsePath (E := E) variant) with
        | none =>
            rw [hOwn] at hFault
            exact ih hFault
        | some error =>
            rw [hOwn] at hFault
            cases hFault
            rfl
      · rw [hRejected] at hFault
        cases hFault
        exact hDefinition.elim

/-
  A scan whose expressions are all taken has the fault of
  the first variant that cannot be read.
-/
theorem fault?_of_not_rejected
    {variants : List Text}
    (hTaken :
      ∀ variant ∈ variants, ∀ reason,
        ScanVariant.compile (E := E) variant ≠
          .error (.rejected variant reason)) :
    fault? E variants =
      (variants.findSome? fun variant =>
        Sequence.fault?
          (Pattern.parsePath (E := E) variant)).map
            .route := by
  induction variants with
  | nil => rfl
  | cons variant rest ih =>
      rw [fault?, List.findSome?_cons, List.findSome?_cons]
      rcases ScanVariant.fault?_compile (E := E) variant with
        hSame | ⟨-, reason, hRejected⟩
      · rw [hSame]
        cases
            Sequence.fault?
              (Pattern.parsePath (E := E) variant) with
        | none =>
            exact
              ih fun other hOther =>
                hTaken other (List.mem_cons_of_mem _ hOther)
        | some error => rfl
      · exact
          absurd hRejected
            (hTaken variant (by simp) reason)

end LinearScan

end RequestRouter

------------------------------------------------------------
-- Refusals
------------------------------------------------------------

namespace RequestRouter

variable {E : Regex.Engine}
variable {H : Type}

namespace Compiled

/- A matcher not built refuses a path for its first fault. -/
theorem fault?_add
    {matcher : Compiled E H}
    (hBuilt : matcher.built = none)
    (registration : Registration H) :
    Sequence.fault? (matcher.add registration) =
      Path.fault? E registration.path := by
  rw [add, hBuilt, if_neg (by simp),
    Sequence.fault?_bind_of_ok]
  case hNext => exact fun _ => rfl
  rw [ParsedRoute.ofRegistration,
    Sequence.fault?_bind_of_ok _ (fun _ => rfl),
    Sequence.fault?_mapM, Path.fault?]
  congr 1
  funext variant
  exact Sequence.fault?_bind_of_ok _ fun _ => rfl

end Compiled

namespace Trie

/- So does a trie. -/
theorem fault?_add
    (trie : Trie E H)
    (registration : Registration H) :
    Sequence.fault? (trie.add registration) =
      Path.fault? E registration.path := by
  rw [add, Sequence.fault?_bind_of_ok _ (fun _ => rfl),
    Sequence.fault?_mapM, Path.fault?]

end Trie

namespace LinearScan

/- A scan refuses it for the first variant not compiled. -/
theorem fault?_add
    (scan : LinearScan E H)
    (registration : Registration H) :
    Sequence.fault? (scan.add registration) =
      fault? E (Path.variants registration.path) := by
  rw [add, Sequence.fault?_bind_of_ok _ (fun _ => rfl),
    Sequence.fault?_mapM, fault?]

end LinearScan

namespace LiteralTable

/- What a table refuses does not depend on its entries. -/
theorem fault?_add
    (table : LiteralTable H)
    (registration : Registration H) :
    Sequence.fault? (table.add E registration) =
      Sequence.fault?
        ((empty : LiteralTable H).add E registration) := by
  unfold add
  cases hParse :
      Pattern.parsePath (E := E) registration.path with
  | error error => rfl
  | ok patterns =>
      by_cases hDynamic : Pattern.anyDynamic patterns = true
      · simp [bind, Except.bind, hDynamic]
      · simp [bind, Except.bind, hDynamic, Sequence.fault?]

end LiteralTable

namespace Matcher

/- What a scan is refused for, a matcher of it is. -/
theorem fault?_add_linear
    (scan : LinearScan E H)
    (registration : Registration H) :
    Sequence.fault?
        ((Matcher.linear scan).add registration).value =
      (LinearScan.fault? E
        (Path.variants registration.path)).map
          ScanFault.error := by
  rw [← LinearScan.fault?_add scan, add]
  cases scan.add registration <;> rfl

/- A check of a path ends with the first fault of it. -/
theorem fault?_checkPath
    (path : Text) :
    Sequence.fault? (checkPath E path) =
      Path.fault? E path := by
  rw [checkPath, Sequence.fault?_forM, Path.fault?]
  congr 1
  funext variant
  exact Sequence.fault?_bind_of_ok _ fun _ => rfl

end Matcher

namespace Blueprint

/- Why a fresh matcher refuses a registration, if it does. -/
def refusal?
    (E : Regex.Engine)
    (blueprint : Blueprint)
    (registration : Registration H) : Option RouteError :=
  Sequence.fault?
    ((blueprint.fresh : Matcher E H).add registration).value

/- A compiled matcher refuses a path for its first fault. -/
theorem refusal?_compiled
    (registration : Registration H) :
    (plain .compiled).refusal? E registration =
      Path.fault? E registration.path := by
  rw [refusal?, fresh, Matcher.add, Traced.silent,
    Sequence.fault?_map, Compiled.fault?_add rfl]

/- So does a trie. -/
theorem refusal?_trie
    (registration : Registration H) :
    (plain .trie).refusal? E registration =
      Path.fault? E registration.path := by
  rw [refusal?, fresh, Matcher.add, Traced.silent,
    Sequence.fault?_map, Trie.fault?_add]

/- So does a selector, whatever its candidates are. -/
theorem refusal?_selector
    (candidates : List Blueprint)
    (registration : Registration H) :
    (selector candidates).refusal? E registration =
      Path.fault? E registration.path := by
  rw [refusal?, fresh, Matcher.add, Traced.silent,
    Sequence.fault?_map, Matcher.fault?_checkPath]

/- A scan refuses it for the first variant not compiled. -/
theorem refusal?_linear
    (registration : Registration H) :
    (plain .linear).refusal? E registration =
      (LinearScan.fault? E
        (Path.variants registration.path)).map
          ScanFault.error := by
  rw [refusal?, fresh, Matcher.fault?_add_linear]

/-
  A table of literals refuses a path as it is written, or
  for not being literal.
-/
theorem refusal?_static
    (registration : Registration H)
    {error : RouteError}
    (hDefinition : error.IsDefinition) :
    (plain .static).refusal? E registration = some error ↔
      Pattern.parsePath (E := E) registration.path =
        .error error := by
  rw [refusal?, fresh, Matcher.add, Traced.silent,
    Sequence.fault?_map, Sequence.fault?_eq_some_iff,
    LiteralTable.add, Sequence.bind_eq_error_iff]
  refine ⟨?_, Or.inl⟩
  rintro (hParse | ⟨patterns, -, hDynamic⟩)
  · exact hParse
  · split at hDynamic
    · cases hDynamic
      exact hDefinition.elim
    · cases hDynamic

/-
  Whoever refuses a path for what it says names the first
  fault among its variants, but for a table of literals
  that is given a path with optional parameters.
-/
theorem fault?_of_refusal?
    {blueprint : Blueprint}
    {registration : Registration H}
    {error : RouteError}
    (hDefinition : error.IsDefinition)
    (hStatic :
      Path.expandOptional registration.path = none ∨
        blueprint ≠ .plain .static)
    (hRefusal :
      blueprint.refusal? E registration = some error) :
    Path.fault? E registration.path = some error := by
  match blueprint with
  | .plain .compiled =>
      rw [← refusal?_compiled (H := H), hRefusal]
  | .plain .trie => rw [← refusal?_trie (H := H), hRefusal]
  | .selector candidates =>
      rw [← refusal?_selector (H := H), hRefusal]
  | .plain .linear =>
      rw [refusal?_linear] at hRefusal
      rcases Option.map_eq_some_iff.mp hRefusal with
        ⟨fault, hFault, rfl⟩
      exact
        LinearScan.findSome?_of_isDefinition hFault
          hDefinition
  | .plain .static =>
      have hPlain := hStatic.resolve_right (by simp)
      rw [Path.fault?_of_expandOptional E hPlain,
        Sequence.fault?_eq_some_iff]
      exact (refusal?_static _ hDefinition).mp hRefusal

/- A scan that hides no faults reports the first of a path. -/
theorem refusal?_linear_of_fault?
    {registration : Registration H}
    {error : RouteError}
    (hShown :
      ¬ LinearScan.MayHideFaults E registration.path)
    (hFault :
      Path.fault? E registration.path = some error) :
    (plain .linear).refusal? E registration =
      some error := by
  rw [refusal?_linear]
  cases hExpand :
      Path.expandOptional registration.path with
  | none =>
      have hVariants :
          Path.variants registration.path =
            [registration.path] := by
        rw [Path.variants, hExpand, Option.getD_none]
      rw [Path.fault?_of_expandOptional E hExpand]
        at hFault
      rw [hVariants, LinearScan.fault?,
        List.findSome?_singleton]
      rcases ScanVariant.fault?_compile (E := E)
          registration.path with
        hSame | ⟨hRead, -⟩
      · rw [hSame, hFault]
        rfl
      · rw [hFault] at hRead
        cases hRead
  | some variants =>
      have hVariants :
          Path.variants registration.path =
            variants := by
        rw [Path.variants, hExpand, Option.getD_some]
      rw [Path.fault?, hVariants] at hFault
      rw [hVariants,
        LinearScan.fault?_of_not_rejected, hFault]
      · rfl
      · intro variant hVariant reason hRejected
        exact
          hShown
            ⟨variants, hExpand, variant, hVariant,
              reason, hRejected⟩

/-
  Nobody misses the first fault among the variants of a
  path, but for a table of literals that is given a path
  with optional parameters and a scan that stops earlier.
-/
theorem refusal?_of_fault?
    {blueprint : Blueprint}
    {registration : Registration H}
    {error : RouteError}
    (hDefinition : error.IsDefinition)
    (hStatic :
      Path.expandOptional registration.path = none ∨
        blueprint ≠ .plain .static)
    (hLinear :
      blueprint = .plain .linear →
        ¬ LinearScan.MayHideFaults E registration.path)
    (hFault :
      Path.fault? E registration.path = some error) :
    blueprint.refusal? E registration = some error := by
  match blueprint with
  | .plain .compiled => rw [refusal?_compiled, hFault]
  | .plain .trie => rw [refusal?_trie, hFault]
  | .selector candidates => rw [refusal?_selector, hFault]
  | .plain .static =>
      have hPlain := hStatic.resolve_right (by simp)
      rw [Path.fault?_of_expandOptional E hPlain,
        Sequence.fault?_eq_some_iff] at hFault
      exact (refusal?_static _ hDefinition).mpr hFault
  | .plain .linear =>
      exact refusal?_linear_of_fault? (hLinear rfl) hFault

/-
  A faulty definition is refused by every strategy with the
  same error. A table of literals joins in for paths without
  optional parameters, and a scan where no variant of an
  expanded path lacks an expression.
-/
theorem refusal_of_isDefinition
    {first other : Blueprint}
    {registration : Registration H}
    {error : RouteError}
    (hDefinition : error.IsDefinition)
    (hStatic :
      Path.expandOptional registration.path = none ∨
        first ≠ .plain .static ∧ other ≠ .plain .static)
    (hLinear :
      other = .plain .linear →
        ¬ LinearScan.MayHideFaults E registration.path)
    (hRefusal :
      first.refusal? E registration = some error) :
    other.refusal? E registration = some error := by
  apply refusal?_of_fault? hDefinition
  case hStatic => exact hStatic.imp_right And.right
  case hLinear => exact hLinear
  case hFault =>
    exact
      fault?_of_refusal? hDefinition
        (hStatic.imp_right And.left) hRefusal

/- A route that binds a name again where it is optional. -/
def repeating : Registration Nat :=
  ⟨['G'], ['/', ':', 'a', '/', ':', 'a', '?'], 0⟩

/- The scan refuses it as the compiled strategy does. -/
theorem refusal_of_isDefinition_repeating :
    let error : RouteError :=
      .duplicateParam ['a'] ['/', ':', 'a', '/', ':', 'a']
    error.IsDefinition ∧
      ¬ LinearScan.MayHideFaults Regex.treeEngine
        repeating.path ∧
      (plain .compiled).refusal? Regex.treeEngine
        repeating = some error ∧
      (plain .linear).refusal? Regex.treeEngine
        repeating = some error := by
  intro error
  have hDefinition : error.IsDefinition := trivial
  have hFirst :
      (plain .compiled).refusal? Regex.treeEngine
        repeating = some error := by
    decide +kernel
  have hShown :
      ¬ LinearScan.MayHideFaults Regex.treeEngine
        repeating.path := by
    rintro ⟨variants, hExpand, variant, hVariant, reason,
      hRejected⟩
    have hOwn :
        Path.expandOptional repeating.path =
          some [['/', ':', 'a'],
            ['/', ':', 'a', '/', ':', 'a']] := by
      decide +kernel
    rw [hOwn, Option.some_inj] at hExpand
    subst hExpand
    have hFault := congrArg Sequence.fault? hRejected
    rw [List.mem_cons, List.mem_singleton] at hVariant
    rcases hVariant with rfl | rfl
    · have hNone :
          Sequence.fault?
              (ScanVariant.compile (E := Regex.treeEngine)
                ['/', ':', 'a']) = none := by
        decide +kernel
      rw [hNone] at hFault
      cases hFault
    · have hRoute :
          Sequence.fault?
              (ScanVariant.compile (E := Regex.treeEngine)
                ['/', ':', 'a', '/', ':', 'a']) =
            some (.route error) := by
        decide +kernel
      rw [hRoute] at hFault
      cases hFault
  refine ⟨hDefinition, hShown, hFirst, ?_⟩
  exact
    refusal_of_isDefinition hDefinition
      (Or.inr ⟨by simp, by simp⟩) (fun _ => hShown) hFirst

/-
  A route whose optional parameter has a constraint that is
  no regular expression.
-/
def unexpanded : Registration Nat :=
  ⟨['G'], ['/', ':', 'a', '{', '(', '}', '?'], 0⟩

/- Two constraints that name the same group. -/
def clashing : Text :=
  "/:a\x7b(?<n>x)\x7d/:b\x7b(?<n>y)\x7d".toList

/- A route that binds a name again behind them. -/
def hidden : Registration Nat :=
  ⟨['G'], clashing ++ ['/', ':', 'a', '?'], 0⟩

/-
  A table of literals takes the first route, because a
  segment that ends in a question mark is literal when it is
  not expanded. The scan finds the second one unsupported
  before it reads the variant at fault.
-/
theorem refusal_parted :
    let broken : RouteError :=
      .invalidConstraint [':', 'a', '{', '(', '}']
        .unclosedGroup
    let repeated : RouteError :=
      .duplicateParam ['a'] (clashing ++ ['/', ':', 'a'])
    (broken.IsDefinition ∧
      (plain .compiled).refusal? Regex.treeEngine
        unexpanded = some broken ∧
      (plain .trie).refusal? Regex.treeEngine
        unexpanded = some broken ∧
      (plain .linear).refusal? Regex.treeEngine
        unexpanded = some broken ∧
      preferCompiled.refusal? Regex.treeEngine
        unexpanded = some broken ∧
      (plain .static).refusal? Regex.treeEngine
        unexpanded = none) ∧
    repeated.IsDefinition ∧
      (plain .compiled).refusal? Regex.treeEngine
        hidden = some repeated ∧
      (plain .linear).refusal? Regex.treeEngine
        hidden = some (.unsupportedPath clashing) := by
  refine ⟨⟨trivial, ?_⟩, trivial, ?_⟩
  · decide +kernel
  · decide +kernel

end Blueprint

end RequestRouter
