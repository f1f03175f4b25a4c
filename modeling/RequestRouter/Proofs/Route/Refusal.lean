import RequestRouter.Proofs.Sequence
import RequestRouter.Selector

/-
  Why a registration is refused.

  A path is refused for a constraint that is no regular
  expression or for a parameter that it binds twice. Some
  strategies add that they do not support a path. None of
  them says that a matcher has been built, which is left to
  matchers that have been.

  Key definition:
    * `RouteError.IsDefinition`

  Main statements:
    * `Pattern.isDefinition_of_parsePath`
    * `ParsedRoute.isDefinition_of_ofRegistration`
-/

------------------------------------------------------------
-- Faults of a Definition
------------------------------------------------------------

namespace RequestRouter

variable {E : Regex.Engine}
variable {H : Type}

/- Whether an error is found in a path as it is written. -/
def RouteError.IsDefinition : RouteError → Prop
  | .duplicateParam _ _ | .invalidConstraint _ _ => True
  | _ => False

namespace Pattern

/- A segment is refused for its constraint only. -/
theorem isDefinition_of_parse
    {raw : Text}
    {error : RouteError}
    (hParse : parse (E := E) raw = .error error) :
    error.IsDefinition := by
  unfold parse at hParse
  split at hParse
  case h_1 | h_2 | h_3 => cases hParse
  case h_4 =>
      split at hParse
      · cases hParse
      · cases hParse
        trivial

/- A path is refused for what is written in it. -/
theorem isDefinition_of_parsePath
    {path : Text}
    {error : RouteError}
    (hParse : parsePath (E := E) path = .error error) :
    error.IsDefinition := by
  rcases (Sequence.bind_eq_error_iff _ _ _).mp hParse with
    hMap | ⟨patterns, -, hNames⟩
  · rcases Sequence.exists_of_mapM_eq_error hMap with
      ⟨raw, -, hRaw⟩
    exact isDefinition_of_parse hRaw
  · split at hNames
    · cases hNames
      trivial
    · cases hNames

end Pattern

namespace ParsedRoute

/- A registration is refused for what its path says. -/
theorem isDefinition_of_ofRegistration
    {registration : Registration H}
    {error : RouteError}
    (hRoute :
      ofRegistration (E := E) registration =
        .error error) :
    error.IsDefinition := by
  rcases (Sequence.bind_eq_error_iff _ _ _).mp hRoute with
    hMap | ⟨variants, -, hOk⟩
  · rcases Sequence.exists_of_mapM_eq_error hMap with
      ⟨path, -, hPath⟩
    rcases (Sequence.bind_eq_error_iff _ _ _).mp hPath with
      hParse | ⟨patterns, -, hPair⟩
    · exact Pattern.isDefinition_of_parsePath hParse
    · cases hPair
  · cases hOk

end ParsedRoute

end RequestRouter

------------------------------------------------------------
-- Refusals of the Strategies
------------------------------------------------------------

namespace RequestRouter

variable {E : Regex.Engine}
variable {H : Type}

namespace Trie

/- A trie refuses faulty definitions only. -/
theorem isDefinition_of_add
    {trie : Trie E H}
    {registration : Registration H}
    {error : RouteError}
    (hAdd : trie.add registration = .error error) :
    error.IsDefinition := by
  rcases (Sequence.bind_eq_error_iff _ _ _).mp hAdd with
    hMap | ⟨variants, -, hOk⟩
  · rcases Sequence.exists_of_mapM_eq_error hMap with
      ⟨path, -, hPath⟩
    exact Pattern.isDefinition_of_parsePath hPath
  · cases hOk

end Trie

namespace LinearScan

/- A scan also refuses paths whose expression is refused. -/
theorem isDefinition_of_add
    {scan : LinearScan E H}
    {registration : Registration H}
    {fault : ScanFault}
    (hAdd : scan.add registration = .error fault) :
    fault.error.IsDefinition ∨
      ∃ path ∈ Path.variants registration.path,
        fault.error = .unsupportedPath path := by
  rcases (Sequence.bind_eq_error_iff _ _ _).mp hAdd with
    hMap | ⟨variants, -, hOk⟩
  · rcases Sequence.exists_of_mapM_eq_error hMap with
      ⟨path, hMember, hPath⟩
    unfold ScanVariant.compile at hPath
    split at hPath
    case h_1 error hParse =>
        cases hPath
        exact
          Or.inl (Pattern.isDefinition_of_parsePath hParse)
    case h_2 =>
        dsimp only at hPath
        split at hPath
        · cases hPath
          exact Or.inr ⟨path, hMember, rfl⟩
        · cases hPath
  · cases hOk

end LinearScan

namespace LiteralTable

/- A table also refuses paths that are not literal. -/
theorem isDefinition_of_add
    {table : LiteralTable H}
    {registration : Registration H}
    {error : RouteError}
    (hAdd : table.add E registration = .error error) :
    error.IsDefinition ∨
      error = .unsupportedPath registration.path := by
  rcases (Sequence.bind_eq_error_iff _ _ _).mp hAdd with
    hParse | ⟨patterns, -, hDynamic⟩
  · exact Or.inl (Pattern.isDefinition_of_parsePath hParse)
  · split at hDynamic
    · cases hDynamic
      exact Or.inr rfl
    · cases hDynamic

end LiteralTable

namespace Compiled

/- A matcher that is not built refuses faulty definitions. -/
theorem isDefinition_of_add
    {matcher : Compiled E H}
    (hBuilt : matcher.built = none)
    {registration : Registration H}
    {error : RouteError}
    (hAdd : matcher.add registration = .error error) :
    error.IsDefinition := by
  rw [add, hBuilt] at hAdd
  rcases (Sequence.bind_eq_error_iff _ _ _).mp hAdd with
    hRoute | ⟨route, -, hOk⟩
  · exact ParsedRoute.isDefinition_of_ofRegistration hRoute
  · cases hOk

end Compiled

namespace Matcher

/- A path that does not pass is a faulty definition. -/
theorem isDefinition_of_checkPath
    {path : Text}
    {error : RouteError}
    (hCheck : checkPath E path = .error error) :
    error.IsDefinition := by
  unfold checkPath at hCheck
  generalize Path.variants path = variants at hCheck
  induction variants with
  | nil => cases hCheck
  | cons variant rest ih =>
      rw [List.forM, Sequence.bind_eq_error_iff] at hCheck
      rcases hCheck with hFirst | ⟨passed, -, hRest⟩
      · rcases (Sequence.bind_eq_error_iff _ _ _).mp hFirst
          with hParse | ⟨patterns, -, hOk⟩
        · exact Pattern.isDefinition_of_parsePath hParse
        · cases hOk
      · exact ih hRest

end Matcher

end RequestRouter
