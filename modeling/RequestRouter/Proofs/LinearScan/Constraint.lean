import RequestRouter.Proofs.LinearScan.Spelling
import RequestRouter.Proofs.Regex.Ending

/-
  What a constraint accepts, alone and in a scanned path.

  A constraint whose source compiles on its own accepts the
  texts that its expression leads over from end to end. The
  source of a path with such constraints matches the
  requests that its edges spell, whatever numbers of groups
  are counted for them.

  Key definition:
    * `Constraint.Means`

  Main statements:
    * `Constraint.exists_means_of_compile`
    * `ScanVariant.isSome_bindings?_iff`
-/

------------------------------------------------------------
-- Constraints Alone
------------------------------------------------------------

namespace RequestRouter

open Regex

namespace Regex

namespace Expr

/-
  Something is found for an expression that is tied to the
  start just if its items lead somewhere from there.
-/
theorem isSome_found_iff
    {preferred : Expr → Ways}
    (hPreferred : IsPreference preferred)
    {items : List Expr}
    {text : Text}
    {found : Option Captures}
    (hFinds :
      (sequence (.assertion .textStart :: items)).Finds
        preferred text found) :
    found.isSome = true ↔
      ∃ place,
        (Ways.sequence (items.map preferred)).Leads
          (Place.start text) place := by
  have hFound := rel_finds_textStart hPreferred hFinds
  unfold Ways.Leads
  revert hFound
  generalize
    Ways.sequence (items.map preferred) (Place.start text) =
      ways
  intro hFound
  cases ways with
  | nil =>
      cases hFound
      simp
  | cons way rest =>
      cases hFound
      exact
        ⟨fun _ => ⟨way.place, way, by simp, rfl⟩,
          fun _ => rfl⟩

end Expr

end Regex

variable {E : Engine}

namespace Constraint

/-
  Whether an expression says what a constraint accepts: its
  source is closed with the expression as its body, and the
  texts that are accepted are those that it leads over.
-/
structure Means
    (constraint : Constraint E)
    (body : Expr) : Prop where
  closed :
    ∃ groups,
      closedBody? constraint.source = some (body, groups)
  isMatch_iff (text : Text) :
    constraint.isMatch text = true ↔
      ∃ last, last.rest = [] ∧
        body.ways.Leads (Place.start text) last

/-
  The anchored source of a closed one is read as its body
  between the ends of the text.
-/
theorem eq_of_parse_anchored
    {source : Text}
    {body : Expr}
    {groups : Nat}
    (hClosed : closedBody? source = some (body, groups))
    {e : Expr}
    (hParse : parse (anchored source) = .ok e) :
    e =
      .sequence
        [.assertion .textStart, body.shift 0,
          .assertion .textEnd] := by
  have hRead :
      IsReadAs
        ('(' :: '?' :: ':' :: source ++ [')'] ++ ['$']) 0
        (0 + groups)
        ([body.shift 0] ++ [.assertion .textEnd]) :=
    isReadAs_append (isReadAs_scoped hClosed 0) (by decide)
      (isReadAs_anchor (Or.inr rfl) _)
  refine eq_sequence_of_parse (by simp) hRead ?_
  rw [← hParse]
  simp [anchored]

/-
  A constraint whose source compiles on its own means the
  expression that the source is read as.
-/
theorem exists_means_of_compile
    (hE : E.IsLeftmostFirst)
    {source : Text}
    {constraint : Constraint E}
    (hCompile : compile source = .ok constraint)
    {program : E.Program}
    (hAlone : E.compile source = .ok program) :
    ∃ body, parse source = .ok body ∧
      constraint.Means body := by
  rcases hE with ⟨preferred, hPreferred, hEngine⟩
  rcases (Sequence.bind_eq_ok_iff _ _ _).mp hCompile with
    ⟨own, hOwn, hSame⟩
  cases hSame
  rcases hEngine hAlone with ⟨body, hBody, -, -⟩
  rcases hEngine hOwn with ⟨e, hRead, -, hFinds⟩
  rcases closedBody?_of_parse hBody hRead with
    ⟨groups, hClosed⟩
  refine ⟨body, hBody, ⟨groups, hClosed⟩, fun text => ?_⟩
  cases eq_of_parse_anchored hClosed hRead
  refine
    (Expr.isSome_found_iff hPreferred (hFinds text)).trans ?_
  have hAlike := hPreferred.leadAlike_shift 0 body
  simp only [List.map_cons, List.map_nil, Ways.sequence,
    Ways.andThen_stay, hPreferred.assertion,
    Ways.leads_andThen_iff, Ways.leads_check_iff]
  constructor
  · rintro ⟨place, middle, hBody, hEnd, rfl⟩
    exact
      ⟨place, by simpa [Assertion.holds] using hEnd,
        (hAlike _ _).mp hBody⟩
  · rintro ⟨last, hEnd, hLeads⟩
    exact
      ⟨last, last, (hAlike _ _).mpr hLeads,
        by simp [Assertion.holds, hEnd], rfl⟩

end Constraint

end RequestRouter

------------------------------------------------------------
-- Pieces of Any Count
------------------------------------------------------------

namespace RequestRouter

open Regex

variable {E : Engine}
variable {preferred : Expr → Ways}

namespace Pattern

/- Whether the source of a pattern's constraint is closed. -/
def IsClosed : Pattern E → Prop
  | .constrained _ constraint =>
      (closedBody? constraint.source).isSome = true
  | _ => True

end Pattern

namespace ScanPiece

/- The piece of a counted pattern leads where it passes. -/
theorem exists_isReadAs_of_isCounted
    (hPreferred : IsPreference preferred)
    {pattern : Pattern E}
    (hCounted : pattern.IsCounted)
    (first last : Bool)
    (group : Nat) :
    ∃ behind items,
      IsReadAs ((ofPattern first last pattern).source first)
          group behind items ∧
        ∀ start place,
          (Ways.sequence (items.map preferred)).Leads start
              place ↔
            ∃ caught,
              (pattern.edge first last).Passes
                (separator first) start place caught := by
  rcases
      exists_isReadAs hPreferred
        (isReadWell_of_isCounted hCounted first last) first
        group with
    ⟨behind, items, -, hItems, hWays, -⟩
  refine ⟨behind, items, hItems, fun start place => ?_⟩
  rw [hWays]
  constructor
  · rintro ⟨way, hWay, rfl⟩
    rcases
        exists_passes_of_mem_ways hPreferred hCounted hWay with
      ⟨caught, -, hPass, -⟩
    exact ⟨caught, hPass⟩
  · rintro ⟨caught, hPass⟩
    exact leads_ways_of_passes hPreferred hPass (group + 1)

/-
  The piece of a closed pattern is read with ways that lead
  where its edge passes, whatever number of groups is
  counted for it.
-/
theorem exists_isReadAs_of_isClosed
    (hPreferred : IsPreference preferred)
    {pattern : Pattern E}
    (hClosed : pattern.IsClosed)
    (first last : Bool)
    (group : Nat) :
    ∃ behind items,
      IsReadAs ((ofPattern first last pattern).source first)
          group behind items ∧
        ∀ start place,
          (Ways.sequence (items.map preferred)).Leads start
              place ↔
            ∃ caught,
              (pattern.edge first last).Passes
                (separator first) start place caught := by
  cases pattern with
  | constrained name constraint =>
      rcases Option.isSome_iff_exists.mp hClosed with
        ⟨⟨body, groups⟩, hBody⟩
      -- The piece with the number of groups that is read.
      have hCounted :
          (Edge.capture constraint.source groups).IsCounted := by
        simp [Edge.IsCounted, hBody]
      rcases
          Edge.exists_isReadAs hPreferred
            (Edge.isReadWell_of_isCounted hCounted)
            (separator_cases first) group with
        ⟨behind, items, -, hItems, hWays, -⟩
      refine ⟨behind, items, hItems, fun start place => ?_⟩
      rw [hWays]
      constructor
      · rintro ⟨way, hWay, rfl⟩
        rcases
            Edge.exists_passes_of_mem_ways hPreferred hCounted
              hWay with
          ⟨caught, -, hPass, -⟩
        cases hPass with
        | capture hFront hSource =>
            exact ⟨_, .capture hFront hSource⟩
      · rintro ⟨caught, hPass⟩
        cases hPass with
        | capture hFront hSource =>
            exact
              Edge.leads_ways_of_passes hPreferred
                (.capture hFront hSource) (group + 1)
  | literal | param | wildcard =>
      refine
        exists_isReadAs_of_isCounted hPreferred ?_ first last
          group
      exact trivial

end ScanPiece

namespace ScanSource

/-
  The source of closed patterns is read with ways that lead
  somewhere just if their edges spell what follows.
-/
theorem exists_isReadAs_of_isClosed
    (hPreferred : IsPreference preferred)
    {patterns : List (Pattern E)}
    (hClosed : ∀ pattern ∈ patterns, pattern.IsClosed)
    (first : Bool)
    (counted group : Nat) :
    ∃ behind items,
      IsReadAs (ofPatternsFrom first counted patterns).source
          group behind items ∧
        ∀ start,
          (∃ place,
              (Ways.sequence (items.map preferred)).Leads
                start place) ↔
            ∃ texts,
              Edge.Spells (ScanPiece.separator first)
                (Step.edges (Pattern.steps first patterns))
                start texts := by
  induction patterns generalizing first counted group with
  | nil =>
      refine
        ⟨group, _, isReadAs_anchor (Or.inr rfl) group,
          fun start => ?_⟩
      simp only [List.map_cons, List.map_nil, Ways.sequence,
        Ways.andThen_stay, hPreferred.assertion,
        Ways.leads_check_iff]
      constructor
      · rintro ⟨place, hEnd, rfl⟩
        exact
          ⟨[], .nil (by simpa [Assertion.holds] using hEnd)⟩
      · rintro ⟨texts, hSpells⟩
        cases hSpells with
        | nil hEnd =>
            exact
              ⟨start, by simp [Assertion.holds, hEnd], rfl⟩
  | cons pattern rest ih =>
      rcases List.forall_mem_cons.mp hClosed with
        ⟨hFirst, hRest⟩
      rcases
          ScanPiece.exists_isReadAs_of_isClosed hPreferred hFirst
            first rest.isEmpty group with
        ⟨middle, items, hItems, hPasses⟩
      rcases
          ih hRest false
            ((ScanPiece.ofPattern first rest.isEmpty
              pattern).groupAfter counted)
            middle with
        ⟨behind, others, hOthers, hSpells⟩
      refine
        ⟨behind, items ++ others, ?_, fun start => ?_⟩
      · rw [ofPatternsFrom_cons]
        exact
          isReadAs_append hItems (head?_source _ _ _) hOthers
      rw [List.map_append, Ways.sequence_append]
      simp only [Ways.leads_andThen_iff]
      constructor
      · rintro ⟨place, between, hFront, hBehind⟩
        rcases (hPasses _ _).mp hFront with ⟨caught, hPass⟩
        rcases (hSpells _).mp ⟨place, hBehind⟩ with
          ⟨texts, hTexts⟩
        exact ⟨caught :: texts, .cons hPass hTexts⟩
      · rintro ⟨texts, hTexts⟩
        cases hTexts with
        | cons hPass hLater =>
            rcases (hSpells _).mpr ⟨_, hLater⟩ with
              ⟨place, hBehind⟩
            exact
              ⟨place, _, (hPasses _ _).mpr ⟨_, hPass⟩,
                hBehind⟩

end ScanSource

namespace ScanVariant

/-
  A path whose constraints are closed binds something for
  the requests that its edges spell, and for no others.
-/
theorem isSome_bindings?_iff
    (hE : E.IsLeftmostFirst)
    {path : Text}
    {variant : ScanVariant E}
    (hCompile : compile path = .ok variant)
    {patterns : List (Pattern E)}
    (hParse : Pattern.parsePath path = .ok patterns)
    (hClosed : ∀ pattern ∈ patterns, pattern.IsClosed)
    (request : Text) :
    (variant.bindings? request).isSome = true ↔
      ∃ texts,
        Edge.Spells []
          (Step.edges (Pattern.steps true patterns))
          (Place.start request) texts := by
  rcases exists_of_compile hCompile with
    ⟨own, hOwn, hProgram, -⟩
  rw [hParse] at hOwn
  cases hOwn
  rcases hE with ⟨preferred, hPreferred, hEngine⟩
  rcases hEngine hProgram with ⟨e, hRead, -, hFinds⟩
  rcases
      ScanSource.exists_isReadAs_of_isClosed hPreferred hClosed
        true 1 0 with
    ⟨behind, items, hItems, hSpells⟩
  cases
    eq_sequence_of_parse (ScanSource.head?_source _ _ _) hItems
      hRead
  rw [bindings?, Option.isSome_map]
  exact
    (Expr.isSome_found_iff hPreferred
      (hFinds request)).trans (hSpells _)

end ScanVariant

end RequestRouter
