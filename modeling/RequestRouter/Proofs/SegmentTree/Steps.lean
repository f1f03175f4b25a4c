import RequestRouter.Proofs.Route.Plain
import RequestRouter.Proofs.SegmentTree.Matching

/-
  The steps of a route and its patterns.

  Steps follow the patterns one by one. The edges of a route
  without constraints fit the parts of a path where its
  patterns take them, and what its names bind is what is
  caught at the captures on the way.

  Key definitions include:
    * `Pattern.edge`
    * `Step.bound`
    * `Step.named`

  Main statements:
    * `Step.exists_of_ofPatternsFrom_cons`
    * `Step.accepts_iff_fits`
    * `Step.exists_caught`
    * `Step.bound_eq`
-/

------------------------------------------------------------
-- Steps and Patterns
------------------------------------------------------------

namespace RequestRouter

variable {E : Regex.Engine}

namespace Pattern

/- The edge of a pattern, by its place in the path. -/
def edge
    (first last : Bool) : Pattern E → Edge
  | .literal text => .literal text
  | .param _ => .segment
  | .constrained _ constraint =>
      .capture constraint.source constraint.groups
  | .wildcard => Step.wildcardEdge first last

/- Behind the first pattern none stands for a whole path. -/
theorem edge_ne_any
    (pattern : Pattern E)
    (last : Bool) :
    pattern.edge false last ≠ .any := by
  cases pattern with
  | literal | param | constrained =>
      simp [edge, Edge.segment]
  | wildcard =>
      cases last <;>
        simp [edge, Step.wildcardEdge, Edge.segment]

end Pattern

namespace Step

/- The first step is that of the first pattern. -/
theorem exists_of_ofPatternsFrom_cons
    {path : Text}
    {first : Bool}
    {pattern : Pattern E}
    {rest : List (Pattern E)}
    {steps : List Step}
    (hSteps :
      ofPatternsFrom path first (pattern :: rest) =
        .ok steps) :
    ∃ later,
      ofPatternsFrom path false rest = .ok later ∧
        steps =
          ⟨pattern.edge first rest.isEmpty, pattern.name?⟩ ::
            later := by
  cases pattern with
  | literal | param | wildcard =>
      rcases (Sequence.bind_eq_ok_iff _ _ _).mp hSteps with
        ⟨edge, hEdge, hRest⟩
      rcases (Sequence.bind_eq_ok_iff _ _ _).mp hRest with
        ⟨later, hLater, hResult⟩
      cases hEdge
      cases hResult
      exact ⟨later, hLater, rfl⟩
  | constrained name constraint =>
      unfold ofPatternsFrom at hSteps
      dsimp only at hSteps
      split at hSteps
      case isTrue => cases hSteps
      case isFalse =>
          rcases (Sequence.bind_eq_ok_iff _ _ _).mp hSteps with
            ⟨edge, hEdge, hRest⟩
          rcases (Sequence.bind_eq_ok_iff _ _ _).mp hRest with
            ⟨later, hLater, hResult⟩
          cases hEdge
          cases hResult
          exact ⟨later, hLater, rfl⟩

/- No patterns give no steps. -/
theorem eq_nil_of_ofPatternsFrom_nil
    {path : Text}
    {first : Bool}
    {steps : List Step}
    (hSteps :
      ofPatternsFrom path first ([] : List (Pattern E)) =
        .ok steps) :
    steps = [] :=
  (Except.ok.inj hSteps).symm

/- Only a wildcard at the end is open-ended. -/
theorem openLast_of_ofPatternsFrom
    {path : Text}
    {first : Bool}
    {patterns : List (Pattern E)}
    {steps : List Step}
    (hSteps :
      ofPatternsFrom path first patterns = .ok steps) :
    OpenLast steps := by
  induction patterns generalizing first steps with
  | nil =>
      rw [eq_nil_of_ofPatternsFrom_nil hSteps]
      exact trivial
  | cons pattern rest ih =>
      rcases exists_of_ofPatternsFrom_cons hSteps with
        ⟨later, hLater, rfl⟩
      refine ⟨?_, ih hLater⟩
      intro hOpen
      cases pattern with
      | literal | param | constrained =>
          simp [Pattern.edge, Edge.segment,
            Edge.isOpenEnded] at hOpen
      | wildcard =>
          cases rest with
          | nil => exact eq_nil_of_ofPatternsFrom_nil hLater
          | cons second more =>
              simp [Pattern.edge, wildcardEdge, Edge.segment,
                Edge.isOpenEnded] at hOpen

/- A step with a name is a capture. -/
theorem isCapture_of_named
    {path : Text}
    {first : Bool}
    {patterns : List (Pattern E)}
    {steps : List Step}
    (hSteps :
      ofPatternsFrom path first patterns = .ok steps)
    {step : Step}
    (hStep : step ∈ steps)
    (hNamed : step.name ≠ none) :
    step.edge.isCapture = true := by
  induction patterns generalizing first steps with
  | nil =>
      rw [eq_nil_of_ofPatternsFrom_nil hSteps] at hStep
      cases hStep
  | cons pattern rest ih =>
      rcases exists_of_ofPatternsFrom_cons hSteps with
        ⟨later, hLater, rfl⟩
      rcases List.mem_cons.mp hStep with rfl | hStep
      · cases pattern with
        | literal | wildcard =>
            exact absurd rfl hNamed
        | param | constrained => rfl
      · exact ih hLater hStep

/- Where all steps are literal they are the labels. -/
theorem edges_eq_of_allLiteral
    {path : Text}
    {first : Bool}
    {patterns : List (Pattern E)}
    {steps : List Step}
    (hSteps :
      ofPatternsFrom path first patterns = .ok steps)
    (hLiteral : allLiteral steps = true) :
    edges steps =
      (patterns.map Pattern.label).map Edge.literal := by
  induction patterns generalizing first steps with
  | nil =>
      rw [eq_nil_of_ofPatternsFrom_nil hSteps]
      rfl
  | cons pattern rest ih =>
      rcases exists_of_ofPatternsFrom_cons hSteps with
        ⟨later, hLater, rfl⟩
      simp only [allLiteral, List.all_cons,
        Bool.and_eq_true] at hLiteral
      cases pattern with
      | literal text =>
          have hRest := ih hLater hLiteral.2
          simpa [edges, Pattern.edge, Pattern.label]
            using hRest
      | param | constrained =>
          simp [Pattern.edge, Edge.segment,
            Edge.isLiteral] at hLiteral
      | wildcard =>
          cases first <;> cases rest <;>
            simp [Pattern.edge, wildcardEdge, Edge.segment,
              Edge.isLiteral] at hLiteral

end Step

end RequestRouter

------------------------------------------------------------
-- Plain Steps
------------------------------------------------------------

namespace RequestRouter

variable {E : Regex.Engine}

namespace Step

/- Behind the first step, plain patterns have plain edges. -/
theorem isPlain_of_ofPatternsFrom
    {path : Text}
    {patterns : List (Pattern E)}
    {steps : List Step}
    (hSteps :
      ofPatternsFrom path false patterns = .ok steps)
    (hPlain : ∀ pattern ∈ patterns, pattern.IsPlain) :
    ∀ edge ∈ edges steps, edge.IsPlain := by
  induction patterns generalizing steps with
  | nil =>
      rw [eq_nil_of_ofPatternsFrom_nil hSteps]
      simp [edges]
  | cons pattern rest ih =>
      rcases exists_of_ofPatternsFrom_cons hSteps with
        ⟨later, hLater, rfl⟩
      have hRest :=
        ih hLater fun other hOther =>
          hPlain other (List.mem_cons_of_mem _ hOther)
      have hFirst := hPlain pattern (by simp)
      intro edge hEdge
      rcases List.mem_cons.mp hEdge with rfl | hEdge
      · cases pattern with
        | literal text => exact hFirst
        | param => exact ⟨rfl, rfl⟩
        | constrained => exact hFirst.elim
        | wildcard =>
            cases rest with
            | nil => exact trivial
            | cons => exact ⟨rfl, rfl⟩
      · exact hRest edge hEdge

/- Plain patterns have the edges of a plain route. -/
theorem arePlain_of_ofPatterns
    {path : Text}
    {patterns : List (Pattern E)}
    {steps : List Step}
    (hSteps : ofPatterns path patterns = .ok steps)
    (hSome : patterns ≠ [])
    (hPlain : ∀ pattern ∈ patterns, pattern.IsPlain) :
    Edge.ArePlain (edges steps) := by
  cases patterns with
  | nil => exact absurd rfl hSome
  | cons pattern rest =>
      rcases exists_of_ofPatternsFrom_cons hSteps with
        ⟨later, hLater, rfl⟩
      have hRest :=
        isPlain_of_ofPatternsFrom hLater fun other hOther =>
          hPlain other (List.mem_cons_of_mem _ hOther)
      have hFirst := hPlain pattern (by simp)
      cases pattern with
      | constrained => exact hFirst.elim
      | literal text =>
          refine Or.inr ⟨by simp [edges], ?_, ?_⟩
          · simp [edges, Pattern.edge]
          · intro edge hEdge
            rcases List.mem_cons.mp hEdge with rfl | hEdge
            · exact hFirst
            · exact hRest edge hEdge
      | param name =>
          refine Or.inr ⟨by simp [edges], ?_, ?_⟩
          · simp [edges, Pattern.edge, Edge.segment]
          · intro edge hEdge
            rcases List.mem_cons.mp hEdge with rfl | hEdge
            · exact ⟨rfl, rfl⟩
            · exact hRest edge hEdge
      | wildcard =>
          cases rest with
          | nil =>
              rw [eq_nil_of_ofPatternsFrom_nil hLater]
              exact Or.inl rfl
          | cons second more =>
              refine Or.inr ⟨by simp [edges], ?_, ?_⟩
              · simp [edges, Pattern.edge, wildcardEdge,
                  Edge.segment]
              · intro edge hEdge
                rcases List.mem_cons.mp hEdge with rfl | hEdge
                · exact ⟨rfl, rfl⟩
                · exact hRest edge hEdge

/-
  Plain patterns take the parts that their edges fit. Only a
  wildcard that stands alone needs parts to fit.
-/
theorem accepts_iff_fits
    {path : Text}
    {first : Bool}
    {patterns : List (Pattern E)}
    {steps : List Step}
    (hSteps :
      ofPatternsFrom path first patterns = .ok steps)
    (hPlain : ∀ pattern ∈ patterns, pattern.IsPlain)
    {parts : List Text}
    (hParts : first = true → parts ≠ []) :
    Pattern.Accepts patterns parts ↔
      Edge.Fits (edges steps) parts := by
  induction patterns generalizing first steps parts with
  | nil =>
      rw [eq_nil_of_ofPatternsFrom_nil hSteps]
      simp [Pattern.Accepts, edges, Edge.Fits]
  | cons pattern rest ih =>
      rcases exists_of_ofPatternsFrom_cons hSteps with
        ⟨later, hLater, rfl⟩
      have hRest :
          ∀ others : List Text,
            Pattern.Accepts rest others ↔
              Edge.Fits (edges later) others :=
        fun others =>
          ih hLater
            (fun other hOther =>
              hPlain other (List.mem_cons_of_mem _ hOther))
            (by simp)
      have hFirst := hPlain pattern (by simp)
      cases pattern with
      | constrained => exact hFirst.elim
      | literal text =>
          cases parts with
          | nil =>
              simp [Pattern.Accepts, edges, Pattern.edge,
                Edge.Fits]
          | cons part others =>
              simp only [edges, List.map_cons, Pattern.edge,
                Edge.Fits, Pattern.Accepts,
                Pattern.takes_literal_cons_iff]
              rw [exists_and_left]
              exact and_congr_right fun _ => hRest others
      | param name =>
          cases parts with
          | nil =>
              simp [Pattern.Accepts, edges, Pattern.edge,
                Edge.segment, Edge.Fits]
          | cons part others =>
              simp only [edges, List.map_cons, Pattern.edge,
                Edge.segment, Edge.Fits, Pattern.Accepts,
                Pattern.takes_param_cons_iff]
              rw [exists_and_left]
              refine and_congr_right fun _ => ?_
              refine Iff.trans ?_ (hRest others)
              constructor
              · rintro ⟨_, more, hMore, -⟩
                exact ⟨more, hMore⟩
              · rintro ⟨more, hMore⟩
                exact ⟨_, more, hMore, rfl⟩
      | wildcard =>
          cases rest with
          | nil =>
              have hEnd : Pattern.Accepts
                  ([.wildcard] : List (Pattern E)) parts :=
                ⟨[], .remainder parts⟩
              cases first with
              | false =>
                  exact iff_of_true hEnd trivial
              | true =>
                  exact iff_of_true hEnd (hParts rfl)
          | cons second more =>
              cases parts with
              | nil =>
                  simp [Pattern.Accepts, edges, Pattern.edge,
                    wildcardEdge, Edge.segment, Edge.Fits]
              | cons part others =>
                  simp only [edges, List.map_cons,
                    Pattern.edge, wildcardEdge,
                    List.isEmpty_cons, Bool.not_false,
                    if_true, Edge.segment, Edge.Fits,
                    Pattern.Accepts,
                    Pattern.takes_wildcard_cons_iff
                      (List.cons_ne_nil _ _)]
                  rw [exists_and_left]
                  exact and_congr_right fun _ => hRest others

end Step

end RequestRouter

------------------------------------------------------------
-- Bound and Caught Parts
------------------------------------------------------------

namespace RequestRouter

variable {E : Regex.Engine}

/- The first pair of a zip gives a value or is skipped. -/
theorem filterMap_zip_cons
    {α β γ : Type}
    (f : α → β → Option γ)
    (item : α)
    (items : List α)
    (others : List β) :
    ((item :: items).zip others).filterMap
        (fun pair => f pair.1 pair.2) =
      (others.head?.bind (f item)).toList ++
        (items.zip others.tail).filterMap
          fun pair => f pair.1 pair.2 := by
  cases others with
  | nil => simp
  | cons other others =>
      cases hFirst : f item other <;> simp [hFirst]

/-
  Zipping a list with two others gives the same values if
  each member has none, or has partners with the same value.
-/
theorem filterMap_zip_congr
    {α β β' γ : Type}
    {f : α → β → Option γ}
    {g : α → β' → Option γ}
    {items : List α}
    {first : List β}
    {second : List β'}
    (hEach :
      ∀ (index : Nat) (item : α),
        items[index]? = some item →
          (∀ b, f item b = none) ∧ (∀ b, g item b = none) ∨
            ∃ b b', first[index]? = some b ∧
              second[index]? = some b' ∧
              f item b = g item b') :
    (items.zip first).filterMap
        (fun pair => f pair.1 pair.2) =
      (items.zip second).filterMap
        fun pair => g pair.1 pair.2 := by
  induction items generalizing first second with
  | nil => rfl
  | cons item items ih =>
      have hRest :=
        @ih first.tail second.tail fun index later hLater => by
          simpa using hEach (index + 1) later hLater
      rw [filterMap_zip_cons, filterMap_zip_cons, hRest]
      congr 2
      rcases hEach 0 item rfl with
        ⟨hFirst, hSecond⟩ | ⟨b, b', hFirst, hSecond, hSame⟩
      · cases first.head? <;> cases second.head? <;>
          simp [hFirst, hSecond]
      · rw [List.head?_eq_getElem?, List.head?_eq_getElem?,
          hFirst, hSecond]
        exact hSame

namespace Edge

/- A capture is not open-ended. -/
theorem isOpenEnded_of_isCapture
    {edge : Edge}
    (hCapture : edge.isCapture = true) :
    edge.isOpenEnded = false := by
  cases edge with
  | capture => rfl
  | literal | tail | any => cases hCapture

/- What covers edges has the same edges up to its wildcard. -/
theorem Covers.getElem?_eq
    {wider edges : List Edge}
    (hCovers : Covers wider edges)
    {index : Nat}
    {edge : Edge}
    (hEdge : wider[index]? = some edge)
    (hClosed : edge.isOpenEnded = false) :
    edges[index]? = some edge := by
  rcases hCovers with rfl | ⟨front, last, rfl, hLast, hFront⟩
  · exact hEdge
  · rcases hFront with ⟨others, rfl⟩
    by_cases hIndex : index < front.length
    · rw [List.getElem?_append_left hIndex] at hEdge ⊢
      exact hEdge
    · rw [List.getElem?_append_right (by omega)] at hEdge
      rcases List.getElem?_eq_some_iff.mp hEdge with
        ⟨hBound, hLastEdge⟩
      have hOpen : edge.isOpenEnded = true := by
        simpa [← hLastEdge] using hLast
      simp [hOpen] at hClosed

end Edge

namespace Step

/- The values at the nodes of named steps. -/
def bound
    (value : Nat → Option Text)
    (steps : List Step)
    (trail : List Nat) : List (Text × Text) :=
  (steps.zip trail).filterMap fun (step, node) =>
    step.name.bind fun name => (value node).map (name, ·)

/- The parts at the places of named steps. -/
def named
    (steps : List Step)
    (parts : List Text) : List (Text × Text) :=
  (steps.zip parts).filterMap fun (step, part) =>
    step.name.map (·, part)

/- Steps have the names of the patterns. -/
theorem named_eq_bound
    {path : Text}
    {first : Bool}
    {patterns : List (Pattern E)}
    {steps : List Step}
    (hSteps :
      ofPatternsFrom path first patterns = .ok steps)
    (parts : List Text) :
    named steps parts = Pattern.bound patterns parts := by
  induction patterns generalizing first steps parts with
  | nil =>
      rw [eq_nil_of_ofPatternsFrom_nil hSteps]
      rfl
  | cons pattern rest ih =>
      rcases exists_of_ofPatternsFrom_cons hSteps with
        ⟨later, hLater, rfl⟩
      cases parts with
      | nil => rfl
      | cons part parts =>
          have hRest := ih hLater parts
          rw [named, Pattern.bound] at hRest ⊢
          simp only [List.zip_cons_cons,
            List.filterMap_cons, hRest]

/-
  At the place of a capture, the part of a path that fits is
  caught at the node on the trail.
-/
theorem exists_caught
    {steps : List Step}
    (hOpen : OpenLast steps)
    {trail : List Nat}
    (hNodup : trail.Nodup)
    (hLength : trail.length = steps.length)
    {parts : List Text}
    (hFits : Edge.Fits (edges steps) parts)
    {index : Nat}
    {edge : Edge}
    (hEdge : (edges steps)[index]? = some edge)
    (hCapture : edge.isCapture = true) :
    ∃ node part,
      trail[index]? = some node ∧
        parts[index]? = some part ∧
        (Edge.caught (edges steps) trail parts).lookup node =
          some part := by
  induction steps generalizing trail parts index with
  | nil => simp [edges] at hEdge
  | cons step rest ih =>
      rcases step with ⟨own, name⟩
      cases trail with
      | nil => simp at hLength
      | cons first trail =>
          rcases List.nodup_cons.mp hNodup with
            ⟨hFirst, hNodup⟩
          have hRest :
              ∀ {others : List Text} {place : Nat},
                Edge.Fits (edges rest) others →
                (edges rest)[place]? = some edge →
                  ∃ node part,
                    trail[place]? = some node ∧
                      others[place]? = some part ∧
                      (Edge.caught (edges rest) trail
                        others).lookup node = some part :=
            fun hFits hEdge =>
              ih hOpen.2 hNodup (by simpa using hLength) hFits
                hEdge
          cases own with
          | tail | any =>
              -- An open end is last, so there is no capture.
              have hLast : rest = [] := hOpen.1 rfl
              subst hLast
              cases index with
              | zero =>
                  have hSame := Option.some.inj hEdge
                  rw [← hSame] at hCapture
                  cases hCapture
              | succ index => simp [edges] at hEdge
          | literal text =>
              cases parts with
              | nil => exact hFits.elim
              | cons part parts =>
                  cases index with
                  | zero =>
                      have hSame := Option.some.inj hEdge
                      rw [← hSame] at hCapture
                      cases hCapture
                  | succ index => exact hRest hFits.2 hEdge
          | capture source groups =>
              cases parts with
              | nil => exact hFits.elim
              | cons part parts =>
                  cases index with
                  | zero =>
                      exact
                        ⟨first, part, rfl, rfl,
                          List.lookup_cons_self⟩
                  | succ index =>
                      rcases hRest hFits.2 hEdge with
                        ⟨node, other, hNode, hOther,
                          hCaught⟩
                      refine
                        ⟨node, other, hNode, hOther, ?_⟩
                      have hApart : node ≠ first := by
                        rintro rfl
                        exact
                          hFirst
                            (List.mem_of_getElem? hNode)
                      simpa [edges, Edge.caught,
                        List.lookup_cons,
                        beq_false_of_ne hApart] using hCaught

/-
  A route that covers a leaf binds at the leaf's nodes the
  parts at the places of its names.
-/
theorem bound_eq
    {leaf : List Step}
    (hOpen : OpenLast leaf)
    {trail : List Nat}
    (hNodup : trail.Nodup)
    (hLength : trail.length = leaf.length)
    {parts : List Text}
    (hFits : Edge.Fits (edges leaf) parts)
    {path : Text}
    {patterns : List (Pattern E)}
    {steps : List Step}
    (hSteps : ofPatterns path patterns = .ok steps)
    (hCovers : Edge.Covers (edges steps) (edges leaf)) :
    bound
        (fun node =>
          (Edge.caught (edges leaf) trail parts).lookup node)
        steps trail =
      named steps parts := by
  refine
    filterMap_zip_congr
      (f := fun (step : Step) node =>
        step.name.bind fun name =>
          ((Edge.caught (edges leaf) trail
            parts).lookup node).map (name, ·))
      (g := fun (step : Step) part =>
        step.name.map (·, part)) ?_
  intro index step hStep
  cases hName : step.name with
  | none => exact Or.inl ⟨fun _ => rfl, fun _ => rfl⟩
  | some name =>
      have hCapture :=
        isCapture_of_named hSteps
          (List.mem_of_getElem? hStep) (by simp [hName])
      have hEdge : (edges steps)[index]? = some step.edge := by
        simp [edges, hStep]
      rcases
          exists_caught hOpen hNodup hLength hFits
            (hCovers.getElem?_eq hEdge
              (Edge.isOpenEnded_of_isCapture hCapture))
            hCapture with
        ⟨node, part, hNode, hPart, hCaught⟩
      exact
        Or.inr
          ⟨node, part, hNode, hPart, by simp [hCaught]⟩

end Step

end RequestRouter
