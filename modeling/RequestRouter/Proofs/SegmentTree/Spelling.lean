import RequestRouter.Proofs.Regex.Leading
import RequestRouter.Proofs.SegmentTree.Steps

/-
  How the edges on the way to a leaf spell a path.

  An edge gets from one place to another, and what a capture
  catches is said by the source of its constraint alone. A
  source that is closed, with as many groups as are counted
  for it, does the same behind any number of groups, and
  records no other groups than its own.

  Key definitions include:
    * `Edge.IsCounted`
    * `Edge.Passes`
    * `Edge.Spells`
    * `Step.spelled`

  Main statements:
    * `Edge.isReadWell_of_isCounted`
    * `Edge.exists_passes_of_mem_ways`
    * `Edge.leads_ways_of_passes`
    * `Edge.spells_path_iff`
    * `Step.bound_caughtAt`
-/

------------------------------------------------------------
-- Spelling
------------------------------------------------------------

namespace RequestRouter

open Regex

namespace Edge

/- The ways of a closed source that stands on its own. -/
def sourceWays
    (source : Text) : Ways :=
  match closedBody? source with
  | some (body, _) => body.ways
  | none => fun _ => []

/- Nothing, or a slash and the rest of the line behind it. -/
def tailWays : Ways :=
  Ways.unrecorded
    (Ways.repetition 0 (some 1) true
      (Ways.andThen (Ways.pass (· == '/')) lineWays))

/-
  Whether a capture has a closed source with as many groups
  as are counted for it.
-/
def IsCounted : Edge → Prop
  | .capture source groups =>
      (closedBody? source).map Prod.snd = some groups
  | _ => True

instance : DecidablePred IsCounted
  | .capture _ _ => inferInstanceAs (Decidable (_ = _))
  | .literal _ => inferInstanceAs (Decidable True)
  | .tail => inferInstanceAs (Decidable True)
  | .any => inferInstanceAs (Decidable True)

/- The source of a counted capture has a body. -/
theorem IsCounted.exists_body
    {source : Text}
    {groups : Nat}
    (hCounted : (capture source groups).IsCounted) :
    ∃ body, closedBody? source = some (body, groups) := by
  rcases Option.map_eq_some_iff.mp hCounted with
    ⟨⟨body, own⟩, hClosed, rfl⟩
  exact ⟨body, hClosed⟩

/-
  Whether an edge gets from one place to another, and what
  it catches on the way.
-/
inductive Passes
    (separator : Text)
    (start last : Place) : Edge → Option Text → Prop where
  | literal {text}
      (hText :
        (Ways.text (separator ++ text)).Leads start last) :
      Passes separator start last (.literal text) none
  | capture {source groups middle}
      (hFront : (Ways.text separator).Leads start middle)
      (hSource : (sourceWays source).Leads middle last) :
      Passes separator start last (.capture source groups)
        (some (middle.textTo last))
  | tail
      (hTail : tailWays.Leads start last) :
      Passes separator start last .tail none
  | any
      (hLine : lineWays.Leads start last) :
      Passes separator start last .any none

/-
  Whether edges spell all that follows a place, with what is
  caught by each of them.
-/
inductive Spells :
    Text → List Edge → Place → List (Option Text) →
      Prop where
  | nil {separator place}
      (hEnd : place.rest = []) :
      Spells separator [] place []
  | cons {separator start middle edge edges caught texts}
      (hPass : edge.Passes separator start middle caught)
      (hRest : Spells ['/'] edges middle texts) :
      Spells separator (edge :: edges) start
        (caught :: texts)

/- What is caught, by the nodes behind the edges. -/
def caughtAt
    (trail : List Nat)
    (texts : List (Option Text)) : List (Nat × Text) :=
  (trail.zip texts).filterMap fun entry =>
    entry.2.map (entry.1, ·)

/- What the first edge catches comes first. -/
theorem caughtAt_cons
    (node : Nat)
    (trail : List Nat)
    (caught : Option Text)
    (texts : List (Option Text)) :
    caughtAt (node :: trail) (caught :: texts) =
      caught.toList.map (node, ·) ++
        caughtAt trail texts := by
  cases caught <;> simp [caughtAt]

end Edge

end RequestRouter

------------------------------------------------------------
-- Ways of Counted Edges
------------------------------------------------------------

namespace RequestRouter

open Regex

variable {preferred : Expr → Ways}

namespace Edge

/- The ways of closed sources behind a number of groups. -/
def closedWays
    (preferred : Expr → Ways)
    (source : Text)
    (count : Nat) : Ways :=
  match closedBody? source with
  | some (body, _) => preferred (body.shift count)
  | none => fun _ => []

/- Counted edges are read as they are meant. -/
theorem isReadWell_of_isCounted
    {edge : Edge}
    (hCounted : edge.IsCounted) :
    edge.IsReadWell preferred (closedWays preferred) := by
  cases edge with
  | literal | tail | any => exact trivial
  | capture source groups =>
      rcases hCounted.exists_body with ⟨body, hClosed⟩
      intro first
      refine
        ⟨body.shift (first + 1),
          isReadAs_closed hClosed first, ?_⟩
      simp [closedWays, hClosed]

/- They lead to where the source does on its own. -/
theorem leadAlike_closedWays
    (hPreferred : IsPreference preferred)
    (source : Text)
    (count : Nat) :
    (closedWays preferred source count).LeadAlike
      (sourceWays source) := by
  unfold closedWays sourceWays
  cases closedBody? source with
  | none => exact .refl _
  | some closed => exact hPreferred.leadAlike_shift count _

/- They record groups behind the first ones only. -/
theorem bounds_of_mem_closedWays
    (hPreferred : IsPreference preferred)
    {source : Text}
    {groups : Nat}
    (hCounted : (capture source groups).IsCounted)
    {count : Nat}
    {start : Place}
    {way : Way}
    (hWay : way ∈ closedWays preferred source count start)
    {entry : Nat × Text}
    (hEntry : entry ∈ way.record) :
    count < entry.1 ∧ entry.1 ≤ count + groups := by
  rcases hCounted.exists_body with ⟨body, hClosed⟩
  rw [closedWays, hClosed] at hWay
  have hGroup := hPreferred.mem_outerGroups _ hWay hEntry
  rw [Expr.outerGroups_shift] at hGroup
  rcases List.mem_map.mp hGroup with ⟨group, hOwn, hSame⟩
  have hBounds := bounds_of_closedBody hClosed group hOwn
  omega

/- A text records nothing. -/
theorem record_of_mem_text
    {text : Text}
    {start : Place}
    {way : Way}
    (hWay : way ∈ Ways.text text start) :
    way.record = [] := by
  induction text generalizing start way with
  | nil =>
      rw [Ways.text, Ways.stay, List.mem_singleton] at hWay
      rw [hWay]
  | cons c text ih =>
      rcases List.mem_flatMap.mp hWay with
        ⟨front, hFront, hLater⟩
      rcases List.mem_map.mp hLater with ⟨later, hRest, rfl⟩
      simp [Ways.record_of_pass hFront, ih hRest]

/-
  Each way of a counted edge passes it. If the edge catches
  something, its number comes first in the record, and those
  of groups inside its source follow.
-/
theorem exists_passes_of_mem_ways
    (hPreferred : IsPreference preferred)
    {edge : Edge}
    (hCounted : edge.IsCounted)
    {separator : Text}
    {group : Nat}
    {start : Place}
    {way : Way}
    (hWay :
      way ∈
        edge.ways (closedWays preferred) separator group
          start) :
    ∃ caught inner,
      edge.Passes separator start way.place caught ∧
        way.record = caught.toList.map (group, ·) ++ inner ∧
        ∀ entry ∈ inner,
          group < entry.1 ∧
            entry.1 < edge.groupAfter group := by
  cases edge with
  | literal text =>
      refine
        ⟨none, [], .literal ⟨way, hWay, rfl⟩, ?_, by simp⟩
      rw [record_of_mem_text hWay]
      rfl
  | tail =>
      refine ⟨none, [], .tail ⟨way, hWay, rfl⟩, ?_, by simp⟩
      rcases List.mem_map.mp hWay with ⟨inner, -, rfl⟩
      rfl
  | any =>
      refine ⟨none, [], .any ⟨way, hWay, rfl⟩, ?_, by simp⟩
      rcases List.mem_map.mp hWay with ⟨inner, -, rfl⟩
      rfl
  | capture source groups =>
      rcases List.mem_flatMap.mp hWay with
        ⟨front, hFront, hLater⟩
      rcases List.mem_map.mp hLater with ⟨later, hOwn, rfl⟩
      rcases List.mem_map.mp hOwn with ⟨inner, hInner, rfl⟩
      have hSource :
          (sourceWays source).Leads front.place
            inner.place :=
        (leadAlike_closedWays hPreferred source group _
          _).mp ⟨inner, hInner, rfl⟩
      refine
        ⟨_, inner.record,
          .capture ⟨front, hFront, rfl⟩ hSource, ?_, ?_⟩
      · rw [record_of_mem_text hFront]
        rfl
      · intro entry hEntry
        have hBounds :=
          bounds_of_mem_closedWays hPreferred hCounted hInner
            hEntry
        simp only [groupAfter]
        omega

/- Where an edge passes, one of its ways leads. -/
theorem leads_ways_of_passes
    (hPreferred : IsPreference preferred)
    {edge : Edge}
    {separator : Text}
    {start last : Place}
    {caught : Option Text}
    (hPass : edge.Passes separator start last caught)
    (group : Nat) :
    (edge.ways (closedWays preferred) separator
      group).Leads start last := by
  cases hPass with
  | literal hText => exact hText
  | tail hTail => exact hTail
  | any hLine => exact hLine
  | @capture source groups middle hFront hSource =>
      rw [ways, Ways.leads_andThen_iff]
      refine ⟨middle, hFront, ?_⟩
      rw [Ways.leads_capture_iff]
      exact
        (leadAlike_closedWays hPreferred source group _
          _).mpr hSource

/- Only captures catch something. -/
theorem Passes.ownGroup_eq
    {edge : Edge}
    {separator : Text}
    {start last : Place}
    {caught : Option Text}
    (hPass : edge.Passes separator start last caught)
    (id group : Nat) :
    edge.ownGroup id group =
      caught.toList.map fun _ => (id, group) := by
  cases hPass <;> rfl

end Edge

end RequestRouter

------------------------------------------------------------
-- What Edges Catch
------------------------------------------------------------

namespace RequestRouter

open Regex

namespace Edge

variable {separator : Text}
variable {edges : List Edge}
variable {start : Place}
variable {texts : List (Option Text)}

/- Something or nothing is caught by each edge. -/
theorem Spells.length_texts
    (hSpells : Spells separator edges start texts) :
    texts.length = edges.length := by
  induction hSpells with
  | nil => rfl
  | cons _ _ ih => simp [ih]

/- A capture catches something. -/
theorem Spells.exists_text
    (hSpells : Spells separator edges start texts)
    {index : Nat}
    {edge : Edge}
    (hEdge : edges[index]? = some edge)
    (hCapture : edge.isCapture = true) :
    ∃ text, texts[index]? = some (some text) := by
  induction hSpells generalizing index with
  | nil => simp at hEdge
  | @cons _ _ _ first _ caught _ hPass _ ih =>
      cases index with
      | succ index => exact ih hEdge
      | zero =>
          cases hEdge
          cases hPass with
          | capture => exact ⟨_, rfl⟩
          | literal | tail | any => cases hCapture

/- Literal edges catch nothing. -/
theorem Spells.eq_none_of_literals
    (hSpells : Spells separator edges start texts)
    (hLiterals : ∀ edge ∈ edges, edge.isLiteral = true) :
    ∀ text ∈ texts, text = none := by
  induction hSpells with
  | nil => simp
  | @cons _ _ _ first _ caught _ hPass _ ih =>
      have hFirst := hLiterals first (by simp)
      refine List.forall_mem_cons.mpr ⟨?_, ?_⟩
      · cases hPass with
        | literal => rfl
        | capture | tail | any => cases hFirst
      · exact
          ih fun edge hEdge =>
            hLiterals edge (List.mem_cons_of_mem _ hEdge)

/- What is caught stands at the node behind its edge. -/
theorem lookup_caughtAt
    {trail : List Nat}
    (hNodup : trail.Nodup)
    {index node : Nat}
    (hNode : trail[index]? = some node)
    {text : Text}
    (hText : texts[index]? = some (some text)) :
    (caughtAt trail texts).lookup node = some text := by
  induction trail generalizing texts index with
  | nil => simp at hNode
  | cons first trail ih =>
      rcases List.nodup_cons.mp hNodup with
        ⟨hFirst, hRest⟩
      cases texts with
      | nil => simp at hText
      | cons caught texts =>
          cases index with
          | zero =>
              cases hNode
              cases hText
              simp [caughtAt]
          | succ index =>
              have hLater :
                  (caughtAt trail texts).lookup node =
                    some text :=
                ih hRest hNode hText
              have hApart : node ≠ first := by
                intro hSame
                exact
                  hFirst (hSame ▸ List.mem_of_getElem? hNode)
              cases caught with
              | none => exact hLater
              | some other =>
                  simpa [caughtAt, List.lookup_cons,
                    beq_false_of_ne hApart] using hLater

/- A literal edge passes over its text, and catches nothing. -/
theorem spells_literal_cons_iff
    (word : Text)
    (edges : List Edge)
    (start : Place)
    (texts : List (Option Text)) :
    Spells separator (literal word :: edges) start texts ↔
      ∃ rest others,
        start.rest = separator ++ word ++ rest ∧
          texts = none :: others ∧
          Spells ['/'] edges
            (Place.behind start.before (separator ++ word)
              rest) others := by
  constructor
  · intro hSpells
    cases hSpells with
    | cons hPass hRest =>
        cases hPass with
        | literal hText =>
            rcases (Ways.leads_text_iff _ _ _).mp hText with
              ⟨rest, hStart, rfl⟩
            exact ⟨rest, _, hStart, rfl, hRest⟩
  · intro hSpells
    rcases hSpells with ⟨rest, others, hStart, rfl, hRest⟩
    refine .cons (.literal ?_) hRest
    exact (Ways.leads_text_iff _ _ _).mpr ⟨rest, hStart, rfl⟩

/- Literal edges behind slashes spell their texts only. -/
theorem spells_literals_iff
    (words : List Text)
    (start : Place)
    (texts : List (Option Text)) :
    Spells ['/'] (words.map literal) start texts ↔
      start.rest = Path.behindSlashes words ∧
        texts = words.map fun _ => none := by
  induction words generalizing start texts with
  | nil =>
      constructor
      · intro hSpells
        cases hSpells with
        | nil hEnd => exact ⟨hEnd, rfl⟩
      · intro hBoth
        rcases hBoth with ⟨hEnd, rfl⟩
        exact .nil hEnd
  | cons word words ih =>
      rw [List.map_cons, spells_literal_cons_iff]
      simp only [ih, Place.behind]
      constructor
      · intro hSpells
        rcases hSpells with
          ⟨rest, others, hStart, rfl, rfl, rfl⟩
        rw [Path.behindSlashes_cons]
        exact ⟨by simpa using hStart, rfl⟩
      · intro hBoth
        rcases hBoth with ⟨hStart, rfl⟩
        rw [Path.behindSlashes_cons] at hStart
        exact ⟨_, _, by simpa using hStart, rfl, rfl, rfl⟩

/- At the start they spell them joined by slashes. -/
theorem spells_path_iff
    {words : List Text}
    (hWords : words ≠ [])
    (path : Text)
    (texts : List (Option Text)) :
    Spells [] (words.map literal) (Place.start path) texts ↔
      path = ['/'].intercalate words ∧
        texts = words.map fun _ => none := by
  rcases List.exists_cons_of_ne_nil hWords with
    ⟨word, rest, rfl⟩
  rw [List.map_cons, spells_literal_cons_iff,
    Path.intercalate_cons_eq]
  simp only [spells_literals_iff, Place.behind, Place.start,
    List.nil_append]
  constructor
  · intro hSpells
    rcases hSpells with ⟨_, _, hStart, rfl, rfl, rfl⟩
    exact ⟨hStart, rfl⟩
  · intro hBoth
    rcases hBoth with ⟨hStart, rfl⟩
    exact ⟨_, _, hStart, rfl, rfl, rfl⟩

end Edge

end RequestRouter

------------------------------------------------------------
-- Names of What Is Caught
------------------------------------------------------------

namespace RequestRouter

open Regex

namespace Step

/- What is caught at the places of named steps. -/
def spelled
    (steps : List Step)
    (texts : List (Option Text)) : List (Text × Text) :=
  (steps.zip texts).filterMap fun entry =>
    entry.1.name.bind fun name => entry.2.map (name, ·)

/- Where nothing is caught, no name is bound. -/
theorem spelled_of_none
    (steps : List Step)
    {texts : List (Option Text)}
    (hTexts : ∀ text ∈ texts, text = none) :
    spelled steps texts = [] := by
  apply List.filterMap_eq_nil_iff.mpr
  intro entry hEntry
  rw [hTexts entry.2 (List.of_mem_zip hEntry).2]
  cases entry.1.name <;> rfl

/-
  At the place of a named step something is caught, if the
  edges that are covered spell a path.
-/
theorem exists_text_of_named
    {leaf : List Step}
    {separator : Text}
    {start : Place}
    {texts : List (Option Text)}
    (hSpells :
      Edge.Spells separator (edges leaf) start texts)
    {E : Engine}
    {path : Text}
    {patterns : List (Pattern E)}
    {steps : List Step}
    (hSteps : ofPatterns path patterns = .ok steps)
    (hCovers : Edge.Covers (edges steps) (edges leaf))
    {index : Nat}
    {step : Step}
    (hStep : steps[index]? = some step)
    (hNamed : step.name ≠ none) :
    ∃ text, texts[index]? = some (some text) := by
  have hCapture :=
    isCapture_of_named hSteps (List.mem_of_getElem? hStep)
      hNamed
  have hEdge : (edges steps)[index]? = some step.edge := by
    simp [edges, hStep]
  exact
    hSpells.exists_text
      (hCovers.getElem?_eq hEdge
        (Edge.isOpenEnded_of_isCapture hCapture))
      hCapture

/-
  A variant that covers a leaf binds, at the leaf's nodes,
  what the leaf's edges catch at the places of its names.
-/
theorem bound_caughtAt
    {leaf : List Step}
    {separator : Text}
    {start : Place}
    {texts : List (Option Text)}
    (hSpells :
      Edge.Spells separator (edges leaf) start texts)
    {trail : List Nat}
    (hNodup : trail.Nodup)
    (hLength : trail.length = leaf.length)
    {E : Engine}
    {path : Text}
    {patterns : List (Pattern E)}
    {steps : List Step}
    (hSteps : ofPatterns path patterns = .ok steps)
    (hCovers : Edge.Covers (edges steps) (edges leaf)) :
    bound
        (fun node =>
          (Edge.caughtAt trail texts).lookup node)
        steps trail =
      spelled steps texts := by
  refine
    filterMap_zip_congr
      (f := fun (step : Step) node =>
        step.name.bind fun name =>
          ((Edge.caughtAt trail texts).lookup node).map
            (name, ·))
      (g := fun (step : Step) (text : Option Text) =>
        step.name.bind fun name => text.map (name, ·)) ?_
  intro index step hStep
  cases hName : step.name with
  | none => exact Or.inl ⟨fun _ => rfl, fun _ => rfl⟩
  | some name =>
      rcases
          exists_text_of_named hSpells hSteps hCovers hStep
            (by simp [hName]) with
        ⟨text, hText⟩
      have hBound : index < trail.length := by
        have hIndex := (List.getElem?_eq_some_iff.mp hText).1
        rw [hSpells.length_texts] at hIndex
        simpa [edges, hLength] using hIndex
      refine
        Or.inr
          ⟨trail[index], some text,
            List.getElem?_eq_getElem hBound, hText, ?_⟩
      rw [Edge.lookup_caughtAt hNodup
        (List.getElem?_eq_getElem hBound) hText]

end Step

end RequestRouter

------------------------------------------------------------
-- Counted Patterns
------------------------------------------------------------

namespace RequestRouter

open Regex

variable {E : Engine}

namespace Edge

/- One segment is counted. -/
theorem isCounted_segment :
    segment.IsCounted := by
  decide +kernel

end Edge

namespace Pattern

/- Whether the constraint of a pattern is counted. -/
def IsCounted : Pattern E → Prop
  | .constrained _ constraint =>
      (Edge.capture constraint.source
        constraint.groups).IsCounted
  | _ => True

instance : DecidablePred (IsCounted (E := E))
  | .constrained _ constraint =>
      inferInstanceAs
        (Decidable
          (Edge.capture constraint.source
            constraint.groups).IsCounted)
  | .literal _ => inferInstanceAs (Decidable True)
  | .param _ => inferInstanceAs (Decidable True)
  | .wildcard => inferInstanceAs (Decidable True)

/- The edge of a counted pattern is counted. -/
theorem IsCounted.edge
    {pattern : Pattern E}
    (hCounted : pattern.IsCounted)
    (first last : Bool) :
    (pattern.edge first last).IsCounted := by
  cases pattern with
  | literal => exact trivial
  | param => exact Edge.isCounted_segment
  | constrained => exact hCounted
  | wildcard =>
      cases last with
      | false => exact Edge.isCounted_segment
      | true => cases first <;> exact trivial

end Pattern

namespace Step

/- The steps of counted patterns have counted edges. -/
theorem isCounted_of_ofPatternsFrom
    {path : Text}
    {first : Bool}
    {patterns : List (Pattern E)}
    {steps : List Step}
    (hSteps :
      ofPatternsFrom path first patterns = .ok steps)
    (hCounted : ∀ pattern ∈ patterns, pattern.IsCounted) :
    ∀ edge ∈ edges steps, edge.IsCounted := by
  induction patterns generalizing first steps with
  | nil =>
      rw [eq_nil_of_ofPatternsFrom_nil hSteps]
      simp [edges]
  | cons pattern rest ih =>
      rcases exists_of_ofPatternsFrom_cons hSteps with
        ⟨later, hLater, rfl⟩
      rcases List.forall_mem_cons.mp hCounted with
        ⟨hFirst, hRest⟩
      refine List.forall_mem_cons.mpr ⟨?_, ?_⟩
      · exact hFirst.edge first rest.isEmpty
      · exact ih hLater hRest

end Step

end RequestRouter
