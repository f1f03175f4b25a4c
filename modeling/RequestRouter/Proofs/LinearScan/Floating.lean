import RequestRouter.Proofs.LinearScan.Constraint
import RequestRouter.Proofs.Regex.Floating
import RequestRouter.Proofs.SegmentTree.Precedence

/-
  Patterns that mean the same wherever they stand.

  A scan tests a constraint where it stands in a path,
  between slashes, and its expression may pass over slashes
  of its own. Without anchors it passes over just the texts
  that it matches alone. So a path is spelled by the edges
  of such patterns as its parts are taken by them, and what
  the edges catch is what they bind.

  Key definitions include:
    * `Edge.Matches`
    * `Pattern.Fits`
    * `Pattern.IsFloating`

  Main statements:
    * `Edge.exists_passes_iff`
    * `Pattern.takes_cons_iff`
    * `Pattern.exists_spelled_start_iff`
-/

------------------------------------------------------------
-- Edges over Words
------------------------------------------------------------

namespace RequestRouter

open Regex

namespace Edge

/- Whether the source of a capture is closed and floats. -/
def IsFloating : Edge → Prop
  | .capture source _ =>
      ∃ body groups,
        closedBody? source = some (body, groups) ∧
          body.isAnchored = false
  | _ => True

/- Whether an edge that has an end matches a text alone. -/
def Matches : Edge → Text → Prop
  | .literal text, word => word = text
  | .capture source _, word =>
      ∃ last, last.rest = [] ∧
        (sourceWays source).Leads (Place.start word) last
  | .tail, _ | .any, _ => False

/-
  A floating edge passes over the texts in front of a slash,
  or of the end, that it matches alone.
-/
theorem exists_passes_iff
    {edge : Edge}
    (hFloating : edge.IsFloating)
    (hClosed : edge.isOpenEnded = false)
    {separator : Text}
    {start last : Place}
    (hBefore :
      (separator.getLast?.or start.before).any isWordChar =
        false)
    (hBehind : ∀ c ∈ last.rest.head?, c = '/') :
    (∃ caught, edge.Passes separator start last caught) ↔
      ∃ word,
        start.rest = separator ++ (word ++ last.rest) ∧
          last =
            Place.behind start.before (separator ++ word)
              last.rest ∧
          edge.Matches word := by
  have hNone : last.rest.head?.any isWordChar = false := by
    cases hHead : last.rest.head? with
    | none => rfl
    | some c =>
        rw [hBehind c hHead]
        decide
  cases edge with
  | tail | any => cases hClosed
  | literal text =>
      constructor
      · rintro ⟨caught, hPass⟩
        cases hPass with
        | literal hText =>
            rcases (Ways.leads_text_iff _ _ _).mp hText with
              ⟨rest, hStart, rfl⟩
            refine ⟨text, ?_, rfl, rfl⟩
            rw [hStart, List.append_assoc]
            rfl
      · rintro ⟨word, hStart, hLast, rfl⟩
        refine ⟨none, .literal ?_⟩
        exact
          (Ways.leads_text_iff _ _ _).mpr
            ⟨last.rest, by simpa using hStart, hLast⟩
  | capture source count =>
      rcases hFloating with ⟨body, groups, hBody, hFree⟩
      have hWays : sourceWays source = body.ways := by
        rw [sourceWays, hBody]
      have hWithin :=
        Expr.leads_within_iff hFree hBefore hNone
      constructor
      · rintro ⟨caught, hPass⟩
        cases hPass with
        | capture hFront hSource =>
            rcases (Ways.leads_text_iff _ _ _).mp hFront with
              ⟨text, hStart, rfl⟩
            rw [hWays] at hSource
            rcases body.passesOnly_ways _ _ hSource with
              ⟨word, rest, hText, rfl, -⟩
            have hRest : text = word ++ rest := hText
            subst hRest
            refine
              ⟨word, hStart, (Place.behind_append ..).symm, ?_⟩
            rw [Matches, hWays]
            exact (hWithin word).mp hSource
      · rintro ⟨word, hStart, hLast, hMatches⟩
        rw [Matches, hWays] at hMatches
        have hFront :
            (Ways.text separator).Leads start
              (Place.behind start.before separator
                (word ++ last.rest)) :=
          (Ways.leads_text_iff _ _ _).mpr ⟨_, hStart, rfl⟩
        refine ⟨_, .capture hFront ?_⟩
        rw [hWays, hLast, Place.behind_append]
        exact (hWithin word).mpr hMatches

/- A segment matches a text without slashes. -/
theorem matches_segment_iff
    (word : Text) :
    segment.Matches word ↔ word ≠ [] ∧ '/' ∉ word := by
  have hContains := CharSet.contains_allBut_iff '/'
  rw [segment, Matches, sourceWays_segment]
  simp only [segmentWays, Ways.leads_unrecorded_iff,
    Ways.repetition_plus, Ways.leads_andThen_iff,
    Ways.leads_pass_iff, Ways.leads_runs_iff]
  constructor
  · rintro ⟨last, hEnd, _, ⟨c, rest, hWord, hFirst, rfl⟩,
      passed, left, hRest, rfl, hWanted⟩
    have hText : word = c :: rest := hWord
    have hLeft : left = [] := hEnd
    have hPassed : rest = passed := by
      simpa [hLeft] using hRest
    subst hText hPassed
    refine ⟨by simp, ?_⟩
    intro hSlash
    rcases List.mem_cons.mp hSlash with rfl | hLater
    · exact (hContains '/').mp hFirst rfl
    · exact (hContains '/').mp (hWanted '/' hLater) rfl
  · rintro ⟨hSome, hSlash⟩
    rcases List.exists_cons_of_ne_nil hSome with
      ⟨c, rest, rfl⟩
    rcases not_or.mp (mt List.mem_cons.mpr hSlash) with
      ⟨hFirst, hLater⟩
    refine
      ⟨Place.behind (some c) rest [], rfl, ⟨some c, rest⟩,
        ⟨c, rest, rfl, (hContains c).mpr (Ne.symm hFirst),
          rfl⟩,
        rest, [], by simp, rfl, fun d hMember => ?_⟩
    refine (hContains d).mpr ?_
    rintro rfl
    exact hLater hMember

end Edge

end RequestRouter

------------------------------------------------------------
-- Words of a Path
------------------------------------------------------------

namespace RequestRouter

namespace Path

/- There is text behind slashes if there are parts. -/
theorem behindSlashes_eq_nil_iff
    {parts : List Text} :
    behindSlashes parts = [] ↔ parts = [] := by
  cases parts with
  | nil => simp [behindSlashes]
  | cons part parts => simp [behindSlashes_cons]

/- Parts behind slashes are cut where a list of them is. -/
theorem behindSlashes_append
    (parts others : List Text) :
    behindSlashes (parts ++ others) =
      behindSlashes parts ++ behindSlashes others :=
  List.flatMap_append

/-
  What stands in front of a slash, or of the end, of a path
  is made of its first parts, and the others follow.
-/
theorem exists_take_of_append_eq
    {part : Text}
    {parts : List Text}
    (hParts : ∀ other ∈ part :: parts, '/' ∉ other)
    {word rest : Text}
    (hRest : ∀ c ∈ rest.head?, c = '/')
    (hText : part ++ behindSlashes parts = word ++ rest) :
    ∃ gap ≤ parts.length,
      word = ['/'].intercalate (part :: parts.take gap) ∧
        rest = behindSlashes (parts.drop gap) := by
  have hWhole :
      ∀ {part : Text} {parts : List Text} {word : Text},
        '/' ∉ part → '/' ∉ word →
          part ++ behindSlashes parts = word ++ rest →
            ∃ gap ≤ parts.length,
              word =
                  ['/'].intercalate
                    (part :: parts.take gap) ∧
                rest = behindSlashes (parts.drop gap) := by
    intro part parts word hPart hWord hText
    rcases
        eq_of_append_eq hPart hWord (head?_behindSlashes _)
          hRest hText with
      ⟨rfl, rfl⟩
    exact ⟨0, Nat.zero_le _, by simp, rfl⟩
  induction parts generalizing part word with
  | nil =>
      have hPart := hParts part (by simp)
      refine hWhole hPart (fun hSlash => hPart ?_) hText
      have hSame : part = word ++ rest := by
        simpa [behindSlashes] using hText
      rw [hSame]
      exact List.mem_append_left _ hSlash
  | cons second parts ih =>
      rcases List.forall_mem_cons.mp hParts with
        ⟨hPart, hLater⟩
      by_cases hSlash : '/' ∈ word
      case neg => exact hWhole hPart hSlash hText
      rcases List.append_eq_append_iff.mp hText with
        ⟨more, rfl, hMore⟩ | ⟨more, rfl, -⟩
      · have hIn :=
          (List.mem_append.mp hSlash).resolve_left hPart
        rcases List.exists_cons_of_ne_nil
            (List.ne_nil_of_mem hIn) with
          ⟨c, left, rfl⟩
        rw [behindSlashes_cons, List.cons_append] at hMore
        rcases List.cons_eq_cons.mp hMore with ⟨rfl, hBehind⟩
        rcases ih hLater hBehind with
          ⟨gap, hGap, hWord, hLeft⟩
        refine ⟨gap + 1, Nat.succ_le_succ hGap, ?_, hLeft⟩
        rw [List.take_succ_cons, List.intercalate_cons_cons,
          ← hWord]
        simp
      · exact absurd (List.mem_append_left _ hSlash) hPart

/- A path is joined from its first parts and the others. -/
theorem append_behindSlashes_eq
    (part : Text)
    (parts : List Text)
    (gap : Nat) :
    part ++ behindSlashes parts =
      ['/'].intercalate (part :: parts.take gap) ++
        behindSlashes (parts.drop gap) := by
  rw [intercalate_cons_eq, List.append_assoc,
    ← behindSlashes_append, List.take_append_drop]

/- One part that is joined from parts is the first alone. -/
theorem slash_not_mem_intercalate_iff
    {part : Text}
    {parts : List Text}
    (hPart : '/' ∉ part) :
    '/' ∉ ['/'].intercalate (part :: parts) ↔
      parts = [] := by
  cases parts with
  | nil => simpa using hPart
  | cons second parts => simp [intercalate_cons_eq]

end Path

end RequestRouter

------------------------------------------------------------
-- Patterns over Words
------------------------------------------------------------

namespace RequestRouter

open Regex

variable {E : Engine}

namespace Pattern

/-
  Whether a pattern fits a text that stands for some parts
  of a path: a wildcard inside the path fits as a parameter
  does.
-/
def Fits : Pattern E → Text → Prop
  | .literal text, word => word = text
  | .constrained _ constraint, word =>
      constraint.isMatch word = true
  | .param _, word | .wildcard, word =>
      word ≠ [] ∧ '/' ∉ word

/-
  Whether a pattern means the same wherever it stands: a
  literal holds no slash, and a constraint no anchor.
-/
def IsFloating : Pattern E → Prop
  | .literal text => '/' ∉ text
  | .constrained _ constraint =>
      ∃ body, constraint.Means body ∧
        body.isAnchored = false
  | _ => True

/- The source of a floating pattern's constraint is closed. -/
theorem IsFloating.isClosed
    {pattern : Pattern E}
    (hFloating : pattern.IsFloating) :
    pattern.IsClosed := by
  cases pattern with
  | literal | param | wildcard => exact trivial
  | constrained name constraint =>
      rcases hFloating with ⟨body, hMeans, -⟩
      rcases hMeans.closed with ⟨groups, hClosed⟩
      simp [IsClosed, hClosed]

/-
  Inside a path, or in place of a last pattern that is not a
  wildcard, the edge of a pattern has an end, and matches
  the texts that the pattern fits.
-/
theorem IsFloating.edge
    {pattern : Pattern E}
    (hFloating : pattern.IsFloating)
    {last : Bool}
    (hInside : pattern = .wildcard → last = false)
    (first : Bool) :
    (pattern.edge first last).IsFloating ∧
      (pattern.edge first last).isOpenEnded = false ∧
        ∀ word,
          (pattern.edge first last).Matches word ↔
            pattern.Fits word := by
  have hSegment :
      Edge.segment.IsFloating ∧
        Edge.segment.isOpenEnded = false ∧
          ∀ word,
            Edge.segment.Matches word ↔
              word ≠ [] ∧ '/' ∉ word :=
    ⟨⟨_, _, Edge.closedBody?_segmentSource, rfl⟩, rfl,
      Edge.matches_segment_iff⟩
  cases pattern with
  | literal text => exact ⟨trivial, rfl, fun _ => Iff.rfl⟩
  | param name => exact hSegment
  | wildcard =>
      cases hInside rfl
      exact hSegment
  | constrained name constraint =>
      rcases hFloating with ⟨body, hMeans, hFree⟩
      rcases hMeans.closed with ⟨groups, hClosed⟩
      refine ⟨⟨body, groups, hClosed, hFree⟩, rfl, ?_⟩
      intro word
      have hWays :
          Edge.sourceWays constraint.source = body.ways := by
        rw [Edge.sourceWays, hClosed]
      simp only [Pattern.edge, Edge.Matches, hWays]
      exact (hMeans.isMatch_iff word).symm

/-
  Where only texts without slashes fit, the first part alone
  can fit.
-/
theorem exists_gap_iff
    {fits : Text → Prop}
    (hFits : ∀ word, fits word → '/' ∉ word)
    {part : Text}
    (hPart : '/' ∉ part)
    (parts : List Text)
    (takes : Text → List Text → Prop) :
    (∃ gap ≤ parts.length,
        fits (['/'].intercalate (part :: parts.take gap)) ∧
          takes (['/'].intercalate (part :: parts.take gap))
            (parts.drop gap)) ↔
      fits part ∧ takes part parts := by
  constructor
  · rintro ⟨gap, hGap, hWord, hRest⟩
    have hNone :=
      (Path.slash_not_mem_intercalate_iff hPart).mp
        (hFits _ hWord)
    have hDrop : parts.drop gap = parts := by
      conv_rhs => rw [← List.take_append_drop gap parts]
      rw [hNone, List.nil_append]
    rw [hNone] at hWord hRest
    rw [hDrop] at hRest
    exact ⟨by simpa using hWord, by simpa using hRest⟩
  · rintro ⟨hWord, hRest⟩
    exact
      ⟨0, Nat.zero_le _, by simpa using hWord,
        by simpa using hRest⟩

/-
  A floating pattern that has an end takes the first parts
  whose text it fits, and binds its name to this text.
-/
theorem takes_cons_iff
    {pattern : Pattern E}
    (hFloating : pattern.IsFloating)
    {rest : List (Pattern E)}
    (hInside : pattern = .wildcard → rest ≠ [])
    {part : Text}
    (hPart : '/' ∉ part)
    (parts : List Text)
    (bindings : List (Text × Text)) :
    Takes (pattern :: rest) (part :: parts) bindings ↔
      ∃ gap ≤ parts.length,
        pattern.Fits
            (['/'].intercalate (part :: parts.take gap)) ∧
          ∃ later, Takes rest (parts.drop gap) later ∧
            bindings =
              (pattern.name?.map
                (·, ['/'].intercalate
                  (part :: parts.take gap))).toList ++
                later := by
  cases pattern with
  | constrained name constraint =>
      simp only [takes_constrained_iff, List.length_cons,
        List.take_succ_cons, List.drop_succ_cons, Fits,
        Nat.lt_succ_iff]
      rfl
  | literal text =>
      have hFits :
          ∀ word,
            (literal (E := E) text).Fits word →
              '/' ∉ word := by
        rintro word rfl
        exact hFloating
      refine
        Iff.trans ?_
          (exists_gap_iff hFits hPart parts fun _ others =>
            ∃ later, Takes rest others later ∧
              bindings = later).symm
      simp [takes_literal_cons_iff, Fits, eq_comm]
  | param name =>
      refine
        Iff.trans ?_
          (exists_gap_iff (fun word hWord => hWord.2) hPart
            parts fun word others =>
              ∃ later, Takes rest others later ∧
                bindings = (name, word) :: later).symm
      simp [takes_param_cons_iff, Fits, hPart]
  | wildcard =>
      refine
        Iff.trans ?_
          (exists_gap_iff (fun word hWord => hWord.2) hPart
            parts fun _ others =>
              ∃ later, Takes rest others later ∧
                bindings = later).symm
      simp [takes_wildcard_cons_iff (hInside rfl), Fits,
        hPart]

end Pattern

end RequestRouter

------------------------------------------------------------
-- Paths That Are Spelled
------------------------------------------------------------

namespace RequestRouter

open Regex

variable {E : Engine}

namespace Edge

/-
  Where ways can be followed by the end of the text, one of
  them leads to it.
-/
theorem exists_leads_end
    {ways : Ways}
    {place : Place}
    {before : Option Char}
    (hWays :
      Ways.andThen ways (Ways.check .textEnd) place =
        Ways.check .textEnd ⟨before, []⟩) :
    ∃ last, ways.Leads place last ∧ last.rest = [] := by
  have hLeads :
      (Ways.andThen ways (Ways.check .textEnd)).Leads place
        ⟨before, []⟩ := by
    refine ⟨⟨⟨before, []⟩, []⟩, ?_, rfl⟩
    rw [hWays]
    simp [Ways.check, Assertion.holds]
  rcases (Ways.leads_andThen_iff _ _ _ _).mp hLeads with
    ⟨last, hLast, hCheck⟩
  rcases (Ways.leads_check_iff _ _ _).mp hCheck with
    ⟨hEnd, -⟩
  exact ⟨last, hLast, by simpa [Assertion.holds] using hEnd⟩

/- Nothing but the end of the text comes next at its end. -/
theorem awaitsEnd_check :
    (Ways.check .textEnd).AwaitsEnd := by
  intro before c rest
  simp [Ways.check, Assertion.holds]

/- A tail spells all the parts that are left. -/
theorem exists_spells_tail
    {parts : List Text}
    (hParts : ∀ part ∈ parts, Path.IsPart part)
    (before : Option Char) :
    ∃ texts,
      Spells ['/'] [.tail]
        ⟨before, Path.behindSlashes parts⟩ texts := by
  rcases
      tail_andThen awaitsEnd_check plainWays ['/'] 0 parts
        hParts before with
    ⟨after, hWays⟩
  rcases exists_leads_end hWays with ⟨last, hLast, hEnd⟩
  exact ⟨_, .cons (.tail hLast) (.nil hEnd)⟩

/- The edge of a whole path spells every path on one line. -/
theorem exists_spells_any
    {line : Text}
    (hLine : '\n' ∉ line)
    (before : Option Char) :
    ∃ texts, Spells [] [.any] ⟨before, line⟩ texts := by
  rcases
      exists_leads_end
        (lineWays_andThen awaitsEnd_check hLine before) with
    ⟨last, hLast, hEnd⟩
  exact ⟨_, .cons (.any hLast) (.nil hEnd)⟩

end Edge

namespace Pattern

/- Behind the first edge none takes a whole path. -/
theorem any_not_mem_steps
    (patterns : List (Pattern E)) :
    Edge.any ∉ Step.edges (steps false patterns) := by
  induction patterns with
  | nil => simp [steps, Step.edges]
  | cons pattern rest ih =>
      intro hMember
      rcases List.mem_cons.mp hMember with hOwn | hRest
      · exact pattern.edge_ne_any rest.isEmpty hOwn.symm
      · exact ih hRest

/-
  A last wildcard spells all the parts that are left, and as
  the only pattern the whole path.
-/
theorem exists_spells_wildcard
    (first : Bool)
    {part : Text}
    {parts : List Text}
    (hParts :
      ∀ other ∈ part :: parts, Path.IsPart other)
    (before : Option Char) :
    ∃ texts,
      Edge.Spells (ScanPiece.separator first)
        (Step.edges (steps first [(wildcard : Pattern E)]))
        ⟨before,
          ScanPiece.separator first ++
            (part ++ Path.behindSlashes parts)⟩
        texts := by
  cases first with
  | false => exact Edge.exists_spells_tail hParts before
  | true =>
      have hLine :
          '\n' ∉ part ++ Path.behindSlashes parts := by
        have hAll := Path.not_mem_behindSlashes hParts
        simpa [Path.behindSlashes] using hAll
      exact Edge.exists_spells_any hLine before

/- A wildcard alone binds nothing. -/
theorem spelled_wildcard
    (first : Bool)
    (texts : List (Option Text)) :
    Step.spelled (steps first [(wildcard : Pattern E)])
      texts = [] := by
  cases texts <;> rfl

/-
  In front of a slash, or of the end, the edge of a floating
  pattern passes over the first parts whose text it fits.
-/
theorem IsFloating.exists_passes_iff
    {pattern : Pattern E}
    (hFloating : pattern.IsFloating)
    {isLast : Bool}
    (hInside : pattern = .wildcard → isLast = false)
    {part : Text}
    {parts : List Text}
    (hParts : ∀ other ∈ part :: parts, '/' ∉ other)
    (first : Bool)
    {before : Option Char}
    (hBefore :
      ((ScanPiece.separator first).getLast?.or before).any
          isWordChar =
        false)
    {last : Place}
    (hBehind : ∀ c ∈ last.rest.head?, c = '/') :
    (∃ caught,
        (pattern.edge first isLast).Passes
          (ScanPiece.separator first)
          ⟨before,
            ScanPiece.separator first ++
              (part ++ Path.behindSlashes parts)⟩
          last caught) ↔
      ∃ gap ≤ parts.length,
        last =
            Place.behind before
              (ScanPiece.separator first ++
                ['/'].intercalate (part :: parts.take gap))
              (Path.behindSlashes (parts.drop gap)) ∧
          pattern.Fits
            (['/'].intercalate (part :: parts.take gap)) := by
  rcases hFloating.edge hInside first with
    ⟨hEdge, hClosed, hMatches⟩
  rw [Edge.exists_passes_iff hEdge hClosed hBefore hBehind]
  constructor
  · rintro ⟨word, hStart, hLast, hWord⟩
    rcases
        Path.exists_take_of_append_eq hParts hBehind
          (List.append_cancel_left hStart) with
      ⟨gap, hGap, rfl, hRest⟩
    rw [hRest] at hLast
    exact ⟨gap, hGap, hLast, (hMatches _).mp hWord⟩
  · rintro ⟨gap, hGap, rfl, hFits⟩
    have hStart :=
      Path.append_behindSlashes_eq part parts gap
    exact
      ⟨_, congrArg _ hStart, rfl, (hMatches _).mpr hFits⟩

/-
  A pattern that passes over a word in front of what follows
  binds its name to the word.
-/
theorem spelled_cons
    {pattern : Pattern E}
    {first isLast : Bool}
    {separator word : Text}
    {start last : Place}
    {caught : Option Text}
    (hPass :
      (pattern.edge first isLast).Passes separator start last
        caught)
    (hText :
      start.rest = separator ++ (word ++ last.rest))
    (steps : List Step)
    (texts : List (Option Text)) :
    Step.spelled
        (⟨pattern.edge first isLast, pattern.name?⟩ :: steps)
        (caught :: texts) =
      (pattern.name?.map (·, word)).toList ++
        Step.spelled steps texts := by
  rw [Step.spelled, Step.spelled, List.zip_cons_cons,
    List.filterMap_cons]
  cases pattern with
  | literal | wildcard => rfl
  | param | constrained =>
      cases hPass with
      | capture hFront hSource =>
          rcases (Ways.leads_text_iff _ _ _).mp hFront with
            ⟨text, hStart, rfl⟩
          rw [hStart] at hText
          simp [name?, Place.textTo, Place.behind,
            List.append_cancel_left hText]

/-
  A first pattern spells the text that it fits and binds its
  name to it, if what follows spells and binds the rest.
-/
theorem exists_spelled_cons_iff
    {pattern : Pattern E}
    (hFloating : pattern.IsFloating)
    {rest : List (Pattern E)}
    {part : Text}
    {parts : List Text}
    (hParts :
      ∀ other ∈ part :: parts, Path.IsPart other)
    (hRest :
      ∀ gap before later,
        (∃ texts,
            Edge.Spells ['/'] (Step.edges (steps false rest))
                ⟨before, Path.behindSlashes (parts.drop gap)⟩
                texts ∧
              later = Step.spelled (steps false rest) texts) ↔
          Takes rest (parts.drop gap) later)
    (first : Bool)
    {before : Option Char}
    (hBefore :
      ((ScanPiece.separator first).getLast?.or before).any
          isWordChar =
        false)
    (bindings : List (Text × Text)) :
    (∃ texts,
        Edge.Spells (ScanPiece.separator first)
            (Step.edges (steps first (pattern :: rest)))
            ⟨before,
              ScanPiece.separator first ++
                (part ++ Path.behindSlashes parts)⟩
            texts ∧
          bindings =
            Step.spelled (steps first (pattern :: rest))
              texts) ↔
      Takes (pattern :: rest) (part :: parts) bindings := by
  by_cases hLast : pattern = .wildcard ∧ rest = []
  case pos =>
      rcases hLast with ⟨rfl, rfl⟩
      rw [takes_wildcard_iff]
      constructor
      · rintro ⟨texts, -, rfl⟩
        exact spelled_wildcard first texts
      · rintro rfl
        rcases
            exists_spells_wildcard (E := E) first hParts
              before with
          ⟨texts, hSpells⟩
        exact
          ⟨texts, hSpells, (spelled_wildcard first _).symm⟩
  have hInside : pattern = .wildcard → rest ≠ [] :=
    fun hWild hNone => hLast ⟨hWild, hNone⟩
  have hEnd : pattern = .wildcard → rest.isEmpty = false :=
    fun hWild => by simpa using hInside hWild
  have hSlash : ∀ other ∈ part :: parts, '/' ∉ other :=
    fun other hOther => (hParts other hOther).1
  have hStart : ∀ gap,
      ScanPiece.separator first ++
          (part ++ Path.behindSlashes parts) =
        ScanPiece.separator first ++
          (['/'].intercalate (part :: parts.take gap) ++
            Path.behindSlashes (parts.drop gap)) :=
    fun gap =>
      congrArg _ (Path.append_behindSlashes_eq part parts gap)
  rw [takes_cons_iff hFloating hInside
    (hSlash part (by simp))]
  constructor
  · rintro ⟨texts, hSpells, rfl⟩
    cases hSpells with
    | cons hPass hLater =>
        rcases
            (hFloating.exists_passes_iff hEnd hSlash first
              hBefore
              (hLater.head?_rest (any_not_mem_steps rest))).mp
              ⟨_, hPass⟩ with
          ⟨gap, hGap, rfl, hFits⟩
        exact
          ⟨gap, hGap, hFits, _,
            (hRest gap _ _).mp ⟨_, hLater, rfl⟩,
            spelled_cons hPass (hStart gap) _ _⟩
  · rintro ⟨gap, hGap, hFits, later, hTakes, rfl⟩
    rcases
        (hFloating.exists_passes_iff hEnd hSlash first hBefore
          (Path.head?_behindSlashes _)).mpr
          ⟨gap, hGap, rfl, hFits⟩ with
      ⟨caught, hPass⟩
    rcases (hRest gap _ _).mpr hTakes with
      ⟨texts, hLater, rfl⟩
    exact
      ⟨caught :: texts, .cons hPass hLater,
        (spelled_cons hPass (hStart gap) _ _).symm⟩

/-
  Without parts the edges of some patterns spell what is
  left just if they are a wildcard alone.
-/
theorem exists_spelled_end_iff
    {pattern : Pattern E}
    (hFloating : pattern.IsFloating)
    (rest : List (Pattern E))
    (before : Option Char)
    (bindings : List (Text × Text)) :
    (∃ texts,
        Edge.Spells ['/']
            (Step.edges (steps false (pattern :: rest)))
            ⟨before, Path.behindSlashes []⟩ texts ∧
          bindings =
            Step.spelled (steps false (pattern :: rest))
              texts) ↔
      Takes (pattern :: rest) [] bindings := by
  rw [takes_no_parts_iff]
  by_cases hLast : pattern = .wildcard ∧ rest = []
  case pos =>
      rcases hLast with ⟨rfl, rfl⟩
      constructor
      · rintro ⟨texts, -, rfl⟩
        exact ⟨Or.inr rfl, spelled_wildcard false texts⟩
      · rintro ⟨-, rfl⟩
        rcases
            @Edge.exists_spells_tail [] (by simp) before with
          ⟨texts, hSpells⟩
        exact
          ⟨texts, hSpells, (spelled_wildcard false _).symm⟩
  refine iff_of_false ?_ ?_
  · rintro ⟨texts, hSpells, -⟩
    have hEnd :
        pattern = .wildcard → rest.isEmpty = false :=
      fun hWild => by
        simpa using fun hNone => hLast ⟨hWild, hNone⟩
    rcases hFloating.edge hEnd false with ⟨-, hClosed, -⟩
    cases hSpells with
    | cons hPass hLater =>
        exact hPass.rest_ne_nil hClosed rfl
  · rintro ⟨hNone | hWild, -⟩
    · cases hNone
    · rcases List.cons_eq_cons.mp hWild with ⟨hFirst, hRest⟩
      exact hLast ⟨hFirst, hRest⟩

/-
  In front of parts behind slashes, the edges of floating
  patterns spell what the patterns take, and catch what they
  bind.
-/
theorem exists_spelled_iff
    {patterns : List (Pattern E)}
    (hFloating : ∀ pattern ∈ patterns, pattern.IsFloating)
    {parts : List Text}
    (hParts : ∀ part ∈ parts, Path.IsPart part)
    (before : Option Char)
    (bindings : List (Text × Text)) :
    (∃ texts,
        Edge.Spells ['/'] (Step.edges (steps false patterns))
            ⟨before, Path.behindSlashes parts⟩ texts ∧
          bindings =
            Step.spelled (steps false patterns) texts) ↔
      Takes patterns parts bindings := by
  induction patterns generalizing parts before bindings with
  | nil =>
      rw [takes_nil_iff]
      constructor
      · rintro ⟨texts, hSpells, rfl⟩
        cases hSpells with
        | nil hEnd =>
            exact
              ⟨Path.behindSlashes_eq_nil_iff.mp hEnd, rfl⟩
      · rintro ⟨rfl, rfl⟩
        exact ⟨[], .nil rfl, rfl⟩
  | cons pattern rest ih =>
      rcases List.forall_mem_cons.mp hFloating with
        ⟨hFirst, hOthers⟩
      cases parts with
      | cons part parts =>
          refine
            exists_spelled_cons_iff hFirst hParts
              (fun gap before later => ?_) false rfl bindings
          refine
            ih hOthers (fun other hOther => ?_) before later
          exact
            hParts other
              (List.mem_cons_of_mem _
                (List.mem_of_mem_drop hOther))
      | nil =>
          exact
            exists_spelled_end_iff hFirst rest before bindings

/- A path is spelled from its start on as it is taken. -/
theorem exists_spelled_start_iff
    {patterns : List (Pattern E)}
    (hFloating : ∀ pattern ∈ patterns, pattern.IsFloating)
    (hSome : patterns ≠ [])
    {path : Text}
    (hLine : '\n' ∉ path)
    (bindings : List (Text × Text)) :
    (∃ texts,
        Edge.Spells [] (Step.edges (steps true patterns))
            (Place.start path) texts ∧
          bindings =
            Step.spelled (steps true patterns) texts) ↔
      Takes patterns (path.splitOn '/') bindings := by
  rcases List.exists_cons_of_ne_nil hSome with
    ⟨pattern, rest, rfl⟩
  rcases List.forall_mem_cons.mp hFloating with
    ⟨hFirst, hOthers⟩
  have hParts :
      ∀ other ∈ path.splitOn '/', Path.IsPart other :=
    fun _ hOther => Path.isPart_of_mem_splitOn hLine hOther
  cases hSplit : path.splitOn '/' with
  | nil => exact absurd hSplit (List.splitOn_ne_nil _ _)
  | cons part parts =>
      rw [hSplit] at hParts
      rw [Path.eq_append_behindSlashes hSplit]
      refine
        exists_spelled_cons_iff hFirst hParts
          (fun gap before later => ?_) true rfl bindings
      refine
        exists_spelled_iff hOthers (fun other hOther => ?_)
          before later
      exact
        hParts other
          (List.mem_cons_of_mem _
            (List.mem_of_mem_drop hOther))

/- A path is spelled from its start on if it is accepted. -/
theorem exists_spells_start_iff
    {patterns : List (Pattern E)}
    (hFloating : ∀ pattern ∈ patterns, pattern.IsFloating)
    (hSome : patterns ≠ [])
    {path : Text}
    (hLine : '\n' ∉ path) :
    (∃ texts,
        Edge.Spells [] (Step.edges (steps true patterns))
          (Place.start path) texts) ↔
      Accepts patterns (path.splitOn '/') := by
  unfold Accepts
  simp only [←
    exists_spelled_start_iff hFloating hSome hLine]
  constructor
  · rintro ⟨texts, hSpells⟩
    exact ⟨_, texts, hSpells, rfl⟩
  · rintro ⟨-, texts, hSpells, -⟩
    exact ⟨texts, hSpells⟩

end Pattern

end RequestRouter
