import RequestRouter.Proofs.Path.Cutting
import RequestRouter.Proofs.Regex.Passing
import RequestRouter.Proofs.SegmentTree.Foremost
import RequestRouter.Proofs.SegmentTree.Leaves
import RequestRouter.Proofs.SegmentTree.Steps

/-
  When the foremost leaf is covered by all that spell.

  Two lists of edges part early if they have no edge in
  common that may leave its segment, unless all that follows
  is common. What parts early from the edges of the foremost
  leaf, and spells what it spells, covers them.

  Key definitions include:
    * `Edge.staysInside`
    * `Edge.PartEarly`
    * `Edge.AreWritten`

  Main statements:
    * `Edge.Passes.eq_of_staysInside`
    * `Step.areWritten_of_ofPatterns`
    * `TreeNode.IsForemost.covers`
    * `TreeNode.covers_of_spells_of_admits`
-/

------------------------------------------------------------
-- Edges That Stay in a Segment
------------------------------------------------------------

namespace RequestRouter

open Regex

namespace Path

/-
  Texts without slashes that stand in front of slashes, or
  at the end, are the same where they start the same text.
-/
theorem eq_of_append_eq
    {first second rest left : Text}
    (hFirst : '/' ∉ first)
    (hSecond : '/' ∉ second)
    (hRest : ∀ c ∈ rest.head?, c = '/')
    (hLeft : ∀ c ∈ left.head?, c = '/')
    (hSame : first ++ rest = second ++ left) :
    first = second ∧ rest = left := by
  rcases List.append_eq_append_iff.mp hSame with
    ⟨more, rfl, rfl⟩ | ⟨more, rfl, rfl⟩
  · cases more with
    | nil => simp
    | cons c more =>
        have hSlash : c = '/' := hRest c (by simp)
        exact absurd (by simp [hSlash]) hSecond
  · cases more with
    | nil => simp
    | cons c more =>
        have hSlash : c = '/' := hLeft c (by simp)
        exact absurd (by simp [hSlash]) hFirst

end Path

namespace Edge

/-
  Whether an edge stays inside a segment: a literal does,
  and a capture whose source wants no slash.
-/
def staysInside : Edge → Bool
  | .literal _ => true
  | .capture source _ =>
      (closedBody? source).any fun closed =>
        !closed.1.wants '/'
  | .tail | .any => false

/- A source that wants no slash passes over none. -/
theorem reaches_of_sourceWays
    {source : Text}
    {groups : Nat}
    (hInside : (capture source groups).staysInside = true)
    {start last : Place}
    (hLeads : (sourceWays source).Leads start last) :
    start.rest = start.textTo last ++ last.rest ∧
      last =
        Place.behind start.before (start.textTo last)
          last.rest ∧
      '/' ∉ start.textTo last := by
  unfold sourceWays at hLeads
  cases hClosed : closedBody? source with
  | none =>
      rw [hClosed] at hLeads
      rcases hLeads with ⟨way, hWay, -⟩
      cases hWay
  | some closed =>
      rw [hClosed] at hLeads
      have hNone : closed.1.wants '/' = false := by
        simpa [staysInside, hClosed] using hInside
      have hReaches :=
        closed.1.passesOnly_ways start last hLeads
      rcases hReaches.textTo with ⟨hRest, hLast, hWanted⟩
      refine ⟨hRest, hLast, ?_⟩
      intro hSlash
      have hWants := hWanted '/' hSlash
      rw [hNone] at hWants
      cases hWants

/-
  An edge that stays inside a segment gets to one place at
  most that is in front of a slash or at the end.
-/
theorem Passes.eq_of_staysInside
    {edge : Edge}
    (hInside : edge.staysInside = true)
    {separator : Text}
    {start first second : Place}
    {caught other : Option Text}
    (hFirst : edge.Passes separator start first caught)
    (hSecond : edge.Passes separator start second other)
    (hRest : ∀ c ∈ first.rest.head?, c = '/')
    (hLeft : ∀ c ∈ second.rest.head?, c = '/') :
    first = second := by
  cases hFirst with
  | tail | any => cases hInside
  | literal hText =>
      cases hSecond with
      | literal hOther =>
          rcases (Ways.leads_text_iff _ _ _).mp hText with
            ⟨rest, hStart, rfl⟩
          rcases (Ways.leads_text_iff _ _ _).mp hOther with
            ⟨left, hAgain, rfl⟩
          rw [hStart] at hAgain
          rw [List.append_cancel_left hAgain]
  | capture hFront hSource =>
      cases hSecond with
      | capture hOther hAgain =>
          rcases (Ways.leads_text_iff _ _ _).mp hFront with
            ⟨rest, hStart, rfl⟩
          rcases (Ways.leads_text_iff _ _ _).mp hOther with
            ⟨left, hSame, rfl⟩
          rw [hStart] at hSame
          cases List.append_cancel_left hSame
          rcases reaches_of_sourceWays hInside hSource with
            ⟨hText, hPlace, hNone⟩
          rcases reaches_of_sourceWays hInside hAgain with
            ⟨hText', hPlace', hNone'⟩
          rcases
              Path.eq_of_append_eq hNone hNone' hRest hLeft
                (hText.symm.trans hText') with
            ⟨hWord, hTail⟩
          rw [hPlace, hPlace', hWord, hTail]

/- Only an open end passes where nothing is left. -/
theorem Passes.rest_ne_nil
    {edge : Edge}
    {start last : Place}
    {caught : Option Text}
    (hPass : edge.Passes ['/'] start last caught)
    (hClosed : edge.isOpenEnded = false) :
    start.rest ≠ [] := by
  cases hPass with
  | tail | any => cases hClosed
  | literal hText | capture hText =>
      rcases (Ways.leads_text_iff _ _ _).mp hText with
        ⟨rest, hStart, -⟩
      simp [hStart]

/-
  What edges behind a slash spell starts with a slash, or is
  nothing.
-/
theorem Spells.head?_rest
    {edges : List Edge}
    {start : Place}
    {texts : List (Option Text)}
    (hSpells : Spells ['/'] edges start texts)
    (hLater : Edge.any ∉ edges) :
    ∀ c ∈ start.rest.head?, c = '/' := by
  generalize hSeparator : ['/'] = separator at hSpells
  induction hSpells with
  | nil hEnd => simp [hEnd]
  | @cons _ start middle edge edges _ _ hPass _ ih =>
      subst hSeparator
      have hBelow :=
        ih (fun hMember =>
          hLater (List.mem_cons_of_mem _ hMember)) rfl
      cases hPass with
      | any => simp at hLater
      | literal hText | capture hText =>
          rcases (Ways.leads_text_iff _ _ _).mp hText with
            ⟨rest, hStart, -⟩
          simp [hStart]
      | tail hTail =>
          -- The tail stays where it is, or passes a slash.
          unfold tailWays at hTail
          rw [Ways.leads_unrecorded_iff,
            Ways.repetition_optional] at hTail
          rcases hTail with ⟨way, hWay, rfl⟩
          rcases List.mem_append.mp hWay with hOn | hStay
          · rcases List.mem_flatMap.mp hOn with
              ⟨front, hFront, -⟩
            intro c hHead
            rcases start with ⟨before, rest⟩
            cases rest with
            | nil => cases hHead
            | cons d rest =>
                cases hHead
                unfold Ways.pass at hFront
                dsimp only at hFront
                split at hFront
                case isFalse => cases hFront
                case isTrue hSlash =>
                    exact beq_iff_eq.mp hSlash
          · rw [List.mem_singleton.mp hStay] at hBelow
            exact hBelow

/-
  Whether two lists of edges part before they share an edge
  that may leave its segment, or are the same behind it.
-/
def PartEarly : List Edge → List Edge → Prop
  | a :: first, b :: second =>
      a = b →
        first = second ∨
          a.staysInside = true ∧ PartEarly first second
  | _, _ => True

instance decidablePartEarly :
    (first second : List Edge) →
      Decidable (PartEarly first second)
  | a :: first, b :: second =>
      have := decidablePartEarly first second
      inferInstanceAs (Decidable (a = b → _))
  | [], _ => inferInstanceAs (Decidable True)
  | _ :: _, [] => inferInstanceAs (Decidable True)

end Edge

end RequestRouter

------------------------------------------------------------
-- Written Edges
------------------------------------------------------------

namespace RequestRouter

open Regex

namespace Edge

/- Whether literal edges have the texts of labels. -/
def FollowLabels
    (edges : List Edge)
    (labels : List Text) : Prop :=
  List.Forall₂
    (fun edge label =>
      ∀ text, edge = Edge.literal text → text = label)
    edges labels

/-
  Whether edges could be those of a path: the whole path is
  a wildcard only at the start, and literals have the texts
  of segments that are cut where they may be.
-/
structure AreWritten
    (edges : List Edge) : Prop where
  later : Edge.any ∉ edges.tail
  cut : ∃ labels, Path.AreCut 0 labels ∧
    FollowLabels edges labels

/- What follows an edge is written as well. -/
theorem AreWritten.tail
    {edge : Edge}
    {edges : List Edge}
    (hWritten : AreWritten (edge :: edges)) :
    AreWritten edges := by
  rcases hWritten with ⟨hLater, labels, hCut, hLabels⟩
  refine
    ⟨fun hMember => hLater (List.mem_of_mem_tail hMember), ?_⟩
  cases hLabels with
  | cons _ hRest => exact ⟨_, hCut.2.2, hRest⟩

/- A literal in front has the text of a cut segment. -/
theorem AreWritten.exists_labels
    {text : Text}
    {edges : List Edge}
    (hWritten : AreWritten (.literal text :: edges)) :
    ∃ labels, Path.AreCut 0 (text :: labels) ∧
      (labels = [] → edges = []) := by
  rcases hWritten with ⟨-, labels, hCut, hLabels⟩
  cases hLabels with
  | @cons _ label _ labels hFirst hRest =>
      cases hFirst text rfl
      refine ⟨labels, hCut, ?_⟩
      rintro rfl
      cases hRest
      rfl

/- Nothing is spelled by no edges but nothing. -/
theorem Spells.rest_eq_nil
    {separator : Text}
    {edges : List Edge}
    {start : Place}
    {texts : List (Option Text)}
    (hSpells : Spells separator edges start texts)
    (hNone : edges = []) :
    start.rest = [] := by
  subst hNone
  cases hSpells with
  | nil hEnd => exact hEnd

/- Behind the same literal both rows of edges spell on. -/
theorem Spells.exists_behind_literal
    {word separator : Text}
    {first second : List Edge}
    {start : Place}
    {texts others : List (Option Text)}
    (hFirst :
      Spells separator (.literal word :: first) start texts)
    (hSecond :
      Spells separator (.literal word :: second) start
        others) :
    ∃ behind later later',
      Spells ['/'] first behind later ∧
        Spells ['/'] second behind later' := by
  rcases (spells_literal_cons_iff _ _ _ _).mp hFirst with
    ⟨rest, later, hStart, -, hRest⟩
  rcases (spells_literal_cons_iff _ _ _ _).mp hSecond with
    ⟨left, later', hAgain, -, hLeft⟩
  rw [hStart] at hAgain
  cases List.append_cancel_left hAgain
  exact ⟨_, later, later', hRest, hLeft⟩

/- Literals that both can start what is spelled are equal. -/
theorem AreWritten.eq_of_spells
    {x y : Text}
    {first second : List Edge}
    (hFirst : AreWritten (.literal x :: first))
    (hSecond : AreWritten (.literal y :: second))
    {separator : Text}
    {start : Place}
    {texts others : List (Option Text)}
    (hSpells :
      Spells separator (.literal x :: first) start texts)
    (hOther :
      Spells separator (.literal y :: second) start others) :
    x = y := by
  rcases hFirst.exists_labels with ⟨labels, hCut, hLast⟩
  rcases hSecond.exists_labels with
    ⟨labels', hCut', hLast'⟩
  rcases (spells_literal_cons_iff _ _ _ _).mp hSpells with
    ⟨rest, _, hStart, rfl, hRest⟩
  rcases (spells_literal_cons_iff _ _ _ _).mp hOther with
    ⟨left, _, hAgain, rfl, hLeft⟩
  rw [hStart, List.append_assoc, List.append_assoc] at hAgain
  exact
    hCut.eq_of_append_eq hCut'
      (List.append_cancel_left hAgain)
      (hRest.head?_rest hFirst.later)
      (hLeft.head?_rest hSecond.later)
      (fun hNone => hRest.rest_eq_nil (hLast hNone))
      (fun hNone => hLeft.rest_eq_nil (hLast' hNone))

end Edge

namespace Step

variable {E : Engine}

/- Steps follow the labels of their patterns. -/
theorem followLabels_of_ofPatternsFrom
    {path : Text}
    {first : Bool}
    {patterns : List (Pattern E)}
    {steps : List Step}
    (hSteps :
      ofPatternsFrom path first patterns = .ok steps) :
    Edge.FollowLabels (edges steps)
      (patterns.map Pattern.label) := by
  induction patterns generalizing first steps with
  | nil =>
      rw [eq_nil_of_ofPatternsFrom_nil hSteps]
      exact .nil
  | cons pattern rest ih =>
      rcases exists_of_ofPatternsFrom_cons hSteps with
        ⟨later, hLater, rfl⟩
      refine .cons ?_ (ih hLater)
      intro text hText
      cases pattern with
      | literal => exact (Edge.literal.inj hText).symm
      | param | constrained => cases hText
      | wildcard =>
          simp only [Pattern.edge, wildcardEdge, Edge.segment]
            at hText
          split at hText
          · cases hText
          · split at hText <;> cases hText

/- Only a wildcard at the start stands for a whole path. -/
theorem any_not_mem_of_ofPatternsFrom
    {path : Text}
    {patterns : List (Pattern E)}
    {steps : List Step}
    (hSteps :
      ofPatternsFrom path false patterns = .ok steps) :
    Edge.any ∉ edges steps := by
  induction patterns generalizing steps with
  | nil =>
      rw [eq_nil_of_ofPatternsFrom_nil hSteps]
      simp [edges]
  | cons pattern rest ih =>
      rcases exists_of_ofPatternsFrom_cons hSteps with
        ⟨later, hLater, rfl⟩
      intro hMember
      rcases List.mem_cons.mp hMember with hOwn | hRest
      · exact pattern.edge_ne_any rest.isEmpty hOwn.symm
      · exact ih hLater hRest

/- The edges of a path's steps are written. -/
theorem areWritten_of_ofPatterns
    {path : Text}
    {patterns : List (Pattern E)}
    (hParse : Pattern.parsePath path = .ok patterns)
    {steps : List Step}
    (hSteps : ofPatterns path patterns = .ok steps) :
    Edge.AreWritten (edges steps) := by
  have hLabels := followLabels_of_ofPatternsFrom hSteps
  rw [Pattern.map_label_of_parsePath hParse] at hLabels
  refine ⟨?_, _, Path.areCut_splitFrom 0 path, hLabels⟩
  cases patterns with
  | nil =>
      rw [eq_nil_of_ofPatternsFrom_nil hSteps]
      simp [edges]
  | cons pattern rest =>
      rcases exists_of_ofPatternsFrom_cons hSteps with
        ⟨later, hLater, rfl⟩
      exact any_not_mem_of_ofPatternsFrom hLater

/- Steps are literal if their edges are. -/
theorem allLiteral_eq
    (steps : List Step) :
    allLiteral steps = (edges steps).all Edge.isLiteral := by
  rw [edges, List.all_map]
  rfl

end Step

end RequestRouter

------------------------------------------------------------
-- Precedence
------------------------------------------------------------

namespace RequestRouter

open Regex

namespace TreeNode

/- Whether the edges to all leaves are written. -/
def IsWritten
    (node : TreeNode) : Prop :=
  ∀ edges trail leaf, node.HasLeaf edges trail leaf →
    Edge.AreWritten edges

/- What holds of a node holds of its children. -/
theorem IsWritten.child
    {node : TreeNode}
    (hWritten : node.IsWritten)
    {entry : Edge × TreeNode}
    (hEntry : entry ∈ node.children) :
    entry.2.IsWritten := by
  intro edges trail leaf hHas
  exact
    (hWritten (entry.1 :: edges) (entry.2.id :: trail) leaf
      (.child hEntry hHas)).tail

variable {node : TreeNode}
variable {separator : Text}
variable {start : Place}

/- Edges to the foremost leaf lead to a leaf, and spell. -/
theorem IsForemost.exists_spells
    {edges : List Edge}
    (hForemost : IsForemost node separator start edges) :
    ∃ trail leaf texts,
      node.HasLeaf edges trail leaf ∧
        Edge.Spells separator edges start texts := by
  induction hForemost with
  | here hLeaf hEnd =>
      exact ⟨[], _, [], .here hLeaf, .nil hEnd⟩
  | @child node _ _ _ before after edge child caught _
      hOrdered _ _ hPass _ ih =>
      rcases ih with ⟨trail, leaf, texts, hHas, hSpells⟩
      have hEntry : (edge, child) ∈ node.children := by
        rw [← mem_ordered_iff, hOrdered]
        simp
      exact
        ⟨child.id :: trail, leaf, caught :: texts,
          .child hEntry hHas, .cons hPass hSpells⟩

/-
  Beside an edge, another that is not open and spells what
  it spells comes before it.
-/
theorem rank_lt_of_spells
    (hNode : node.IsOrderly)
    (hWritten : node.IsWritten)
    {a b : Edge}
    {first second : List Edge}
    {trail trail' : List Nat}
    {leaf leaf' : Nat}
    {texts texts' : List (Option Text)}
    (hFirst : node.HasLeaf (a :: first) trail leaf)
    (hSecond : node.HasLeaf (b :: second) trail' leaf')
    (hSpells :
      Edge.Spells separator (a :: first) start texts)
    (hOther :
      Edge.Spells separator (b :: second) start texts')
    (hApart : a ≠ b)
    (hClosed : b.isOpenEnded = false) :
    b.rank < a.rank := by
  have hTidy := hNode.tidy
  have hOwn : a ∈ node.edges := by
    rcases (hasLeaf_cons_iff _ _ _ _ _).mp hFirst with
      ⟨child, _, hChild, -, -⟩
    exact List.mem_map_of_mem (f := Prod.fst) hChild
  have hBeside : b ∈ node.edges := by
    rcases (hasLeaf_cons_iff _ _ _ _ _).mp hSecond with
      ⟨child, _, hChild, -, -⟩
    exact List.mem_map_of_mem (f := Prod.fst) hChild
  cases b with
  | tail | any => cases hClosed
  | literal y =>
      cases a with
      | tail | any => simp [Edge.rank]
      | capture source groups =>
          cases hTidy.apart hOwn hBeside rfl
      | literal x =>
          have hSame :=
            (hWritten _ _ _ hFirst).eq_of_spells
              (hWritten _ _ _ hSecond) hSpells hOther
          exact absurd (congrArg Edge.literal hSame) hApart
  | capture source groups =>
      cases a with
      | tail | any => simp [Edge.rank]
      | literal x =>
          cases hTidy.apart hBeside hOwn rfl
      | capture other count =>
          exact
            absurd (hTidy.alone hOwn hBeside rfl rfl) hApart

/- A child of lower rank comes before the others. -/
theorem mem_of_rank_lt
    {before after : List (Edge × TreeNode)}
    {entry other : Edge × TreeNode}
    (hOrdered : node.ordered = before ++ entry :: after)
    (hOther : other ∈ node.children)
    (hRank : other.1.rank < entry.1.rank) :
    other ∈ before := by
  have hPlace := (mem_ordered_iff _ _).mpr hOther
  have hSorted := node.pairwise_ordered
  rw [hOrdered] at hPlace hSorted
  rcases List.mem_append.mp hPlace with hFront | hBehind
  · exact hFront
  · have hTail := (List.pairwise_append.mp hSorted).2.1
    rcases List.mem_cons.mp hBehind with rfl | hAfter
    · exact absurd hRank (Nat.lt_irrefl _)
    · have hLe := (List.pairwise_cons.mp hTail).1 _ hAfter
      exact absurd hRank (Nat.not_lt.mpr hLe)

/-
  Behind children that do not go on, what one branch spells
  no other does, unless it is open.
-/
theorem eq_of_not_goesOn
    (hNode : node.IsOrderly)
    (hWritten : node.IsWritten)
    {before after : List (Edge × TreeNode)}
    {a b : Edge}
    {child : TreeNode}
    (hOrdered : node.ordered = before ++ (a, child) :: after)
    (hBefore :
      ∀ earlier ∈ before, ¬ GoesOn separator start earlier)
    {first second : List Edge}
    {trail trail' : List Nat}
    {leaf leaf' : Nat}
    {texts texts' : List (Option Text)}
    (hFirst : node.HasLeaf (a :: first) trail leaf)
    (hSecond : node.HasLeaf (b :: second) trail' leaf')
    (hSpells :
      Edge.Spells separator (a :: first) start texts)
    (hOther :
      Edge.Spells separator (b :: second) start texts')
    (hClosed : b.isOpenEnded = false) :
    a = b := by
  by_contra hApart
  have hRank :=
    rank_lt_of_spells hNode hWritten hFirst hSecond hSpells
      hOther hApart hClosed
  rcases (hasLeaf_cons_iff _ _ _ _ _).mp hSecond with
    ⟨beside, below, hBeside, rfl, hBelow⟩
  have hEarlier : (b, beside) ∈ before :=
    mem_of_rank_lt hOrdered hBeside hRank
  exact
    hBefore _ hEarlier
      ⟨second, below, leaf', texts', hBelow, hOther⟩

/-
  Edges that part early from those to the foremost leaf, and
  spell what these spell, cover them.
-/
theorem IsForemost.covers
    {edges : List Edge}
    (hForemost : IsForemost node separator start edges)
    (hNode : node.IsOrderly)
    (hWritten : node.IsWritten)
    {others : List Edge}
    {trail : List Nat}
    {leaf : Nat}
    (hHas : node.HasLeaf others trail leaf)
    {texts : List (Option Text)}
    (hSpells : Edge.Spells separator others start texts)
    (hStart : separator = ['/'] ∨ edges ≠ [])
    (hEarly : Edge.PartEarly edges others) :
    Edge.Covers others edges := by
  induction hForemost generalizing others trail texts with
  | @here node separator start _ hLeaf hEnd =>
      cases others with
      | nil => exact Or.inl rfl
      | cons b rest =>
          cases hOpen : b.isOpenEnded with
          | true => exact hNode.covers_of_open hOpen hHas []
          | false =>
              rcases hStart with rfl | hSome
              · cases hSpells with
                | cons hPass _ =>
                    exact
                      absurd hEnd (hPass.rest_ne_nil hOpen)
              · exact absurd rfl hSome
  | @child node separator start middle before after a child
      caught edges hOrdered hOwn hBefore hPass hBelow ih =>
      have hEntry : (a, child) ∈ node.children := by
        rw [← mem_ordered_iff, hOrdered]
        simp
      rcases hBelow.exists_spells with
        ⟨ownTrail, ownLeaf, ownTexts, hOwnHas, hOwnSpells⟩
      cases others with
      | nil =>
          have hLeaf :=
            ((hasLeaf_nil_iff _ _ _).mp hHas).2
          exact
            absurd (hSpells.rest_eq_nil rfl)
              (hOwn (by simp [hLeaf]))
      | cons b rest =>
          cases hOpen : b.isOpenEnded with
          | true => exact hNode.covers_of_open hOpen hHas _
          | false =>
              have hSame : a = b :=
                eq_of_not_goesOn hNode hWritten hOrdered
                  hBefore (.child hEntry hOwnHas) hHas
                  (.cons hPass hOwnSpells) hSpells hOpen
              subst hSame
              rcases (hasLeaf_cons_iff _ _ _ _ _).mp hHas with
                ⟨other, below, hOther, rfl, hOtherHas⟩
              cases hNode.tidy.eq_of_mem hEntry hOther
              rcases hEarly rfl with rfl | ⟨hInside, hLater⟩
              · exact Or.inl rfl
              · cases hSpells with
                | cons hPass' hRest =>
                    have hMine :=
                      (hWritten _ _ _
                        (.child hEntry hOwnHas)).later
                    have hTheirs :=
                      (hWritten _ _ _
                        (.child hEntry hOtherHas)).later
                    cases
                      hPass.eq_of_staysInside hInside hPass'
                        (hOwnSpells.head?_rest hMine)
                        (hRest.head?_rest hTheirs)
                    apply Edge.covers_cons
                    exact
                      ih (hNode.child hEntry)
                        (hWritten.child hEntry) hOtherHas
                        hRest (Or.inl rfl) hLater

/- The first of literal steps is literal, and the others. -/
theorem exists_text_of_allLiteral
    {step : Step}
    {steps : List Step}
    (hLiteral : Step.allLiteral (step :: steps) = true) :
    (∃ text, step.edge = .literal text) ∧
      Step.allLiteral steps = true := by
  rw [Step.allLiteral, List.all_cons, Bool.and_eq_true]
    at hLiteral
  refine ⟨?_, hLiteral.2⟩
  cases hEdge : step.edge with
  | literal text => exact ⟨text, rfl⟩
  | capture | tail | any =>
      simp [hEdge, Edge.isLiteral] at hLiteral

/-
  A leaf that spells an admitted literal path has edges that
  cover those of the path.
-/
theorem covers_of_spells_of_admits
    (hNode : node.IsOrderly)
    {edges : List Edge}
    {trail : List Nat}
    {leaf : Nat}
    (hHas : node.HasLeaf edges trail leaf)
    (hWritten : Edge.AreWritten edges)
    {texts texts' : List (Option Text)}
    (hSpells : Edge.Spells separator edges start texts)
    {steps : List Step}
    (hLiteral : Step.allLiteral steps = true)
    (hOther : Edge.AreWritten (Step.edges steps))
    (hPath :
      Edge.Spells separator (Step.edges steps) start texts')
    (hStart : separator = ['/'] ∨ edges ≠ [] ∧ steps ≠ [])
    (hAdmits : node.admits steps = true) :
    Edge.Covers edges (Step.edges steps) := by
  induction edges generalizing node separator start trail
    texts texts' steps with
  | nil =>
      cases steps with
      | nil => exact Or.inl rfl
      | cons step steps =>
          rcases hStart with rfl | ⟨hSome, -⟩
          case inr => exact absurd rfl hSome
          rcases exists_text_of_allLiteral hLiteral with
            ⟨⟨text, hText⟩, -⟩
          have hClosed : step.edge.isOpenEnded = false := by
            rw [hText]
            rfl
          cases hPath with
          | cons hPass _ =>
              exact
                absurd (hSpells.rest_eq_nil rfl)
                  (hPass.rest_ne_nil hClosed)
  | cons edge rest ih =>
      rcases (hasLeaf_cons_iff _ _ _ _ _).mp hHas with
        ⟨child, below, hChild, rfl, hBelow⟩
      cases hOpen : edge.isOpenEnded with
      | true => exact hNode.covers_of_open hOpen hHas _
      | false =>
          cases steps with
          | nil =>
              rcases hStart with rfl | ⟨-, hSome⟩
              case inr => exact absurd rfl hSome
              cases hSpells with
              | cons hPass _ =>
                  exact
                    absurd (hPath.rest_eq_nil rfl)
                      (hPass.rest_ne_nil hOpen)
          | cons step steps =>
              rcases exists_text_of_allLiteral hLiteral with
                ⟨⟨y, hText⟩, hLater⟩
              cases edge with
              | tail | any => cases hOpen
              | capture source groups =>
                  have hLiteralStep :
                      step.edge.isLiteral = true := by
                    rw [hText]
                    rfl
                  have hRefused :=
                    not_admits_of_capture hNode hChild rfl
                      hLiteralStep steps
                  simp [hRefused] at hAdmits
              | literal x =>
                  have hEdges :
                      Step.edges (step :: steps) =
                        .literal y :: Step.edges steps := by
                    simp [Step.edges, hText]
                  rw [hEdges] at hOther hPath ⊢
                  have hSame :=
                    hWritten.eq_of_spells hOther hSpells hPath
                  subst hSame
                  have hFind :
                      node.child? step.edge = some child := by
                    rw [hText]
                    exact
                      AssocList.find?_eq_some_of_mem
                        hNode.tidy.keyed hChild
                  have hBelowAdmits :
                      child.admits steps = true := by
                    simpa [admits, hFind] using hAdmits
                  rcases hSpells.exists_behind_literal hPath with
                    ⟨behind, _, _, hRest, hOthers⟩
                  apply Edge.covers_cons
                  exact
                    ih (hNode.child hChild) hBelow
                      hWritten.tail hRest hLater hOther.tail
                      hOthers (Or.inl rfl) hBelowAdmits

end TreeNode

end RequestRouter
