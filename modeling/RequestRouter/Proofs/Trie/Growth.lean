import RequestRouter.Proofs.Trie.Bindings

/-
  What a further route does to a trie.

  Adding a route attaches a score that no hit has had. A
  node that is attached to keeps its children in order, and
  gets at most one behind them. So the search meets the
  candidates it met before, in the same order, with others
  between them that lead to the new score only. Without the
  hits of this score, the hits are those from before.

  Key definitions include:
    * `Enlarged`
    * `TrieNode.Grows`
    * `TrieSearch.Outcome.Grows`
    * `TrieSearch.Respects`
    * `Trie.Reachable`
    * `Trie.answer`

  Main statements:
    * `TrieSearch.grows_visit`
    * `TrieSearch.filter_run`
    * `TrieSearch.filter_hits_attachAll`
    * `Trie.extends_answer_adds`
    * `Trie.lookup_add`
-/

------------------------------------------------------------
-- Enlarged Lists
------------------------------------------------------------

namespace RequestRouter

variable {α β γ δ : Type}

/-
  Whether a list comes from another one by changing members
  in their places and by putting new members between them.
-/
inductive Enlarged
    (changed : α → β → Prop)
    (new : β → Prop) :
    List α → List β → Prop
  | nil : Enlarged changed new [] []
  | kept
      {old : α} {member : β}
      {olds : List α} {members : List β}
      (hMember : changed old member)
      (hRest : Enlarged changed new olds members) :
      Enlarged changed new (old :: olds) (member :: members)
  | added
      {member : β}
      {olds : List α} {members : List β}
      (hMember : new member)
      (hRest : Enlarged changed new olds members) :
      Enlarged changed new olds (member :: members)

namespace Enlarged

variable {changed : α → β → Prop} {new : β → Prop}
variable {olds : List α} {members : List β}

/- Members may all stay. -/
theorem refl
    {changed : α → α → Prop}
    (hRefl : ∀ item, changed item item)
    (new : α → Prop)
    (items : List α) :
    Enlarged changed new items items := by
  induction items with
  | nil => exact .nil
  | cons item items ih => exact .kept (hRefl item) ih

/- Lists that are enlarged are enlarged in a row. -/
theorem append
    (hFirst : Enlarged changed new olds members)
    {others : List α}
    {more : List β}
    (hSecond : Enlarged changed new others more) :
    Enlarged changed new (olds ++ others)
      (members ++ more) := by
  induction hFirst with
  | nil => exact hSecond
  | kept hMember _ ih => exact .kept hMember ih
  | added hMember _ ih => exact .added hMember ih

/- So are their parts, if changes do not move members. -/
theorem filter
    {p : α → Bool}
    {q : β → Bool}
    (hSame :
      ∀ old member, changed old member → p old = q member)
    (hAll : Enlarged changed new olds members) :
    Enlarged changed new (olds.filter p)
      (members.filter q) := by
  induction hAll with
  | nil => exact .nil
  | @kept old member _ _ hMember _ ih =>
      rw [List.filter_cons, List.filter_cons,
        hSame old member hMember]
      split
      · exact .kept hMember ih
      · exact ih
  | @added member _ _ hMember _ ih =>
      rw [List.filter_cons]
      split
      · exact .added hMember ih
      · exact ih

/- So are their images. -/
theorem map
    {changed' : γ → δ → Prop}
    {new' : δ → Prop}
    {f : α → γ}
    {g : β → δ}
    (hKept :
      ∀ old member, changed old member →
        changed' (f old) (g member))
    (hAdded : ∀ member, new member → new' (g member))
    (hAll : Enlarged changed new olds members) :
    Enlarged changed' new' (olds.map f) (members.map g) := by
  induction hAll with
  | nil => exact .nil
  | kept hMember _ ih => exact .kept (hKept _ _ hMember) ih
  | added hMember _ ih => exact .added (hAdded _ hMember) ih

end Enlarged

end RequestRouter

------------------------------------------------------------
-- Nodes That Grow
------------------------------------------------------------

namespace RequestRouter

variable {E : Regex.Engine}

namespace TrieNode

variable {registered : Text} {score : Nat}

/-
  Whether a node is what it was, or has had a score attached
  somewhere below it.
-/
def Grows
    (registered : Text)
    (score : Nat)
    (old node : TrieNode E) : Prop :=
  node = old ∨
    ∃ patterns, node = attach registered score patterns old

/- A node may stay as it is. -/
theorem grows_refl
    (node : TrieNode E) :
    Grows registered score node node :=
  Or.inl rfl

/- An attachment lets a node grow. -/
theorem grows_attach
    (patterns : List (Pattern E))
    (old : TrieNode E) :
    Grows registered score old
      (attach registered score patterns old) :=
  Or.inr ⟨patterns, rfl⟩

/- A node that grows gets no score but the attached one. -/
theorem filter_scoresFor_of_grows
    {old node : TrieNode E}
    (hGrows : Grows registered score old node)
    (method : Text) :
    (node.scores.scoresFor method).filter (· != score) =
      (old.scores.scoresFor method).filter (· != score) := by
  rcases hGrows with rfl | ⟨patterns, rfl⟩
  · rfl
  · cases patterns with
    | nil =>
        change
          ((old.scores.attach registered score).scoresFor
            method).filter _ = _
        rw [MethodTable.scoresFor_attach]
        split
        · simp
        · rfl
    | cons pattern rest => cases pattern <;> rfl

/- Whether children are those from before, and new ones. -/
abbrev ChildrenGrow
    (registered : Text)
    (score : Nat) :
    List (TrieNode E) → List (TrieNode E) → Prop :=
  Enlarged (Grows registered score)
    (Grows registered score empty)

/- An attachment changes a child or makes it. -/
theorem childrenGrow_attach
    (patterns : List (Pattern E))
    (child? : Option (TrieNode E)) :
    ChildrenGrow registered score child?.toList
      [attach registered score patterns
        (child?.getD empty)] := by
  cases child? with
  | none => exact .added (grows_attach _ _) .nil
  | some child => exact .kept (grows_attach _ _) .nil

/- The literal child of a node that grows. -/
theorem childrenGrow_literal?
    {old node : TrieNode E}
    (hGrows : Grows registered score old node)
    (text : Text) :
    ChildrenGrow registered score
      (old.literal? text).toList
      (node.literal? text).toList := by
  have hSame :
      ChildrenGrow registered score
        (old.literal? text).toList
        (old.literal? text).toList :=
    .refl grows_refl _ _
  rcases hGrows with rfl | ⟨patterns, rfl⟩
  · exact hSame
  · cases patterns with
    | nil => exact hSame
    | cons pattern rest =>
        cases pattern with
        | literal own =>
            rw [literal?_attach_literal]
            split
            case isTrue hText =>
                subst hText
                exact childrenGrow_attach rest _
            case isFalse => exact hSame
        | wildcard => exact hSame
        | param => exact hSame
        | constrained => exact hSame

/- The wildcard child of a node that grows. -/
theorem childrenGrow_wildcard
    {old node : TrieNode E}
    (hGrows : Grows registered score old node) :
    ChildrenGrow registered score old.wildcard.toList
      node.wildcard.toList := by
  have hSame :
      ChildrenGrow registered score old.wildcard.toList
        old.wildcard.toList :=
    .refl grows_refl _ _
  rcases hGrows with rfl | ⟨patterns, rfl⟩
  · exact hSame
  · cases patterns with
    | nil => exact hSame
    | cons pattern rest =>
        cases pattern with
        | wildcard => exact childrenGrow_attach rest _
        | literal => exact hSame
        | param => exact hSame
        | constrained => exact hSame

/- Whether a parameter child is one that has grown. -/
def EntryGrows
    (registered : Text)
    (score : Nat)
    (old entry : Pattern E × TrieNode E) : Prop :=
  entry.1 = old.1 ∧ Grows registered score old.2 entry.2

/- The parameter children of a node that grows. -/
theorem enlarged_params
    {old node : TrieNode E}
    (hGrows : Grows registered score old node) :
    Enlarged (EntryGrows registered score)
      (fun entry => Grows registered score empty entry.2)
      old.params node.params := by
  have hSame :
      ∀ entries : List (Pattern E × TrieNode E),
        Enlarged (EntryGrows registered score)
          (fun entry =>
            Grows registered score empty entry.2)
          entries entries :=
    .refl (fun _ => ⟨rfl, grows_refl _⟩) _
  rcases hGrows with rfl | ⟨patterns, rfl⟩
  · exact hSame _
  · cases patterns with
    | nil => exact hSame _
    | cons pattern rest =>
        by_cases hParam : pattern.IsParam
        · rw [attach_param_cons hParam]
          change Enlarged _ _ old.params
            (AssocList.upsert _ _ _ _ old.params)
          induction old.params with
          | nil => exact .added (grows_attach _ _) .nil
          | cons entry entries ih =>
              rw [AssocList.upsert]
              split
              · exact
                  .kept ⟨rfl, grows_attach _ _⟩
                    (hSame entries)
              · exact .kept ⟨rfl, grows_refl _⟩ ih
        · cases pattern with
          | literal => exact hSame _
          | wildcard => exact hSame _
          | param => exact absurd rfl hParam
          | constrained => exact absurd rfl hParam

end TrieNode

end RequestRouter

------------------------------------------------------------
-- Outcomes That Grow
------------------------------------------------------------

namespace RequestRouter

namespace TrieSearch

variable {E : Regex.Engine}
variable {registered : Text} {score : Nat}

/-
  Whether a waiting candidate waits where another one does,
  at a node that has grown.
-/
def Resumes
    (registered : Text)
    (score : Nat)
    (old entry : Nat × Candidate E) : Prop :=
  entry.1 = old.1 ∧
    entry.2.bindings = old.2.bindings ∧
      TrieNode.Grows registered score old.2.node entry.2.node

/- Whether it waits at a node with the new score only. -/
def Begins
    (registered : Text)
    (score : Nat)
    (entry : Nat × Candidate E) : Prop :=
  TrieNode.Grows registered score .empty entry.2.node

/-
  Whether an outcome is another one, apart from hits of the
  new score and from candidates that lead to it.
-/
structure Outcome.Grows
    (registered : Text)
    (score : Nat)
    (old outcome : Outcome E) : Prop where
  hits :
    outcome.hits.filter (·.score != score) =
      old.hits.filter (·.score != score)
  resumed :
    Enlarged (Resumes registered score)
      (Begins registered score) old.resumed outcome.resumed

/- Nothing grows by staying. -/
theorem grows_nothing :
    (Outcome.nothing : Outcome E).Grows registered score
      .nothing :=
  ⟨rfl, .nil⟩

/- Outcomes in a row grow with the first and the others. -/
theorem grows_concat_cons
    {old outcome : Outcome E}
    {olds outcomes : List (Outcome E)}
    (hFirst : old.Grows registered score outcome)
    (hRest :
      (Outcome.concat olds).Grows registered score
        (Outcome.concat outcomes)) :
    (Outcome.concat (old :: olds)).Grows registered score
      (Outcome.concat (outcome :: outcomes)) := by
  refine ⟨?_, hFirst.resumed.append hRest.resumed⟩
  simp only [Outcome.concat, List.flatMap_cons,
    List.filter_append]
  exact congrArg₂ _ hFirst.hits hRest.hits

/- New ones between them give the new score alone. -/
theorem grows_concat
    {olds outcomes : List (Outcome E)}
    (hAll :
      Enlarged (Outcome.Grows registered score)
        (Outcome.Grows registered score .nothing) olds
        outcomes) :
    (Outcome.concat olds).Grows registered score
      (Outcome.concat outcomes) := by
  induction hAll with
  | nil => exact grows_nothing
  | kept hOutcome _ ih => exact grows_concat_cons hOutcome ih
  | added hOutcome _ ih =>
      exact grows_concat_cons hOutcome ih

/-
  Whether a way of visiting children lets outcomes grow with
  nodes, and gives the new score alone at new nodes.
-/
structure Respects
    (registered : Text)
    (score : Nat)
    (visited : TrieNode E → Outcome E) : Prop where
  kept :
    ∀ {old node}, TrieNode.Grows registered score old node →
      (visited old).Grows registered score (visited node)
  added :
    ∀ {node}, TrieNode.Grows registered score .empty node →
      Outcome.nothing.Grows registered score (visited node)

namespace Respects

/- Visiting nothing. -/
theorem nothing :
    Respects registered score
      fun _ : TrieNode E => .nothing where
  kept _ := grows_nothing
  added _ := grows_nothing

/- Two visits one after the other. -/
theorem both
    {first second : TrieNode E → Outcome E}
    (hFirst : Respects registered score first)
    (hSecond : Respects registered score second) :
    Respects registered score fun node =>
      .concat [first node, second node] where
  kept hGrows :=
    grows_concat
      (.kept (hFirst.kept hGrows)
        (.kept (hSecond.kept hGrows) .nil))
  added hGrows :=
    grows_concat
      (.added (hFirst.added hGrows)
        (.added (hSecond.added hGrows) .nil))

/- Several visits in a row. -/
theorem all
    {ι : Type}
    {visited : ι → TrieNode E → Outcome E}
    (hEach :
      ∀ index, Respects registered score (visited index))
    (indices : List ι) :
    Respects registered score fun node =>
      .concat (indices.map (visited · node)) where
  kept hGrows := by
    apply grows_concat
    induction indices with
    | nil => exact .nil
    | cons index indices ih =>
        exact .kept ((hEach index).kept hGrows) ih
  added hGrows := by
    change (Outcome.concat []).Grows _ _ _
    apply grows_concat
    induction indices with
    | nil => exact .nil
    | cons index indices ih =>
        exact .added ((hEach index).added hGrows) ih

/- A visit that gives nothing at empty nodes. -/
theorem of_kept
    {visited : TrieNode E → Outcome E}
    (hKept :
      ∀ {old node}, TrieNode.Grows registered score old node →
        (visited old).Grows registered score (visited node))
    (hEmpty : visited .empty = .nothing) :
    Respects registered score visited where
  kept := hKept
  added hGrows := hEmpty ▸ hKept hGrows

/- A visit of all children of one kind. -/
theorem children
    {visited : TrieNode E → Outcome E}
    (hVisited : Respects registered score visited)
    {olds nodes : List (TrieNode E)}
    (hNodes :
      TrieNode.ChildrenGrow registered score olds nodes) :
    (Outcome.concat (olds.map visited)).Grows registered score
      (Outcome.concat (nodes.map visited)) :=
  grows_concat <|
    hNodes.map (fun _ _ hGrows => hVisited.kept hGrows)
      fun _ hGrows => hVisited.added hGrows

/- The hits at a node. -/
theorem collect
    (method : Text)
    (bindings : Bindings) :
    Respects registered score fun node : TrieNode E =>
      ⟨TrieSearch.collect method node bindings, []⟩ := by
  refine of_kept (fun {old node} hGrows => ⟨?_, .nil⟩) rfl
  have hScores :=
    TrieNode.filter_scoresFor_of_grows hGrows method
  unfold TrieSearch.collect
  rw [List.filter_map, List.filter_map]
  exact congrArg (List.map _) hScores

/- The hits at the wildcard child of a node. -/
theorem collectTail
    (method : Text)
    (bindings : Bindings) :
    Respects registered score fun node : TrieNode E =>
      ⟨TrieSearch.collectTail method node bindings, []⟩ := by
  have hConcat :
      ∀ node : TrieNode E,
        (⟨TrieSearch.collectTail method node bindings, []⟩ :
            Outcome E) =
          .concat (node.wildcard.toList.map fun child =>
            ⟨TrieSearch.collect method child bindings, []⟩) := by
    intro node
    unfold TrieSearch.collectTail
    cases node.wildcard <;> simp [Outcome.concat]
  refine of_kept (fun {old node} hGrows => ?_) rfl
  rw [hConcat, hConcat]
  exact
    (collect method bindings).children
      (TrieNode.childrenGrow_wildcard hGrows)

/- A node to be visited later. -/
theorem resume
    (bindings : Bindings)
    (gap : Nat) :
    Respects registered score fun node : TrieNode E =>
      ⟨[], [(gap, ⟨node, bindings⟩)]⟩ where
  kept hGrows := ⟨rfl, .kept ⟨rfl, rfl, hGrows⟩ .nil⟩
  added hGrows := ⟨rfl, .added hGrows .nil⟩

/- Coming to a node. -/
theorem arrive
    (method : Text)
    (rest : List Text)
    (bindings : Bindings)
    (gap : Nat) :
    Respects registered score fun node : TrieNode E =>
      TrieSearch.arrive method rest node bindings gap := by
  unfold TrieSearch.arrive
  split
  · simpa [Outcome.concat] using
      (collect method bindings).both
        (collectTail method bindings)
  · exact resume bindings gap

end Respects

end TrieSearch

end RequestRouter

------------------------------------------------------------
-- Searches That Grow
------------------------------------------------------------

namespace RequestRouter

namespace TrieSearch

variable {E : Regex.Engine}
variable {registered : Text} {score : Nat}

/- What the literal child gives grows with the node. -/
theorem grows_visitLiteral
    {old node : TrieNode E}
    (hGrows : TrieNode.Grows registered score old node)
    (method part : Text)
    (rest : List Text)
    (bindings : Bindings) :
    (visitLiteral method part rest ⟨old, bindings⟩).Grows
      registered score
      (visitLiteral method part rest ⟨node, bindings⟩) := by
  have hConcat :
      ∀ own : TrieNode E,
        visitLiteral method part rest ⟨own, bindings⟩ =
          .concat ((own.literal? part).toList.map fun child =>
            arrive method rest child bindings 0) := by
    intro own
    unfold visitLiteral
    cases own.literal? part <;>
      simp [Outcome.concat, Outcome.nothing]
  rw [hConcat, hConcat]
  exact
    (Respects.arrive method rest bindings 0).children
      (TrieNode.childrenGrow_literal? hGrows part)

/- What the wildcard child gives behind its own hits. -/
def passWildcard
    (method part : Text)
    (rest : List Text)
    (bindings : Bindings)
    (child : TrieNode E) : Outcome E :=
  if part.isEmpty then .nothing
  else if rest.isEmpty then
    ⟨collectTail method child bindings, []⟩
  else ⟨[], [(0, ⟨child, bindings⟩)]⟩

/- The wildcard child gives its hits, and what it passes. -/
theorem visitWildcard_eq_concat
    (method part : Text)
    (rest : List Text)
    (node : TrieNode E)
    (bindings : Bindings) :
    visitWildcard method part rest ⟨node, bindings⟩ =
      .concat (node.wildcard.toList.map fun child =>
        .concat
          [⟨collect method child bindings, []⟩,
            passWildcard method part rest bindings
              child]) := by
  unfold visitWildcard passWildcard
  cases node.wildcard with
  | none => simp [Outcome.concat, Outcome.nothing]
  | some child =>
      dsimp only
      split
      · simp [Outcome.concat, Outcome.nothing]
      · split <;> simp [Outcome.concat]

/- What the wildcard child gives grows with the node. -/
theorem grows_visitWildcard
    {old node : TrieNode E}
    (hGrows : TrieNode.Grows registered score old node)
    (method part : Text)
    (rest : List Text)
    (bindings : Bindings) :
    (visitWildcard method part rest ⟨old, bindings⟩).Grows
      registered score
      (visitWildcard method part rest ⟨node, bindings⟩) := by
  have hPass :
      Respects (E := E) registered score
        (passWildcard method part rest bindings) := by
    unfold passWildcard
    split
    · exact .nothing
    · split
      · exact .collectTail method bindings
      · exact .resume bindings 0
  rw [visitWildcard_eq_concat, visitWildcard_eq_concat]
  exact
    ((Respects.collect method bindings).both hPass).children
      (TrieNode.childrenGrow_wildcard hGrows)

/- What a parameter child gives grows with the child. -/
theorem respects_visitParam
    (method part : Text)
    (rest : List Text)
    (candidate : Candidate E)
    (pattern : Pattern E) :
    Respects registered score fun child =>
      visitParam method part rest candidate
        (pattern, child) := by
  cases pattern with
  | literal => exact .nothing
  | wildcard => exact .nothing
  | param name =>
      unfold visitParam
      dsimp only
      split
      · exact .nothing
      · exact .arrive method rest _ 0
  | constrained name constraint =>
      unfold visitParam
      dsimp only
      refine .all (fun gap => ?_) _
      split
      · exact .arrive method rest _ gap
      · exact .nothing

/- It does not depend on the node it is a child of. -/
theorem visitParam_eq_of_bindings
    (method part : Text)
    (rest : List Text)
    (old node : TrieNode E)
    (bindings : Bindings) :
    visitParam method part rest ⟨old, bindings⟩ =
      visitParam method part rest ⟨node, bindings⟩ := by
  funext entry
  rcases entry with ⟨pattern, child⟩
  cases pattern <;> rfl

/- What a candidate gives grows with its node. -/
theorem grows_visit
    {old node : TrieNode E}
    (hGrows : TrieNode.Grows registered score old node)
    (method part : Text)
    (rest : List Text)
    (bindings : Bindings) :
    (visit method part rest ⟨old, bindings⟩).Grows registered
      score (visit method part rest ⟨node, bindings⟩) := by
  apply grows_concat
  refine
    .kept (grows_visitLiteral hGrows method part rest bindings)
      (.kept
        (grows_visitWildcard hGrows method part rest bindings)
        ?_)
  rw [visitParam_eq_of_bindings method part rest old node]
  refine (TrieNode.enlarged_params hGrows).map ?_ ?_
  · rintro ⟨_, before⟩ ⟨pattern, child⟩ ⟨rfl, hChild⟩
    exact
      (respects_visitParam method part rest _ pattern).kept
        hChild
  · rintro ⟨pattern, child⟩ hChild
    exact
      (respects_visitParam method part rest _ pattern).added
        hChild

/- A candidate at an empty node gives nothing. -/
theorem visit_empty
    (method part : Text)
    (rest : List Text)
    (bindings : Bindings) :
    visit (E := E) method part rest ⟨.empty, bindings⟩ =
      .nothing :=
  rfl

/-
  Candidates that wait at nodes that have grown give the
  hits from before, apart from those of the new score; and
  new candidates between them give no others.
-/
theorem filter_run
    {olds waiting : List (Nat × Candidate E)}
    (hWaiting :
      Enlarged (Resumes registered score)
        (Begins registered score) olds waiting)
    (method : Text)
    (parts : List Text) :
    (run method parts waiting).filter (·.score != score) =
      (run method parts olds).filter (·.score != score) := by
  induction parts generalizing olds waiting with
  | nil => rfl
  | cons part rest ih =>
      have hVisits :
          (Outcome.concat
            ((olds.filter (·.1 == 0)).map fun entry =>
              visit method part rest entry.2)).Grows
            registered score
            (Outcome.concat
              ((waiting.filter (·.1 == 0)).map fun entry =>
                visit method part rest entry.2)) := by
        apply grows_concat
        refine (hWaiting.filter ?_).map ?_ ?_
        · rintro old entry ⟨hGap, -⟩
          rw [hGap]
        · rintro ⟨_, old, _⟩ ⟨gap, node, bindings⟩
            ⟨rfl, rfl, hNode⟩
          exact grows_visit hNode method part rest bindings
        · rintro ⟨gap, node, bindings⟩ hNode
          rw [← visit_empty method part rest bindings]
          exact grows_visit hNode method part rest bindings
      have hLater :
          Enlarged (Resumes registered score)
            (Begins registered score)
            ((olds.filter (·.1 != 0)).map fun entry =>
              (entry.1 - 1, entry.2))
            ((waiting.filter (·.1 != 0)).map fun entry =>
              (entry.1 - 1, entry.2)) := by
        refine (hWaiting.filter ?_).map ?_ ?_
        · rintro old entry ⟨hGap, -⟩
          rw [hGap]
        · rintro old entry ⟨hGap, hRest⟩
          exact ⟨congrArg (· - 1) hGap, hRest⟩
        · exact fun _ hNode => hNode
      simp only [run, List.filter_append]
      rw [hVisits.hits, ih (hLater.append hVisits.resumed)]

/- The hits from before are the hits of other scores. -/
theorem filter_hits
    {old root : TrieNode E}
    (hGrows : TrieNode.Grows registered score old root)
    (method path : Text) :
    (hits root method path).filter (·.score != score) =
      (hits old method path).filter (·.score != score) := by
  have hStart :
      Enlarged (Resumes registered score)
        (Begins registered score) [(0, ⟨old, []⟩)]
        [(0, ⟨root, []⟩)] :=
    .kept ⟨rfl, rfl, hGrows⟩ .nil
  exact filter_run hStart method _

/- So it is behind several attachments. -/
theorem filter_hits_attachAll
    (registered : Text)
    (variants : List (List (Pattern E)))
    (root : TrieNode E)
    (method path : Text) :
    (hits (root.attachAll registered score variants) method
        path).filter (·.score != score) =
      (hits root method path).filter (·.score != score) := by
  induction variants generalizing root with
  | nil => rfl
  | cons patterns rest ih =>
      exact
        (ih (root.attach registered score patterns)).trans
          (filter_hits (TrieNode.grows_attach patterns root)
            method path)

end TrieSearch

end RequestRouter

------------------------------------------------------------
-- Answers That Grow
------------------------------------------------------------

namespace RequestRouter

variable {E : Regex.Engine}
variable {H : Type}

namespace Registration

/- A further registration answers behind the others. -/
theorem answering_concat
    (registrations : List (Registration H))
    (registration : Registration H)
    (method path : Text) :
    answering E (registrations ++ [registration]) method
        path =
      answering E registrations method path ++
        if registration.Answers E method path then
          [registration.handler]
        else [] := by
  unfold answering
  rw [List.filter_append, List.map_append]
  by_cases hAnswers : registration.Answers E method path
  · simp [hAnswers]
  · simp [hAnswers]

end Registration

namespace Trie

/-
  The tries that routes lead to. A route that is refused
  leaves a trie as it is, and so leads to no other one.
-/
inductive Reachable : Trie E H → Prop
  | empty : Reachable empty
  | add
      {trie after : Trie E H}
      {registration : Registration H}
      (hTrie : Reachable trie)
      (hAdd : trie.add registration = .ok after) :
      Reachable after

/- A trie that can be reached reflects some registrations. -/
theorem Reachable.exists_reflects
    {trie : Trie E H}
    (hTrie : Reachable trie) :
    ∃ registrations, Reflects registrations trie := by
  induction hTrie with
  | empty => exact ⟨[], reflects_empty⟩
  | @add _ _ registration _ hAdd ih =>
      rcases ih with ⟨registrations, hReflects⟩
      exact
        ⟨registrations ++ [registration],
          reflects_add hReflects hAdd⟩

/- Registrations that all succeed lead to their trie. -/
theorem reachable_of_adds
    {registrations : List (Registration H)}
    {trie : Trie E H}
    (hAdds : registrations.foldlM add empty = .ok trie) :
    Reachable trie := by
  induction registrations using List.reverseRecOn
    generalizing trie with
  | nil =>
      cases hAdds
      exact .empty
  | append_singleton registrations registration ih =>
      rw [Sequence.foldlM_concat_eq_ok_iff] at hAdds
      rcases hAdds with ⟨before, hBefore, hAdd⟩
      exact .add (ih hBefore) hAdd

/- What a lookup gives, where finding no route gives nothing. -/
def answer
    (trie : Trie E H)
    (method path : Text) : Match H :=
  (trie.lookup method path).getD ⟨[], .empty⟩

/- Without an answering registration there are no hits. -/
theorem hits_eq_nil_of_answering
    {registrations : List (Registration H)}
    {trie : Trie E H}
    (hTrie : Reflects registrations trie)
    {method path : Text}
    (hNone :
      Registration.answering E registrations method path =
        []) :
    TrieSearch.hits trie.root method path = [] := by
  rw [List.eq_nil_iff_forall_not_mem]
  intro hit hHit
  rcases
      (mem_hits_iff_of_reflects hTrie method path hit).mp
        hHit with
    ⟨registration, hFound, -⟩
  have hAnswers :=
    (any_score_iff hTrie method path hFound).mp
      (List.any_eq_true.mpr ⟨hit, hHit, by simp⟩)
  simp only [Registration.answering, List.map_eq_nil_iff,
    List.filter_eq_nil_iff, decide_eq_true_eq] at hNone
  exact
    hNone registration (List.mem_of_getElem? hFound) hAnswers

/- The answer is made of the hits, in any case. -/
theorem answer_eq
    {registrations : List (Registration H)}
    {trie : Trie E H}
    (hTrie : Reflects registrations trie)
    (method path : Text) :
    trie.answer method path =
      ⟨Registration.answering E registrations method path,
        trie.paramsOf
          (TrieSearch.hits trie.root method path)⟩ := by
  rw [answer, lookup_eq_ofHandlers? hTrie,
    Match.ofHandlers?]
  split
  case isTrue hNone =>
      rw [List.isEmpty_iff] at hNone
      rw [hits_eq_nil_of_answering hTrie hNone, hNone]
      have hPairs : trie.pairsOf [] = [] := by
        simp [pairsOf]
      change _ = Match.mk [] (.ofList (trie.pairsOf []))
      rw [hPairs]
      rfl
  case isFalse => rfl

/- A route leaves the hits of all earlier scores alone. -/
theorem filter_hits_of_add
    {trie after : Trie E H}
    {registration : Registration H}
    (hAdd : trie.add registration = .ok after)
    (method path : Text)
    {score : Nat}
    (hScore : score < trie.size) :
    (TrieSearch.hits after.root method path).filter
        (·.score == score) =
      (TrieSearch.hits trie.root method path).filter
        (·.score == score) := by
  rcases (Sequence.bind_eq_ok_iff _ _ _).mp hAdd with
    ⟨variants, -, hAfter⟩
  cases hAfter
  have hOther :
      ∀ all : List TrieSearch.Hit,
        all.filter (·.score == score) =
          (all.filter (·.score != trie.size)).filter
            (·.score == score) := by
    intro all
    rw [List.filter_filter]
    refine List.filter_congr fun hit _ => ?_
    by_cases hHit : hit.score = score
    · simp [hHit, Nat.ne_of_lt hScore]
    · simp [hHit]
  rw [hOther, hOther (TrieSearch.hits trie.root method path)]
  exact
    congrArg _
      (TrieSearch.filter_hits_attachAll registration.method
        variants trie.root method path)

/- So its pairs are bound behind those from before. -/
theorem paramsOf_hits_of_add
    {trie after : Trie E H}
    {registration : Registration H}
    (hAdd : trie.add registration = .ok after)
    (method path : Text) :
    after.paramsOf
        (TrieSearch.hits after.root method path) =
      (trie.paramsOf
        (TrieSearch.hits trie.root method path)).insertAll
          (pairsAt (TrieSearch.hits after.root method path)
            trie.size) := by
  have hSize : after.size = trie.size + 1 := by
    rcases (Sequence.bind_eq_ok_iff _ _ _).mp hAdd with
      ⟨variants, -, hAfter⟩
    cases hAfter
    simp [size]
  unfold paramsOf Params.ofList
  rw [hSize, List.range_succ, List.flatMap_append,
    List.flatMap_singleton, Params.insertAll_append]
  congr 2
  refine List.flatMap_congr fun score hScore => ?_
  rw [filter_hits_of_add hAdd method path
    (List.mem_range.mp hScore)]

/- A route extends the parameters of an answer. -/
theorem extends_answer_add
    {trie after : Trie E H}
    (hTrie : Reachable trie)
    {registration : Registration H}
    (hAdd : trie.add registration = .ok after)
    (method path : Text) :
    (after.answer method path).params.Extends
      (trie.answer method path).params := by
  rcases hTrie.exists_reflects with
    ⟨registrations, hReflects⟩
  rw [answer_eq (reflects_add hReflects hAdd),
    answer_eq hReflects, paramsOf_hits_of_add hAdd]
  exact Params.extends_insertAll _ _

/- So do all routes that come behind one another. -/
theorem extends_answer_adds
    {trie after : Trie E H}
    (hTrie : Reachable trie)
    {registrations : List (Registration H)}
    (hAdds : registrations.foldlM add trie = .ok after)
    (method path : Text) :
    (after.answer method path).params.Extends
      (trie.answer method path).params := by
  induction registrations generalizing trie with
  | nil =>
      cases hAdds
      exact .refl _
  | cons registration rest ih =>
      rcases (Sequence.bind_eq_ok_iff _ _ _).mp hAdds with
        ⟨next, hAdd, hRest⟩
      exact
        (ih (.add hTrie hAdd) hRest).trans
          (extends_answer_add hTrie hAdd method path)

/-
  What a further route does to the answer of a lookup, in
  any trie that can be reached. The handlers are those from
  before, and that of the new route behind them if it
  answers. The parameters are those from before, with the
  same values and in the same order, and behind them there
  are new names only.
-/
theorem lookup_add
    {trie after : Trie E H}
    (hTrie : Reachable trie)
    {registration : Registration H}
    (hAdd : trie.add registration = .ok after)
    (method path : Text) :
    (after.answer method path).handlers =
        ((trie.answer method path).handlers ++
          if registration.Answers E method path then
            [registration.handler]
          else []) ∧
      (after.answer method path).params.Extends
        (trie.answer method path).params := by
  refine ⟨?_, extends_answer_add hTrie hAdd method path⟩
  rcases hTrie.exists_reflects with
    ⟨registrations, hReflects⟩
  rw [answer_eq (reflects_add hReflects hAdd),
    answer_eq hReflects]
  exact Registration.answering_concat _ _ _ _

/-
  A route for every method, and one whose constraint takes
  what the first one takes in two nodes.
-/
def crossed : List (Registration Nat) :=
  [⟨Method.all, ['/', ':', 'x', '/', '*'], 0⟩,
    ⟨['G'], ['/', ':', 'y', '{', '.', '+', '}'], 1⟩]

/- A route between them, with an optional parameter. -/
def crossing : Registration Nat :=
  ⟨['G'], ['/', ':', 'y', '/', ':', 'z', '?'], 2⟩

/- It answers last, and adds the parameter that is new. -/
theorem lookup_add_crossing :
    ∃ trie after : Trie Regex.treeEngine Nat,
      Reachable trie ∧
        trie.add crossing = .ok after ∧
          trie.answer ['G'] ['/', 'b', '/', 'c'] =
              ⟨[0, 1],
                ⟨[(['x'], ['b']), (['y'], ['b', '/', 'c'])]⟩⟩ ∧
            (after.answer ['G']
                ['/', 'b', '/', 'c']).handlers =
                [0, 1] ++ [2] ∧
              (after.answer ['G']
                  ['/', 'b', '/', 'c']).params.Extends
                ⟨[(['x'], ['b']),
                  (['y'], ['b', '/', 'c'])]⟩ := by
  have hRun :
      ((crossed.foldlM (add (E := Regex.treeEngine))
          empty) >>= fun trie =>
        (trie.add crossing).map fun _ =>
          trie.answer ['G'] ['/', 'b', '/', 'c']) =
        .ok
          ⟨[0, 1],
            ⟨[(['x'], ['b']),
              (['y'], ['b', '/', 'c'])]⟩⟩ := by
    decide +kernel
  rcases (Sequence.bind_eq_ok_iff _ _ _).mp hRun with
    ⟨trie, hTrie, hRest⟩
  rcases (Sequence.map_eq_ok_iff _ _ _).mp hRest with
    ⟨after, hAdd, hBefore⟩
  have hReachable := reachable_of_adds hTrie
  have hAnswers :
      crossing.Answers Regex.treeEngine ['G']
        ['/', 'b', '/', 'c'] := by
    decide +kernel
  have hAnswer :=
    lookup_add hReachable hAdd ['G'] ['/', 'b', '/', 'c']
  rw [if_pos hAnswers, hBefore] at hAnswer
  exact ⟨trie, after, hReachable, hAdd, hBefore, hAnswer⟩

end Trie

end RequestRouter
