import RequestRouter.Proofs.Route.Label
import RequestRouter.Proofs.Trie.MethodTable
import RequestRouter.Trie.Node

/-
  What a trie holds.

  A node is described by the lists of patterns that lead to
  scores below it. Attaching a score adds one such list and
  changes nothing else, provided that all patterns were read
  from segments: children are shared by label, and labels
  tell such patterns apart.

  Key definitions include:
    * `TrieNode.Child`
    * `TrieNode.Holds`
    * `TrieNode.IsKeyed`

  Main statements:
    * `TrieNode.not_holds_empty`
    * `TrieNode.isKeyed_attach`
    * `TrieNode.holds_attach_iff`
-/

------------------------------------------------------------
-- Children
------------------------------------------------------------

namespace RequestRouter

variable {E : Regex.Engine}

namespace Pattern

/- Whether a pattern binds a parameter. -/
def IsParam
    (pattern : Pattern E) : Prop :=
  pattern.name?.isSome = true

/- Whether two patterns lead to children of one kind. -/
def SameKind
    (first second : Pattern E) : Prop :=
  (∃ a b, first = .literal a ∧ second = .literal b) ∨
    (first = .wildcard ∧ second = .wildcard) ∨
    (first.IsParam ∧ second.IsParam)

end Pattern

namespace TrieNode

/- Whether a pattern leads from a node to a child. -/
def Child
    (node : TrieNode E)
    (pattern : Pattern E)
    (child : TrieNode E) : Prop :=
  match pattern with
  | .literal text => node.literal? text = some child
  | .wildcard => node.wildcard = some child
  | pattern => (pattern, child) ∈ node.params

/- The children along parameters stand in one list. -/
theorem child_iff_mem_params
    {pattern : Pattern E}
    (hParam : pattern.IsParam)
    (node child : TrieNode E) :
    node.Child pattern child ↔
      (pattern, child) ∈ node.params := by
  cases pattern with
  | literal => simp [Pattern.IsParam, Pattern.name?] at hParam
  | wildcard => simp [Pattern.IsParam, Pattern.name?] at hParam
  | param => rfl
  | constrained => rfl

/- An empty node has no children. -/
theorem not_child_empty
    (pattern : Pattern E)
    (child : TrieNode E) :
    ¬ empty.Child pattern child := by
  intro hChild
  cases pattern <;>
    simp [Child, empty, literal?, AssocList.find?] at hChild

/- Attaching along a parameter changes its list of children. -/
theorem attach_param_cons
    {pattern : Pattern E}
    (hParam : pattern.IsParam)
    (method : Text)
    (score : Nat)
    (rest : List (Pattern E))
    (node : TrieNode E) :
    attach method score (pattern :: rest) node =
      { node with
        params :=
          AssocList.upsert (·.label == pattern.label)
            pattern empty (attach method score rest)
            node.params } := by
  cases pattern with
  | literal => simp [Pattern.IsParam, Pattern.name?] at hParam
  | wildcard => simp [Pattern.IsParam, Pattern.name?] at hParam
  | param => rfl
  | constrained => rfl

/- The literal children behind an attachment. -/
theorem literal?_attach_literal
    (method : Text)
    (score : Nat)
    (text : Text)
    (rest : List (Pattern E))
    (node : TrieNode E)
    (wanted : Text) :
    (attach method score (.literal text :: rest)
        node).literal? wanted =
      if text = wanted then
        some (attach method score rest
          ((node.literal? text).getD empty))
      else node.literal? wanted := by
  change AssocList.find? _ (AssocList.upsert _ _ _ _ _) = _
  rw [AssocList.find?_upsert]
  simp only [beq_iff_eq]
  rfl

/-
  Attaching along one kind of pattern leaves the children
  along the other kinds as they are.
-/
theorem child_attach_iff_of_not_sameKind
    (method : Text)
    (score : Nat)
    (rest : List (Pattern E))
    (node : TrieNode E)
    {pattern found : Pattern E}
    (hKind : ¬ pattern.SameKind found)
    (child : TrieNode E) :
    (attach method score (pattern :: rest) node).Child
        found child ↔
      node.Child found child := by
  cases pattern <;> cases found <;>
    first
    | rfl
    | exact absurd
        (by simp [Pattern.SameKind, Pattern.IsParam,
          Pattern.name?]) hKind

/- So are the children along patterns of other labels. -/
theorem child_attach_iff_of_label_ne
    (method : Text)
    (score : Nat)
    (rest : List (Pattern E))
    (node : TrieNode E)
    {pattern found : Pattern E}
    (hLabel : pattern.label ≠ found.label)
    (child : TrieNode E) :
    (attach method score (pattern :: rest) node).Child
        found child ↔
      node.Child found child := by
  by_cases hKind : pattern.SameKind found
  · rcases hKind with
      ⟨text, wanted, rfl, rfl⟩ | ⟨rfl, rfl⟩ |
      ⟨hParam, hFound⟩
    · have hText : text ≠ wanted := hLabel
      simp only [Child, literal?_attach_literal,
        if_neg hText]
    · exact absurd rfl hLabel
    · rw [child_iff_mem_params hFound,
        child_iff_mem_params hFound,
        attach_param_cons hParam]
      constructor
      · intro hChild
        rcases AssocList.mem_of_mem_upsert hChild with
          hOld | ⟨old, -, hSame, -⟩ | hNew
        · exact hOld
        · exact absurd (eq_of_beq hSame).symm hLabel
        · rw [Prod.mk.injEq] at hNew
          exact
            absurd (congrArg Pattern.label hNew.1.symm) hLabel
      · intro hChild
        rcases
            AssocList.mem_upsert_of_mem
              (·.label == pattern.label) pattern empty
              (attach method score rest) hChild with
          hKept | ⟨hSame, -⟩
        · exact hKept
        · exact absurd (eq_of_beq hSame).symm hLabel
  · exact
      child_attach_iff_of_not_sameKind method score rest node
        hKind child

/-
  A child behind an attachment was there before, or lies
  where the score was attached.
-/
theorem child_of_child_attach
    {node : TrieNode E}
    (hNode : ∀ entry ∈ node.params, entry.1.IsRead)
    {method : Text}
    {score : Nat}
    {pattern : Pattern E}
    (hPattern : pattern.IsRead)
    {rest : List (Pattern E)}
    {found : Pattern E}
    {child : TrieNode E}
    (hChild :
      (attach method score (pattern :: rest) node).Child
        found child) :
    node.Child found child ∨
      found = pattern ∧
        ∃ old, (node.Child pattern old ∨ old = empty) ∧
          child = attach method score rest old := by
  by_cases hKind : pattern.SameKind found
  · rcases hKind with
      ⟨text, wanted, rfl, rfl⟩ | ⟨rfl, rfl⟩ |
      ⟨hParam, hFound⟩
    · simp only [Child, literal?_attach_literal] at hChild
      split at hChild
      case isTrue hText =>
          subst hText
          right
          refine
            ⟨rfl, (node.literal? text).getD empty, ?_,
              (Option.some.inj hChild).symm⟩
          cases hOld : node.literal? text with
          | none => exact Or.inr rfl
          | some old => exact Or.inl hOld
      case isFalse => exact Or.inl hChild
    · right
      refine
        ⟨rfl, node.wildcard.getD empty, ?_,
          (Option.some.inj hChild).symm⟩
      cases hOld : node.wildcard with
      | none => exact Or.inr rfl
      | some old => exact Or.inl hOld
    · rw [child_iff_mem_params hFound,
        attach_param_cons hParam] at hChild
      rcases AssocList.mem_of_mem_upsert hChild with
        hOld | ⟨old, hOld, hSame, hValue⟩ | hNew
      · left
        exact (child_iff_mem_params hFound _ _).mpr hOld
      · right
        have hRead : found.IsRead := hNode _ hOld
        have hLabel : found.label = pattern.label :=
          eq_of_beq hSame
        have hEq : found = pattern :=
          Pattern.eq_of_label_eq hRead hPattern hLabel
        subst hEq
        exact
          ⟨rfl, old,
            Or.inl
              ((child_iff_mem_params hFound _ _).mpr hOld),
            hValue⟩
      · right
        rw [Prod.mk.injEq] at hNew
        exact ⟨hNew.1, empty, Or.inr rfl, hNew.2⟩
  · left
    exact
      (child_attach_iff_of_not_sameKind method score rest
        node hKind child).mp hChild

/- A child stays behind an attachment, or is attached to. -/
theorem child_attach_of_child
    {node : TrieNode E}
    (hNode : ∀ entry ∈ node.params, entry.1.IsRead)
    (method : Text)
    (score : Nat)
    {pattern : Pattern E}
    (hPattern : pattern.IsRead)
    (rest : List (Pattern E))
    {found : Pattern E}
    {child : TrieNode E}
    (hChild : node.Child found child) :
    (attach method score (pattern :: rest) node).Child
        found child ∨
      found = pattern ∧
        (attach method score (pattern :: rest) node).Child
          found (attach method score rest child) := by
  by_cases hKind : pattern.SameKind found
  · rcases hKind with
      ⟨text, wanted, rfl, rfl⟩ | ⟨rfl, rfl⟩ |
      ⟨hParam, hFound⟩
    · simp only [Child, literal?_attach_literal]
      have hFind : node.literal? wanted = some child :=
        hChild
      by_cases hText : text = wanted
      · subst hText
        right
        simp [hFind]
      · left
        simp [hText, hFind]
    · right
      have hFind : node.wildcard = some child := hChild
      simp [Child, attach, hFind]
    · rw [child_iff_mem_params hFound] at hChild
      rw [child_iff_mem_params hFound,
        child_iff_mem_params hFound,
        attach_param_cons hParam]
      rcases
          AssocList.mem_upsert_of_mem
            (·.label == pattern.label) pattern empty
            (attach method score rest) hChild with
        hKept | ⟨hSame, hUpdated⟩
      · exact Or.inl hKept
      · right
        exact
          ⟨Pattern.eq_of_label_eq (hNode _ hChild) hPattern
            (eq_of_beq hSame), hUpdated⟩
  · left
    exact
      (child_attach_iff_of_not_sameKind method score rest
        node hKind child).mpr hChild

/- An attachment leads on to a child for its pattern. -/
theorem exists_child_attach
    {node : TrieNode E}
    (hNode : ∀ entry ∈ node.params, entry.1.IsRead)
    (method : Text)
    (score : Nat)
    {pattern : Pattern E}
    (hPattern : pattern.IsRead)
    (rest : List (Pattern E)) :
    ∃ old,
      (attach method score (pattern :: rest) node).Child
        pattern (attach method score rest old) ∧
      (node.Child pattern old ∨ old = empty) := by
  cases hParam : pattern.name? with
  | none =>
      cases pattern with
      | literal text =>
          refine
            ⟨(node.literal? text).getD empty, ?_, ?_⟩
          · simp [Child, literal?_attach_literal]
          · cases hOld : node.literal? text with
            | none => exact Or.inr rfl
            | some old => exact Or.inl hOld
      | wildcard =>
          refine ⟨node.wildcard.getD empty, rfl, ?_⟩
          cases hOld : node.wildcard with
          | none => exact Or.inr rfl
          | some old => exact Or.inl hOld
      | param => simp [Pattern.name?] at hParam
      | constrained => simp [Pattern.name?] at hParam
  | some name =>
      have hParam : pattern.IsParam := by
        simp [Pattern.IsParam, hParam]
      rcases
          AssocList.exists_mem_upsert
            (·.label == pattern.label) pattern empty
            (attach method score rest) node.params with
        ⟨found, old, hSame, hOld, hNew⟩ | hNew
      · have hLabel : found.label = pattern.label :=
          eq_of_beq hSame
        have hEq : found = pattern :=
          Pattern.eq_of_label_eq (hNode _ hOld) hPattern
            hLabel
        subst hEq
        refine ⟨old, ?_, Or.inl ?_⟩
        · rw [child_iff_mem_params hParam,
            attach_param_cons hParam]
          exact hNew
        · rw [child_iff_mem_params hParam]
          exact hOld
      · refine ⟨empty, ?_, Or.inr rfl⟩
        rw [child_iff_mem_params hParam,
          attach_param_cons hParam]
        exact hNew

end TrieNode

end RequestRouter

------------------------------------------------------------
-- Keys
------------------------------------------------------------

namespace RequestRouter

variable {E : Regex.Engine}

namespace TrieNode

/- Where a list of patterns leads from a node. -/
def Leads :
    List (Pattern E) → TrieNode E → TrieNode E → Prop
  | [], node, target => node = target
  | pattern :: rest, node, target =>
      ∃ child, node.Child pattern child ∧
        Leads rest child target

/-
  Whether the labels of parameters were read from segments,
  at a node and everywhere below it.
-/
def IsKeyed
    (node : TrieNode E) : Prop :=
  ∀ patterns target, Leads patterns node target →
    ∀ entry ∈ target.params, entry.1.IsRead

/- A keyed node has keyed parameters of its own. -/
theorem IsKeyed.params
    {node : TrieNode E}
    (hNode : node.IsKeyed) :
    ∀ entry ∈ node.params, entry.1.IsRead :=
  hNode [] node rfl

/- The children of a keyed node are keyed. -/
theorem IsKeyed.child
    {node child : TrieNode E}
    (hNode : node.IsKeyed)
    {pattern : Pattern E}
    (hChild : node.Child pattern child) :
    child.IsKeyed := by
  intro patterns target hLeads
  exact
    hNode (pattern :: patterns) target
      ⟨child, hChild, hLeads⟩

/- An empty node is keyed. -/
theorem isKeyed_empty :
    (empty : TrieNode E).IsKeyed := by
  intro patterns target hLeads
  cases patterns with
  | nil =>
      subst hLeads
      simp [empty]
  | cons pattern rest =>
      rcases hLeads with ⟨child, hChild, -⟩
      exact absurd hChild (not_child_empty pattern child)

/- The parameters of a node behind an attachment were read. -/
theorem isRead_of_mem_params_attach
    {node : TrieNode E}
    (hNode : ∀ entry ∈ node.params, entry.1.IsRead)
    (method : Text)
    (score : Nat)
    {patterns : List (Pattern E)}
    (hPatterns : ∀ pattern ∈ patterns, pattern.IsRead) :
    ∀ entry ∈ (attach method score patterns node).params,
      entry.1.IsRead := by
  intro entry hEntry
  cases patterns with
  | nil => exact hNode entry hEntry
  | cons pattern rest =>
      by_cases hParam : pattern.IsParam
      · rw [attach_param_cons hParam] at hEntry
        rcases AssocList.mem_of_mem_upsert hEntry with
          hOld | ⟨old, hOld, -, -⟩ | hNew
        · exact hNode entry hOld
        · exact hNode (entry.1, old) hOld
        · rw [hNew]
          exact hPatterns pattern (by simp)
      · cases pattern with
        | literal => exact hNode entry hEntry
        | wildcard => exact hNode entry hEntry
        | param => exact absurd rfl hParam
        | constrained => exact absurd rfl hParam

/- Attaching along patterns that were read keeps nodes keyed. -/
theorem isKeyed_attach
    {node : TrieNode E}
    (hNode : node.IsKeyed)
    (method : Text)
    (score : Nat)
    {patterns : List (Pattern E)}
    (hPatterns : ∀ pattern ∈ patterns, pattern.IsRead) :
    (attach method score patterns node).IsKeyed := by
  induction patterns generalizing node with
  | nil =>
      intro found target hLeads
      cases found with
      | nil =>
          subst hLeads
          exact hNode.params
      | cons pattern rest =>
          rcases hLeads with ⟨child, hChild, hLeads⟩
          exact
            hNode (pattern :: rest) target
              ⟨child, hChild, hLeads⟩
  | cons pattern rest ih =>
      have hPattern : pattern.IsRead :=
        hPatterns pattern (by simp)
      have hRest : ∀ later ∈ rest, later.IsRead :=
        fun later hLater =>
          hPatterns later (List.mem_cons_of_mem _ hLater)
      intro found target hLeads
      cases found with
      | nil =>
          subst hLeads
          exact
            isRead_of_mem_params_attach hNode.params method
              score hPatterns
      | cons first later =>
          rcases hLeads with ⟨child, hChild, hLeads⟩
          rcases
              child_of_child_attach hNode.params hPattern
                hChild with
            hOld | ⟨-, old, hOld | rfl, rfl⟩
          · exact hNode.child hOld later target hLeads
          · exact
              ih (hNode.child hOld) hRest later target
                hLeads
          · exact ih isKeyed_empty hRest later target hLeads

end TrieNode

end RequestRouter

------------------------------------------------------------
-- Scores
------------------------------------------------------------

namespace RequestRouter

variable {E : Regex.Engine}

namespace TrieNode

/- Whether a list of patterns leads to a score for a method. -/
def Holds
    (method : Text)
    (patterns : List (Pattern E))
    (node : TrieNode E)
    (score : Nat) : Prop :=
  ∃ target, Leads patterns node target ∧
    score ∈ target.scores.scoresFor method

/- Without patterns, the scores are those of the node. -/
@[simp]
theorem holds_nil_iff
    (method : Text)
    (node : TrieNode E)
    (score : Nat) :
    node.Holds method [] score ↔
      score ∈ node.scores.scoresFor method := by
  simp [Holds, Leads]

/- A first pattern leads to the scores below a child. -/
theorem holds_cons_iff
    (method : Text)
    (pattern : Pattern E)
    (rest : List (Pattern E))
    (node : TrieNode E)
    (score : Nat) :
    node.Holds method (pattern :: rest) score ↔
      ∃ child, node.Child pattern child ∧
        child.Holds method rest score := by
  simp only [Holds, Leads]
  constructor
  · rintro ⟨target, ⟨child, hChild, hLeads⟩, hScore⟩
    exact ⟨child, hChild, target, hLeads, hScore⟩
  · rintro ⟨child, hChild, target, hLeads, hScore⟩
    exact ⟨target, ⟨child, hChild, hLeads⟩, hScore⟩

/- An empty node holds no scores. -/
theorem not_holds_empty
    (method : Text)
    (patterns : List (Pattern E))
    (score : Nat) :
    ¬ (empty : TrieNode E).Holds method patterns score := by
  cases patterns with
  | nil => simp [empty]
  | cons pattern rest =>
      rw [holds_cons_iff]
      rintro ⟨child, hChild, -⟩
      exact not_child_empty pattern child hChild

/- What a node holds behind an attachment at the node. -/
theorem holds_attach_nil_iff
    (registered : Text)
    (score : Nat)
    (node : TrieNode E)
    (method : Text)
    (found : List (Pattern E))
    (hit : Nat) :
    (attach registered score [] node).Holds method found
        hit ↔
      node.Holds method found hit ∨
        found = [] ∧ hit = score ∧
          Method.serves registered method = true := by
  cases found with
  | nil =>
      rw [holds_nil_iff, holds_nil_iff]
      change
        hit ∈ (node.scores.attach registered
          score).scoresFor method ↔ _
      rw [MethodTable.scoresFor_attach]
      split
      case isTrue hServes => simp [hServes]
      case isFalse hServes => simp [hServes]
  | cons pattern rest =>
      rw [holds_cons_iff, holds_cons_iff]
      simp only [List.cons_ne_nil, false_and, or_false]
      rfl

/-
  Behind an attachment a node holds what it held, and the
  new score along the patterns it was attached at, for the
  methods that its method serves.
-/
theorem holds_attach_iff
    {node : TrieNode E}
    (hNode : node.IsKeyed)
    (registered : Text)
    (score : Nat)
    {patterns : List (Pattern E)}
    (hPatterns : ∀ pattern ∈ patterns, pattern.IsRead)
    (method : Text)
    (found : List (Pattern E))
    (hit : Nat) :
    (attach registered score patterns node).Holds method
        found hit ↔
      node.Holds method found hit ∨
        found = patterns ∧ hit = score ∧
          Method.serves registered method = true := by
  induction patterns generalizing node found with
  | nil =>
      exact
        holds_attach_nil_iff registered score node method
          found hit
  | cons pattern rest ih =>
      have hPattern : pattern.IsRead :=
        hPatterns pattern (by simp)
      have hRest : ∀ later ∈ rest, later.IsRead :=
        fun later hLater =>
          hPatterns later (List.mem_cons_of_mem _ hLater)
      cases found with
      | nil =>
          simp only [holds_nil_iff]
          have hScores :
              (attach registered score (pattern :: rest)
                node).scores = node.scores := by
            cases pattern <;> rfl
          rw [hScores]
          simp
      | cons first later =>
          rw [holds_cons_iff, holds_cons_iff]
          constructor
          · rintro ⟨child, hChild, hHolds⟩
            rcases
                child_of_child_attach hNode.params hPattern
                  hChild with
              hOld | ⟨rfl, old, hOld | rfl, rfl⟩
            · exact Or.inl ⟨child, hOld, hHolds⟩
            · rcases
                  (ih (hNode.child hOld) hRest later).mp
                    hHolds with
                hHeld | ⟨rfl, hNew⟩
              · exact Or.inl ⟨old, hOld, hHeld⟩
              · exact Or.inr ⟨rfl, hNew⟩
            · rcases
                  (ih isKeyed_empty hRest later).mp
                    hHolds with
                hHeld | ⟨rfl, hNew⟩
              · exact absurd hHeld (not_holds_empty _ _ _)
              · exact Or.inr ⟨rfl, hNew⟩
          · rintro (⟨child, hChild, hHolds⟩ | ⟨hEq, hNew⟩)
            · rcases
                  child_attach_of_child hNode.params
                    registered score hPattern rest
                    hChild with
                hKept | ⟨-, hUpdated⟩
              · exact ⟨child, hKept, hHolds⟩
              · exact
                  ⟨_, hUpdated,
                    (ih (hNode.child hChild) hRest
                      later).mpr (Or.inl hHolds)⟩
            · cases hEq
              rcases
                  exists_child_attach hNode.params registered
                    score hPattern rest with
                ⟨old, hChild, hOld⟩
              have hKeyed : old.IsKeyed := by
                rcases hOld with hOld | rfl
                · exact hNode.child hOld
                · exact isKeyed_empty
              exact
                ⟨_, hChild,
                  (ih hKeyed hRest rest).mpr
                    (Or.inr ⟨rfl, hNew⟩)⟩

end TrieNode

end RequestRouter
