import Mathlib.Data.List.Induction
import RequestRouter.Proofs.Trie.Search
import RequestRouter.Trie.Matcher

/-
  The trie answers exactly the registrations that match.

  A trie that was built by registrations holds, along the
  patterns of their variants, the positions of these
  registrations and nothing else. With what the search finds
  this gives the handlers of a lookup.

  Key definition:
    * `Trie.Reflects`

  Main statements:
    * `Trie.reflects_add`
    * `Trie.reflects_of_adds`
    * `Trie.mem_hits_iff_of_reflects`
    * `Trie.lookup_handlers`
-/

------------------------------------------------------------
-- Contents of a Trie
------------------------------------------------------------

namespace RequestRouter

variable {E : Regex.Engine}
variable {H : Type}

namespace TrieNode

/- Attach a score along several lists of patterns. -/
def attachAll
    (method : Text)
    (score : Nat)
    (variants : List (List (Pattern E)))
    (node : TrieNode E) : TrieNode E :=
  variants.foldl
    (fun root patterns => attach method score patterns root)
    node

/- Several attachments add all of their lists of patterns. -/
theorem holds_attachAll
    {node : TrieNode E}
    (hNode : node.IsKeyed)
    (registered : Text)
    (score : Nat)
    {variants : List (List (Pattern E))}
    (hVariants :
      ∀ patterns ∈ variants,
        ∀ pattern ∈ patterns, pattern.IsRead) :
    (attachAll registered score variants node).IsKeyed ∧
      ∀ method found hit,
        (attachAll registered score variants node).Holds
            method found hit ↔
          node.Holds method found hit ∨
            found ∈ variants ∧ hit = score ∧
              Method.serves registered method = true := by
  induction variants generalizing node with
  | nil => exact ⟨hNode, by simp [attachAll]⟩
  | cons patterns rest ih =>
      have hFirst : ∀ pattern ∈ patterns, pattern.IsRead :=
        hVariants patterns (by simp)
      have hRest :
          ∀ later ∈ rest, ∀ pattern ∈ later,
            pattern.IsRead :=
        fun later hLater =>
          hVariants later (List.mem_cons_of_mem _ hLater)
      have hKeyed :=
        isKeyed_attach hNode registered score hFirst
      rcases ih hKeyed hRest with ⟨hAll, hHolds⟩
      refine ⟨hAll, ?_⟩
      intro method found hit
      change
        (attachAll registered score rest
          (attach registered score patterns node)).Holds
            method found hit ↔ _
      rw [hHolds,
        holds_attach_iff hNode registered score hFirst,
        List.mem_cons]
      constructor
      · rintro ((hOld | ⟨rfl, hNew⟩) | ⟨hFound, hNew⟩)
        · exact Or.inl hOld
        · exact Or.inr ⟨Or.inl rfl, hNew⟩
        · exact Or.inr ⟨Or.inr hFound, hNew⟩
      · rintro (hOld | ⟨rfl | hFound, hNew⟩)
        · exact Or.inl (Or.inl hOld)
        · exact Or.inl (Or.inr ⟨rfl, hNew⟩)
        · exact Or.inr ⟨hFound, hNew⟩

end TrieNode

namespace Trie

/-
  Whether a trie reflects a list of registrations: it keeps
  their handlers, and holds the position of each along the
  patterns of its variants, and no others.
-/
structure Reflects
    (registrations : List (Registration H))
    (trie : Trie E H) : Prop where
  handlers :
    trie.handlers = registrations.map (·.handler)
  keyed : trie.root.IsKeyed
  holds_iff :
    ∀ method patterns score,
      trie.root.Holds method patterns score ↔
        ∃ registration,
          registrations[score]? = some registration ∧
          Method.serves registration.method method = true ∧
          ∃ variant ∈ Path.variants registration.path,
            Pattern.parsePath variant = .ok patterns

/- An empty trie reflects no registrations. -/
theorem reflects_empty :
    Reflects [] (empty : Trie E H) where
  handlers := rfl
  keyed := TrieNode.isKeyed_empty
  holds_iff := by
    intro method patterns score
    simp only [List.getElem?_nil, reduceCtorEq, false_and,
      exists_false, iff_false]
    exact TrieNode.not_holds_empty method patterns score

/- A registration that succeeds is reflected behind the others. -/
theorem reflects_add
    {registrations : List (Registration H)}
    {trie : Trie E H}
    (hTrie : Reflects registrations trie)
    {registration : Registration H}
    {after : Trie E H}
    (hAdd : trie.add registration = .ok after) :
    Reflects (registrations ++ [registration]) after := by
  rcases (Sequence.bind_eq_ok_iff _ _ _).mp hAdd with
    ⟨variants, hVariants, hAfter⟩
  cases hAfter
  have hRead :
      ∀ patterns ∈ variants,
        ∀ pattern ∈ patterns, pattern.IsRead := by
    intro patterns hPatterns pattern hPattern
    rcases
        Sequence.exists_of_mem_mapM hVariants hPatterns with
      ⟨variant, -, hVariant⟩
    exact Pattern.isRead_of_parsePath hVariant hPattern
  have hSize : trie.size = registrations.length := by
    simp [size, hTrie.handlers]
  rcases
      TrieNode.holds_attachAll hTrie.keyed
        registration.method trie.size hRead with
    ⟨hKeyed, hHolds⟩
  refine ⟨?_, hKeyed, ?_⟩
  · simp [hTrie.handlers]
  · intro method patterns score
    refine (hHolds method patterns score).trans ?_
    rw [hTrie.holds_iff, hSize]
    constructor
    · rintro (⟨found, hFound, hAnswers⟩ |
        ⟨hPatterns, rfl, hServes⟩)
      · refine ⟨found, ?_, hAnswers⟩
        have hBound : score < registrations.length :=
          (List.getElem?_eq_some_iff.mp hFound).1
        rw [List.getElem?_append_left hBound]
        exact hFound
      · rcases
            Sequence.exists_of_mem_mapM hVariants
              hPatterns with
          ⟨variant, hVariant, hParse⟩
        exact
          ⟨registration, by simp, hServes, variant, hVariant,
            hParse⟩
    · rintro ⟨found, hFound, hServes, variant, hVariant,
        hParse⟩
      by_cases hBound : score < registrations.length
      · rw [List.getElem?_append_left hBound] at hFound
        exact
          Or.inl
            ⟨found, hFound, hServes, variant, hVariant,
              hParse⟩
      · have hLast : score = registrations.length := by
          have hLength :=
            (List.getElem?_eq_some_iff.mp hFound).1
          simp only [List.length_append,
            List.length_singleton] at hLength
          omega
        subst hLast
        have hSame : registration = found := by
          simpa using hFound
        subst hSame
        rcases
            Sequence.exists_of_mem_items hVariants
              hVariant with
          ⟨parsed, hParsed, hEq⟩
        rw [hParse] at hEq
        cases hEq
        exact Or.inr ⟨hParsed, rfl, hServes⟩

/- Registrations that all succeed are reflected. -/
theorem reflects_of_adds
    {registrations : List (Registration H)}
    {trie : Trie E H}
    (hAdds :
      registrations.foldlM add empty = .ok trie) :
    Reflects registrations trie := by
  induction registrations using List.reverseRecOn
    generalizing trie with
  | nil =>
      cases hAdds
      exact reflects_empty
  | append_singleton registrations registration ih =>
      rw [Sequence.foldlM_concat_eq_ok_iff] at hAdds
      rcases hAdds with ⟨before, hBefore, hAdd⟩
      exact reflects_add (ih hBefore) hAdd

end Trie

end RequestRouter

------------------------------------------------------------
-- Lookups
------------------------------------------------------------

namespace RequestRouter

variable {E : Regex.Engine}
variable {H : Type}

namespace Trie

/-
  The hits of a request are the ways in which the variants
  of the registrations for its method take its path.
-/
theorem mem_hits_iff_of_reflects
    {registrations : List (Registration H)}
    {trie : Trie E H}
    (hTrie : Reflects registrations trie)
    (method path : Text)
    (hit : TrieSearch.Hit) :
    hit ∈ TrieSearch.hits trie.root method path ↔
      ∃ registration,
        registrations[hit.score]? = some registration ∧
        Method.serves registration.method method = true ∧
        ∃ variant ∈ Path.variants registration.path,
          ∃ patterns : List (Pattern E),
            Pattern.parsePath variant = .ok patterns ∧
            Pattern.Takes patterns (path.splitOn '/')
              hit.bindings := by
  rw [TrieSearch.mem_hits_iff]
  constructor
  · rintro ⟨patterns, hHolds, hTakes⟩
    rcases (hTrie.holds_iff _ _ _).mp hHolds with
      ⟨registration, hFound, hServes, variant, hVariant,
        hParse⟩
    exact
      ⟨registration, hFound, hServes, variant, hVariant,
        patterns, hParse, hTakes⟩
  · rintro ⟨registration, hFound, hServes, variant, hVariant,
      patterns, hParse, hTakes⟩
    exact
      ⟨patterns,
        (hTrie.holds_iff _ _ _).mpr
          ⟨registration, hFound, hServes, variant, hVariant,
            hParse⟩,
        hTakes⟩

/- A score is hit if the registration at it answers. -/
theorem any_score_iff
    {registrations : List (Registration H)}
    {trie : Trie E H}
    (hTrie : Reflects registrations trie)
    (method path : Text)
    {score : Nat}
    {registration : Registration H}
    (hFound : registrations[score]? = some registration) :
    (TrieSearch.hits trie.root method path).any
        (·.score == score) = true ↔
      registration.Answers E method path := by
  simp only [List.any_eq_true, beq_iff_eq,
    mem_hits_iff_of_reflects hTrie]
  constructor
  · rintro ⟨hit, ⟨found, hHit, hServes, variant, hVariant,
      patterns, hParse, hTakes⟩, rfl⟩
    rw [hFound] at hHit
    cases hHit
    exact
      ⟨hServes, variant, hVariant, patterns, hParse,
        hit.bindings, hTakes⟩
  · rintro ⟨hServes, variant, hVariant, patterns, hParse,
      bindings, hTakes⟩
    exact
      ⟨⟨score, bindings⟩,
        ⟨registration, hFound, hServes, variant, hVariant,
          patterns, hParse, hTakes⟩, rfl⟩

/-
  Choosing the images of a list by position is choosing the
  members, where both choices agree.
-/
theorem filterMap_zipIdx_map
    {α β : Type}
    (items : List α)
    (f : α → β)
    (start : Nat)
    (chosen : Nat → Bool)
    (wanted : α → Prop)
    [DecidablePred wanted]
    (hAgree :
      ∀ index item, items[index]? = some item →
        (chosen (start + index) = true ↔ wanted item)) :
    ((items.map f).zipIdx start).filterMap
        (fun entry =>
          if chosen entry.2 then some entry.1 else none) =
      (items.filter (wanted ·)).map f := by
  induction items generalizing start with
  | nil => rfl
  | cons item items ih =>
      have hFirst : chosen start = true ↔ wanted item :=
        hAgree 0 item rfl
      have hRest :=
        ih (start + 1) fun index later hLater => by
          rw [Nat.add_assoc, Nat.add_comm 1]
          exact hAgree (index + 1) later hLater
      simp only [List.map_cons, List.zipIdx_cons,
        List.filterMap_cons, List.filter_cons, hRest]
      by_cases hWanted : wanted item
      · simp [hWanted, hFirst.mpr hWanted]
      · have hSkipped : ¬ chosen start = true :=
          fun hChosen => hWanted (hFirst.mp hChosen)
        simp [hWanted, hSkipped]

/- The handlers of the hits are those that answer. -/
theorem handlersOf_hits
    {registrations : List (Registration H)}
    {trie : Trie E H}
    (hTrie : Reflects registrations trie)
    (method path : Text) :
    trie.handlersOf
        (TrieSearch.hits trie.root method path) =
      Registration.answering E registrations method path := by
  unfold handlersOf Registration.answering
  rw [hTrie.handlers]
  refine
    filterMap_zipIdx_map registrations (·.handler) 0
      (fun score =>
        (TrieSearch.hits trie.root method path).any
          (·.score == score))
      (·.Answers E method path) ?_
  intro index registration hFound
  rw [Nat.zero_add]
  exact any_score_iff hTrie method path hFound

/-
  A lookup in a trie of successful registrations returns
  exactly the handlers of the registrations that answer the
  request, each once and in the order of registration, and
  nothing if there are none.
-/
theorem lookup_handlers
    {registrations : List (Registration H)}
    {trie : Trie E H}
    (hAdds :
      registrations.foldlM add empty = .ok trie)
    (method path : Text) :
    (trie.lookup method path).map (·.handlers) =
      if Registration.answering E registrations method path =
          [] then none
      else
        some
          (Registration.answering E registrations method
            path) := by
  have hTrie := reflects_of_adds hAdds
  unfold lookup Match.ofHandlers?
  simp only [handlersOf_hits hTrie, List.isEmpty_iff]
  split <;> rfl

/-
  Wildcards, an optional parameter and two methods overlap
  on one request.
-/
def overlapping : List (Registration Nat) :=
  [⟨Method.all, ['/', 'a', '/', '*'], 0⟩,
    ⟨['G'], ['/', 'a', '/', '*', '/', '*'], 1⟩,
    ⟨['G'], ['/', 'a', '/', ':', 'x', '?'], 2⟩,
    ⟨['P'], ['/', 'a', '/', ':', 'x'], 3⟩]

/- All routes but the one for another method answer. -/
theorem lookup_handlers_overlapping :
    ∃ trie : Trie Regex.engine Nat,
      overlapping.foldlM add empty = .ok trie ∧
      (trie.lookup ['G'] ['/', 'a', '/', 'x']).map
          (·.handlers) = some [0, 1, 2] :=
  ⟨_, rfl,
    (@lookup_handlers Regex.engine Nat overlapping _ rfl
      _ _).trans (by decide)⟩

end Trie

end RequestRouter
