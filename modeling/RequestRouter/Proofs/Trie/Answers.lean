import RequestRouter.Proofs.Route.Params
import RequestRouter.Proofs.Route.Plain
import RequestRouter.Proofs.Trie.Exactness

/-
  What a trie answers, said by its registrations.

  A registration takes a path for a method in a number of
  ways, each of which binds names. Without braces, a trie
  answers with the handlers of those registrations that
  take the path, and with what they bind.

  Key definitions include:
    * `Registration.takings`
    * `Registration.IsConfined`

  Main statements:
    * `Registration.mem_takings_iff`
    * `Registration.areChained_takings`
    * `Registration.areChained_blank`
    * `Trie.paramsOf_hits`
    * `Trie.lookup_eq_takings`
-/

------------------------------------------------------------
-- What Registrations Bind
------------------------------------------------------------

namespace RequestRouter

variable (E : Regex.Engine)
variable {H : Type}

namespace Registration

/-
  The ways in which a registration takes a path for a
  method, by what they bind.
-/
def takings
    (registration : Registration H)
    (method path : Text) : List (List (Text × Text)) :=
  if Method.serves registration.method method then
    (Path.variants registration.path).flatMap fun variant =>
      match Pattern.parsePath (E := E) variant with
      | .ok patterns =>
          Pattern.takings patterns (path.splitOn '/')
      | .error _ => []
  else []

/- They are the ways of its variants for the method. -/
theorem mem_takings_iff
    (registration : Registration H)
    (method path : Text)
    (bindings : List (Text × Text)) :
    bindings ∈ registration.takings E method path ↔
      Method.serves registration.method method = true ∧
        ∃ variant ∈ Path.variants registration.path,
          ∃ patterns : List (Pattern E),
            Pattern.parsePath variant = .ok patterns ∧
              Pattern.Takes patterns (path.splitOn '/')
                bindings := by
  unfold takings
  split
  case isFalse hOther => simp [hOther]
  case isTrue hServes =>
      rw [List.mem_flatMap]
      simp only [hServes, true_and]
      refine exists_congr fun variant =>
        and_congr_right fun _ => ?_
      cases hParse : Pattern.parsePath (E := E) variant with
      | error => simp
      | ok patterns =>
          simp [Pattern.mem_takings_iff]

/- A registration answers where it takes the path. -/
theorem answers_iff_exists_taking
    (registration : Registration H)
    (method path : Text) :
    registration.Answers E method path ↔
      ∃ bindings,
        bindings ∈ registration.takings E method path := by
  simp only [mem_takings_iff, Answers, Pattern.PathAccepts,
    Pattern.Accepts]
  constructor
  · rintro ⟨hOwn, variant, hVariant, patterns, hParse,
      bindings, hTakes⟩
    exact
      ⟨bindings, hOwn, variant, hVariant, patterns, hParse,
        hTakes⟩
  · rintro ⟨bindings, hOwn, variant, hVariant, patterns,
      hParse, hTakes⟩
    exact
      ⟨hOwn, variant, hVariant, patterns, hParse, bindings,
        hTakes⟩

/- Whether its constraints accept no slash. -/
def IsConfined
    (registration : Registration H) : Prop :=
  ∀ variant ∈ Path.variants registration.path,
    ∀ patterns : List (Pattern E),
      Pattern.parsePath variant = .ok patterns →
        ∀ pattern ∈ patterns, pattern.IsConfined

/- A registration without braces has no constraints. -/
theorem isConfined_of_bare
    {registration : Registration H}
    (hBare : '{' ∉ registration.path) :
    registration.IsConfined E := by
  intro variant hVariant patterns hParse pattern hPattern
  exact
    (Pattern.isPlain_of_parsePath
      (Path.brace_not_mem_of_mem_variants hBare hVariant)
      hParse hPattern).isConfined

/- A confined registration binds lists of one chain. -/
theorem areChained_takings
    {registration : Registration H}
    (hConfined : registration.IsConfined E)
    (method path : Text) :
    Params.AreChained
      (registration.takings E method path) := by
  intro first hFirst second hSecond
  rcases (mem_takings_iff E _ _ _ _).mp hFirst with
    ⟨-, variant, hVariant, patterns, hParse, hTakes⟩
  rcases (mem_takings_iff E _ _ _ _).mp hSecond with
    ⟨-, other, hOther, others, hParse', hTakes'⟩
  refine
    Pattern.prefix_or_prefix_of_takes hVariant hOther hParse
      hParse' ?_ hTakes hTakes'
  intro pattern hPattern
  rcases List.mem_append.mp hPattern with hOwn | hOwn
  · exact hConfined variant hVariant patterns hParse _ hOwn
  · exact hConfined other hOther others hParse' _ hOwn

/- Without values, a registration binds lists of one chain. -/
theorem areChained_blank
    (registration : Registration H)
    (method path : Text) :
    Params.AreChained
      ((registration.takings E method path).map
        (List.map Params.blank)) := by
  intro first hFirst second hSecond
  rcases List.mem_map.mp hFirst with
    ⟨bindings, hBindings, rfl⟩
  rcases List.mem_map.mp hSecond with ⟨more, hMore, rfl⟩
  rcases (mem_takings_iff E _ _ _ _).mp hBindings with
    ⟨-, variant, hVariant, patterns, hParse, hTakes⟩
  rcases (mem_takings_iff E _ _ _ _).mp hMore with
    ⟨-, other, hOther, others, hParse', hTakes'⟩
  rw [Params.map_blank_eq, Params.map_blank_eq,
    Pattern.map_fst_of_takes hTakes,
    Pattern.map_fst_of_takes hTakes']
  exact
    (Pattern.prefix_or_prefix_of_variants Pattern.names rfl
      (fun hStart => hStart.filterMap _) hVariant hOther
      hParse hParse').imp (·.map _) (·.map _)

/- Registrations that take a path in no way bind nothing. -/
theorem flatMap_takings_filter
    {keep : Registration H → Bool}
    {method path : Text}
    (hKeep :
      ∀ registration, keep registration = false →
        registration.takings E method path = [])
    (registrations : List (Registration H)) :
    ((registrations.filter keep).flatMap
        fun registration =>
          (registration.takings E method path).flatten) =
      registrations.flatMap fun registration =>
        (registration.takings E method path).flatten := by
  induction registrations with
  | nil => rfl
  | cons registration rest ih =>
      cases hKept : keep registration with
      | true => simp [hKept, ih]
      | false => simp [hKept, hKeep registration hKept, ih]

/- Only registrations that answer bind anything. -/
theorem flatMap_takings_answering
    (registrations : List (Registration H))
    (method path : Text) :
    ((registrations.filter
          (·.Answers E method path)).flatMap
        fun registration =>
          (registration.takings E method path).flatten) =
      registrations.flatMap fun registration =>
        (registration.takings E method path).flatten := by
  apply flatMap_takings_filter
  intro registration hOther
  apply List.eq_nil_iff_forall_not_mem.mpr
  intro bindings hMember
  apply of_decide_eq_false hOther
  exact
    (answers_iff_exists_taking E _ _ _).mpr
      ⟨bindings, hMember⟩

end Registration

namespace Trie

variable {E}

/- A trie takes registrations whose variants can be read. -/
theorem exists_of_reads
    {registrations : List (Registration H)}
    (hReads :
      ∀ registration ∈ registrations,
        ∀ variant ∈ Path.variants registration.path,
          ∃ patterns : List (Pattern E),
            Pattern.parsePath variant = .ok patterns)
    (start : Trie E H) :
    ∃ trie, registrations.foldlM add start = .ok trie := by
  induction registrations generalizing start with
  | nil => exact ⟨start, rfl⟩
  | cons registration rest ih =>
      rcases
          Sequence.exists_mapM_eq_ok
            (hReads registration (by simp)) with
        ⟨variants, hVariants⟩
      have hRest :=
        ih fun later hLater =>
          hReads later (List.mem_cons_of_mem _ hLater)
      rw [List.foldlM_cons, add, hVariants]
      exact hRest _

/-
  Going through a list by position is going through its
  members.
-/
theorem flatMap_eq_flatMap_range
    {α β : Type}
    (items : List α)
    (f : α → List β) :
    items.flatMap f =
      (List.range items.length).flatMap fun index =>
        (items[index]?.map f).getD [] := by
  induction items using List.reverseRecOn with
  | nil => rfl
  | append_singleton items item ih =>
      rw [List.flatMap_append, ih, List.length_append,
        List.length_singleton, List.range_succ,
        List.flatMap_append]
      congr 1
      · refine List.flatMap_congr fun index hIndex => ?_
        rw [List.getElem?_append_left
          (List.mem_range.mp hIndex)]
      · simp

/- The pairs that hits bind, registrations in order. -/
def pairsOf
    (trie : Trie E H)
    (hits : List TrieSearch.Hit) : List (Text × Text) :=
  (List.range trie.size).flatMap fun score =>
    (hits.filter (·.score == score)).flatMap (·.bindings)

/-
  In a view in which the ways of every registration are
  chained, a trie binds what its registrations bind, in the
  order of registration.
-/
theorem ofList_pairsOf_hits
    (view : Text × Text → Text × Text)
    {registrations : List (Registration H)}
    {method path : Text}
    (hChain :
      ∀ registration ∈ registrations,
        Params.AreChained
          ((registration.takings E method path).map
            (List.map view)))
    {trie : Trie E H}
    (hTrie : Reflects registrations trie) :
    Params.ofList
        ((trie.pairsOf
          (TrieSearch.hits trie.root method path)).map view) =
      .ofList
        ((registrations.flatMap fun registration =>
          (registration.takings E method
            path).flatten).map view) := by
  have hSize : trie.size = registrations.length := by
    simp [size, hTrie.handlers]
  unfold pairsOf
  rw [hSize, flatMap_eq_flatMap_range registrations,
    List.map_flatMap, List.map_flatMap]
  refine Params.insertAll_flatMap_congr ?_ .empty
  intro score hScore params
  have hBound := List.mem_range.mp hScore
  have hFound :
      registrations[score]? = some registrations[score] :=
    List.getElem?_eq_getElem hBound
  rw [hFound, Option.map_some, Option.getD_some,
    List.flatMap_def]
  -- The bindings of the hits are the ways of taking the path.
  have hSame : ∀ list : List (Text × Text),
      list ∈
          ((TrieSearch.hits trie.root method path).filter
              (·.score == score)).map (·.bindings) ↔
        list ∈ registrations[score].takings E method path := by
    intro list
    rw [Registration.mem_takings_iff]
    simp only [List.mem_map, List.mem_filter, beq_iff_eq,
      mem_hits_iff_of_reflects hTrie]
    constructor
    · rintro ⟨hit, ⟨⟨registration, hHit, hServes, variant,
        hVariant, patterns, hParse, hTakes⟩, rfl⟩, rfl⟩
      rw [hFound] at hHit
      cases hHit
      exact
        ⟨hServes, variant, hVariant, patterns, hParse,
          hTakes⟩
    · rintro ⟨hServes, variant, hVariant, patterns, hParse,
        hTakes⟩
      exact
        ⟨⟨score, list⟩,
          ⟨⟨_, hFound, hServes, variant, hVariant, patterns,
            hParse, hTakes⟩, rfl⟩, rfl⟩
  exact
    Params.insertAll_map_flatten_eq
      (hChain _ (List.getElem_mem hBound))
      (fun list hList => (hSame list).mp hList)
      (fun list hList => ⟨list, (hSame list).mpr hList, rfl⟩)
      params

/-
  Without braces, a trie binds what its registrations bind,
  in the order of registration.
-/
theorem paramsOf_hits
    {registrations : List (Registration H)}
    (hBare :
      ∀ registration ∈ registrations,
        '{' ∉ registration.path)
    {trie : Trie E H}
    (hTrie : Reflects registrations trie)
    (method path : Text) :
    trie.paramsOf (TrieSearch.hits trie.root method path) =
      .ofList (registrations.flatMap fun registration =>
        (registration.takings E method path).flatten) := by
  have hPairs :=
    ofList_pairsOf_hits id
      (fun registration hMember => by
        rw [List.map_id_fun, List.map_id]
        exact
          Registration.areChained_takings E
            (Registration.isConfined_of_bare E
              (hBare registration hMember))
            method path)
      hTrie
  rwa [List.map_id, List.map_id] at hPairs

/-
  Without braces, a lookup answers with what the
  registrations bind.
-/
theorem lookup_eq_takings
    {registrations : List (Registration H)}
    (hBare :
      ∀ registration ∈ registrations,
        '{' ∉ registration.path)
    {trie : Trie E H}
    (hTrie : Reflects registrations trie)
    (method path : Text) :
    trie.lookup method path =
      Match.ofHandlers?
        (Registration.answering E registrations method path)
        (.ofList (registrations.flatMap fun registration =>
          (registration.takings E method path).flatten)) := by
  unfold lookup
  simp only [handlersOf_hits hTrie,
    paramsOf_hits hBare hTrie]

end Trie

end RequestRouter
