import RequestRouter.Proofs.Regex.Ways
import RequestRouter.Proofs.Trie.Answers

/-
  Where the parameters of a trie come from.

  A registration can bind a name if one of its variants
  accepts the request and has a parameter of this name. A
  lookup binds the names that some registration can bind,
  and gives each a value that the first of these
  registrations binds to it in some way. Constraints may
  accept what they like.

  Key definitions include:
    * `Registration.CanBind`
    * `Registration.Binds`

  Main statements:
    * `Registration.canBind_iff_exists_binds`
    * `Trie.mem_pairsAt_iff`
    * `Trie.mem_names_paramsOf_iff`
    * `Trie.exists_binds_of_get?`
    * `Trie.params_of_lookup`
-/

------------------------------------------------------------
-- Names That Registrations Can Bind
------------------------------------------------------------

namespace RequestRouter

variable (E : Regex.Engine)
variable {H : Type}

namespace Registration

/-
  Whether a variant of a registration for the method accepts
  the path and has a parameter of a name.
-/
def CanBind
    (registration : Registration H)
    (method path name : Text) : Prop :=
  Method.serves registration.method method = true ∧
    ∃ variant ∈ Path.variants registration.path,
      ∃ patterns : List (Pattern E),
        Pattern.parsePath variant = .ok patterns ∧
          Pattern.Accepts patterns (path.splitOn '/') ∧
            name ∈ Pattern.names patterns

/-
  Whether a variant of a registration for the method can
  take the path so that a name is bound to a value.
-/
def Binds
    (registration : Registration H)
    (method path name value : Text) : Prop :=
  Method.serves registration.method method = true ∧
    ∃ variant ∈ Path.variants registration.path,
      ∃ patterns : List (Pattern E),
        Pattern.parsePath variant = .ok patterns ∧
          ∃ bindings,
            Pattern.Takes patterns (path.splitOn '/')
                bindings ∧
              (name, value) ∈ bindings

/- A registration binds what it can bind, to some value. -/
theorem canBind_iff_exists_binds
    (registration : Registration H)
    (method path name : Text) :
    registration.CanBind E method path name ↔
      ∃ value, registration.Binds E method path name value := by
  have hValue :
      ∀ {patterns : List (Pattern E)} {bindings},
        Pattern.Takes patterns (path.splitOn '/') bindings →
          (name ∈ Pattern.names patterns ↔
            ∃ value, (name, value) ∈ bindings) := by
    intro patterns bindings hTakes
    rw [← Pattern.map_fst_of_takes hTakes]
    simp
  constructor
  · rintro ⟨hServes, variant, hVariant, patterns, hParse,
      ⟨bindings, hTakes⟩, hName⟩
    rcases (hValue hTakes).mp hName with ⟨value, hPair⟩
    exact
      ⟨value, hServes, variant, hVariant, patterns, hParse,
        bindings, hTakes, hPair⟩
  · rintro ⟨value, hServes, variant, hVariant, patterns,
      hParse, bindings, hTakes, hPair⟩
    exact
      ⟨hServes, variant, hVariant, patterns, hParse,
        ⟨bindings, hTakes⟩, (hValue hTakes).mpr ⟨value, hPair⟩⟩

/- The values that a name gets are found among the takings. -/
theorem binds_iff_exists_taking
    (registration : Registration H)
    (method path name value : Text) :
    registration.Binds E method path name value ↔
      ∃ bindings ∈ registration.takings E method path,
        (name, value) ∈ bindings := by
  simp only [mem_takings_iff, Binds]
  constructor
  · rintro ⟨hServes, variant, hVariant, patterns, hParse,
      bindings, hTakes, hPair⟩
    exact
      ⟨bindings,
        ⟨hServes, variant, hVariant, patterns, hParse,
          hTakes⟩, hPair⟩
  · rintro ⟨bindings,
      ⟨hServes, variant, hVariant, patterns, hParse,
        hTakes⟩, hPair⟩
    exact
      ⟨hServes, variant, hVariant, patterns, hParse,
        bindings, hTakes, hPair⟩

instance
    (registration : Registration H)
    (method path name value : Text) :
    Decidable
      (registration.Binds E method path name value) :=
  decidable_of_iff _
    (binds_iff_exists_taking E registration method path name
      value).symm

instance
    (registration : Registration H)
    (method path name : Text) :
    Decidable (registration.CanBind E method path name) :=
  decidable_of_iff
    (∃ bindings ∈ registration.takings E method path,
      name ∈ bindings.map Prod.fst) <| by
    simp only [canBind_iff_exists_binds,
      binds_iff_exists_taking, List.mem_map, Prod.exists,
      exists_and_right, exists_eq_right]
    constructor
    · rintro ⟨bindings, hTaking, value, hPair⟩
      exact ⟨value, bindings, hTaking, hPair⟩
    · rintro ⟨value, bindings, hTaking, hPair⟩
      exact ⟨bindings, hTaking, value, hPair⟩

end Registration

end RequestRouter

------------------------------------------------------------
-- Pairs of One Registration
------------------------------------------------------------

namespace RequestRouter

variable {E : Regex.Engine}
variable {H : Type}

namespace Trie

/- The pairs that the hits of one score bind. -/
def pairsAt
    (hits : List TrieSearch.Hit)
    (score : Nat) : List (Text × Text) :=
  (hits.filter (·.score == score)).flatMap (·.bindings)

/- They are what the registration with this score binds. -/
theorem mem_pairsAt_iff
    {registrations : List (Registration H)}
    {trie : Trie E H}
    (hTrie : Reflects registrations trie)
    {score : Nat}
    {registration : Registration H}
    (hFound : registrations[score]? = some registration)
    (method path name value : Text) :
    (name, value) ∈
        pairsAt (TrieSearch.hits trie.root method path)
          score ↔
      registration.Binds E method path name value := by
  simp only [pairsAt, List.mem_flatMap, List.mem_filter,
    beq_iff_eq, mem_hits_iff_of_reflects hTrie]
  constructor
  · rintro ⟨hit, ⟨⟨own, hHit, hServes, variant, hVariant,
      patterns, hParse, hTakes⟩, rfl⟩, hPair⟩
    rw [hFound] at hHit
    cases hHit
    exact
      ⟨hServes, variant, hVariant, patterns, hParse, _,
        hTakes, hPair⟩
  · rintro ⟨hServes, variant, hVariant, patterns, hParse,
      bindings, hTakes, hPair⟩
    exact
      ⟨⟨score, bindings⟩,
        ⟨⟨registration, hFound, hServes, variant, hVariant,
          patterns, hParse, hTakes⟩, rfl⟩, hPair⟩

/- A name has a value there if the registration can bind it. -/
theorem isSome_lookup_pairsAt_iff
    {registrations : List (Registration H)}
    {trie : Trie E H}
    (hTrie : Reflects registrations trie)
    {score : Nat}
    {registration : Registration H}
    (hFound : registrations[score]? = some registration)
    (method path name : Text) :
    ((pairsAt (TrieSearch.hits trie.root method path)
        score).lookup name).isSome = true ↔
      registration.CanBind E method path name := by
  rw [Registration.canBind_iff_exists_binds,
    List.lookup_isSome_iff]
  simp only [← mem_pairsAt_iff hTrie hFound, Prod.exists,
    beq_iff_eq, exists_and_right, exists_eq_right']

/- A name behind lists in a row has its first value there. -/
theorem lookup_flatMap
    {α : Type}
    (items : List α)
    (f : α → List (Text × Text))
    (name : Text) :
    (items.flatMap f).lookup name =
      items.findSome? fun item => (f item).lookup name := by
  induction items with
  | nil => rfl
  | cons item rest ih =>
      rw [List.flatMap_cons, List.lookup_append, ih,
        List.findSome?_cons]
      cases (f item).lookup name <;> rfl

/- A first value in a range has no value in front of it. -/
theorem exists_of_findSome?_range
    {β : Type}
    {f : Nat → Option β}
    {size : Nat}
    {value : β}
    (hFirst : (List.range size).findSome? f = some value) :
    ∃ index < size, f index = some value ∧
      ∀ earlier < index, f earlier = none := by
  induction size with
  | zero => cases hFirst
  | succ size ih =>
      rw [List.range_succ, List.findSome?_append,
        Option.or_eq_some_iff] at hFirst
      rcases hFirst with hBefore | ⟨hBefore, hLast⟩
      · rcases ih hBefore with ⟨index, hIndex, hBoth⟩
        exact ⟨index, Nat.lt_succ_of_lt hIndex, hBoth⟩
      · refine ⟨size, Nat.lt_succ_self size, ?_, ?_⟩
        · simpa using hLast
        · intro earlier hEarlier
          exact
            List.findSome?_eq_none_iff.mp hBefore earlier
              (List.mem_range.mpr hEarlier)

/-
  The first position with a value is that of the first
  member that is wanted, if values stand just there.
-/
theorem find?_of_findSome?_range
    {α β : Type}
    {items : List α}
    {f : Nat → Option β}
    {wanted : α → Prop}
    [DecidablePred wanted]
    (hAgree :
      ∀ index item, items[index]? = some item →
        ((f index).isSome = true ↔ wanted item))
    {value : β}
    (hFirst :
      (List.range items.length).findSome? f = some value) :
    ∃ index item,
      items[index]? = some item ∧
        items.find? (wanted ·) = some item ∧
          f index = some value := by
  rcases exists_of_findSome?_range hFirst with
    ⟨index, hIndex, hValue, hEarlier⟩
  have hWanted :
      ∀ position (hBound : position < items.length),
        (f position).isSome = true ↔
          wanted items[position] :=
    fun position hBound =>
      hAgree position _ (List.getElem?_eq_getElem hBound)
  refine
    ⟨index, items[index], List.getElem?_eq_getElem hIndex,
      ?_, hValue⟩
  rw [List.find?_eq_some_iff_getElem]
  refine ⟨?_, index, hIndex, rfl, ?_⟩
  · exact
      decide_eq_true ((hWanted index hIndex).mp (by
        rw [hValue]
        rfl))
  · intro earlier hBefore
    have hNone := hEarlier earlier hBefore
    have hOther :=
      mt (hWanted earlier (Nat.lt_trans hBefore hIndex)).mpr
        (by simp [hNone])
    simpa using hOther

/- A lookup is made of what answers and of the hits. -/
theorem lookup_eq_ofHandlers?
    {registrations : List (Registration H)}
    {trie : Trie E H}
    (hTrie : Reflects registrations trie)
    (method path : Text) :
    trie.lookup method path =
      Match.ofHandlers?
        (Registration.answering E registrations method path)
        (trie.paramsOf
          (TrieSearch.hits trie.root method path)) := by
  rw [← handlersOf_hits hTrie]
  rfl

/- So is a match that it finds. -/
theorem eq_of_lookup
    {registrations : List (Registration H)}
    {trie : Trie E H}
    (hTrie : Reflects registrations trie)
    {method path : Text}
    {found : Match H}
    (hFound : trie.lookup method path = some found) :
    found =
      ⟨Registration.answering E registrations method path,
        trie.paramsOf
          (TrieSearch.hits trie.root method path)⟩ := by
  rw [lookup_eq_ofHandlers? hTrie, Match.ofHandlers?]
    at hFound
  split at hFound
  case isTrue => cases hFound
  case isFalse => exact (Option.some.inj hFound).symm

/- A name has its first value, registrations in order. -/
theorem get?_paramsOf
    {registrations : List (Registration H)}
    {trie : Trie E H}
    (hTrie : Reflects registrations trie)
    (hits : List TrieSearch.Hit)
    (name : Text) :
    (trie.paramsOf hits).get? name =
      (List.range registrations.length).findSome? fun score =>
        (pairsAt hits score).lookup name := by
  have hSize : trie.size = registrations.length := by
    simp [size, hTrie.handlers]
  rw [← hSize, ← lookup_flatMap, ← Params.get?_ofList]
  rfl

/- A name is bound if some registration can bind it. -/
theorem mem_names_paramsOf_iff
    {registrations : List (Registration H)}
    {trie : Trie E H}
    (hTrie : Reflects registrations trie)
    (method path name : Text) :
    name ∈
        (trie.paramsOf
          (TrieSearch.hits trie.root method path)).names ↔
      ∃ registration ∈ registrations,
        registration.CanBind E method path name := by
  rw [Params.mem_names_iff_isSome, get?_paramsOf hTrie,
    List.findSome?_isSome_iff]
  constructor
  · rintro ⟨index, hIndex, hSome⟩
    have hFound :=
      List.getElem?_eq_getElem (List.mem_range.mp hIndex)
    exact
      ⟨_, List.mem_of_getElem? hFound,
        (isSome_lookup_pairsAt_iff hTrie hFound method path
          name).mp hSome⟩
  · rintro ⟨registration, hMember, hCan⟩
    rcases List.mem_iff_getElem?.mp hMember with
      ⟨index, hFound⟩
    exact
      ⟨index,
        List.mem_range.mpr
          (List.getElem?_eq_some_iff.mp hFound).1,
        (isSome_lookup_pairsAt_iff hTrie hFound method path
          name).mpr hCan⟩

/- The first of them gives the name its value. -/
theorem exists_binds_of_get?
    {registrations : List (Registration H)}
    {trie : Trie E H}
    (hTrie : Reflects registrations trie)
    {method path name value : Text}
    (hValue :
      (trie.paramsOf
        (TrieSearch.hits trie.root method path)).get? name =
          some value) :
    ∃ registration,
      registrations.find? (·.CanBind E method path name) =
          some registration ∧
        registration.Binds E method path name value := by
  rw [get?_paramsOf hTrie] at hValue
  rcases
      find?_of_findSome?_range
        (fun index registration hIndex =>
          isSome_lookup_pairsAt_iff hTrie hIndex method path
            name)
        hValue with
    ⟨index, registration, hIndex, hFirst, hOwn⟩
  refine ⟨registration, hFirst, ?_⟩
  rw [← mem_pairsAt_iff hTrie hIndex]
  rcases List.lookup_eq_some_iff.mp hOwn with
    ⟨front, rest, hPairs, -⟩
  rw [hPairs]
  simp

/-
  What a lookup binds. The handlers are those of the
  registrations that answer. A name is bound if one of them
  can bind it, by a variant that accepts the request; and
  its value is one that the first of those that can bind it
  gives to it, in one of the ways in which its variants take
  the request.
-/
theorem params_of_lookup
    {registrations : List (Registration H)}
    {trie : Trie E H}
    (hAdds :
      registrations.foldlM add empty = .ok trie)
    {method path : Text}
    {found : Match H}
    (hFound : trie.lookup method path = some found) :
    found.handlers =
        Registration.answering E registrations method path ∧
      ∀ name,
        (name ∈ found.params.names ↔
          ∃ registration ∈ registrations,
            registration.CanBind E method path name) ∧
        ∀ value, found.params.get? name = some value →
          ∃ registration,
            registrations.find?
                (·.CanBind E method path name) =
              some registration ∧
            registration.Binds E method path name value := by
  have hTrie := reflects_of_adds hAdds
  cases eq_of_lookup hTrie hFound
  refine ⟨rfl, fun name => ⟨?_, fun value hValue => ?_⟩⟩
  · exact mem_names_paramsOf_iff hTrie method path name
  · exact exists_binds_of_get? hTrie hValue

/-
  A route for another method, one whose constraints can take
  a path in two ways, and one that binds a name of it.
-/
def contending : List (Registration Nat) :=
  [⟨['P'], ['/', ':', 'y', '/', '*'], 0⟩,
    ⟨['G'],
      ['/', ':', 'x', '{', '.', '+', '}', '/', ':', 'y', '{',
        '.', '+', '}'], 1⟩,
    ⟨Method.all, ['/', ':', 'y', '/', '*'], 2⟩]

/- The second route gives the name its value. -/
theorem params_of_lookup_contending :
    ∃ (trie : Trie Regex.treeEngine Nat) (found : Match Nat),
      contending.foldlM add empty = .ok trie ∧
        trie.lookup ['G'] ['/', 'a', '/', 'b', '/', 'c'] =
            some found ∧
          found.params.get? ['y'] =
              some ['b', '/', 'c'] ∧
            ∃ registration,
              contending.find?
                  (·.CanBind Regex.treeEngine ['G']
                    ['/', 'a', '/', 'b', '/', 'c'] ['y']) =
                some registration ∧
              registration.Binds Regex.treeEngine ['G']
                ['/', 'a', '/', 'b', '/', 'c'] ['y']
                ['b', '/', 'c'] := by
  have hAnswer :
      (contending.foldlM (add (E := Regex.treeEngine))
          empty).map (fun trie =>
        trie.lookup ['G'] ['/', 'a', '/', 'b', '/', 'c']) =
        .ok
          (some
            ⟨[1, 2],
              ⟨[(['x'], ['a']),
                (['y'], ['b', '/', 'c'])]⟩⟩) := by
    decide +kernel
  cases hTrie :
      contending.foldlM (add (E := Regex.treeEngine))
        empty with
  | error error =>
      rw [hTrie] at hAnswer
      cases hAnswer
  | ok trie =>
      rw [hTrie] at hAnswer
      have hFound := Except.ok.inj hAnswer
      rcases params_of_lookup hTrie hFound with ⟨-, hNames⟩
      exact
        ⟨trie, _, rfl, hFound, rfl,
          (hNames ['y']).2 _ rfl⟩

end Trie

end RequestRouter
