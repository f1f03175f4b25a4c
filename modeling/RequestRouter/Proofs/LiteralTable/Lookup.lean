import RequestRouter.LiteralTable
import RequestRouter.Proofs.Route.Literal
import RequestRouter.Proofs.Trie.Answers

/-
  Literal routes in a table and in a trie.

  Both take every literal route. A table compares whole
  paths, and a trie the parts of a request with the segments
  of a route. So they give the same answer, unless a slash
  in braces keeps two parts of the route together: then a
  trie answers nothing.

  Main statements:
    * `LiteralTable.foldlM_add_eq`
    * `Trie.lookup_literal_eq`
    * `LiteralTable.lookup_trie_eq_iff`
-/

------------------------------------------------------------
-- Tables of Literal Routes
------------------------------------------------------------

namespace RequestRouter

variable {E : Regex.Engine}
variable {H : Type}

namespace LiteralTable

/- A literal registration is taken, behind the others. -/
theorem add_eq
    (table : LiteralTable H)
    {registration : Registration H}
    (hLiteral : Path.IsLiteral E registration.path) :
    table.add E registration =
      .ok ⟨table.entries ++ [registration]⟩ := by
  rcases hLiteral.static with ⟨patterns, hParse, hStatic⟩
  rw [add, hParse]
  change (if Pattern.anyDynamic patterns then _ else _) = _
  rw [hStatic, if_neg Bool.false_ne_true]

/- Literal registrations are the entries of their table. -/
theorem foldlM_add_eq
    {registrations : List (Registration H)}
    (hLiteral :
      ∀ registration ∈ registrations,
        Path.IsLiteral E registration.path) :
    registrations.foldlM (add E) empty =
      .ok ⟨registrations⟩ :=
  Sequence.foldlM_eq_ok_of_step LiteralTable.mk
    (fun _ registration hMember =>
      add_eq _ (hLiteral registration hMember)) []

end LiteralTable

end RequestRouter

------------------------------------------------------------
-- Tries of Literal Routes
------------------------------------------------------------

namespace RequestRouter

variable {E : Regex.Engine}
variable {H : Type}

namespace Trie

variable {registrations : List (Registration H)}

/- A trie takes literal registrations. -/
theorem exists_of_literal
    (hLiteral :
      ∀ registration ∈ registrations,
        Path.IsLiteral E registration.path) :
    ∃ trie : Trie E H,
      registrations.foldlM add empty = .ok trie := by
  apply exists_of_reads
  intro registration hMember variant hVariant
  have hPath := hLiteral registration hMember
  rw [hPath.variants_eq, List.mem_singleton] at hVariant
  exact ⟨_, hVariant ▸ hPath.parsePath_eq⟩

/- A trie of literal registrations binds nothing. -/
theorem paramsOf_literal_hits
    (hLiteral :
      ∀ registration ∈ registrations,
        Path.IsLiteral E registration.path)
    {trie : Trie E H}
    (hTrie : Reflects registrations trie)
    (method path : Text) :
    trie.paramsOf (TrieSearch.hits trie.root method path) =
      .empty := by
  have hNothing :
      trie.pairsOf (TrieSearch.hits trie.root method path) =
        [] := by
    simp only [pairsOf, List.flatMap_eq_nil_iff]
    intro score _ hit hHit
    rw [List.mem_filter, mem_hits_iff_of_reflects hTrie]
      at hHit
    rcases hHit with
      ⟨⟨registration, hFound, -, variant, hVariant, patterns,
        hParse, hTakes⟩, -⟩
    have hPath :=
      hLiteral registration (List.mem_of_getElem? hFound)
    rw [hPath.variants_eq, List.mem_singleton] at hVariant
    rw [hVariant, hPath.parsePath_eq] at hParse
    cases hParse
    exact
      ((Pattern.takes_literals_iff _ _ _).mp hTakes).2
  exact congrArg Params.ofList hNothing

/-
  A trie of literal registrations answers as the table of
  these, where no segment of the request holds a slash, and
  nothing elsewhere.
-/
theorem lookup_literal_eq
    (hLiteral :
      ∀ registration ∈ registrations,
        Path.IsLiteral E registration.path)
    {trie : Trie E H}
    (hTrie : Reflects registrations trie)
    (method path : Text) :
    trie.lookup method path =
      if ∀ segment ∈ Path.split path, '/' ∉ segment then
        (LiteralTable.mk registrations).lookup method path
      else none := by
  unfold lookup
  dsimp only
  rw [handlersOf_hits hTrie,
    paramsOf_literal_hits hLiteral hTrie,
    Registration.answering_literal_eq hLiteral]
  split
  case isTrue => rfl
  case isFalse => rfl

end Trie

namespace LiteralTable

/-
  A trie and a table take the same literal registrations,
  and give the same answer to a request just if no segment
  of its path holds a slash or the table finds nothing.
-/
theorem lookup_trie_eq_iff
    {registrations : List (Registration H)}
    (hLiteral :
      ∀ registration ∈ registrations,
        Path.IsLiteral E registration.path) :
    ∃ (trie : Trie E H) (table : LiteralTable H),
      registrations.foldlM Trie.add Trie.empty = .ok trie ∧
        registrations.foldlM (add E) empty = .ok table ∧
          ∀ method path,
            trie.lookup method path =
                table.lookup method path ↔
              (∀ segment ∈ Path.split path,
                  '/' ∉ segment) ∨
                table.lookup method path = none := by
  rcases Trie.exists_of_literal hLiteral with ⟨trie, hTrie⟩
  refine
    ⟨trie, ⟨registrations⟩, hTrie, foldlM_add_eq hLiteral,
      ?_⟩
  intro method path
  rw [Trie.lookup_literal_eq hLiteral
    (Trie.reflects_of_adds hTrie)]
  split
  case isTrue hSlashes =>
      exact iff_of_true rfl (Or.inl hSlashes)
  case isFalse hSlashes =>
      rw [or_iff_right hSlashes, eq_comm]

/-
  One path for one method, for all, and for another one; an
  empty path, empty segments, and a slash in braces.
-/
def interleaved : List (Registration Nat) :=
  [⟨['G'], ['/', 'a'], 0⟩,
    ⟨Method.all, ['/', 'a'], 1⟩,
    ⟨['P'], ['/', 'a'], 2⟩,
    ⟨['P'], [], 3⟩,
    ⟨['P'], ['/', '/', '}'], 4⟩,
    ⟨['P'], ['/', '{', 'a', '/', 'b', '}'], 5⟩]

/- Both find the first path for two of its methods. -/
theorem lookup_trie_eq_iff_interleaved :
    ∃ (trie : Trie Regex.engine Nat)
      (table : LiteralTable Nat),
      interleaved.foldlM Trie.add Trie.empty = .ok trie ∧
        interleaved.foldlM (add Regex.engine) empty =
            .ok table ∧
          trie.lookup ['P'] ['/', 'a'] =
              some ⟨[1, 2], .empty⟩ ∧
            table.lookup ['P'] ['/', 'a'] =
              some ⟨[1, 2], .empty⟩ := by
  have hLiteral :
      ∀ registration ∈ interleaved,
        Path.IsLiteral Regex.engine registration.path := by
    decide
  rcases lookup_trie_eq_iff hLiteral with
    ⟨trie, table, hTrie, hTable, hSame⟩
  have hFound :
      table.lookup ['P'] ['/', 'a'] =
        some ⟨[1, 2], .empty⟩ := by
    rw [foldlM_add_eq hLiteral] at hTable
    cases hTable
    decide
  have hSlashes :
      ∀ segment ∈ Path.split ['/', 'a'], '/' ∉ segment := by
    decide
  exact
    ⟨trie, table, hTrie, hTable,
      ((hSame _ _).mpr (Or.inl hSlashes)).trans hFound,
      hFound⟩

/- A literal route that keeps a slash in braces. -/
def braced : List (Registration Nat) :=
  [⟨['G'], ['/', '{', 'a', '/', 'b', '}'], 0⟩]

/-
  A request is cut inside of the braces, so that a trie
  never finds the route, which a table does.
-/
theorem lookup_trie_parted :
    (∀ registration ∈ braced,
        Path.IsLiteral Regex.engine registration.path) ∧
      (braced.foldlM (Trie.add (E := Regex.engine))
          Trie.empty).map (fun trie =>
            trie.lookup ['G']
              ['/', '{', 'a', '/', 'b', '}']) =
          .ok none ∧
        (braced.foldlM (add Regex.engine) empty).map
            (fun table =>
              table.lookup ['G']
                ['/', '{', 'a', '/', 'b', '}']) =
          .ok (some ⟨[0], .empty⟩) := by
  decide +kernel

end LiteralTable

end RequestRouter
