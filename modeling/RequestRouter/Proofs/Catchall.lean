import Mathlib
import RequestRouter.Proofs.Compiled.Precedence
import RequestRouter.Proofs.LinearScan.Parity
import RequestRouter.Proofs.Selector.Contents
import RequestRouter.Proofs.Selector.WellFormed
import RequestRouter.Proofs.Trie.Exactness

/-
  A handler for all requests that is registered first.

  The pattern `*` alone stands for every path. A trie takes
  it so. The regular expressions of the other strategies say
  `.*` instead, which stops at the end of a line, so that a
  scan passes the handler over for a path of several lines.
  A compiled matcher never answers without the handler, but
  may not answer at all.

  Key definitions include:
    * `Registration.catchall`
    * `Reply.LeadsWith`

  Main statements:
    * `Compiled.exists_owned_of_lookup`
    * `Registration.catchall_leads`
-/

------------------------------------------------------------
-- Registrations for All Requests
------------------------------------------------------------

namespace RequestRouter

variable {E : Regex.Engine}
variable {H : Type}

namespace Registration

/- The registration of a handler for all requests. -/
def catchall
    (handler : H) : Registration H :=
  ⟨Method.all, ['*'], handler⟩

/- It is its own only variant. -/
theorem variants_catchall
    (handler : H) :
    Path.variants (catchall handler).path = [['*']] :=
  rfl

end Registration

namespace Pattern

/- Its path is one wildcard. -/
theorem parsePath_wildcard :
    parsePath (E := E) ['*'] = .ok [.wildcard] :=
  rfl

end Pattern

namespace Method

/- A handler for all methods serves each of them. -/
theorem serves_all
    (method : Text) :
    serves all method = true := by
  simp [serves]

end Method

namespace Registration

/- It answers every request. -/
theorem answers_catchall
    (handler : H)
    (method path : Text) :
    (catchall handler).Answers E method path := by
  refine ⟨Method.serves_all method, ['*'], ?_, ?_⟩
  · rw [variants_catchall, List.mem_singleton]
  · exact
      ⟨[.wildcard], Pattern.parsePath_wildcard, [],
        .remainder _⟩

end Registration

/- Whether a lookup finds something, a handler in front. -/
def Reply.LeadsWith
    (handler : H) : Reply H → Prop
  | .ok (some found) => found.handlers.head? = some handler
  | _ => False

end RequestRouter

------------------------------------------------------------
-- Tries and Scans
------------------------------------------------------------

namespace RequestRouter

open Regex

variable {E : Engine}
variable {H : Type}

namespace Trie

/- A trie answers every request with it in front. -/
theorem leadsWith_catchall
    {handler : H}
    {others : List (Registration H)}
    {trie : Trie E H}
    (hAdds :
      (Registration.catchall handler :: others).foldlM add
        empty = .ok trie)
    (method path : Text) :
    Reply.LeadsWith handler
      (.ok (trie.lookup method path)) := by
  have hHandlers :=
    handlersOf_hits (reflects_of_adds hAdds) method path
  have hAnswers :=
    Registration.answers_catchall (E := E) handler method path
  rw [Registration.answering,
    List.filter_cons_of_pos (by simpa using hAnswers)]
    at hHandlers
  rw [lookup, hHandlers]
  rfl

end Trie

namespace ScanVariant

/- A variant for all paths binds for those on one line. -/
theorem isSome_bindings?_wildcard
    (hE : E.IsLeftmostFirst)
    {variant : ScanVariant E}
    (hCompile : compile ['*'] = .ok variant)
    {path : Text}
    (hLine : '\n' ∉ path) :
    (variant.bindings? path).isSome = true := by
  apply
    (isSome_bindings?_iff hE hCompile
      Pattern.parsePath_wildcard ?_ path).mpr
  · exact Edge.exists_spells_any hLine none
  · intro pattern hPattern
    rw [List.mem_singleton.mp hPattern]
    trivial

end ScanVariant

namespace LinearScan

/- A scan answers so for requests on one line. -/
theorem leadsWith_catchall
    (hE : E.IsLeftmostFirst)
    {handler : H}
    {others : List (Registration H)}
    {scan : LinearScan E H}
    (hAdds :
      (Registration.catchall handler :: others).foldlM add
        empty = .ok scan)
    (method : Text)
    {path : Text}
    (hLine : '\n' ∉ path) :
    Reply.LeadsWith handler
      (.ok (scan.lookup method path)) := by
  have hRoutes := routes_of_adds hAdds
  rcases List.forall₂_cons_left_iff.mp hRoutes with
    ⟨route, routes, hFor, -, hScan⟩
  have hVariants := hFor.variants
  rw [Registration.variants_catchall] at hVariants
  rcases List.forall₂_cons_left_iff.mp hVariants with
    ⟨variant, variants, hCompile, -, hOwn⟩
  have hBinds : (route.bindings? path).isSome = true := by
    rw [ScanRoute.isSome_bindings?_iff, hOwn]
    exact
      ⟨variant, by simp,
        ScanVariant.isSome_bindings?_wildcard hE hCompile
          hLine⟩
  rcases Option.isSome_iff_exists.mp hBinds with
    ⟨bindings, hBindings⟩
  have hServes : Method.serves route.method method = true := by
    rw [hFor.method]
    exact Method.serves_all method
  have hFound :
      ∃ later,
        scan.found method path =
          (handler, bindings) :: later := by
    rw [found, hScan, List.filterMap_cons, if_pos hServes,
      hBindings, hFor.handler]
    exact ⟨_, rfl⟩
  rcases hFound with ⟨later, hFound⟩
  rw [lookup, hFound]
  rfl

end LinearScan

end RequestRouter

------------------------------------------------------------
-- Compiled Matchers
------------------------------------------------------------

namespace RequestRouter

open Regex

variable {E : Engine}
variable {H : Type}

namespace Registration

/- It is parsed, whatever the engine is. -/
theorem ofRegistration_catchall
    (handler : H) :
    ParsedRoute.ofRegistration (E := E) (catchall handler) =
      .ok ⟨Method.all, handler, [(['*'], [.wildcard])]⟩ :=
  rfl

/- Its only step takes whole paths. -/
theorem plan_catchall
    (handler : H) :
    ParsedRoute.plan (E := E)
        ⟨Method.all, handler, [(['*'], [.wildcard])]⟩ =
      .ok ⟨handler, [⟨['*'], [⟨.any, none⟩]⟩]⟩ :=
  rfl

/- It owns the leaves of all variants. -/
theorem isSome_ownerFor?_catchall
    (handler : H)
    (method : Text)
    (variant : PlannedVariant) :
    ((catchall handler).ownerFor? E method
      variant).isSome = true := by
  apply
    isSome_ownerFor? (ofRegistration_catchall handler)
      (Method.serves_all method) (plan_catchall handler)
      List.mem_cons_self
  rw [Leaf.isOwnedBy, Bool.or_eq_true]
  exact Or.inr rfl

end Registration

namespace Compiled

/-
  What a compiled matcher finds are the handlers of the
  registrations that own some variant, whatever the engine
  does.
-/
theorem exists_owned_of_lookup
    {registrations : List (Registration H)}
    {requests : List (Text × Text)}
    {method path : Text}
    {found : Match H}
    (hLookup :
      (((ofRegistrations E registrations).afterLookups
        requests).lookup method path).value.1 =
          .ok (some found)) :
    ∃ variant,
      found.handlers =
        (registrations.filter fun registration =>
          (registration.ownerFor? E method
            variant).isSome).map (·.handler) := by
  rcases exists_plan hLookup with
    ⟨planned, plan, program, hPlanned, hLeaves, hProgram,
      hFound⟩
  have hHolds :=
    Plan.holds_of_ofLeaves hLeaves
      (Plan.openLast_ofRoutes
        (Registration.areRead_of_mapM hPlanned))
  rcases MethodProgram.exists_leaf_of_find hProgram
      hFound.symm with ⟨-, leaf, hLeaf, hHandlers⟩
  have hMember : leaf ∈ Leaf.ofRoutes planned := by
    rw [hHolds.statics, hHolds.dynamics] at hLeaf
    rcases hLeaf with hLeaf | hLeaf
    · exact (List.mem_filter.mp hLeaf).1
    · exact (List.mem_filter.mp hLeaf).1
  rcases Leaf.exists_variant_of_mem_ofRoutes hMember with
    ⟨route, -, variant, -, rfl⟩
  refine ⟨variant, hHandlers.trans ?_⟩
  exact
    Registration.handlers_ofVariant registrations hPlanned
      variant

/-
  A compiled matcher that finds something has the handler
  in front. It finds something for every path on one line if
  all constraints are counted.
-/
theorem leadsWith_catchall
    (hE : E.IsLeftmostFirst)
    {handler : H}
    {others : List (Registration H)}
    (requests : List (Text × Text))
    {method path : Text}
    {answer : Option (Match H)}
    (hLookup :
      (((ofRegistrations E
            (Registration.catchall handler ::
              others)).afterLookups requests).lookup method
          path).value.1 = .ok answer) :
    (answer ≠ none → Reply.LeadsWith handler (.ok answer)) ∧
      ('\n' ∉ path →
        (∀ route ∈
            Registration.parsed E
              (Registration.catchall handler :: others),
          route.IsCounted) →
        Reply.LeadsWith handler (.ok answer)) := by
  have hLeads :
      answer ≠ none →
        Reply.LeadsWith handler (.ok answer) := by
    intro hSome
    rcases Option.ne_none_iff_exists'.mp hSome with
      ⟨found, rfl⟩
    rcases exists_owned_of_lookup hLookup with
      ⟨variant, hHandlers⟩
    rw [List.filter_cons_of_pos] at hHandlers
    · rw [Reply.LeadsWith, hHandlers]
      rfl
    · exact
        Registration.isSome_ownerFor?_catchall handler method
          variant
  refine ⟨hLeads, fun hLine hCounted => hLeads ?_⟩
  rintro rfl
  -- The path is spelled by the variant of the handler.
  have hNone := isSpelled_of_lookup hE hCounted hLookup
  rcases Edge.exists_spells_any hLine none with
    ⟨texts, hSpells⟩
  apply hNone ⟨['*'], [⟨.any, none⟩]⟩ ?_ texts hSpells
  exact
    ⟨_,
      Registration.mem_parsed List.mem_cons_self
        (Registration.ofRegistration_catchall handler),
      Method.serves_all method, [.wildcard], by simp, rfl⟩

end Compiled

end RequestRouter

------------------------------------------------------------
-- Runs of Matchers
------------------------------------------------------------

namespace RequestRouter

open Regex

variable {E : Engine}
variable {H : Type}

namespace Registration

/-
  If the first route that a run accepts is a handler for all
  requests, then a trie answers every request with this
  handler in front, and a scan every request on one line. A
  compiled matcher whose lookup does not fail has it in
  front of whatever it finds. For requests on one line it
  finds something, if all constraints are counted.
-/
theorem catchall_leads
    (hE : E.IsLeftmostFirst)
    (handler : H)
    (calls : List (Call H))
    (method path : Text) :
    let trie : Matcher E H := (Blueprint.plain .trie).fresh
    let scan : Matcher E H :=
      (Blueprint.plain .linear).fresh
    let compiled : Matcher E H :=
      (Blueprint.plain .compiled).fresh
    ((trie.accepted calls).head? = some (catchall handler) →
        Reply.LeadsWith handler
          ((trie.after calls).lookup method path).value.1) ∧
      ((scan.accepted calls).head? =
          some (catchall handler) →
        '\n' ∉ path →
        Reply.LeadsWith handler
          ((scan.after calls).lookup method
            path).value.1) ∧
      ∀ answer,
        (compiled.accepted calls).head? =
            some (catchall handler) →
          ((compiled.after calls).lookup method
              path).value.1 = .ok answer →
            (answer ≠ none →
                Reply.LeadsWith handler (.ok answer)) ∧
              ('\n' ∉ path →
                (∀ route ∈ parsed E (compiled.accepted calls),
                  route.IsCounted) →
                Reply.LeadsWith handler (.ok answer)) := by
  intro trie scan compiled
  refine ⟨?_, ?_, ?_⟩
  · intro hFirst
    rcases List.head?_eq_some_iff.mp hFirst with
      ⟨others, hAccepted⟩
    rcases Matcher.exists_trie_after (E := E) calls with
      ⟨own, hAfter, hAdds⟩
    rw [hAccepted] at hAdds
    rw [hAfter]
    exact Trie.leadsWith_catchall hAdds method path
  · intro hFirst hLine
    rcases List.head?_eq_some_iff.mp hFirst with
      ⟨others, hAccepted⟩
    rcases Matcher.exists_scan_after (E := E) calls with
      ⟨own, hAfter, hAdds⟩
    rw [hAccepted] at hAdds
    rw [hAfter]
    exact
      LinearScan.leadsWith_catchall hE hAdds method hLine
  · intro answer hFirst hLookup
    rcases List.head?_eq_some_iff.mp hFirst with
      ⟨others, hAccepted⟩
    rw [Matcher.lookup_compiled_after, hAccepted] at hLookup
    rw [hAccepted]
    exact Compiled.leadsWith_catchall hE [] hLookup

/-
  A handler for all requests, a route with a parameter and a
  refused one.
-/
def guarded : List (Call Nat) :=
  [.add (catchall 0),
    .add ⟨['G'], ['/', 'a', '/', ':', 'y'], 1⟩,
    .add ⟨['G'], ['/', ':', 'x', '/', ':', 'x'], 2⟩,
    .lookup ['G'] ['/']]

/-
  The handler is in front of the route's one, also where the
  combined expression of a compiled matcher answers.
-/
theorem catchall_leads_guarded :
    let trie : Matcher treeEngine Nat :=
      (Blueprint.plain .trie).fresh
    let scan : Matcher treeEngine Nat :=
      (Blueprint.plain .linear).fresh
    let compiled : Matcher treeEngine Nat :=
      (Blueprint.plain .compiled).fresh
    let path : Text := ['/', 'a', '/', 'b']
    let both : Match Nat := ⟨[0, 1], ⟨[(['y'], ['b'])]⟩⟩
    treeEngine.IsLeftmostFirst ∧
      (trie.accepted guarded).head? = some (catchall 0) ∧
      Reply.LeadsWith 0
        ((trie.after guarded).lookup ['G'] path).value.1 ∧
      (scan.accepted guarded).head? = some (catchall 0) ∧
      Reply.LeadsWith 0
        ((scan.after guarded).lookup ['G'] path).value.1 ∧
      (compiled.accepted guarded).head? =
        some (catchall 0) ∧
      (∀ route ∈
          parsed treeEngine (compiled.accepted guarded),
        route.IsCounted) ∧
      ((compiled.after guarded).lookup ['G']
          path).value.1 = .ok (some both) ∧
      Reply.LeadsWith 0 (.ok (some both)) := by
  intro trie scan compiled path both
  have hLine : '\n' ∉ path := by decide
  have hTrie :
      (trie.accepted guarded).head? = some (catchall 0) := by
    decide +kernel
  have hScan :
      (scan.accepted guarded).head? = some (catchall 0) := by
    decide +kernel
  have hCompiled :
      (compiled.accepted guarded).head? =
        some (catchall 0) := by
    decide +kernel
  have hCounted :
      ∀ route ∈
          parsed treeEngine (compiled.accepted guarded),
        route.IsCounted := by
    decide +kernel
  have hLookup :
      ((compiled.after guarded).lookup ['G']
          path).value.1 = .ok (some both) := by
    cbv
  rcases
      catchall_leads isLeftmostFirst_treeEngine 0 guarded
        ['G'] path with
    ⟨hFirst, hSecond, hThird⟩
  exact
    ⟨isLeftmostFirst_treeEngine, hTrie, hFirst hTrie, hScan,
      hSecond hScan hLine, hCompiled, hCounted, hLookup,
      (hThird _ hCompiled hLookup).2 hLine hCounted⟩

/- A handler for all requests, and a route for a segment. -/
def beside : List (Call Nat) :=
  [.add (catchall 0), .add ⟨['G'], ['/', ':', 'x'], 1⟩]

/-
  On a path of two lines a scan answers with the route and
  without the handler in front of it. A compiled matcher
  does not answer where the handler is all that it has.
-/
theorem catchall_passed_over :
    let trie : Matcher treeEngine Nat :=
      (Blueprint.plain .trie).fresh
    let scan : Matcher treeEngine Nat :=
      (Blueprint.plain .linear).fresh
    let compiled : Matcher treeEngine Nat :=
      (Blueprint.plain .compiled).fresh
    let lines : Text := ['/', 'a', '\n', 'b']
    let binding : Params := ⟨[(['x'], ['a', '\n', 'b'])]⟩
    ((trie.after beside).lookup ['G'] lines).value.1 =
        .ok (some ⟨[0, 1], binding⟩) ∧
      ((scan.accepted beside).head? = some (catchall 0) ∧
        ((scan.after beside).lookup ['G'] lines).value.1 =
          .ok (some ⟨[1], binding⟩)) ∧
      (compiled.accepted [.add (catchall 0)]).head? =
          some (catchall 0) ∧
        ((compiled.after [.add (catchall 0)]).lookup ['G']
          lines).value.1 = .ok none := by
  decide +kernel

end Registration

end RequestRouter
