import RequestRouter.Proofs.Compiled.Reordering
import RequestRouter.Proofs.Selector.History

/-
  What plain matchers hold behind a run of calls.

  A matcher that lookups leave as it is holds the routes
  that the run accepted, as if nothing else had been called.
  The lookups of a compiled matcher are those of a fresh one
  with these routes, whether it has been built or not.

  Main statements:
    * `Matcher.exists_after_of_perform`
    * `Matcher.exists_trie_after`
    * `Matcher.exists_scan_after`
    * `Matcher.lookup_compiled_after`
-/

------------------------------------------------------------
-- Matchers That Lookups Leave Alone
------------------------------------------------------------

namespace RequestRouter

variable {E : Regex.Engine}
variable {H : Type}

namespace Matcher

/-
  Whatever state a matcher wraps: if registrations step from
  state to state and lookups do not, then the state behind a
  run is the one that the accepted routes lead to.
-/
theorem exists_after_of_perform
    {State Fault : Type}
    {wrap : State → Matcher E H}
    {step : State → Registration H → Except Fault State}
    (hTaken :
      ∀ state registration next,
        step state registration = .ok next →
          (wrap state).perform (.add registration) =
            (.added (.ok ()), wrap next))
    (hRefused :
      ∀ state registration fault,
        step state registration = .error fault →
          ∃ error,
            (wrap state).perform (.add registration) =
              (.added (.error error), wrap state))
    (hLookup :
      ∀ state method path,
        ((wrap state).perform (.lookup method path)).2 =
          wrap state)
    (start : State)
    (calls : List (Call H)) :
    ∃ state,
      (wrap start).after calls = wrap state ∧
        ((wrap start).accepted calls).foldlM step start =
          .ok state := by
  induction calls using List.reverseRecOn with
  | nil => exact ⟨start, rfl, rfl⟩
  | append_singleton calls call ih =>
      rcases ih with ⟨state, hAfter, hSteps⟩
      rw [after_append, accepted_append, hAfter,
        after_singleton, accepted_singleton]
      cases call with
      | lookup method path =>
          have hNone :
              taken (.lookup method path)
                  ((wrap state).perform
                    (.lookup method path)).1 = [] :=
            rfl
          rw [hNone, List.append_nil]
          exact ⟨state, hLookup state method path, hSteps⟩
      | add registration =>
          cases hOwn : step state registration with
          | ok next =>
              rw [hTaken state registration next hOwn]
              exact
                ⟨next, rfl,
                  (Sequence.foldlM_concat_eq_ok_iff _ _ _ _
                    _).mpr ⟨state, hSteps, hOwn⟩⟩
          | error fault =>
              rcases hRefused state registration fault hOwn with
                ⟨error, hSame⟩
              rw [hSame]
              exact ⟨state, rfl, by simpa [taken] using hSteps⟩

/- A trie behind a run holds what the run accepted. -/
theorem exists_trie_after
    (calls : List (Call H)) :
    let fresh : Matcher E H := (Blueprint.plain .trie).fresh
    ∃ trie,
      fresh.after calls = .trie trie ∧
        (fresh.accepted calls).foldlM Trie.add Trie.empty =
          .ok trie := by
  apply exists_after_of_perform
  case hLookup => exact fun _ _ _ => rfl
  case hTaken =>
    intro trie registration next hAdd
    simp [perform, add, hAdd, Except.map, Traced.silent]
  case hRefused =>
    intro trie registration error hAdd
    exact
      ⟨error, by
        simp [perform, add, hAdd, Except.map, Traced.silent]⟩

/- A scan behind a run holds what the run accepted. -/
theorem exists_scan_after
    (calls : List (Call H)) :
    let fresh : Matcher E H :=
      (Blueprint.plain .linear).fresh
    ∃ scan,
      fresh.after calls = .linear scan ∧
        (fresh.accepted calls).foldlM LinearScan.add
          LinearScan.empty = .ok scan := by
  apply exists_after_of_perform
  case hLookup => exact fun _ _ _ => rfl
  case hTaken =>
    intro scan registration next hAdd
    simp [perform, add, hAdd, Traced.silent]
  case hRefused =>
    intro scan registration fault hAdd
    exact ⟨fault.error, by simp [perform, add, hAdd]⟩

end Matcher

end RequestRouter

------------------------------------------------------------
-- Compiled Matchers
------------------------------------------------------------

namespace RequestRouter

variable {E : Regex.Engine}
variable {H : Type}

namespace Matcher

/- Registrations alone leave their matcher, unbuilt. -/
theorem compiled_after_adds
    (registrations : List (Registration H)) :
    ((Blueprint.plain .compiled).fresh :
        Matcher E H).after (registrations.map .add) =
      .compiled
        (Compiled.ofRegistrations E registrations) := by
  induction registrations using List.reverseRecOn with
  | nil => rfl
  | append_singleton registrations registration ih =>
      have hLast :
          Compiled.ofRegistrations E
              (registrations ++ [registration]) =
            ((Compiled.ofRegistrations E registrations).add
                registration).toOption.getD
              (Compiled.ofRegistrations E registrations) := by
        simp [Compiled.ofRegistrations]
      rw [List.map_append, after_append, ih,
        List.map_singleton, after_singleton, hLast]
      cases hAdd :
          (Compiled.ofRegistrations E registrations).add
            registration <;>
        simp [perform, add, hAdd, Except.map, Traced.silent,
          Except.toOption]

/-
  A compiled matcher behind a run answers from the routes
  that the run accepted.
-/
theorem lookup_compiled_after
    (calls : List (Call H))
    (method path : Text) :
    let fresh : Matcher E H :=
      (Blueprint.plain .compiled).fresh
    ((fresh.after calls).lookup method path).value.1 =
      ((Compiled.ofRegistrations E
        (fresh.accepted calls)).lookup method
          path).value.1 := by
  intro fresh
  have hOwn :
      ((fresh.after
          ((fresh.accepted calls).map .add)).lookup method
            path).value.1 =
        ((Compiled.ofRegistrations E
          (fresh.accepted calls)).lookup method
            path).value.1 := by
    rw [compiled_after_adds, lookup, Traced.value_bind]
    rfl
  rw [← hOwn]
  have hBehind :=
    (Blueprint.isOpen_or_isSettledFrom (E := E)
      (.plain .compiled) calls).2.2
  split at hBehind
  · rw [hBehind.lookup_eq]
  · rw [hBehind]

end Matcher

end RequestRouter
