import RequestRouter.Proofs.AssocList
import RequestRouter.Trie.Node

/-
  What attaching a score does to the lists of a method table.

  A request sees a new score at the end of its list exactly
  if the score was attached under its method or under all
  methods; the merging of lists cannot be observed.

  Key definition:
    * `TrieNode.attachEach`

  Main statements:
    * `MethodTable.scoresFor_empty`
    * `MethodTable.scoresFor_attach`
    * `TrieNode.scoresFor_fresh_attachEach`
-/

------------------------------------------------------------
-- Attaching Scores
------------------------------------------------------------

namespace RequestRouter

namespace MethodTable

/- An empty table has no scores for any method. -/
@[simp]
theorem scoresFor_empty
    (method : Text) :
    empty.scoresFor method = [] :=
  rfl

/- What is kept for a method behind a score for all methods. -/
theorem list?_attachAll
    (table : MethodTable)
    (score : Nat)
    (wanted : Text) :
    (table.attachAll score).list? wanted =
      ((table.list? wanted).map (· ++ [score])).or
        (if Method.all = wanted then some [score]
        else none) := by
  have hMapped :
      AssocList.find? (· == wanted)
          (table.lists.map fun entry =>
            (entry.1, entry.2 ++ [score])) =
        (table.list? wanted).map (· ++ [score]) :=
    AssocList.find?_map (· == wanted) (· ++ [score])
      table.lists
  unfold attachAll
  split
  case isTrue hAll =>
      change AssocList.find? _ _ = _
      rw [hMapped]
      by_cases hWanted : Method.all = wanted
      · subst hWanted
        rcases Option.isSome_iff_exists.mp hAll with
          ⟨scores, hScores⟩
        simp [hScores]
      · simp [hWanted]
  case isFalse =>
      change AssocList.find? _ _ = _
      rw [AssocList.find?_concat, hMapped]
      simp only [beq_iff_eq]

/- A score for all methods is seen by every request. -/
theorem scoresFor_attachAll
    (table : MethodTable)
    (score : Nat)
    (method : Text) :
    (table.attachAll score).scoresFor method =
      table.scoresFor method ++ [score] := by
  unfold scoresFor
  rw [list?_attachAll, list?_attachAll, if_pos rfl]
  cases hList : table.list? method with
  | some scores => simp
  | none =>
      by_cases hMethod : Method.all = method
      · subst hMethod
        simp [hList]
      · cases table.list? Method.all <;> simp [hMethod]

/- A score for one method is seen by its requests only. -/
theorem scoresFor_attachOne
    (table : MethodTable)
    {registered : Text}
    (hRegistered : registered ≠ Method.all)
    (score : Nat)
    (method : Text) :
    (table.attachOne registered score).scoresFor method =
      if registered = method then
        table.scoresFor method ++ [score]
      else table.scoresFor method := by
  have hFind :
      ∀ wanted,
        (table.attachOne registered score).list? wanted =
          if registered = wanted then
            some
              (((table.list? registered).getD
                ((table.list? Method.all).getD [])) ++
                  [score])
          else table.list? wanted := by
    intro wanted
    unfold attachOne list?
    rw [AssocList.find?_upsert]
    simp
  unfold scoresFor
  rw [hFind method, hFind Method.all, if_neg hRegistered]
  by_cases hMethod : registered = method
  · subst hMethod
    rw [if_pos rfl, if_pos rfl]
    cases table.list? registered <;> simp
  · rw [if_neg hMethod, if_neg hMethod]

/-
  A request sees an attached score at the end of its list if
  the method of the score serves it, and nothing else.
-/
theorem scoresFor_attach
    (table : MethodTable)
    (registered : Text)
    (score : Nat)
    (method : Text) :
    (table.attach registered score).scoresFor method =
      if Method.serves registered method then
        table.scoresFor method ++ [score]
      else table.scoresFor method := by
  unfold attach Method.serves
  by_cases hAll : registered = Method.all
  · subst hAll
    simp [scoresFor_attachAll]
  · simp only [hAll, if_false, Bool.or_eq_true, beq_iff_eq,
      or_false]
    exact scoresFor_attachOne table hAll score method

end MethodTable

end RequestRouter

------------------------------------------------------------
-- Attaching Scores in a Row
------------------------------------------------------------

namespace RequestRouter

variable {E : Regex.Engine}

namespace TrieNode

/- Attach scores to a node, each under its method, in turn. -/
def attachEach
    (node : TrieNode E)
    (calls : List (Text × Nat)) : TrieNode E :=
  calls.foldl
    (fun node call => node.attach call.1 call.2 []) node

/- A score that is attached first comes before the others. -/
theorem attachEach_cons
    (node : TrieNode E)
    (call : Text × Nat)
    (calls : List (Text × Nat)) :
    node.attachEach (call :: calls) =
      (node.attach call.1 call.2 []).attachEach calls :=
  rfl

/-
  Behind what a request saw at a node, it sees the scores of
  the calls that serve its method, in their order.
-/
theorem scoresFor_attachEach
    (node : TrieNode E)
    (calls : List (Text × Nat))
    (method : Text) :
    (node.attachEach calls).scores.scoresFor method =
      node.scores.scoresFor method ++
        (calls.filter fun call =>
          Method.serves call.1 method).map Prod.snd := by
  induction calls generalizing node with
  | nil => simp [attachEach]
  | cons call rest ih =>
      have hStep :
          (node.attach call.1 call.2 []).scores.scoresFor
              method =
            if Method.serves call.1 method then
              node.scores.scoresFor method ++ [call.2]
            else node.scores.scoresFor method :=
        node.scores.scoresFor_attach call.1 call.2 method
      rw [attachEach_cons, ih, hStep]
      cases hServes : Method.serves call.1 method with
      | true => simp [hServes]
      | false => simp [hServes]

/-
  At a fresh node a request sees exactly the scores attached
  under its method or under all methods, in their order, and
  no others, however the calls are mixed.
-/
theorem scoresFor_fresh_attachEach
    (calls : List (Text × Nat))
    (method : Text) :
    ((empty : TrieNode E).attachEach calls).scores.scoresFor
        method =
      (calls.filter fun call =>
        call.1 = method ∨ call.1 = Method.all).map
          Prod.snd := by
  rw [scoresFor_attachEach]
  have hServed :
      (calls.filter fun call =>
          Method.serves call.1 method) =
        calls.filter fun call =>
          call.1 = method ∨ call.1 = Method.all := by
    apply List.filter_congr
    intro call _
    apply Bool.eq_iff_iff.mpr
    simp [Method.serves]
  rw [hServed]
  rfl

end TrieNode

end RequestRouter
