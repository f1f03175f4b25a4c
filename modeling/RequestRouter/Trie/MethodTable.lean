import RequestRouter.AssocList
import RequestRouter.Method

/-
  The scores attached to one place of the trie, by method.

  Scores for every method are merged into the list of each
  method, so that a lookup takes one list and need not
  filter it.

  Key definitions include:
    * `MethodTable`
    * `MethodTable.attach`
    * `MethodTable.scoresFor`
-/

------------------------------------------------------------
-- Method Tables
------------------------------------------------------------

namespace RequestRouter

/- Lists of scores by method. -/
structure MethodTable where
  lists : List (Text × List Nat)
  deriving DecidableEq, Repr

namespace MethodTable

/- A table without scores. -/
def empty : MethodTable :=
  ⟨[]⟩

/- The list kept for a method. -/
def list?
    (table : MethodTable)
    (method : Text) : Option (List Nat) :=
  AssocList.find? (· == method) table.lists

/- The scores that a request with a method reaches. -/
def scoresFor
    (table : MethodTable)
    (method : Text) : List Nat :=
  ((table.list? method).or (table.list? Method.all)).getD []

/- Attach a score to every method. -/
def attachAll
    (table : MethodTable)
    (score : Nat) : MethodTable :=
  let lists :=
    table.lists.map fun entry =>
      (entry.1, entry.2 ++ [score])
  if (table.list? Method.all).isSome then ⟨lists⟩
  else ⟨lists ++ [(Method.all, [score])]⟩

/-
  Attach a score to one method. A method seen for the first
  time starts with the scores of all methods.
-/
def attachOne
    (table : MethodTable)
    (method : Text)
    (score : Nat) : MethodTable :=
  ⟨AssocList.upsert (· == method) method
    ((table.list? Method.all).getD [])
    (· ++ [score]) table.lists⟩

/- Attach a score under a registered method. -/
def attach
    (table : MethodTable)
    (method : Text)
    (score : Nat) : MethodTable :=
  if method = Method.all then table.attachAll score
  else table.attachOne method score

end MethodTable

end RequestRouter
