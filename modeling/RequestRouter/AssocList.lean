/-
  Association lists that keep the order of insertion.

  Main statements:
    * `AssocList.upsert_ne_nil`
    * `AssocList.map_fst_upsert`
-/

------------------------------------------------------------
-- Insertion
------------------------------------------------------------

namespace RequestRouter

namespace AssocList

variable {K V : Type}

/-
  Apply `f` to the value of the first key that `same`
  accepts; where there is none, append `key` with `f init`.
-/
def upsert
    (same : K → Bool)
    (key : K)
    (init : V)
    (f : V → V) :
    List (K × V) → List (K × V)
  | [] => [(key, f init)]
  | (k, v) :: rest =>
      if same k then (k, f v) :: rest
      else (k, v) :: upsert same key init f rest

/- The value of the first key that `same` accepts. -/
def find?
    (same : K → Bool) :
    List (K × V) → Option V
  | [] => none
  | (k, v) :: rest =>
      if same k then some v else find? same rest

/- A list is not empty behind an insertion. -/
theorem upsert_ne_nil
    (same : K → Bool)
    (key : K)
    (init : V)
    (f : V → V)
    (entries : List (K × V)) :
    upsert same key init f entries ≠ [] := by
  cases entries with
  | nil => simp [upsert]
  | cons entry rest =>
      obtain ⟨k, v⟩ := entry
      unfold upsert
      split <;> simp

/- Insertion keeps the keys, and appends a missing one. -/
theorem map_fst_upsert
    (same : K → Bool)
    (key : K)
    (init : V)
    (f : V → V)
    (entries : List (K × V)) :
    (upsert same key init f entries).map Prod.fst =
      if (entries.map Prod.fst).any same then
        entries.map Prod.fst
      else entries.map Prod.fst ++ [key] := by
  induction entries with
  | nil => simp [upsert]
  | cons entry rest ih =>
      obtain ⟨k, v⟩ := entry
      by_cases hSame : same k = true
      · simp [upsert, hSame]
      · simp only [upsert, hSame, Bool.false_eq_true,
          if_false, List.map_cons, ih, List.any_cons,
          Bool.false_or]
        split <;> simp_all

end AssocList

end RequestRouter
