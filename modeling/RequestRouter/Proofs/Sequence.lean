import Mathlib.Data.List.Forall2

/-
  Computations that may fail, one after the other: when a
  sequence of them succeeds, each of them does.

  Main statements:
    * `Sequence.bind_eq_ok_iff`
    * `Sequence.map_eq_ok_iff`
    * `Sequence.mapM_eq_ok_iff`
    * `Sequence.exists_of_mapM_eq_error`
    * `Sequence.foldlM_concat_eq_ok_iff`
    * `Sequence.foldlM_eq_ok_of_step`
    * `Sequence.fault?_mapM`
-/

------------------------------------------------------------
-- Successful Sequences
------------------------------------------------------------

namespace RequestRouter

namespace Sequence

variable {ε α β : Type}

/- Two steps succeed if the first does, and the second then. -/
theorem bind_eq_ok_iff
    (first : Except ε α)
    (next : α → Except ε β)
    (result : β) :
    (first >>= next) = .ok result ↔
      ∃ value, first = .ok value ∧
        next value = .ok result := by
  cases first with
  | error fault => simp [bind, Except.bind]
  | ok value => simp [bind, Except.bind]

/- A mapped computation succeeds if the computation does. -/
theorem map_eq_ok_iff
    (f : α → β)
    (value : Except ε α)
    (result : β) :
    value.map f = .ok result ↔
      ∃ own, value = .ok own ∧ f own = result := by
  cases value with
  | error fault => simp [Except.map]
  | ok own => simp [Except.map]

/- And it fails as the computation does. -/
theorem map_eq_error_iff
    (f : α → β)
    (value : Except ε α)
    (fault : ε) :
    value.map f = .error fault ↔ value = .error fault := by
  cases value with
  | error fault => simp [Except.map]
  | ok own => simp [Except.map]

/- A step that cannot fail leaves success to the first. -/
theorem exists_bind_eq_ok_iff
    {first : Except ε α}
    {next : α → Except ε β}
    (hNext : ∀ value, ∃ result, next value = .ok result) :
    (∃ result, (first >>= next) = .ok result) ↔
      ∃ value, first = .ok value := by
  simp only [bind_eq_ok_iff]
  constructor
  · rintro ⟨result, value, hFirst, -⟩
    exact ⟨value, hFirst⟩
  · rintro ⟨value, hFirst⟩
    rcases hNext value with ⟨result, hResult⟩
    exact ⟨result, value, hFirst, hResult⟩

/- A list is mapped if every member is. -/
theorem mapM_eq_ok_iff
    (f : α → Except ε β)
    (items : List α)
    (results : List β) :
    items.mapM f = .ok results ↔
      List.Forall₂ (fun item result => f item = .ok result)
        items results := by
  induction items generalizing results with
  | nil =>
      cases results <;> simp [pure, Except.pure]
  | cons item items ih =>
      simp only [List.mapM_cons, bind_eq_ok_iff, ih]
      constructor
      · rintro ⟨result, hItem, later, hItems, hResults⟩
        cases hResults
        exact .cons hItem hItems
      · intro hAll
        cases hAll with
        | cons hItem hItems =>
            exact ⟨_, hItem, _, hItems, rfl⟩

/- Beside each member of a list stands one of the other. -/
theorem exists_of_mem_left
    {R : α → β → Prop}
    {items : List α}
    {others : List β}
    (hAll : List.Forall₂ R items others)
    {item : α}
    (hMember : item ∈ items) :
    ∃ other ∈ others, R item other := by
  induction hAll with
  | nil => cases hMember
  | cons hFirst _ ih =>
      rcases List.mem_cons.mp hMember with rfl | hRest
      · exact ⟨_, by simp, hFirst⟩
      · rcases ih hRest with ⟨other, hOther, hBoth⟩
        exact
          ⟨other, List.mem_cons_of_mem _ hOther, hBoth⟩

/- The same holds the other way round. -/
theorem exists_of_mem_right
    {R : α → β → Prop}
    {items : List α}
    {others : List β}
    (hAll : List.Forall₂ R items others)
    {other : β}
    (hMember : other ∈ others) :
    ∃ item ∈ items, R item other :=
  exists_of_mem_left hAll.flip hMember

/- Each result of a mapped list comes from a member. -/
theorem exists_of_mem_mapM
    {f : α → Except ε β}
    {items : List α}
    {results : List β}
    (hMap : items.mapM f = .ok results)
    {result : β}
    (hMember : result ∈ results) :
    ∃ item ∈ items, f item = .ok result :=
  exists_of_mem_right ((mapM_eq_ok_iff _ _ _).mp hMap)
    hMember

/- Each member of a mapped list has a result. -/
theorem exists_of_mem_items
    {f : α → Except ε β}
    {items : List α}
    {results : List β}
    (hMap : items.mapM f = .ok results)
    {item : α}
    (hMember : item ∈ items) :
    ∃ result ∈ results, f item = .ok result :=
  exists_of_mem_left ((mapM_eq_ok_iff _ _ _).mp hMap)
    hMember

/- Two steps fail where the first does, or the second then. -/
theorem bind_eq_error_iff
    (first : Except ε α)
    (next : α → Except ε β)
    (fault : ε) :
    (first >>= next) = .error fault ↔
      first = .error fault ∨
        ∃ value, first = .ok value ∧
          next value = .error fault := by
  cases first with
  | error own => simp [bind, Except.bind]
  | ok value => simp [bind, Except.bind]

/- A list that is not mapped has a member that is not. -/
theorem exists_of_mapM_eq_error
    {f : α → Except ε β}
    {items : List α}
    {fault : ε}
    (hMap : items.mapM f = .error fault) :
    ∃ item ∈ items, f item = .error fault := by
  induction items with
  | nil => cases hMap
  | cons item items ih =>
      rw [List.mapM_cons, bind_eq_error_iff] at hMap
      rcases hMap with hItem | ⟨result, -, hRest⟩
      · exact ⟨item, by simp, hItem⟩
      · rcases (bind_eq_error_iff _ _ _).mp hRest with
          hItems | ⟨_, -, hPure⟩
        · rcases ih hItems with ⟨other, hMember, hOther⟩
          exact
            ⟨other, List.mem_cons_of_mem _ hMember, hOther⟩
        · cases hPure

/- A list whose members are all mapped is mapped. -/
theorem exists_mapM_eq_ok
    {f : α → Except ε β}
    {items : List α}
    (hItems : ∀ item ∈ items, ∃ result, f item = .ok result) :
    ∃ results, items.mapM f = .ok results := by
  cases hMap : items.mapM f with
  | ok results => exact ⟨results, rfl⟩
  | error fault =>
      rcases exists_of_mapM_eq_error hMap with
        ⟨item, hMember, hFault⟩
      rcases hItems item hMember with ⟨result, hResult⟩
      rw [hFault] at hResult
      cases hResult

/- A run over a list ends with the step for its last item. -/
theorem foldlM_concat_eq_ok_iff
    (step : β → α → Except ε β)
    (start : β)
    (items : List α)
    (item : α)
    (result : β) :
    (items ++ [item]).foldlM step start = .ok result ↔
      ∃ before, items.foldlM step start = .ok before ∧
        step before item = .ok result := by
  rw [List.foldlM_append, bind_eq_ok_iff]
  simp

/- A run whose steps are known ends with what is built. -/
theorem foldlM_eq_ok_of_step
    {step : β → α → Except ε β}
    (built : List α → β)
    {items : List α}
    (hStep :
      ∀ front, ∀ item ∈ items,
        step (built front) item =
          .ok (built (front ++ [item])))
    (front : List α) :
    items.foldlM step (built front) =
      .ok (built (front ++ items)) := by
  induction items generalizing front with
  | nil => rw [List.append_nil]; rfl
  | cons item rest ih =>
      have hRest :=
        ih
          (fun front later hLater =>
            hStep front later (List.mem_cons_of_mem _ hLater))
          (front ++ [item])
      rw [List.foldlM_cons, hStep front item (by simp)]
      rwa [List.append_assoc] at hRest

/- A computation has a value if it succeeds with it. -/
theorem toOption_eq_some_iff
    (value : Except ε α)
    (result : α) :
    value.toOption = some result ↔ value = .ok result := by
  cases value with
  | error fault => simp [Except.toOption]
  | ok value => simp [Except.toOption]

/- A mapped list has the results of its members, in order. -/
theorem eq_filterMap_of_mapM
    {f : α → Except ε β}
    {items : List α}
    {results : List β}
    (hMap : items.mapM f = .ok results) :
    results = items.filterMap fun item =>
      (f item).toOption := by
  have hAll := (mapM_eq_ok_iff _ _ _).mp hMap
  clear hMap
  induction hAll with
  | nil => rfl
  | cons hFirst _ ih =>
      rw [List.filterMap_cons, hFirst, ← ih]
      rfl

/- A list that is mapped is mapped in every order. -/
theorem exists_mapM_of_perm
    {f : α → Except ε β}
    {items others : List α}
    (hPerm : items.Perm others)
    {results : List β}
    (hMap : items.mapM f = .ok results) :
    ∃ twins, others.mapM f = .ok twins ∧
      results.Perm twins := by
  have hOthers :
      ∀ item ∈ others, ∃ result, f item = .ok result := by
    intro item hItem
    rcases
        exists_of_mem_items hMap
          (hPerm.mem_iff.mpr hItem) with
      ⟨result, -, hResult⟩
    exact ⟨result, hResult⟩
  rcases exists_mapM_eq_ok hOthers with ⟨twins, hTwins⟩
  refine ⟨twins, hTwins, ?_⟩
  rw [eq_filterMap_of_mapM hMap, eq_filterMap_of_mapM hTwins]
  exact hPerm.filterMap _

end Sequence

end RequestRouter

------------------------------------------------------------
-- Faults
------------------------------------------------------------

namespace RequestRouter

namespace Sequence

variable {ε α β : Type}

/- The fault that a computation ends with, if any. -/
def fault? : Except ε α → Option ε
  | .ok _ => none
  | .error fault => some fault

/- Only a computation with a fault fails. -/
theorem fault?_eq_some_iff
    (value : Except ε α)
    (fault : ε) :
    fault? value = some fault ↔ value = .error fault := by
  cases value <;> simp [fault?]

/- Turning the result into another one adds no fault. -/
@[simp]
theorem fault?_map
    (f : α → β)
    (value : Except ε α) :
    fault? (value.map f) = fault? value := by
  cases value <;> rfl

/- A step that cannot fail adds no fault. -/
theorem fault?_bind_of_ok
    (first : Except ε α)
    {next : α → Except ε β}
    (hNext : ∀ value, fault? (next value) = none) :
    fault? (first >>= next) = fault? first := by
  cases first with
  | error fault => rfl
  | ok value => exact hNext value

/- A mapped list has the fault of its first faulty member. -/
theorem fault?_mapM
    (f : α → Except ε β)
    (items : List α) :
    fault? (items.mapM f) =
      items.findSome? fun item => fault? (f item) := by
  induction items with
  | nil => rfl
  | cons item rest ih =>
      rw [List.mapM_cons, List.findSome?_cons]
      cases f item with
      | error fault => rfl
      | ok result =>
          -- What is left only puts the result in front.
          exact
            (fault?_bind_of_ok (rest.mapM f)
              fun _ => rfl).trans ih

/- Renaming the faults of members is renaming that of all. -/
theorem mapM_mapError
    {δ : Type}
    (f : α → Except ε β)
    (rename : ε → δ)
    (items : List α) :
    (items.mapM fun item => (f item).mapError rename) =
      (items.mapM f).mapError rename := by
  induction items with
  | nil => rfl
  | cons item rest ih =>
      rw [List.mapM_cons, List.mapM_cons, ih]
      cases f item with
      | error fault => rfl
      | ok result => cases rest.mapM f <;> rfl

/- So has a list that is gone through. -/
theorem fault?_forM
    (f : α → Except ε Unit)
    (items : List α) :
    fault? (items.forM f) =
      items.findSome? fun item => fault? (f item) := by
  induction items with
  | nil => rfl
  | cons item rest ih =>
      rw [List.forM, List.findSome?_cons]
      cases f item with
      | error fault => rfl
      | ok passed => exact ih

end Sequence

end RequestRouter
