import Mathlib.Data.List.Forall2
import RequestRouter.Route.Match

/-
  Binding names in order.

  The first value of a name counts, so that a list of pairs
  binds nothing new behind a list that it starts. Lists that
  start one another bind what the longest of them binds, in
  whatever order they come.

  Key definitions include:
    * `Params.Extends`
    * `Params.AreChained`
    * `Params.blank`

  Main statements:
    * `Params.extends_insertAll`
    * `Params.get?_ofList`
    * `Params.names_ofList_map_blank`
    * `Params.insertAll_flatten_eq`
    * `Params.insertAll_map_flatten_eq`
    * `Params.ofList_firsts`
-/

------------------------------------------------------------
-- Names That Are Bound
------------------------------------------------------------

namespace RequestRouter

namespace Params

/- Lists in a row are bound one after the other. -/
theorem insertAll_append
    (params : Params)
    (first second : List (Text × Text)) :
    params.insertAll (first ++ second) =
      (params.insertAll first).insertAll second :=
  List.foldl_append

/- Binding a name that is bound changes nothing. -/
theorem insertFirst_of_mem
    {params : Params}
    {name : Text}
    (hName : name ∈ params.names)
    (value : Text) :
    params.insertFirst name value = params := by
  simp [insertFirst, hName]

/- A name is bound if it was before or is bound now. -/
theorem mem_names_insertFirst_iff
    (params : Params)
    (name value other : Text) :
    other ∈ (params.insertFirst name value).names ↔
      other ∈ params.names ∨ other = name := by
  unfold insertFirst
  split
  case isTrue hBound =>
      have hName : name ∈ params.names := by
        simpa using hBound
      constructor
      · exact Or.inl
      · rintro (hOther | rfl)
        · exact hOther
        · exact hName
  case isFalse =>
      simp [names]

/- A list binds its own names and keeps the others. -/
theorem mem_names_insertAll_iff
    (params : Params)
    (pairs : List (Text × Text))
    (name : Text) :
    name ∈ (params.insertAll pairs).names ↔
      name ∈ params.names ∨ name ∈ pairs.map Prod.fst := by
  induction pairs generalizing params with
  | nil => simp [insertAll]
  | cons pair rest ih =>
      change
        name ∈
            ((params.insertFirst pair.1 pair.2).insertAll
              rest).names ↔ _
      rw [ih, mem_names_insertFirst_iff, List.map_cons,
        List.mem_cons, or_assoc]

/- Names that are all bound already change nothing. -/
theorem insertAll_of_bound
    {params : Params}
    {pairs : List (Text × Text)}
    (hBound :
      ∀ name ∈ pairs.map Prod.fst, name ∈ params.names) :
    params.insertAll pairs = params := by
  induction pairs with
  | nil => rfl
  | cons pair rest ih =>
      change
        (params.insertFirst pair.1 pair.2).insertAll rest =
          params
      rw [insertFirst_of_mem (hBound pair.1 (by simp))]
      exact
        ih fun name hName =>
          hBound name (List.mem_cons_of_mem _ hName)

/- Behind its own start a list binds what it binds alone. -/
theorem insertAll_behind_start
    {start pairs : List (Text × Text)}
    (hStart : start <+: pairs)
    (params : Params) :
    (params.insertAll start).insertAll pairs =
      params.insertAll pairs := by
  rcases hStart with ⟨later, rfl⟩
  have hAgain :
      (params.insertAll start).insertAll start =
        params.insertAll start := by
    apply insertAll_of_bound
    intro name hName
    exact
      (mem_names_insertAll_iff params start name).mpr
        (Or.inr hName)
  rw [insertAll_append, hAgain, insertAll_append]

/-
  Whether parameters are others with their values and in
  their order, and behind them new names only.
-/
def Extends
    (params others : Params) : Prop :=
  ∃ more,
    params.entries = others.entries ++ more ∧
      ∀ pair ∈ more, pair.1 ∉ others.names

namespace Extends

/- Parameters extend themselves. -/
theorem refl
    (params : Params) :
    params.Extends params :=
  ⟨[], by simp⟩

/- What extends an extension adds only new names, too. -/
theorem trans
    {first second third : Params}
    (hFirst : first.Extends second)
    (hSecond : second.Extends third) :
    first.Extends third := by
  rcases hFirst with ⟨last, hLast, hNew⟩
  rcases hSecond with ⟨more, hMore, hOther⟩
  refine ⟨more ++ last, ?_, ?_⟩
  · rw [hLast, hMore, List.append_assoc]
  · intro pair hPair
    rcases List.mem_append.mp hPair with hPair | hPair
    · exact hOther pair hPair
    · intro hName
      apply hNew pair hPair
      rw [names, hMore, List.map_append]
      exact List.mem_append_left _ hName

end Extends

/- Binding a name first extends the parameters. -/
theorem extends_insertFirst
    (params : Params)
    (name value : Text) :
    (params.insertFirst name value).Extends params := by
  unfold insertFirst
  split
  case isTrue => exact .refl params
  case isFalse hNew =>
      refine ⟨[(name, value)], rfl, ?_⟩
      simpa using hNew

/- So does binding a list. -/
theorem extends_insertAll
    (params : Params)
    (pairs : List (Text × Text)) :
    (params.insertAll pairs).Extends params := by
  induction pairs generalizing params with
  | nil => exact .refl params
  | cons pair rest ih =>
      exact
        (ih (params.insertFirst pair.1 pair.2)).trans
          (extends_insertFirst params pair.1 pair.2)

/- A first binding leaves the values of other names alone. -/
theorem get?_insertFirst
    (params : Params)
    (name value wanted : Text) :
    (params.insertFirst name value).get? wanted =
      (params.get? wanted).or
        (if wanted == name then some value else none) := by
  unfold insertFirst
  split
  case isTrue hBound =>
      have hName : name ∈ params.names := by
        simpa using hBound
      by_cases hSame : wanted = name
      · subst hSame
        rcases List.mem_map.mp hName with
          ⟨entry, hEntry, hKey⟩
        have hSome : (params.get? wanted).isSome = true :=
          List.lookup_isSome_iff.mpr
            ⟨entry, hEntry, by simpa using hKey.symm⟩
        rw [Option.or_of_isSome hSome]
      · rw [if_neg (by simpa using hSame), Option.or_none]
  case isFalse =>
      rw [get?, List.lookup_append, List.lookup_cons]
      cases wanted == name <;> rfl

/- Behind a list, a name has its old value or its first one. -/
theorem get?_insertAll
    (params : Params)
    (pairs : List (Text × Text))
    (name : Text) :
    (params.insertAll pairs).get? name =
      (params.get? name).or (pairs.lookup name) := by
  induction pairs generalizing params with
  | nil => rw [List.lookup_nil, Option.or_none]; rfl
  | cons pair rest ih =>
      change
        ((params.insertFirst pair.1 pair.2).insertAll
          rest).get? name = _
      rw [ih, get?_insertFirst, Option.or_assoc,
        List.lookup_cons]
      cases name == pair.1 <;> rfl

/- The value of a name is the first one in the list. -/
theorem get?_ofList
    (pairs : List (Text × Text))
    (name : Text) :
    (ofList pairs).get? name = pairs.lookup name :=
  get?_insertAll empty pairs name

/- A name is bound if it has a value. -/
theorem mem_names_iff_isSome
    (params : Params)
    (name : Text) :
    name ∈ params.names ↔
      (params.get? name).isSome = true := by
  rw [names, get?, List.lookup_isSome_iff, List.mem_map]
  refine exists_congr fun entry => and_congr_right fun _ => ?_
  rw [beq_iff_eq, eq_comm]

end Params

end RequestRouter

------------------------------------------------------------
-- Names and Values
------------------------------------------------------------

namespace RequestRouter

namespace Params

/- A pair with its value left out. -/
def blank
    (pair : Text × Text) : Text × Text :=
  (pair.1, [])

/- The names that are bound depend on names only. -/
theorem names_insertAll_congr
    {params others : Params}
    (hNames : params.names = others.names)
    {pairs more : List (Text × Text)}
    (hPairs : pairs.map Prod.fst = more.map Prod.fst) :
    (params.insertAll pairs).names =
      (others.insertAll more).names := by
  induction pairs generalizing params others more with
  | nil =>
      cases List.map_eq_nil_iff.mp hPairs.symm
      exact hNames
  | cons pair rest ih =>
      cases more with
      | nil => cases hPairs
      | cons other later =>
          rcases List.cons_eq_cons.mp hPairs with
            ⟨hFirst, hRest⟩
          apply ih ?_ hRest
          dsimp only [insertFirst]
          rw [hNames, hFirst]
          split
          · exact hNames
          · unfold names at hNames
            simp [names, hNames]

/- So the values may be left out. -/
theorem names_ofList_map_blank
    (pairs : List (Text × Text)) :
    (ofList (pairs.map blank)).names =
      (ofList pairs).names := by
  apply names_insertAll_congr rfl
  rw [List.map_map]
  rfl

/- Leaving the values out is a matter of the names. -/
theorem map_blank_eq
    (pairs : List (Text × Text)) :
    pairs.map blank =
      (pairs.map Prod.fst).map fun name => (name, []) := by
  rw [List.map_map]
  rfl

end Params

end RequestRouter

------------------------------------------------------------
-- Chains of Lists
------------------------------------------------------------

namespace RequestRouter

namespace Params

/- Whether of any two lists one starts the other. -/
def AreChained
    (lists : List (List (Text × Text))) : Prop :=
  ∀ a ∈ lists, ∀ b ∈ lists, a <+: b ∨ b <+: a

/- Among lists of a chain there is a longest. -/
theorem exists_longest
    {lists : List (List (Text × Text))}
    (hChain : AreChained lists)
    (hSome : lists ≠ []) :
    ∃ top ∈ lists, ∀ list ∈ lists, list <+: top := by
  induction lists with
  | nil => exact absurd rfl hSome
  | cons first rest ih =>
      by_cases hRest : rest = []
      · subst hRest
        exact ⟨first, by simp, by simp⟩
      · have hBelow : AreChained rest :=
          fun a ha b hb =>
            hChain a (List.mem_cons_of_mem _ ha) b
              (List.mem_cons_of_mem _ hb)
        rcases ih hBelow hRest with ⟨top, hTop, hAll⟩
        rcases
            hChain first (by simp) top
              (List.mem_cons_of_mem _ hTop) with
          hFirst | hLonger
        · refine
            ⟨top, List.mem_cons_of_mem _ hTop, ?_⟩
          intro list hList
          rcases List.mem_cons.mp hList with rfl | hList
          · exact hFirst
          · exact hAll list hList
        · refine ⟨first, by simp, ?_⟩
          intro list hList
          rcases List.mem_cons.mp hList with rfl | hList
          · exact List.prefix_refl _
          · exact (hAll list hList).trans hLonger

/- Behind a list, lists that start it bind nothing. -/
theorem insertAll_flatten_behind
    {lists : List (List (Text × Text))}
    {top : List (Text × Text)}
    (hAll : ∀ list ∈ lists, list <+: top)
    (params : Params) :
    (params.insertAll top).insertAll lists.flatten =
      params.insertAll top := by
  apply insertAll_of_bound
  intro name hName
  refine
    (mem_names_insertAll_iff params top name).mpr
      (Or.inr ?_)
  rcases List.mem_map.mp hName with ⟨pair, hPair, rfl⟩
  rcases List.mem_flatten.mp hPair with
    ⟨list, hList, hMember⟩
  exact List.mem_map_of_mem ((hAll list hList).subset hMember)

/- Lists that start one of them bind what this one binds. -/
theorem insertAll_flatten_of_mem
    {lists : List (List (Text × Text))}
    {top : List (Text × Text)}
    (hTop : top ∈ lists)
    (hAll : ∀ list ∈ lists, list <+: top)
    (params : Params) :
    params.insertAll lists.flatten =
      params.insertAll top := by
  induction lists generalizing params with
  | nil => cases hTop
  | cons first rest ih =>
      have hRest : ∀ list ∈ rest, list <+: top :=
        fun list hList =>
          hAll list (List.mem_cons_of_mem _ hList)
      rw [List.flatten_cons, insertAll_append]
      rcases List.mem_cons.mp hTop with rfl | hLater
      · exact insertAll_flatten_behind hRest params
      · rw [ih hLater hRest,
          insertAll_behind_start (hAll first (by simp))]

/- Chains with the same lists bind the same. -/
theorem insertAll_flatten_eq
    {first second : List (List (Text × Text))}
    (hChain : AreChained first)
    (hSame : ∀ list, list ∈ first ↔ list ∈ second)
    (params : Params) :
    params.insertAll first.flatten =
      params.insertAll second.flatten := by
  by_cases hSome : first = []
  · have hNone : second = [] := by
      apply List.eq_nil_iff_forall_not_mem.mpr
      intro list hList
      simp [hSome] at hSame
      exact hSame list hList
    rw [hSome, hNone]
  · rcases exists_longest hChain hSome with
      ⟨top, hTop, hAll⟩
    rw [insertAll_flatten_of_mem hTop hAll,
      insertAll_flatten_of_mem ((hSame top).mp hTop)
        fun list hList => hAll list ((hSame list).mpr hList)]

/-
  Of lists that are chained in some view, those suffice that
  have one of each length: they bind what all of them bind.
-/
theorem insertAll_map_flatten_eq
    {view : Text × Text → Text × Text}
    {some all : List (List (Text × Text))}
    (hChain : AreChained (all.map (List.map view)))
    (hSound : ∀ list ∈ some, list ∈ all)
    (hComplete :
      ∀ list ∈ all, ∃ twin ∈ some,
        twin.length = list.length)
    (params : Params) :
    params.insertAll (some.flatten.map view) =
      params.insertAll (all.flatten.map view) := by
  rw [List.map_flatten, List.map_flatten]
  refine (insertAll_flatten_eq hChain ?_ params).symm
  intro viewed
  constructor
  · intro hViewed
    rcases List.mem_map.mp hViewed with ⟨list, hList, rfl⟩
    rcases hComplete list hList with
      ⟨twin, hTwin, hLength⟩
    have hSame : list.map view = twin.map view := by
      rcases
          hChain _ (List.mem_map_of_mem hList) _
            (List.mem_map_of_mem (hSound twin hTwin)) with
        hStart | hStart
      · exact hStart.eq_of_length (by simp [hLength])
      · exact (hStart.eq_of_length (by simp [hLength])).symm
    rw [hSame]
    exact List.mem_map_of_mem hTwin
  · intro hViewed
    rcases List.mem_map.mp hViewed with ⟨list, hList, rfl⟩
    exact List.mem_map_of_mem (hSound list hList)

/- Lists in a row whose parts bind the same bind the same. -/
theorem insertAll_flatMap_eq
    {α β : Type}
    {f : α → List (Text × Text)}
    {g : β → List (Text × Text)}
    {items : List α}
    {others : List β}
    (hEach :
      List.Forall₂
        (fun item other =>
          ∀ params : Params,
            params.insertAll (f item) =
              params.insertAll (g other))
        items others)
    (params : Params) :
    params.insertAll (items.flatMap f) =
      params.insertAll (others.flatMap g) := by
  induction hEach generalizing params with
  | nil => rfl
  | cons hFirst _ ih =>
      rw [List.flatMap_cons, List.flatMap_cons,
        insertAll_append, insertAll_append, hFirst, ih]

/- So do the parts of one list under two maps. -/
theorem insertAll_flatMap_congr
    {α : Type}
    {items : List α}
    {f g : α → List (Text × Text)}
    (hEach :
      ∀ item ∈ items, ∀ params : Params,
        params.insertAll (f item) =
          params.insertAll (g item))
    (params : Params) :
    params.insertAll (items.flatMap f) =
      params.insertAll (items.flatMap g) :=
  insertAll_flatMap_eq (List.forall₂_same.mpr hEach) params

end Params

end RequestRouter

------------------------------------------------------------
-- First Pairs
------------------------------------------------------------

namespace RequestRouter

namespace Params

variable {α : Type}

/- Keep a pair if its name is new. -/
def keepFirst
    (kept : List (Text × α))
    (pair : Text × α) : List (Text × α) :=
  if kept.any (·.1 == pair.1) then kept else kept ++ [pair]

/- The values of names, where there are values. -/
def valuesOf
    (value : α → Option Text)
    (pairs : List (Text × α)) : List (Text × Text) :=
  pairs.filterMap fun (name, key) =>
    (value key).map (name, ·)

/- Keeping first pairs is binding their values in order. -/
theorem ofList_foldl_keepFirst
    {value : α → Option Text}
    (kept : List (Text × α))
    {pairs : List (Text × α)}
    (hKept : ∀ pair ∈ kept, (value pair.2).isSome = true)
    (hPairs : ∀ pair ∈ pairs, (value pair.2).isSome = true) :
    ofList (valuesOf value (pairs.foldl keepFirst kept)) =
      (ofList (valuesOf value kept)).insertAll
        (valuesOf value pairs) := by
  induction pairs generalizing kept with
  | nil => rfl
  | cons pair rest ih =>
      have hRest :
          ∀ later ∈ rest, (value later.2).isSome = true :=
        fun later hLater =>
          hPairs later (List.mem_cons_of_mem _ hLater)
      rcases
          Option.isSome_iff_exists.mp
            (hPairs pair (by simp)) with
        ⟨text, hText⟩
      have hCons :
          valuesOf value (pair :: rest) =
            (pair.1, text) :: valuesOf value rest := by
        simp [valuesOf, hText]
      rw [List.foldl_cons, hCons]
      change _ =
        ((ofList (valuesOf value kept)).insertFirst pair.1
          text).insertAll _
      unfold keepFirst
      split
      case isTrue hOld =>
          rcases List.any_eq_true.mp hOld with
            ⟨other, hOther, hSame⟩
          rcases
              Option.isSome_iff_exists.mp
                (hKept other hOther) with
            ⟨first, hFirst⟩
          have hName : other.1 = pair.1 :=
            beq_iff_eq.mp hSame
          have hBound :
              pair.1 ∈ (ofList (valuesOf value kept)).names := by
            refine
              (mem_names_insertAll_iff empty _ _).mpr
                (Or.inr ?_)
            refine List.mem_map.mpr
              ⟨(other.1, first), ?_, hName⟩
            exact List.mem_filterMap.mpr
              ⟨other, hOther, by simp [hFirst]⟩
          rw [insertFirst_of_mem hBound]
          exact ih kept hKept hRest
      case isFalse hNew =>
          have hMore :
              ∀ other ∈ kept ++ [pair],
                (value other.2).isSome = true := by
            intro other hOther
            rcases List.mem_append.mp hOther with
              hOther | hOther
            · exact hKept other hOther
            · rw [List.mem_singleton.mp hOther, hText]
              rfl
          have hLast :
              valuesOf value (kept ++ [pair]) =
                valuesOf value kept ++ [(pair.1, text)] := by
            simp [valuesOf, hText]
          refine (ih (kept ++ [pair]) hMore hRest).trans ?_
          rw [hLast, ofList, insertAll_append]
          rfl

/- The first pairs of names bind what all pairs bind. -/
theorem ofList_firsts
    {value : α → Option Text}
    {pairs : List (Text × α)}
    (hPairs : ∀ pair ∈ pairs, (value pair.2).isSome = true) :
    ofList (valuesOf value (pairs.foldl keepFirst [])) =
      ofList (valuesOf value pairs) :=
  ofList_foldl_keepFirst [] (by simp) hPairs

end Params

end RequestRouter
