import RequestRouter.AssocList

/-
  Looking up and finding members in an association list
  behind an insertion.

  Main statements:
    * `AssocList.find?_upsert`
    * `AssocList.mem_of_mem_upsert`
    * `AssocList.mem_upsert_of_mem`
    * `AssocList.exists_mem_upsert`
    * `AssocList.exists_upsert_of_find?_eq_some`
-/

------------------------------------------------------------
-- Lookup
------------------------------------------------------------

namespace RequestRouter

namespace AssocList

variable {K V : Type}

/-
  Behind an insertion by equality of keys, the key has its
  updated value, and all other keys have the values that
  they had.
-/
theorem find?_upsert
    [BEq K] [LawfulBEq K]
    (key wanted : K)
    (init : V)
    (f : V → V)
    (entries : List (K × V)) :
    find? (· == wanted)
        (upsert (· == key) key init f entries) =
      if key == wanted then
        some (f ((find? (· == key) entries).getD init))
      else find? (· == wanted) entries := by
  induction entries with
  | nil => simp [upsert, find?]
  | cons entry rest ih =>
      rcases entry with ⟨k, v⟩
      by_cases hKey : k = key
      · subst hKey
        by_cases hWanted : k = wanted
        · simp [upsert, find?, hWanted]
        · simp [upsert, find?, hWanted]
      · by_cases hWanted : k = wanted
        · subst hWanted
          have hOther : ¬ key = k := fun hEq => hKey hEq.symm
          simp [upsert, find?, hKey, hOther]
        · simp [upsert, find?, hKey, hWanted, ih]

/- Values that are mapped are found as the images. -/
theorem find?_map
    {W : Type}
    (same : K → Bool)
    (f : V → W)
    (entries : List (K × V)) :
    find? same (entries.map fun entry =>
        (entry.1, f entry.2)) =
      (find? same entries).map f := by
  induction entries with
  | nil => rfl
  | cons entry rest ih =>
      by_cases hSame : same entry.1 = true
      · simp [find?, hSame]
      · simpa [find?, hSame] using ih

/- An entry at the end counts if there is none before it. -/
theorem find?_concat
    (same : K → Bool)
    (key : K)
    (value : V)
    (entries : List (K × V)) :
    find? same (entries ++ [(key, value)]) =
      (find? same entries).or
        (if same key then some value else none) := by
  induction entries with
  | nil => simp [find?]
  | cons entry rest ih =>
      by_cases hSame : same entry.1 = true
      · simp [find?, hSame]
      · simpa [find?, hSame] using ih

end AssocList

end RequestRouter

------------------------------------------------------------
-- Membership
------------------------------------------------------------

namespace RequestRouter

namespace AssocList

variable {K V : Type}
variable {same : K → Bool}
variable {key : K}
variable {init : V}
variable {f : V → V}
variable {entries : List (K × V)}

/-
  A member behind an insertion was there before, or it has
  the updated value of a member, or it is new.
-/
theorem mem_of_mem_upsert
    {entry : K × V}
    (hMember :
      entry ∈ upsert same key init f entries) :
    entry ∈ entries ∨
      (∃ old, (entry.1, old) ∈ entries ∧
        same entry.1 = true ∧ entry.2 = f old) ∨
      entry = (key, f init) := by
  induction entries with
  | nil =>
      right
      right
      simpa [upsert] using hMember
  | cons first rest ih =>
      rcases first with ⟨k, v⟩
      unfold upsert at hMember
      split at hMember
      case isTrue hSame =>
          rcases List.mem_cons.mp hMember with rfl | hRest
          · right
            left
            exact ⟨v, by simp, hSame, rfl⟩
          · left
            exact List.mem_cons_of_mem _ hRest
      case isFalse =>
          rcases List.mem_cons.mp hMember with rfl | hRest
          · left
            exact List.mem_cons_self
          · rcases ih hRest with
              hOld | ⟨old, hOld, hSame, hValue⟩ | hNew
            · left
              exact List.mem_cons_of_mem _ hOld
            · right
              left
              exact
                ⟨old, List.mem_cons_of_mem _ hOld, hSame,
                  hValue⟩
            · right
              right
              exact hNew

/- A member stays behind an insertion, or is updated. -/
theorem mem_upsert_of_mem
    (same : K → Bool)
    (key : K)
    (init : V)
    (f : V → V)
    {entry : K × V}
    (hMember : entry ∈ entries) :
    entry ∈ upsert same key init f entries ∨
      (same entry.1 = true ∧
        (entry.1, f entry.2) ∈
          upsert same key init f entries) := by
  induction entries with
  | nil => simp at hMember
  | cons first rest ih =>
      rcases first with ⟨k, v⟩
      unfold upsert
      split
      case isTrue hSame =>
          rcases List.mem_cons.mp hMember with rfl | hRest
          · right
            exact ⟨hSame, List.mem_cons_self⟩
          · left
            exact List.mem_cons_of_mem _ hRest
      case isFalse =>
          rcases List.mem_cons.mp hMember with rfl | hRest
          · left
            exact List.mem_cons_self
          · rcases ih hRest with hKept | ⟨hSame, hUpdated⟩
            · left
              exact List.mem_cons_of_mem _ hKept
            · right
              exact
                ⟨hSame, List.mem_cons_of_mem _ hUpdated⟩

/- Behind an insertion some member has an updated value. -/
theorem exists_mem_upsert
    (same : K → Bool)
    (key : K)
    (init : V)
    (f : V → V)
    (entries : List (K × V)) :
    (∃ k old, same k = true ∧ (k, old) ∈ entries ∧
        (k, f old) ∈ upsert same key init f entries) ∨
      (key, f init) ∈ upsert same key init f entries := by
  induction entries with
  | nil => simp [upsert]
  | cons first rest ih =>
      rcases first with ⟨k, v⟩
      unfold upsert
      split
      case isTrue hSame =>
          left
          exact
            ⟨k, v, hSame, List.mem_cons_self,
              List.mem_cons_self⟩
      case isFalse =>
          rcases ih with ⟨k', old, hSame, hOld, hNew⟩ | hNew
          · left
            exact
              ⟨k', old, hSame, List.mem_cons_of_mem _ hOld,
                List.mem_cons_of_mem _ hNew⟩
          · right
            exact List.mem_cons_of_mem _ hNew

end AssocList

end RequestRouter

------------------------------------------------------------
-- Where an Insertion Takes Place
------------------------------------------------------------

namespace RequestRouter

namespace AssocList

variable {K V : Type}
variable [BEq K] [LawfulBEq K]

/- A key without a value is none of the keys. -/
theorem find?_eq_none_iff
    (key : K)
    (entries : List (K × V)) :
    find? (· == key) entries = none ↔
      ∀ entry ∈ entries, entry.1 ≠ key := by
  induction entries with
  | nil => simp [find?]
  | cons entry rest ih =>
      by_cases hKey : entry.1 = key
      · simp [find?, hKey]
      · simp [find?, hKey, ih]

/- A value that is found belongs to its key. -/
theorem mem_of_find?_eq_some
    {key : K}
    {value : V}
    {entries : List (K × V)}
    (hFind : find? (· == key) entries = some value) :
    (key, value) ∈ entries := by
  induction entries with
  | nil => simp [find?] at hFind
  | cons entry rest ih =>
      by_cases hKey : entry.1 = key
      · have hValue : entry.2 = value := by
          simpa [find?, hKey] using hFind
        simp [← hKey, ← hValue]
      · have hRest : find? (· == key) rest = some value := by
          simpa [find?, hKey] using hFind
        exact List.mem_cons_of_mem _ (ih hRest)

/- Where keys differ, the value of a key is found. -/
theorem find?_eq_some_of_mem
    {key : K}
    {value : V}
    {entries : List (K × V)}
    (hKeys : (entries.map Prod.fst).Nodup)
    (hMember : (key, value) ∈ entries) :
    find? (· == key) entries = some value := by
  induction entries with
  | nil => simp at hMember
  | cons entry rest ih =>
      rw [List.map_cons, List.nodup_cons] at hKeys
      rcases List.mem_cons.mp hMember with rfl | hRest
      · simp [find?]
      · have hKey : entry.1 ≠ key := by
          rintro rfl
          exact hKeys.1 (List.mem_map.mpr ⟨_, hRest, rfl⟩)
        simpa [find?, hKey] using ih hKeys.2 hRest

/- A key with a value has it replaced in its place. -/
theorem exists_upsert_of_find?_eq_some
    {key : K}
    {value : V}
    {entries : List (K × V)}
    (hFind : find? (· == key) entries = some value)
    (init : V)
    (f : V → V) :
    ∃ before after,
      entries = before ++ (key, value) :: after ∧
        upsert (· == key) key init f entries =
          before ++ (key, f value) :: after := by
  induction entries with
  | nil => simp [find?] at hFind
  | cons entry rest ih =>
      by_cases hKey : entry.1 = key
      · have hValue : entry.2 = value := by
          simpa [find?, hKey] using hFind
        refine ⟨[], rest, ?_, ?_⟩
        · simp [← hKey, ← hValue]
        · simp [upsert, ← hKey, ← hValue]
      · have hRest : find? (· == key) rest = some value := by
          simpa [find?, hKey] using hFind
        rcases ih hRest with
          ⟨before, after, hEntries, hUpsert⟩
        refine ⟨entry :: before, after, ?_, ?_⟩
        · simp [hEntries]
        · simp [upsert, hKey, hUpsert]

/- A key without a value is put behind the others. -/
theorem upsert_of_find?_eq_none
    {key : K}
    {entries : List (K × V)}
    (hFind : find? (· == key) entries = none)
    (init : V)
    (f : V → V) :
    upsert (· == key) key init f entries =
      entries ++ [(key, f init)] := by
  induction entries with
  | nil => rfl
  | cons entry rest ih =>
      have hKeys := (find?_eq_none_iff key _).mp hFind
      have hKey : entry.1 ≠ key := hKeys entry (by simp)
      have hRest : find? (· == key) rest = none :=
        (find?_eq_none_iff key rest).mpr fun later hLater =>
          hKeys later (List.mem_cons_of_mem _ hLater)
      simp [upsert, hKey, ih hRest]

end AssocList

end RequestRouter
