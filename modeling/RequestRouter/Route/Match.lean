import RequestRouter.Text

/-
  Registrations and the answers to lookups.

  Key definitions include:
    * `Registration`
    * `Params`
    * `Params.insertFirst`
    * `Match`

  Main statements:
    * `Params.nodup_insertFirst`
    * `Params.nodup_ofList`
-/

------------------------------------------------------------
-- Registrations
------------------------------------------------------------

namespace RequestRouter

/- A handler registered for a method and a path. -/
structure Registration (H : Type) where
  method : Text
  path : Text
  handler : H
  deriving DecidableEq, Repr

end RequestRouter

------------------------------------------------------------
-- Parameters
------------------------------------------------------------

namespace RequestRouter

/- Parameter names with their values, in binding order. -/
structure Params where
  entries : List (Text × Text)
  deriving DecidableEq, Repr

namespace Params

/- No parameters. -/
def empty : Params :=
  ⟨[]⟩

/- The names that are bound. -/
def names
    (params : Params) : List Text :=
  params.entries.map Prod.fst

/- The value of a name. -/
def get?
    (params : Params)
    (name : Text) : Option Text :=
  params.entries.lookup name

/- Bind a name unless it is bound already. -/
def insertFirst
    (params : Params)
    (name value : Text) : Params :=
  if params.names.contains name then params
  else ⟨params.entries ++ [(name, value)]⟩

/- Bind pairs in order. -/
def insertAll
    (params : Params)
    (pairs : List (Text × Text)) : Params :=
  pairs.foldl
    (fun params pair => params.insertFirst pair.1 pair.2)
    params

/- The parameters of a list of pairs. -/
def ofList
    (pairs : List (Text × Text)) : Params :=
  empty.insertAll pairs

/- A first binding keeps names apart. -/
theorem nodup_insertFirst
    {params : Params}
    (hNodup : params.names.Nodup)
    (name value : Text) :
    (params.insertFirst name value).names.Nodup := by
  unfold insertFirst
  split
  case isTrue => exact hNodup
  case isFalse hNew =>
      have hNotMem : name ∉ params.names := by
        simpa using hNew
      simp only [names, List.map_append, List.map_cons,
        List.map_nil]
      apply List.nodup_append.mpr
      refine ⟨hNodup, by simp, ?_⟩
      intro a ha b hb
      have hName : b = name := by simpa using hb
      rw [hName]
      intro hEq
      exact hNotMem (hEq ▸ ha)

/- Binding pairs in order keeps names apart. -/
theorem nodup_insertAll
    {params : Params}
    (hNodup : params.names.Nodup)
    (pairs : List (Text × Text)) :
    (params.insertAll pairs).names.Nodup := by
  induction pairs generalizing params with
  | nil => exact hNodup
  | cons pair rest ih =>
      exact ih (nodup_insertFirst hNodup pair.1 pair.2)

/- Collected parameters have names that differ. -/
theorem nodup_ofList
    (pairs : List (Text × Text)) :
    (ofList pairs).names.Nodup :=
  nodup_insertAll (by simp [empty, names]) pairs

end Params

end RequestRouter

------------------------------------------------------------
-- Matches
------------------------------------------------------------

namespace RequestRouter

/-
  The answer to a lookup: the handlers of all routes that
  match, in registration order, and what they bind.
-/
structure Match (H : Type) where
  handlers : List H
  params : Params
  deriving DecidableEq, Repr

namespace Match

/- An answer, unless there are no handlers. -/
def ofHandlers?
    {H : Type}
    (handlers : List H)
    (params : Params) : Option (Match H) :=
  if handlers.isEmpty then none
  else some ⟨handlers, params⟩

end Match

end RequestRouter
