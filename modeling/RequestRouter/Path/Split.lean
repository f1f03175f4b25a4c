import RequestRouter.Text

/-
  Splitting a route path into segments.

  A slash separates two segments unless it stands inside
  braces, so that the constraint of `:file{[a-z]+/[0-9]+}`
  stays in one segment. The empty segment in front of the
  first slash of an absolute path is kept.

  Main statements:
    * `Path.split_ne_nil`
    * `Path.intercalate_split`
-/

------------------------------------------------------------
-- Brace-Aware Splitting
------------------------------------------------------------

namespace RequestRouter

namespace Path

/- The brace depth behind one more character; never negative. -/
def depthAfter
    (depth : Nat)
    (c : Char) : Nat :=
  if c = '{' then depth + 1
  else if c = '}' then depth - 1
  else depth

/- Split a text that starts inside `depth` open braces. -/
def splitFrom
    (depth : Nat) :
    Text → List Text
  | [] => [[]]
  | c :: rest =>
      if c = '/' ∧ depth = 0 then
        [] :: splitFrom 0 rest
      else
        (splitFrom (depthAfter depth c) rest).modifyHead
          (c :: ·)

/- The segments of a route path, cut at slashes at depth 0. -/
def split
    (path : Text) : List Text :=
  splitFrom 0 path

/- Splitting gives at least one segment, at any depth. -/
theorem splitFrom_ne_nil
    (depth : Nat)
    (path : Text) :
    splitFrom depth path ≠ [] := by
  induction path generalizing depth with
  | nil => simp [splitFrom]
  | cons c rest ih =>
      unfold splitFrom
      split
      · simp
      · intro hEmpty
        exact ih (depthAfter depth c) (by
          cases hRest :
              splitFrom (depthAfter depth c) rest with
          | nil => rfl
          | cons first others =>
              simp [hRest] at hEmpty)

/- A path has at least one segment. -/
theorem split_ne_nil
    (path : Text) :
    split path ≠ [] :=
  splitFrom_ne_nil 0 path

/- Joining the segments by slashes gives the path back. -/
theorem intercalate_splitFrom
    (depth : Nat)
    (path : Text) :
    ['/'].intercalate (splitFrom depth path) = path := by
  induction path generalizing depth with
  | nil => rfl
  | cons c rest ih =>
      unfold splitFrom
      split
      case isTrue hSlash =>
          obtain ⟨rfl, rfl⟩ := hSlash
          cases hRest : splitFrom 0 rest with
          | nil => exact absurd hRest (splitFrom_ne_nil _ _)
          | cons first others =>
              have hJoin := ih 0
              rw [hRest] at hJoin
              simp [List.intercalate] at hJoin ⊢
              exact hJoin
      case isFalse =>
          cases hRest :
              splitFrom (depthAfter depth c) rest with
          | nil => exact absurd hRest (splitFrom_ne_nil _ _)
          | cons first others =>
              have hJoin := ih (depthAfter depth c)
              rw [hRest] at hJoin
              cases others with
              | nil =>
                  simp [List.intercalate] at hJoin ⊢
                  exact hJoin
              | cons second more =>
                  simp [List.intercalate] at hJoin ⊢
                  exact hJoin

/- Joining the segments of a path gives the path back. -/
theorem intercalate_split
    (path : Text) :
    ['/'].intercalate (split path) = path :=
  intercalate_splitFrom 0 path

end Path

end RequestRouter
