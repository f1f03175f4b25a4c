import RequestRouter.Proofs.Regex.Marks

/-
  How the groups of a source are numbered.

  The reader counts the groups as they open. Whatever it has
  read at any time has its groups in the order of their
  numbers, from one up to the count, except that groups which
  are repeated zero times are gone. So no two groups of an
  expression share a number.

  Key definition:
    * `Regex.Builder.numbers`

  Main statements:
    * `Regex.Builder.IsNumbered.readItem`
    * `Regex.nodup_groups_of_parse`
-/

------------------------------------------------------------
-- Groups of Expressions
------------------------------------------------------------

namespace RequestRouter

namespace Regex

namespace Expr

mutual

/- Shifted groups. -/
theorem groups_shift
    (count : Nat)
    (e : Expr) :
    (e.shift count).groups = e.groups.map (· + count) := by
  cases e with
  | empty | char | set | assertion => simp [shift, groups]
  | group index name body | repetition min max greedy body =>
      simp [shift, groups, groups_shift count body]
  | concat items | alternation branches =>
      simp [shift, groups, listGroups_shift count]

/- The same holds for a list. -/
theorem listGroups_shift
    (count : Nat)
    (items : List Expr) :
    listGroups (listShift count items) =
      (listGroups items).map (· + count) := by
  cases items with
  | nil => simp [listShift, listGroups]
  | cons e rest =>
      simp [listShift, listGroups, groups_shift count e,
        listGroups_shift count rest]

end

/- What is the same in every context has no group at all. -/
theorem groups_eq_nil_of_shift
    {e : Expr}
    (hSame : ∀ count, e.shift count = e) :
    e.groups = [] := by
  have hShift := groups_shift 1 e
  rw [hSame] at hShift
  cases hGroups : e.groups with
  | nil => rfl
  | cons group rest =>
      rw [hGroups, List.map_cons, List.cons.injEq] at hShift
      omega

/- The groups of two lists in a row. -/
theorem listGroups_append
    (first second : List Expr) :
    listGroups (first ++ second) =
      listGroups first ++ listGroups second := by
  induction first with
  | nil => rfl
  | cons e rest ih => simp [listGroups, ih]

/- The groups of a list with one more member. -/
theorem listGroups_reverse_cons
    (e : Expr)
    (rest : List Expr) :
    listGroups (e :: rest).reverse =
      listGroups rest.reverse ++ e.groups := by
  simp [listGroups_append, listGroups]

/- A row as an expression has the groups of its items. -/
theorem groups_sequence
    (items : List Expr) :
    (sequence items).groups = listGroups items := by
  match items with
  | [] => rfl
  | [item] => simp [sequence, listGroups]
  | _ :: _ :: _ => rfl

/- A choice as an expression has those of its branches. -/
theorem groups_choice
    (branches : List Expr) :
    (choice branches).groups = listGroups branches := by
  match branches with
  | [] => rfl
  | [branch] => simp [choice, listGroups]
  | _ :: _ :: _ => rfl

/- Rounds have the groups of their body, or none. -/
theorem groups_rounds_sublist
    (min : Nat)
    (max : Option Nat)
    (greedy : Bool)
    (body : Expr) :
    (rounds min max greedy body).groups.Sublist
      body.groups := by
  unfold rounds
  split
  · exact List.nil_sublist _
  split
  · exact List.Sublist.refl _
  · exact List.Sublist.refl _

end Expr

end Regex

end RequestRouter

------------------------------------------------------------
-- Groups of Builders
------------------------------------------------------------

namespace RequestRouter

namespace Regex

/- The groups read in front of an open group, and its own. -/
def Scope.numbers
    (scope : Scope) : List Nat :=
  Expr.listGroups scope.branches.reverse ++
    Expr.listGroups scope.items.reverse ++
      scope.capture.toList.map (·.1)

/- A group that closes has its own number and its body's. -/
theorem Scope.groups_close
    (scope : Scope)
    (body : Expr) :
    (scope.close body).groups =
      scope.capture.toList.map (·.1) ++ body.groups := by
  rcases scope with ⟨_ | ⟨index, name⟩, flags, items,
    branches⟩ <;> rfl

namespace Builder

/- The groups read so far, in the order in which they open. -/
def numbers
    (builder : Builder) : List Nat :=
  builder.scopes.reverse.flatMap Scope.numbers ++
    Expr.listGroups builder.branches.reverse ++
      Expr.listGroups builder.items.reverse

/- Whether the groups read so far are numbered in turn. -/
def IsNumbered
    (builder : Builder) : Prop :=
  builder.numbers.Sublist (List.range' 1 builder.groups)

/- The body of a builder has what the open group has. -/
theorem groups_body
    (builder : Builder) :
    builder.body.groups =
      Expr.listGroups builder.branches.reverse ++
        Expr.listGroups builder.items.reverse := by
  rw [body, Expr.groups_choice, Expr.listGroups_reverse_cons,
    Expr.groups_sequence]

namespace IsNumbered

variable {builder next : Builder}

/- An item without groups can be put behind the others. -/
theorem push
    (hBuilder : builder.IsNumbered)
    {item : Expr}
    (hItem : item.groups = []) :
    (builder.push item).IsNumbered := by
  unfold IsNumbered numbers Builder.push
  rw [Expr.listGroups_reverse_cons, hItem, List.append_nil]
  exact hBuilder

/- A new branch has nothing of its own yet. -/
theorem branch
    (hBuilder : builder.IsNumbered) :
    builder.branch.IsNumbered := by
  have hSame : builder.branch.numbers = builder.numbers := by
    unfold numbers Builder.branch
    rw [Expr.listGroups_reverse_cons, Expr.groups_sequence]
    simp [Expr.listGroups]
  unfold IsNumbered
  rw [hSame]
  exact hBuilder

/- What is read in front of an open group comes first. -/
theorem numbers_openGroup
    {capture : Option (Nat × Option Text)}
    {flags : Flags}
    (hOpen : builder.openGroup capture flags = .ok next) :
    next.groups = builder.groups ∧
      next.numbers =
        builder.numbers ++ capture.toList.map (·.1) := by
  unfold Builder.openGroup at hOpen
  split at hOpen
  · cases hOpen
  · cases hOpen
    refine ⟨rfl, ?_⟩
    simp [numbers, Scope.numbers, Expr.listGroups]

/- A group that opens has the next number. -/
theorem afterOpening
    (hBuilder : builder.IsNumbered)
    {opening : GroupOpening}
    (hOpen : builder.afterOpening opening = .ok next) :
    next.IsNumbered := by
  unfold IsNumbered
  rcases opening with ⟨name⟩ | ⟨flags⟩ | ⟨flags⟩
  · rcases numbers_openGroup hOpen with ⟨hGroups, hNumbers⟩
    rw [hGroups, hNumbers, List.range'_concat]
    apply List.Sublist.append hBuilder
    simp [Nat.add_comm]
  · rcases numbers_openGroup hOpen with ⟨hGroups, hNumbers⟩
    rw [hGroups, hNumbers]
    simpa [IsNumbered] using hBuilder
  · cases hOpen
    exact hBuilder

/- A group that closes keeps the order. -/
theorem closeGroup
    (hBuilder : builder.IsNumbered)
    (hClose : builder.closeGroup = .ok next) :
    next.IsNumbered := by
  unfold Builder.closeGroup at hClose
  split at hClose
  case h_1 => cases hClose
  case h_2 scope outer hScopes =>
      cases hClose
      unfold IsNumbered numbers at hBuilder ⊢
      rw [Expr.listGroups_reverse_cons, Scope.groups_close,
        groups_body]
      simpa [hScopes, Scope.numbers] using hBuilder

/- A repetition has no groups but those of its item. -/
theorem quantify
    (hBuilder : builder.IsNumbered)
    (quantifier : Quantifier) :
    (builder.quantify quantifier).IsNumbered := by
  unfold Builder.quantify
  cases hItems : builder.items with
  | nil => exact hBuilder
  | cons item rest =>
      unfold IsNumbered numbers at hBuilder ⊢
      rw [hItems, Expr.listGroups_reverse_cons] at hBuilder
      dsimp only
      rw [Expr.listGroups_reverse_cons]
      refine List.Sublist.trans ?_ hBuilder
      exact
        (List.Sublist.refl _).append
          ((List.Sublist.refl _).append
            (Expr.groups_rounds_sublist _ _ _ _))

/- Reading an item keeps the groups in turn. -/
theorem readItem
    (hBuilder : builder.IsNumbered)
    {c : Char}
    {rest behind : Text}
    (hItem : builder.readItem c rest = .ok (next, behind)) :
    next.IsNumbered := by
  rw [readItem_eq_ok_iff] at hItem
  cases hItem with
  | group _ hOpen => exact hBuilder.afterOpening hOpen
  | close hClose => exact hBuilder.closeGroup hClose
  | bar => exact hBuilder.branch
  | set => exact hBuilder.push rfl
  | quantifier => exact hBuilder.quantify _
  | escape hRead =>
      apply hBuilder.push
      apply Expr.groups_eq_nil_of_shift
      exact shift_of_readEscape hRead
  | plain =>
      apply hBuilder.push
      apply Expr.groups_eq_nil_of_shift
      intro count
      exact Expr.shift_plainExpr count _ _

/- At the end the groups are those of the expression. -/
theorem finish
    (hBuilder : builder.IsNumbered)
    {e : Expr}
    (hFinish : builder.finish = .ok e) :
    ∃ count, e.groups.Sublist (List.range' 1 count) := by
  unfold Builder.finish at hFinish
  split at hFinish
  case isFalse => cases hFinish
  case isTrue hClosed =>
      cases hFinish
      refine ⟨builder.groups, ?_⟩
      have hScopes : builder.scopes = [] :=
        List.isEmpty_iff.mp hClosed
      rw [groups_body]
      simpa [IsNumbered, numbers, hScopes] using hBuilder

/- So it is when a whole pattern was read. -/
theorem read
    (hBuilder : builder.IsNumbered)
    {fuel : Nat}
    {text : Text}
    {e : Expr}
    (hRead : builder.read fuel text = .ok e) :
    ∃ count, e.groups.Sublist (List.range' 1 count) := by
  induction fuel generalizing builder text with
  | zero => exact hBuilder.finish hRead
  | succ fuel ih =>
      rw [Builder.read] at hRead
      split at hRead
      case h_1 => exact hBuilder.finish hRead
      case h_2 c rest hSkip =>
          rcases (Sequence.bind_eq_ok_iff _ _ _).mp hRead with
            ⟨⟨next, behind⟩, hItem, hNext⟩
          exact ih (hBuilder.readItem hItem) hNext

end IsNumbered

end Builder

/- No two groups of a source share a number, or have zero. -/
theorem nodup_groups_of_parse
    {source : Text}
    {e : Expr}
    (hParse : parse source = .ok e) :
    e.whole.groups.Nodup := by
  have hStart : ({} : Builder).IsNumbered :=
    List.nil_sublist _
  rcases hStart.read (Builder.read_of_parse hParse) with
    ⟨count, hNumbers⟩
  refine List.nodup_cons.mpr ⟨?_, ?_⟩
  · intro hZero
    have hBound := List.mem_range'_1.mp (hNumbers.subset hZero)
    exact absurd hBound.1 (Nat.not_succ_le_zero 0)
  · exact hNumbers.nodup List.nodup_range'

end Regex

end RequestRouter
