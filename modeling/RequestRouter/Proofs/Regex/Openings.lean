import Mathlib.Algebra.Ring.Nat
import Mathlib.Data.List.Nodup
import RequestRouter.Proofs.Regex.Closed

/-
  The parentheses that open the groups of a source.

  The reader numbers groups as they open. A source that is
  written in pieces, some of them in parentheses, has its
  groups at the places of these parentheses, each with the
  number that follows from how many groups the pieces in
  front of it take.

  Key definitions include:
    * `Regex.openings`
    * `Regex.numberAt?`
    * `Regex.TakesGroups`
    * `Regex.Piece`
    * `Regex.AreOwn`

  Main statements:
    * `Regex.map_snd_openings`
    * `Regex.pairwise_openings`
    * `Regex.numberAt?_of_reaches`
    * `Regex.Piece.areOwn_of_parse`
-/

------------------------------------------------------------
-- Openings
------------------------------------------------------------

namespace RequestRouter

namespace Regex

namespace Builder

/-
  The number of the group that an item has opened, if it led
  from one builder to another inside of such a group.
-/
def opened?
    (builder next : Builder) : Option Nat :=
  if builder.scopes.length < next.scopes.length then
    (next.scopes.head?.bind (·.capture)).map Prod.fst
  else none

/-
  The parentheses that open numbered groups from a builder
  on: their positions in a pattern of the given length, and
  the numbers.
-/
def openings
    (length : Nat)
    (builder : Builder) :
    Nat → Text → List (Nat × Nat)
  | 0, _ => []
  | fuel + 1, text =>
      match builder.flags.skip text with
      | [] => []
      | c :: rest =>
          match builder.readItem c rest with
          | .error _ => []
          | .ok (next, behind) =>
              ((builder.opened? next).map
                  (length - (rest.length + 1), ·)).toList ++
                next.openings length fuel behind

end Builder

/- The openings of a pattern. -/
def openings
    (pattern : Text) : List (Nat × Nat) :=
  ({} : Builder).openings pattern.length
    (pattern.length + 1) pattern

/- The number of the group that opens at a position. -/
def numberAt?
    (pattern : Text)
    (position : Nat) : Option Nat :=
  (openings pattern).lookup position

namespace Builder

variable {builder next : Builder}

/- A group that opens is the innermost one. -/
theorem opened?_of_openGroup
    {outer : Builder}
    (hScopes : outer.scopes = builder.scopes)
    {capture : Option (Nat × Option Text)}
    {flags : Flags}
    (hOpen : outer.openGroup capture flags = .ok next) :
    builder.opened? next = capture.map Prod.fst ∧
      next.groups = outer.groups := by
  unfold openGroup at hOpen
  split at hOpen
  · cases hOpen
  · cases hOpen
    simp [opened?, hScopes]

/- Where no group opens, none has been opened. -/
theorem opened?_of_le
    (hScopes : next.scopes.length ≤ builder.scopes.length) :
    builder.opened? next = none :=
  if_neg (Nat.not_lt.mpr hScopes)

/-
  An item opens the group with the next number, or it takes
  no number.
-/
theorem opened?_cases
    {c : Char}
    {rest behind : Text}
    (hItem : builder.readItem c rest = .ok (next, behind)) :
    (builder.opened? next = some (builder.groups + 1) ∧
        next.groups = builder.groups + 1) ∨
      (builder.opened? next = none ∧
        next.groups = builder.groups) := by
  rw [readItem_eq_ok_iff] at hItem
  cases hItem with
  | @group opening _ _ hOpening hOpen =>
      rcases opening with ⟨name⟩ | ⟨flags⟩ | ⟨flags⟩
      · exact Or.inl (opened?_of_openGroup rfl hOpen)
      · exact Or.inr (opened?_of_openGroup rfl hOpen)
      · cases hOpen
        exact Or.inr ⟨opened?_of_le (Nat.le_refl _), rfl⟩
  | close hClose =>
      unfold closeGroup at hClose
      split at hClose
      case h_1 => cases hClose
      case h_2 scope outer hScopes =>
          cases hClose
          refine Or.inr ⟨opened?_of_le ?_, rfl⟩
          simp [hScopes]
  | bar | set | escape | plain =>
      exact Or.inr ⟨opened?_of_le (Nat.le_refl _), rfl⟩
  | quantifier =>
      refine Or.inr ⟨opened?_of_le ?_, ?_⟩ <;>
        (unfold quantify; split <;> simp)

/- The openings from a builder on have numbers in turn. -/
theorem exists_map_snd_openings
    (length fuel : Nat)
    (builder : Builder)
    (text : Text) :
    ∃ count,
      (builder.openings length fuel text).map Prod.snd =
        List.range' (builder.groups + 1) count := by
  induction fuel generalizing builder text with
  | zero => exact ⟨0, rfl⟩
  | succ fuel ih =>
      unfold openings
      split
      case h_1 => exact ⟨0, rfl⟩
      case h_2 c rest hSkip =>
          split
          case h_1 => exact ⟨0, rfl⟩
          case h_2 next behind hItem =>
              rcases ih next behind with ⟨count, hCount⟩
              rw [List.map_append, hCount]
              rcases opened?_cases hItem with
                ⟨hOpened, hGroups⟩ | ⟨hOpened, hGroups⟩
              · refine ⟨count + 1, ?_⟩
                simp [hOpened, hGroups, List.range'_succ]
              · refine ⟨count, ?_⟩
                simp [hOpened, hGroups]

/- Their positions grow, from that of the text on. -/
theorem pairwise_openings
    {length : Nat}
    (fuel : Nat)
    (builder : Builder)
    {text : Text}
    (hText : text.length ≤ length) :
    (∀ entry ∈ builder.openings length fuel text,
        length - text.length ≤ entry.1) ∧
      (builder.openings length fuel text).Pairwise
        (·.1 < ·.1) := by
  induction fuel generalizing builder text with
  | zero => exact ⟨by simp [openings], .nil⟩
  | succ fuel ih =>
      unfold openings
      split
      case h_1 => exact ⟨by simp, .nil⟩
      case h_2 c rest hSkip =>
          split
          case h_1 => exact ⟨by simp, .nil⟩
          case h_2 next behind hItem =>
              have hRest :=
                builder.flags.length_skip_le text
              have hBehind :=
                (isLocalAt_readItem builder c rest hItem).1
              rw [hSkip, List.length_cons] at hRest
              have hWithin : behind.length ≤ length := by
                omega
              rcases ih next hWithin with ⟨hBounds, hPairs⟩
              cases builder.opened? next with
              | none =>
                  refine ⟨fun entry hEntry => ?_, hPairs⟩
                  have hBound := hBounds entry hEntry
                  omega
              | some number =>
                  refine
                    ⟨List.forall_mem_cons.mpr ⟨?_, ?_⟩,
                      List.pairwise_cons.mpr ⟨?_, hPairs⟩⟩
                  · dsimp only
                    omega
                  · intro entry hEntry
                    have hBound := hBounds entry hEntry
                    omega
                  · intro entry hEntry
                    have hBound := hBounds entry hEntry
                    dsimp only
                    omega

/- What opens behind a place that is reached opens. -/
theorem exists_openings_subset
    {pattern text : Text}
    (hReaches : Reaches pattern builder text) :
    ∃ fuel, text.length < fuel ∧
      text.length ≤ pattern.length ∧
      builder.openings pattern.length fuel text ⊆
        Regex.openings pattern := by
  induction hReaches with
  | start =>
      exact
        ⟨pattern.length + 1, Nat.lt_succ_self _,
          Nat.le_refl _, List.Subset.refl _⟩
  | @item builder text c rest next behind hSoFar hSkip hItem
      ih =>
      rcases ih with ⟨fuel, hFuel, hText, hSubset⟩
      have hRest := builder.flags.length_skip_le text
      have hBehind :=
        (isLocalAt_readItem builder c rest hItem).1
      rw [hSkip, List.length_cons] at hRest
      cases fuel with
      | zero => exact absurd hFuel (Nat.not_lt_zero _)
      | succ fuel =>
          refine ⟨fuel, by omega, by omega, ?_⟩
          refine List.Subset.trans ?_ hSubset
          simp only [openings, hSkip, hItem]
          exact List.subset_append_right _ _

end Builder

/- The groups of a pattern have the numbers from one on. -/
theorem map_snd_openings
    (pattern : Text) :
    (openings pattern).map Prod.snd =
      List.range' 1 (openings pattern).length := by
  rcases
      Builder.exists_map_snd_openings pattern.length
        (pattern.length + 1) {} pattern with
    ⟨count, hCount⟩
  have hLength := congrArg List.length hCount
  rw [List.length_map, List.length_range'] at hLength
  rw [openings, hLength]
  exact hCount

/- They are numbered in the order of their positions. -/
theorem pairwise_openings
    (pattern : Text) :
    (openings pattern).Pairwise (·.1 < ·.1) :=
  (Builder.pairwise_openings _ {} (Nat.le_refl _)).2

/-
  Groups inside of rounds are numbered like all others, and
  those without a number are passed over.
-/
example :
    openings
        ['(', '?', ':', '(', 'a', ')', '{', '0', '}', '|',
          '\\', '(', '(', 'b', ')', ')'] =
      [(3, 1), (12, 2)] := by
  decide +kernel

/- No two positions have the same number. -/
theorem numberAt?_inj
    {pattern : Text}
    {first second number : Nat}
    (hFirst : numberAt? pattern first = some number)
    (hSecond : numberAt? pattern second = some number) :
    first = second := by
  have hNumbers : ((openings pattern).map Prod.snd).Nodup := by
    rw [map_snd_openings]
    exact List.nodup_range'
  have hMember :
      ∀ {position},
        numberAt? pattern position = some number →
          (position, number) ∈ openings pattern := by
    intro position hNumber
    rcases List.lookup_eq_some_iff.mp hNumber with
      ⟨before, after, hOpenings, -⟩
    simp [hOpenings]
  have hSame :=
    List.inj_on_of_nodup_map hNumbers (hMember hFirst)
      (hMember hSecond) rfl
  exact congrArg Prod.fst hSame

/- What opens at a place that is reached has its number. -/
theorem numberAt?_of_reaches
    {pattern text rest behind : Text}
    {builder next : Builder}
    {c : Char}
    {number position : Nat}
    (hReaches : Builder.Reaches pattern builder text)
    (hSkip : builder.flags.skip text = c :: rest)
    (hItem : builder.readItem c rest = .ok (next, behind))
    (hOpened : builder.opened? next = some number)
    (hPosition :
      position + (rest.length + 1) = pattern.length) :
    numberAt? pattern position = some number := by
  rcases Builder.exists_openings_subset hReaches with
    ⟨fuel, hFuel, -, hSubset⟩
  have hMember : (position, number) ∈ openings pattern := by
    apply hSubset
    have hPlace :
        pattern.length - (rest.length + 1) = position := by
      omega
    cases fuel with
    | zero => exact absurd hFuel (Nat.not_lt_zero _)
    | succ fuel =>
        simp [Builder.openings, hSkip, hItem, hOpened, hPlace]
  rcases List.append_of_mem hMember with
    ⟨before, after, hOpenings⟩
  have hPairs := pairwise_openings pattern
  rw [hOpenings, List.pairwise_append] at hPairs
  rw [numberAt?, List.lookup_eq_some_iff]
  refine ⟨before, after, hOpenings, ?_⟩
  intro entry hEntry
  have hLess := hPairs.2.2 entry hEntry _ List.mem_cons_self
  simpa using Nat.ne_of_gt hLess

end Regex

end RequestRouter

------------------------------------------------------------
-- Texts That Take Groups
------------------------------------------------------------

namespace RequestRouter

namespace Regex

namespace Builder

/- Whether the default flags hold inside and around groups. -/
structure IsSteady
    (builder : Builder) : Prop where
  flags : builder.flags = {}
  scopes : ∀ scope ∈ builder.scopes, scope.flags = {}

end Builder

/-
  Whether a text takes a number of groups: a reading that
  comes to it with the default flags passes it so. What
  follows must not make a repetition lazy.
-/
def TakesGroups
    (source : Text)
    (count : Nat) : Prop :=
  ∀ ⦃builder : Builder⦄ ⦃rest : Text⦄ ⦃reading : Reading⦄,
    builder.Reads (source ++ rest) reading →
    builder.IsSteady →
    rest.head? ≠ some '?' →
    ∃ next : Builder,
      next.Reads rest reading ∧ next.IsSteady ∧
        next.groups = builder.groups + count

/- What is read as items takes the groups in them. -/
theorem takesGroups_of_isReadAs
    {source : Text}
    {count : Nat}
    (hSource :
      ∀ first, ∃ items,
        IsReadAs source first (first + count) items) :
    TakesGroups source count := by
  intro builder rest reading hReads hSteady hRest
  rcases hSource builder.groups with ⟨items, hItems⟩
  rcases hItems hReads hSteady.flags rfl hRest with
    ⟨names, hOn⟩
  exact ⟨_, hOn, ⟨hSteady.flags, hSteady.scopes⟩, rfl⟩

/- The opening of a group without a number takes none. -/
theorem takesGroups_open :
    TakesGroups ['(', '?', ':'] 0 := by
  rintro builder rest reading hReads hSteady -
  refine
    ⟨builder.inside none,
      Builder.reads_inside_of_reads rest hReads
        hSteady.flags, ⟨hSteady.flags, ?_⟩, rfl⟩
  exact
    List.forall_mem_cons.mpr ⟨hSteady.flags, hSteady.scopes⟩

/- The end of a group takes none. -/
theorem takesGroups_close :
    TakesGroups [')'] 0 := by
  rintro builder rest reading hReads hSteady -
  have hSkip :=
    Builder.skip_of_default hSteady.flags (')' :: rest)
  cases hScopes : builder.scopes with
  | nil =>
      rcases Builder.exists_readItem hReads hSkip with
        ⟨next, behind, hItem, -⟩
      simp [Builder.readItem, Builder.closeGroup, hScopes,
        bind, Except.bind] at hItem
  | cons scope outer =>
      have hAll := hSteady.scopes
      rw [hScopes] at hAll
      rcases List.forall_mem_cons.mp hAll with
        ⟨hScope, hOuter⟩
      exact
        ⟨_, Builder.reads_close_of_reads hReads hSkip hScopes,
          ⟨hScope, hOuter⟩, rfl⟩

/- A bar takes none. -/
theorem takesGroups_bar :
    TakesGroups ['|'] 0 := by
  rintro builder rest reading hReads hSteady -
  exact
    ⟨builder.branch,
      Builder.reads_branch_of_reads hReads hSteady.flags,
      ⟨hSteady.flags, hSteady.scopes⟩, rfl⟩

/- A closed source in parentheses takes one more than it. -/
theorem takesGroups_closed
    {source : Text}
    {body : Expr}
    {groups : Nat}
    (hClosed : closedBody? source = some (body, groups)) :
    TakesGroups ('(' :: source ++ [')']) (groups + 1) := by
  apply takesGroups_of_isReadAs
  intro first
  rw [← Nat.add_assoc, Nat.add_right_comm]
  exact ⟨_, isReadAs_closed hClosed first⟩

end Regex

end RequestRouter

------------------------------------------------------------
-- Pieces of a Source
------------------------------------------------------------

namespace RequestRouter

namespace Regex

/-
  A piece of a source: a text, or a text in parentheses that
  stand for an owner, with the number of groups that are
  counted inside them.
-/
inductive Piece (α : Type) where
  | text (source : Text)
  | group (owner : α) (inner : Text) (groups : Nat)
  deriving Repr

namespace Piece

variable {α β : Type}

/- What is written for a piece. -/
def source : Piece α → Text
  | .text source => source
  | .group _ inner _ => '(' :: inner ++ [')']

/- The groups that a piece is counted to take. -/
def width : Piece α → Nat
  | .text _ => 0
  | .group _ _ groups => groups + 1

/- The owner of the parentheses of a piece. -/
def owner? : Piece α → Option α
  | .text _ => none
  | .group owner _ _ => some owner

/- What is written for a row of pieces. -/
def rowSource
    (row : List (Piece α)) : Text :=
  row.flatMap source

/-
  The owners in a row, each with a first number and the sum
  of the sizes of all pieces in front of it.
-/
def tally
    (size : Piece α → Nat)
    (first : Nat) : List (Piece α) → List (α × Nat)
  | [] => []
  | piece :: rest =>
      (piece.owner?.map (·, first)).toList ++
        tally size (first + size piece) rest

/- The owners with the numbers that are counted for them. -/
def numbers
    (first : Nat)
    (row : List (Piece α)) : List (α × Nat) :=
  tally width first row

/- The owners with the positions of their parentheses. -/
def parentheses
    (row : List (Piece α)) : List (α × Nat) :=
  tally (·.source.length) 0 row

/- A row of rows is tallied row by row. -/
theorem tally_append
    (size : Piece α → Nat)
    (first : Nat)
    (row others : List (Piece α)) :
    tally size first (row ++ others) =
      tally size first row ++
        tally size (first + (row.map size).sum) others := by
  induction row generalizing first with
  | nil => rfl
  | cons piece rest ih =>
      simp [tally, ih, Nat.add_assoc]

/-
  Whether a piece is read as it is written: a text takes no
  groups, and the parentheses of a group, which they open,
  take as many as are counted.
-/
def IsReadable : Piece α → Prop
  | .text source =>
      TakesGroups source 0 ∧ source.head? ≠ some '?'
  | .group _ inner groups =>
      TakesGroups ('(' :: inner ++ [')']) (groups + 1) ∧
        inner.head? ≠ some '?'

/- No piece starts with a question mark. -/
theorem IsReadable.head?_source
    {piece : Piece α}
    (hPiece : piece.IsReadable) :
    piece.source.head? ≠ some '?' := by
  cases piece with
  | text source => exact hPiece.2
  | group owner inner groups => simp [source]

/- A readable piece takes the groups that are counted. -/
theorem IsReadable.takesGroups
    {piece : Piece α}
    (hPiece : piece.IsReadable) :
    TakesGroups piece.source piece.width := by
  cases piece with
  | text source => exact hPiece.1
  | group owner inner groups => exact hPiece.1

/- No row of readable pieces starts with a question mark. -/
theorem head?_rowSource
    {row : List (Piece α)}
    (hRow : ∀ piece ∈ row, piece.IsReadable) :
    (rowSource row).head? ≠ some '?' := by
  induction row with
  | nil => simp [rowSource]
  | cons piece rest ih =>
      rcases List.forall_mem_cons.mp hRow with
        ⟨hPiece, hRest⟩
      have hHead := hPiece.head?_source
      rw [rowSource, List.flatMap_cons]
      cases hSource : piece.source with
      | nil => exact ih hRest
      | cons c source =>
          rw [hSource] at hHead
          exact hHead

end Piece

/-
  Whether recorded numbers are those of parentheses in a
  source, one by one and each for the same owner.
-/
def AreOwn
    {α : Type}
    (source : Text)
    (recorded parentheses : List (α × Nat)) : Prop :=
  List.Forall₂
    (fun entry parenthesis =>
      entry.1 = parenthesis.1 ∧
        numberAt? source parenthesis.2 = some entry.2)
    recorded parentheses

/- So are those that are selected by their owners. -/
theorem AreOwn.filterMap
    {α β : Type}
    {source : Text}
    {recorded parentheses : List (α × Nat)}
    (hOwn : AreOwn source recorded parentheses)
    (select : α → Option β) :
    AreOwn source
      (recorded.filterMap fun entry =>
        (select entry.1).map (·, entry.2))
      (parentheses.filterMap fun entry =>
        (select entry.1).map (·, entry.2)) := by
  unfold AreOwn at hOwn ⊢
  induction hOwn with
  | nil => exact .nil
  | @cons entry parenthesis _ _ hFirst _ ih =>
      rw [List.filterMap_cons, List.filterMap_cons, hFirst.1]
      cases select parenthesis.1 with
      | none => exact ih
      | some owner => exact .cons ⟨rfl, hFirst.2⟩ ih

namespace Piece

variable {α : Type}

/- The parenthesis of a group opens it where it stands. -/
theorem numberAt?_of_reads
    {builder : Builder}
    {text : Text}
    {reading : Reading}
    (hReads : builder.Reads ('(' :: text) reading)
    (hSteady : builder.IsSteady)
    (hHead : text.head? ≠ some '?')
    {position : Nat}
    (hPosition :
      position + (text.length + 1) =
        reading.pattern.length) :
    numberAt? reading.pattern position =
      some (builder.groups + 1) := by
  have hSkip :=
    Builder.skip_of_default hSteady.flags ('(' :: text)
  rcases Builder.exists_readItem hReads hSkip with
    ⟨next, behind, hItem, -⟩
  refine
    numberAt?_of_reaches hReads.1 hSkip hItem ?_ hPosition
  have hOpening :=
    Builder.readGroupOpening_capture builder.names
      hSteady.flags hHead
  rw [Builder.readItem, if_pos rfl, Builder.readGroup_eq,
    hOpening] at hItem
  rcases (Sequence.bind_eq_ok_iff _ _ _).mp hItem with
    ⟨found, hFound, hSecond⟩
  cases hFound
  rcases (Sequence.bind_eq_ok_iff _ _ _).mp hSecond with
    ⟨opened, hOpen, hNext⟩
  cases hNext
  exact (Builder.opened?_of_openGroup rfl hOpen).1

/- A row that is read has its parentheses in turn. -/
theorem areOwn_of_reads
    {row : List (Piece α)}
    (hRow : ∀ piece ∈ row, piece.IsReadable)
    {builder : Builder}
    {reading : Reading}
    (hReads : builder.Reads (rowSource row) reading)
    (hSteady : builder.IsSteady)
    {position : Nat}
    (hPosition :
      position + (rowSource row).length =
        reading.pattern.length) :
    AreOwn reading.pattern (numbers (builder.groups + 1) row)
      (tally (·.source.length) position row) := by
  induction row generalizing builder position with
  | nil => exact .nil
  | cons piece rest ih =>
      rcases List.forall_mem_cons.mp hRow with
        ⟨hPiece, hRest⟩
      rw [rowSource, List.flatMap_cons] at hReads hPosition
      rcases
          hPiece.takesGroups hReads hSteady
            (head?_rowSource hRest) with
        ⟨next, hNext, hSteadyNext, hGroups⟩
      rw [List.length_append] at hPosition
      have hBehind :
          position + piece.source.length +
              (rowSource rest).length =
            reading.pattern.length := by
        rw [rowSource]
        omega
      have hLater := ih hRest hNext hSteadyNext hBehind
      have hCount :
          builder.groups + 1 + piece.width =
            next.groups + 1 := by
        omega
      rw [numbers, tally, tally, hCount]
      cases piece with
      | text source => exact hLater
      | group owner inner groups =>
          refine .cons ⟨rfl, ?_⟩ hLater
          rw [source, List.append_assoc, List.cons_append]
            at hReads
          refine numberAt?_of_reads hReads hSteady ?_ ?_
          · cases inner with
            | nil => simp
            | cons c inner => exact hPiece.2
          · simp only [source, List.length_append,
              List.length_cons, List.length_nil]
              at hPosition ⊢
            omega

/-
  In a source that is written as a row of readable pieces,
  the numbers that are counted are those of the parentheses.
-/
theorem areOwn_of_parse
    {row : List (Piece α)}
    (hRow : ∀ piece ∈ row, piece.IsReadable)
    {e : Expr}
    (hParse : parse (rowSource row) = .ok e) :
    AreOwn (rowSource row) (numbers 1 row)
      (parentheses row) := by
  have hReads := Builder.reads_of_parse hParse
  exact
    areOwn_of_reads hRow hReads ⟨rfl, by simp⟩
      (Nat.zero_add _)

end Piece

end Regex

end RequestRouter
