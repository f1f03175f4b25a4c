import RequestRouter.Proofs.Regex.Rounds

/-
  The ways that the code of an expression takes.

  The ways of an expression are those that its code takes
  where it repeats something, and follow the expression
  elsewhere. They are in the order of preference, and lead
  to the same places as the code.

  Key definition:
    * `Regex.Expr.codeWays`

  Main statements:
    * `Regex.Expr.shortens_block`
    * `Regex.Expr.unrecorded_codeWays`
    * `Regex.Expr.isPreference_codeWays`
-/

------------------------------------------------------------
-- Expressions That Are Not Empty
------------------------------------------------------------

namespace RequestRouter

namespace Regex

namespace Block

variable {first next round : Block}

/- A row leaves less text behind it if its first block does. -/
theorem Shortens.andThen
    (hFirst : first.Shortens)
    (next : Block) :
    (Block.andThen first next).Shortens := by
  intro place passage hPassage
  rw [passages_andThen] at hPassage
  rcases List.mem_flatMap.mp hPassage with
    ⟨front, hFront, hBehind⟩
  rcases List.mem_map.mp hBehind with ⟨rest, hRest, rfl⟩
  exact
    Nat.lt_of_le_of_lt (isFrom_of_mem_passages hRest).length_le
      (hFirst place front hFront)

/- So it does if its last one does. -/
theorem Shortens.behind
    (hNext : next.Shortens)
    (first : Block) :
    (Block.andThen first next).Shortens := by
  intro place passage hPassage
  rw [passages_andThen] at hPassage
  rcases List.mem_flatMap.mp hPassage with
    ⟨front, hFront, hBehind⟩
  rcases List.mem_map.mp hBehind with ⟨rest, hRest, rfl⟩
  exact
    Nat.lt_of_lt_of_le (hNext front.place rest hRest)
      (isFrom_of_mem_passages hFront).length_le

/- One round or more leave less text if each of them does. -/
theorem Shortens.atLeastOnce
    (hRound : round.Shortens)
    (greedy : Bool) :
    (Block.atLeastOnce greedy round).Shortens := by
  intro place passage hPassage
  have hEnds :=
    (ends_iff (round.loop greedy) (target 1 2 round.start)
      place passage.place).mpr ⟨passage, hPassage, rfl⟩
  rcases (ends_loop_iff greedy round _ _).mp hEnds with
    ⟨_, ⟨first, hFirst, rfl⟩, hRest⟩
  have hLess := hRound place first hFirst
  rcases hRest with hLast | ⟨-, trail, hTrail, hLast⟩
  · rw [← hLast]
    exact hLess
  · rw [← hLast]
    exact
      Nat.lt_of_le_of_lt (Code.isFrom_last hTrail).length_le
        hLess

/- So does a repetition with a first round. -/
theorem Shortens.repetition
    (hRound : round.Shortens)
    {min : Nat}
    (hMin : 0 < min)
    (max : Option Nat)
    (greedy canBeEmpty : Bool) :
    (Block.repetition min max greedy canBeEmpty
      round).Shortens := by
  match min, max with
  | least + 1, none => exact (hRound.atLeastOnce greedy).behind _
  | least + 1, some most => exact (hRound.andThen _).andThen _

/- An instruction follows ways that record nothing. -/
theorem passages_single_of_successors
    {instruction : Instruction}
    {ways : Ways}
    (hSuccessors :
      ∀ place, instruction.successors place =
        (ways place).map ((0, ·.place)))
    (hMarks : instruction.slot? = none)
    (hTargets : ∀ target ∈ instruction.targets, target = 0)
    (hAccept : instruction ≠ .accept)
    (place : Place) :
    (single instruction hTargets hAccept).passages place =
      (ways place).map fun way => ⟨way.place, []⟩ := by
  rw [passages_single, hSuccessors, List.map_map]
  simp [Instruction.marks, hMarks, Function.comp_def]

/- To save a position is to stay in place. -/
theorem passages_save
    (slot : Nat)
    (place : Place) :
    (save slot).passages place =
      [⟨place, [(slot, place)]⟩] :=
  passages_single _ _ place

end Block

namespace Expr

/- The passages over one character. -/
theorem passages_char
    (c : Char)
    (place : Place) :
    (Expr.char c).block.passages place =
      (Ways.pass (· == c) place).map
        fun way => ⟨way.place, []⟩ :=
  Block.passages_single_of_successors (fun _ => rfl) rfl _ _
    place

/- The passages over a character of a set. -/
theorem passages_set
    (chars : CharSet)
    (place : Place) :
    (Expr.set chars).block.passages place =
      (Ways.pass chars.contains place).map
        fun way => ⟨way.place, []⟩ :=
  Block.passages_single_of_successors (fun _ => rfl) rfl _ _
    place

/- The passage where a condition holds. -/
theorem passages_assertion
    (condition : Assertion)
    (place : Place) :
    (Expr.assertion condition).block.passages place =
      (Ways.check condition place).map
        fun way => ⟨way.place, []⟩ :=
  Block.passages_single_of_successors (fun _ => rfl) rfl _ _
    place

/- A group saves the positions around what it matches. -/
theorem passages_group
    (index : Nat)
    (name : Option Text)
    (body : Expr)
    (place : Place) :
    (Expr.group index name body).block.passages place =
      (body.block.passages place).map fun passage =>
        ⟨passage.place,
          (2 * index, place) :: passage.marks ++
            [(2 * index + 1, passage.place)]⟩ := by
  rw [block, Block.passages_andThen, Block.passages_save,
    List.flatMap_singleton, Block.passages_andThen]
  simp only [Block.passages_save, List.map_singleton]
  rw [← List.map_eq_flatMap, List.map_map]
  rfl

mutual

/- An expression that is not empty leaves less text. -/
theorem shortens_block
    (e : Expr)
    (hFull : e.canBeEmpty = false) :
    e.block.Shortens := by
  have hPass :
      ∀ (wanted : Char → Bool) (place : Place),
        ∀ passage ∈
            (Ways.pass wanted place).map
              (fun way => (⟨way.place, []⟩ : Passage)),
          passage.place.rest.length < place.rest.length := by
    intro wanted place passage hPassage
    rcases List.mem_map.mp hPassage with ⟨way, hWay, rfl⟩
    rcases (Ways.leads_pass_iff _ _ _).mp ⟨way, hWay, rfl⟩
      with ⟨c, rest, hRest, -, hPlace⟩
    simp [hPlace, hRest]
  cases e with
  | empty | assertion => cases hFull
  | char c =>
      intro place
      rw [passages_char]
      exact hPass _ place
  | set chars =>
      intro place
      rw [passages_set]
      exact hPass _ place
  | group index name body =>
      rw [block]
      exact
        ((shortens_block body hFull).andThen _).behind _
  | repetition min max greedy body =>
      rw [canBeEmpty, Bool.or_eq_false_iff,
        beq_eq_false_iff_ne] at hFull
      rw [block]
      exact
        (shortens_block body hFull.2).repetition
          (Nat.pos_of_ne_zero hFull.1) _ _ _
  | concat items => exact shortens_sequenceBlock items hFull
  | alternation branches =>
      intro place
      rw [block, Fork.passages_choice]
      exact shortens_branchFork branches hFull place

/- So does a row with an item that is not empty. -/
theorem shortens_sequenceBlock
    (items : List Expr)
    (hFull : allCanBeEmpty items = false) :
    (sequenceBlock items).Shortens := by
  cases items with
  | nil => cases hFull
  | cons e rest =>
      rw [allCanBeEmpty, Bool.and_eq_false_iff] at hFull
      rcases hFull with hFirst | hRest
      · exact (shortens_block e hFirst).andThen _
      · exact (shortens_sequenceBlock rest hRest).behind _

/- So do branches of which none is empty. -/
theorem shortens_branchFork
    (branches : List Expr)
    (hFull : anyCanBeEmpty branches = false)
    (place : Place) :
    ∀ passage ∈ (branchFork branches).passages place,
      passage.place.rest.length < place.rest.length := by
  cases branches with
  | nil =>
      intro passage hPassage
      cases hPassage
  | cons e rest =>
      rw [anyCanBeEmpty, Bool.or_eq_false_iff] at hFull
      intro passage hPassage
      rw [branchFork, Fork.passages_cons] at hPassage
      rcases List.mem_append.mp hPassage with hFirst | hRest
      · exact
          shortens_block e hFull.1 place passage hFirst
      · exact
          shortens_branchFork rest hFull.2 place passage hRest

end

end Expr

end Regex

end RequestRouter

------------------------------------------------------------
-- Ways of the Code
------------------------------------------------------------

namespace RequestRouter

namespace Regex

namespace Expr

mutual

/-
  The ways of an expression, where every repetition goes the
  ways of its code.
-/
def codeWays : Expr → Ways
  | .empty => Ways.stay
  | .char c => Ways.pass (· == c)
  | .set chars => Ways.pass chars.contains
  | .assertion condition => Ways.check condition
  | .group index _ body => Ways.capture index body.codeWays
  | .repetition min max greedy body =>
      (Block.repetition min max greedy body.canBeEmpty
        body.block).ways
  | .concat items => Ways.sequence (listCodeWays items)
  | .alternation branches =>
      Ways.choice (listCodeWays branches)

/- The ways of each expression of a list. -/
def listCodeWays : List Expr → List Ways
  | [] => []
  | e :: rest => e.codeWays :: listCodeWays rest

end

/- The ways of a list are those of its members. -/
theorem listCodeWays_eq
    (items : List Expr) :
    listCodeWays items = items.map codeWays := by
  induction items with
  | nil => rfl
  | cons e rest ih => simp [listCodeWays, ih]

mutual

/- Up to records, these are the ways that the code takes. -/
theorem unrecorded_codeWays
    (e : Expr) :
    Ways.unrecorded e.codeWays = e.block.ways := by
  cases e with
  | empty => rw [codeWays, block, Block.ways_stay]; rfl
  | char c =>
      funext place
      rw [Block.ways, passages_char, List.map_map]
      rfl
  | set chars =>
      funext place
      rw [Block.ways, passages_set, List.map_map]
      rfl
  | assertion condition =>
      funext place
      rw [Block.ways, passages_assertion, List.map_map]
      rfl
  | group index name body =>
      funext place
      rw [Block.ways, passages_group, List.map_map]
      have hBody := congrFun (unrecorded_codeWays body) place
      rw [Block.ways] at hBody
      rw [Function.comp_def, ← hBody, codeWays]
      simp [Ways.unrecorded, Ways.capture, Function.comp_def]
  | repetition min max greedy body =>
      funext place
      rw [codeWays, block, Ways.unrecorded, Block.ways,
        List.map_map]
      rfl
  | concat items =>
      rw [codeWays, block, unrecorded_sequence items]
  | alternation branches =>
      funext place
      rw [codeWays, block, Block.ways, Fork.passages_choice,
        unrecorded_choice branches]

/- So it is for expressions in a row. -/
theorem unrecorded_sequence
    (items : List Expr) :
    Ways.unrecorded (Ways.sequence (listCodeWays items)) =
      (sequenceBlock items).ways := by
  cases items with
  | nil => exact Block.ways_stay.symm
  | cons e rest =>
      rw [listCodeWays, Ways.sequence,
        Ways.unrecorded_andThen, unrecorded_codeWays e,
        unrecorded_sequence rest, sequenceBlock,
        Block.ways_andThen]

/- So it is for branches. -/
theorem unrecorded_choice
    (branches : List Expr)
    (place : Place) :
    Ways.unrecorded (Ways.choice (listCodeWays branches))
        place =
      ((branchFork branches).passages place).map
        fun passage => ⟨passage.place, []⟩ := by
  cases branches with
  | nil => rfl
  | cons e rest =>
      have hFirst := congrFun (unrecorded_codeWays e) place
      have hRest := unrecorded_choice rest place
      rw [branchFork, Fork.passages_cons, List.map_append,
        ← hRest]
      rw [Block.ways] at hFirst
      rw [← hFirst]
      exact List.map_append

end

/- These ways are in the order of preference. -/
theorem isPreference_codeWays :
    IsPreference codeWays where
  empty := rfl
  char _ := rfl
  set _ := rfl
  assertion _ := rfl
  group _ _ _ := rfl
  concat items := by rw [codeWays, listCodeWays_eq]
  alternation branches := by rw [codeWays, listCodeWays_eq]
  repetition hBody := by
    rw [codeWays, hBody,
      Block.ways_repetition _ _ _ (shortens_block _ hBody),
      Ways.unrecorded_repetition, unrecorded_codeWays]
  leads min max greedy body first last := by
    rw [codeWays,
      Block.leadAlike_repetition min max greedy _ body.block,
      ← unrecorded_codeWays, ← Ways.unrecorded_repetition,
      Ways.leads_unrecorded_iff]
  record hWay := by
    rcases List.mem_map.mp hWay with ⟨passage, -, rfl⟩
    rfl

end Expr

end Regex

end RequestRouter
