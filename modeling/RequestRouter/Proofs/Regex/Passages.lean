import RequestRouter.Proofs.Regex.Blocks

/-
  How code leads through a text.

  A passage is what a trail leaves behind: the place where
  it ends and the positions saved on the way. The passages
  of code do not depend on where the code stands, and those
  of a row, of a choice and of rounds follow from those of
  the parts.

  Key definitions include:
    * `Regex.Passage`
    * `Regex.Part.passages`
    * `Regex.Part.IsAt`

  Main statements:
    * `Regex.Part.IsAt.passages_eq_flatMap`
    * `Regex.Block.passages_andThen`
    * `Regex.Block.passages_loop`
    * `Regex.Block.ends_loop_iff`
-/

------------------------------------------------------------
-- Passages
------------------------------------------------------------

namespace RequestRouter

namespace Regex

/- Where a trail ends, and what it saves on the way. -/
structure Passage where
  place : Place
  marks : List (Nat × Place)

/- Save positions in front of a passage. -/
def Passage.behind
    (marks : List (Nat × Place))
    (passage : Passage) : Passage :=
  ⟨passage.place, marks ++ passage.marks⟩

/- To save nothing in front changes nothing. -/
@[simp] theorem Passage.behind_nil :
    behind [] = id :=
  rfl

/- The slot that an instruction saves the position in. -/
def Instruction.slot? : Instruction → Option Nat
  | .save slot _ => some slot
  | _ => none

/- What an instruction saves at a place. -/
def Instruction.marks
    (place : Place)
    (instruction : Instruction) : List (Nat × Place) :=
  instruction.slot?.toList.map ((·, place))

/- Other names for the targets do not change the slot. -/
@[simp] theorem Instruction.marks_rename
    (move : Nat → Nat)
    (place : Place)
    (instruction : Instruction) :
    (instruction.rename move).marks place =
      instruction.marks place := by
  cases instruction <;> rfl

namespace Code

/- What the instruction of a node saves. -/
def marksAt
    (code : Code)
    (node : Node) : List (Nat × Place) :=
  code[node.1]?.elim [] (·.marks node.2)

/- What a trail leaves behind. -/
def passage
    (code : Code)
    (trail : Trail) : Passage :=
  ⟨trail.last, trail.nodes.flatMap code.marksAt⟩

/- What is entered in front of a trail is saved in front. -/
@[simp] theorem passage_behind
    (code : Code)
    (nodes : List Node)
    (trail : Trail) :
    code.passage (trail.behind nodes) =
      (code.passage trail).behind
        (nodes.flatMap code.marksAt) := by
  simp [passage, Trail.behind, Passage.behind]

end Code

namespace Part

/- The passages from an index of a part to its end. -/
def passages
    (part : Part)
    (index : Nat)
    (place : Place) : List Passage :=
  (part.code.trails 0 ∅ (index, place)).map
    part.code.passage

/- At the end there is nothing left to pass. -/
@[simp] theorem passages_zero
    (part : Part)
    (place : Place) :
    part.passages 0 place = [⟨place, []⟩] := by
  rw [passages, Code.trails_self]
  rfl

/- The instructions of a part count from one. -/
theorem getElem?_code_succ
    (part : Part)
    (index : Nat) :
    part.code[index + 1]? = part.body[index]? := by
  simp [code]

/- Whether an index belongs to a part behind an offset. -/
def Owns
    (part : Part)
    (offset index : Nat) : Prop :=
  offset < index ∧ index ≤ offset + part.length

/-
  Whether a part stands in another one, behind an offset,
  and goes on at an index.
-/
def IsAt
    (part whole : Part)
    (offset middle : Nat) : Prop :=
  ∀ index, index < part.length →
    whole.body[offset + index]? =
      part.body[index]?.map
        (.rename (target middle (offset + 1)))

namespace IsAt

variable {part first second whole : Part}
variable {offset middle index : Nat}
variable {place : Place}

/- Every part stands in itself. -/
theorem refl
    (part : Part) :
    part.IsAt part 0 0 := by
  intro index hIndex
  rw [target_zero_one]
  simp

/- The code of the whole has the instructions of the part. -/
theorem getElem?_code
    (hAt : part.IsAt whole offset middle)
    (hIndex : part.Owns 0 index) :
    whole.code[target middle (offset + 1) index]? =
      part.code[index]?.map
        (.rename (target middle (offset + 1))) := by
  rcases hIndex with ⟨hPositive, hLast⟩
  cases index with
  | zero => exact absurd hPositive (Nat.lt_irrefl 0)
  | succ index =>
      have hPosition :
          target middle (offset + 1) (index + 1) =
            offset + index + 1 :=
        Nat.add_right_comm offset 1 index
      have hBound : index < part.length := by omega
      rw [hPosition, getElem?_code_succ, getElem?_code_succ,
        hAt index hBound]

/- A part leads to itself, or to where it goes on. -/
theorem isConfined
    (hAt : part.IsAt whole offset middle) :
    whole.code.IsConfined (part.Owns offset) middle := by
  rintro ⟨own, place⟩ next ⟨hAbove, hBelow⟩ hNext
  rcases Code.exists_of_mem_successors hNext with
    ⟨instruction, hInstruction, hNext⟩
  obtain ⟨index, rfl⟩ : ∃ index, own = offset + index + 1 :=
    ⟨own - offset - 1, by dsimp at hAbove; omega⟩
  have hBound : index < part.length := by
    dsimp at hBelow
    omega
  rw [getElem?_code_succ, hAt index hBound,
    List.getElem?_eq_getElem hBound, Option.map_some,
    Option.some.injEq] at hInstruction
  have hTarget :=
    Instruction.mem_targets_of_mem_successors hNext
  rw [← hInstruction, Instruction.targets_rename] at hTarget
  rcases List.mem_map.mp hTarget with ⟨inner, hInner, hSame⟩
  have hInside : inner ≤ part.length :=
    part.targets_le _ (List.getElem_mem hBound) inner hInner
  rw [← hSame]
  cases inner with
  | zero => exact Or.inr rfl
  | succ inner =>
      refine Or.inl ⟨?_, ?_⟩ <;>
      · rw [target]
        omega

/- The index of an instruction is in the range of its part. -/
theorem owns_target
    (hIndex : index ≤ part.length) :
    part.Owns offset (target middle (offset + 1) index) ∨
      target middle (offset + 1) index = middle := by
  cases index with
  | zero => exact Or.inr rfl
  | succ index =>
      refine Or.inl ⟨?_, ?_⟩ <;>
      · rw [target]
        omega

/- To the end of the part the whole has the same trails. -/
theorem trails
    (hAt : part.IsAt whole offset middle)
    (hMiddle : ¬ part.Owns offset middle)
    (hIndex : index ≤ part.length)
    (place : Place) :
    whole.code.trails middle ∅
        (target middle (offset + 1) index, place) =
      (part.code.trails 0 ∅ (index, place)).map
        (.rename (target middle (offset + 1))) := by
  have hNode :
      part.Owns 0 (index, place).1 ∨ (index, place).1 = 0 := by
    unfold Owns
    dsimp only
    omega
  have hMove :
      ∀ first second, part.Owns 0 first →
        part.Owns 0 second ∨ second = 0 →
          target middle (offset + 1) first =
              target middle (offset + 1) second →
            first = second := by
    intro first second hFirst hSecond hSame
    have hLast : first ≤ part.length := by
      have hBelow := hFirst.2
      omega
    rcases first with - | first
    · exact absurd hFirst.1 (Nat.lt_irrefl 0)
    rcases second with - | second
    · refine absurd ⟨?_, ?_⟩ hMiddle <;>
      · rw [target, target] at hSame
        omega
    · rw [target, target] at hSame
      omega
  have hTrails :=
    (refl part).isConfined.trails_rename
      (fun index hOwn => hAt.getElem?_code hOwn) hMove
      (fun _ hMember => absurd hMember (Finset.notMem_empty _))
      (fun hOwn => Nat.lt_irrefl 0 hOwn.1) hNode
  rw [Finset.image_empty] at hTrails
  exact hTrails

/- The same trails save the same positions. -/
theorem passage_rename
    (hAt : part.IsAt whole offset middle)
    (hIndex : index ≤ part.length)
    {trail : Trail}
    (hTrail :
      trail ∈ part.code.trails 0 ∅ (index, place)) :
    whole.code.passage
        (trail.rename (target middle (offset + 1))) =
      part.code.passage trail := by
  have hOwn : part.Owns 0 index ∨ index = 0 := by
    unfold Owns
    omega
  unfold Code.passage Trail.rename
  rw [List.flatMap_map]
  congr 1
  apply List.flatMap_congr
  intro node hNode
  have hInside : part.Owns 0 node.1 :=
    (refl part).isConfined.inside_of_mem_nodes hOwn hTrail
      hNode
  unfold Code.marksAt
  dsimp only
  rw [hAt.getElem?_code hInside]
  cases part.code[node.1]? with
  | none => rfl
  | some instruction =>
      exact Instruction.marks_rename _ _ _

/- A part that ends with the whole has the same passages. -/
theorem passages_eq
    (hAt : part.IsAt whole offset 0)
    (hIndex : index ≤ part.length)
    (place : Place) :
    whole.passages (target 0 (offset + 1) index) place =
      part.passages index place := by
  have hZero : ¬ part.Owns offset 0 :=
    fun hOwn => Nat.not_lt_zero _ hOwn.1
  rw [passages, hAt.trails hZero hIndex, List.map_map,
    passages]
  apply List.map_congr_left
  intro trail hTrail
  exact hAt.passage_rename hIndex hTrail

/-
  The passages of a part that goes on in an earlier one are
  continued by those of the earlier one.
-/
theorem passages_eq_flatMap
    (hFirst : first.IsAt whole 0 0)
    (hSecond : second.IsAt whole offset middle)
    (hOffset : first.length ≤ offset)
    (hMiddle : middle ≤ first.length)
    (hIndex : index ≤ second.length)
    (place : Place) :
    whole.passages (target middle (offset + 1) index)
        place =
      (second.passages index place).flatMap fun passage =>
        (first.passages middle passage.place).map
          (.behind passage.marks) := by
  have hDisjoint :
      ∀ index, second.Owns offset index →
        ¬ first.Owns 0 index := by
    intro index hSecond hFirst
    have hAbove := hSecond.1
    have hBelow := hFirst.2
    omega
  have hOutside : ¬ second.Owns offset middle := by
    intro hOwn
    have hAbove := hOwn.1
    omega
  have hZero : ¬ second.Owns offset 0 :=
    fun hOwn => Nat.not_lt_zero _ hOwn.1
  have hOn : first.Owns 0 middle ∨ middle = 0 := by
    unfold Owns
    omega
  have hRest :
      ∀ place,
        (whole.code.trails 0 ∅ (middle, place)).map
            whole.code.passage =
          first.passages middle place := by
    intro place
    have hEqual := hFirst.passages_eq hMiddle place
    rw [target_zero_one] at hEqual
    exact hEqual
  rw [passages,
    hSecond.isConfined.trails_eq_flatMap_of_disjoint
      hFirst.isConfined hDisjoint hOutside hZero
      (owns_target hIndex) hOn,
    hSecond.trails hOutside hIndex, List.flatMap_map,
    List.map_flatMap, passages, List.flatMap_map]
  apply List.flatMap_congr
  intro trail hTrail
  have hPassage := hSecond.passage_rename hIndex hTrail
  rw [← hPassage, ← hRest, List.map_map, List.map_map]
  apply List.map_congr_left
  intro rest hRest
  rw [Function.comp_apply, Code.passage_behind]
  rfl

end IsAt

end Part

end Regex

end RequestRouter

------------------------------------------------------------
-- Rows and Choices
------------------------------------------------------------

namespace RequestRouter

namespace Regex

namespace Part

/- A part stands in front of one more instruction. -/
theorem isAt_push
    (part : Part)
    {instruction : Instruction}
    (hTargets :
      ∀ target ∈ instruction.targets,
        target ≤ part.length + 1)
    (hAccept : instruction ≠ .accept) :
    part.IsAt (part.push instruction hTargets hAccept)
      0 0 := by
  intro index hIndex
  rw [target_zero_one, Nat.zero_add, Instruction.rename_id,
    Option.map_id]
  exact List.getElem?_append_left hIndex

/- A part stands in front of one that is glued to it. -/
theorem isAt_glue
    (first second : Part)
    {middle : Nat}
    (hMiddle : middle ≤ first.length) :
    first.IsAt (first.glue second middle hMiddle) 0 0 := by
  intro index hIndex
  rw [target_zero_one, Nat.zero_add, Instruction.rename_id,
    Option.map_id]
  exact List.getElem?_append_left hIndex

/- The one that is glued to it stands behind. -/
theorem isAt_glue_length
    (first second : Part)
    {middle : Nat}
    (hMiddle : middle ≤ first.length) :
    second.IsAt (first.glue second middle hMiddle)
      first.length middle := by
  intro index hIndex
  have hBehind :
      (first.glue second middle hMiddle).body[
          first.length + index]? =
        (second.renamed middle (first.length + 1))[index]? := by
    unfold glue length
    rw [List.getElem?_append_right (Nat.le_add_right _ _),
      Nat.add_sub_cancel_left]
  rw [hBehind, renamed, List.getElem?_map]

/- An instruction behind a part leads into the part. -/
theorem passages_push
    (part : Part)
    {instruction : Instruction}
    (hTargets :
      ∀ target ∈ instruction.targets, target ≤ part.length)
    (hMore :
      ∀ target ∈ instruction.targets,
        target ≤ part.length + 1)
    (hAccept : instruction ≠ .accept)
    (place : Place) :
    (part.push instruction hMore hAccept).passages
        (part.length + 1) place =
      (instruction.successors place).flatMap fun next =>
        (part.passages next.1 next.2).map
          (.behind (instruction.marks place)) := by
  have hAt := part.isAt_push hMore hAccept
  have hCode :
      (part.push instruction hMore hAccept).code[
          part.length + 1]? =
        some instruction := by
    rw [getElem?_code_succ]
    simp [push, length]
  have hMarks :
      [((part.length + 1, place) : Node)].flatMap
          (part.push instruction hMore hAccept).code.marksAt =
        instruction.marks place := by
    simp [Code.marksAt, hCode]
  have hSuccessors :
      (part.push instruction hMore hAccept).code.successors
          (part.length + 1, place) =
        instruction.successors place := by
    simp [Code.successors, hCode]
  rw [passages,
    Code.trails_enter (Nat.succ_ne_zero _)
      (Finset.notMem_empty _),
    hSuccessors, List.map_flatMap]
  apply List.flatMap_congr
  intro next hNext
  have hInside : next.1 ≤ part.length :=
    hTargets next.1
      (Instruction.mem_targets_of_mem_successors hNext)
  have hOwn : part.Owns 0 next.1 ∨ next.1 = 0 := by
    unfold Owns
    omega
  have hEqual := hAt.passages_eq hInside next.2
  rw [target_zero_one] at hEqual
  have hAvoid :
      ∀ trail ∈
          (part.push instruction hMore hAccept).code.trails
            0 ∅ next,
        trail.Avoids {(part.length + 1, place)} := by
    intro trail hTrail node hNode hSame
    have hLast :=
      (hAt.isConfined.inside_of_mem_nodes hOwn hTrail
        hNode).2
    rw [Finset.mem_singleton.mp hSame] at hLast
    dsimp only at hLast
    omega
  rw [← Finset.union_singleton,
    Code.trails_union_of_avoids hAvoid, List.map_map,
    ← hEqual, passages, id, List.map_map]
  apply List.map_congr_left
  intro trail hTrail
  rw [Function.comp_apply, Code.passage_behind, hMarks]
  rfl

end Part

namespace Block

/- The passages of a block, from its start. -/
def passages
    (block : Block)
    (place : Place) : List Passage :=
  block.toPart.passages block.start place

/- Whether every passage leaves less text behind it. -/
def Shortens
    (block : Block) : Prop :=
  ∀ place, ∀ passage ∈ block.passages place,
    passage.place.rest.length < place.rest.length

/- A passage ends at the place where it starts, or later. -/
theorem isFrom_of_mem_passages
    {block : Block}
    {place : Place}
    {passage : Passage}
    (hPassage : passage ∈ block.passages place) :
    place.IsFrom passage.place := by
  rcases List.mem_map.mp hPassage with ⟨trail, hTrail, rfl⟩
  exact Code.isFrom_last hTrail

/- To do nothing is to stay in place. -/
theorem passages_stay
    (place : Place) :
    stay.passages place = [⟨place, []⟩] :=
  Part.passages_zero _ place

/- One instruction is passed at once. -/
theorem passages_single
    {instruction : Instruction}
    (hTargets : ∀ target ∈ instruction.targets, target = 0)
    (hAccept : instruction ≠ .accept)
    (place : Place) :
    (single instruction hTargets hAccept).passages place =
      (instruction.successors place).map fun next =>
        ⟨next.2, instruction.marks place⟩ := by
  have hEmpty :
      ∀ target ∈ instruction.targets,
        target ≤ Part.empty.length := by
    intro target hTarget
    rw [hTargets target hTarget]
    exact Nat.zero_le _
  have hPush :=
    Part.empty.passages_push hEmpty
      (fun index hIndex => hTargets index hIndex ▸ Nat.zero_le _)
      hAccept place
  have hNext :
      ∀ next ∈ instruction.successors place,
        (Part.empty.passages next.1 next.2).map
            (.behind (instruction.marks place)) =
          [(⟨next.2, instruction.marks place⟩ :
            Passage)] := by
    intro next hNext
    have hZero : next.1 = 0 :=
      hTargets next.1
        (Instruction.mem_targets_of_mem_successors hNext)
    rw [hZero, Part.passages_zero]
    simp [Passage.behind]
  rw [List.flatMap_congr hNext, ← List.map_eq_flatMap] at hPush
  exact hPush

/- One block is passed behind the other. -/
theorem passages_andThen
    (first next : Block)
    (place : Place) :
    (andThen first next).passages place =
      (first.passages place).flatMap fun passage =>
        (next.passages passage.place).map
          (.behind passage.marks) :=
  (next.toPart.isAt_glue first.toPart
      next.start_le).passages_eq_flatMap
    (next.toPart.isAt_glue_length first.toPart
      next.start_le)
    (Nat.le_refl _) next.start_le first.start_le place

end Block

end Regex

end RequestRouter

------------------------------------------------------------
-- Branches and Rounds
------------------------------------------------------------

namespace RequestRouter

namespace Regex

namespace Fragment

/- A choice leads inside and outside, as it prefers. -/
theorem successors_prefer
    (greedy : Bool)
    (inside outside : Nat)
    (place : Place) :
    (prefer greedy inside outside).successors place =
      Ways.prefer greedy [(inside, place)]
        [(outside, place)] := by
  cases greedy <;> rfl

/- A choice saves nothing. -/
theorem marks_prefer
    (greedy : Bool)
    (inside outside : Nat)
    (place : Place) :
    (prefer greedy inside outside).marks place = [] :=
  rfl

end Fragment

namespace Ways

/- What follows a choice is a choice of what follows. -/
theorem flatMap_prefer
    {α β : Type}
    (greedy : Bool)
    (inside outside : List α)
    (next : α → List β) :
    (prefer greedy inside outside).flatMap next =
      prefer greedy (inside.flatMap next)
        (outside.flatMap next) := by
  cases greedy <;> simp [prefer]

end Ways

namespace Block

/- A round that may be left out is passed, or nothing is. -/
theorem passages_atMostOnce
    (greedy : Bool)
    (round : Block)
    (place : Place) :
    (atMostOnce greedy round).passages place =
      Ways.prefer greedy (round.passages place)
        [⟨place, []⟩] := by
  have hTargets :
      ∀ index ∈
          (Fragment.prefer greedy round.start 0).targets,
        index ≤ round.length := by
    intro index hIndex
    rcases targets_prefer hIndex with rfl | rfl
    · exact round.start_le
    · exact Nat.zero_le _
  have hPush :=
    round.passages_push hTargets
      (fun index hIndex =>
        Nat.le_succ_of_le (hTargets index hIndex))
      (prefer_ne_accept _ _ _) place
  rw [Fragment.successors_prefer, Ways.flatMap_prefer] at hPush
  simp only [Fragment.marks_prefer, Passage.behind_nil,
    List.map_id, List.flatMap_singleton,
    Part.passages_zero] at hPush
  exact hPush

end Block

namespace Fork

/- The passages of the branches, one behind the other. -/
def passages
    (fork : Fork)
    (place : Place) : List Passage :=
  fork.starts.flatMap fun start =>
    fork.toPart.passages start place

/- A branch in front is passed first. -/
theorem passages_cons
    (block : Block)
    (fork : Fork)
    (place : Place) :
    (cons block fork).passages place =
      block.passages place ++ fork.passages place := by
  have hBlock :=
    (block.toPart.isAt_glue fork.toPart
      (Nat.zero_le _)).passages_eq block.start_le place
  have hFork :
      ∀ start ∈ fork.starts,
        (cons block fork).toPart.passages
            (target 0 (block.length + 1) start) place =
          fork.toPart.passages start place := by
    intro start hStart
    exact
      (block.toPart.isAt_glue_length fork.toPart
        (Nat.zero_le _)).passages_eq
        (fork.starts_le start hStart) place
  rw [target_zero_one] at hBlock
  unfold passages Block.passages
  rw [← List.flatMap_congr hFork, ← hBlock]
  simp [cons, List.flatMap_map]

/- A choice passes the branches in turn. -/
theorem passages_choice
    (fork : Fork)
    (place : Place) :
    fork.choice.passages place = fork.passages place := by
  have hPush :=
    fork.passages_push
      (show ∀ index ∈
          (Instruction.split fork.starts).targets,
        index ≤ fork.length from fork.starts_le)
      (fun index hIndex =>
        Nat.le_succ_of_le (fork.starts_le index hIndex))
      (by simp) place
  simp only [Instruction.successors, List.flatMap_map,
    Instruction.marks, Instruction.slot?, Option.toList_none,
    List.map_nil, Passage.behind_nil, List.map_id] at hPush
  exact hPush

end Fork

namespace Block

variable {round : Block}
variable {place : Place}

/- The round of a loop stands behind the choice. -/
theorem isAt_loop
    (greedy : Bool)
    (round : Block) :
    round.toPart.IsAt (round.loop greedy) 1 1 := by
  intro index hIndex
  rw [Nat.add_comm 1 index, loop, List.getElem?_cons_succ,
    Part.renamed, List.getElem?_map]

/- The choice of a loop leads into the round, or on. -/
theorem successors_loop
    (greedy : Bool)
    (round : Block)
    (place : Place) :
    (round.loop greedy).code.successors (1, place) =
      Ways.prefer greedy [(target 1 2 round.start, place)]
        [(0, place)] := by
  have hCode :
      (round.loop greedy).code[1]? =
        some
          (Fragment.prefer greedy (target 1 2 round.start)
            0) := by
    rw [Part.getElem?_code_succ]
    simp [loop]
  rw [← Fragment.successors_prefer]
  simp [Code.successors, hCode]

/- The choice does not belong to the round. -/
theorem not_owns_choice
    (round : Block) :
    ¬ round.Owns 1 1 :=
  fun hOwn => Nat.lt_irrefl 1 hOwn.1

/- Neither does the end of the loop. -/
theorem not_owns_end
    (round : Block) :
    ¬ round.Owns 1 0 :=
  fun hOwn => Nat.not_lt_zero 1 hOwn.1

/- A round of a loop starts in the round, or at the choice. -/
theorem owns_start_loop
    (round : Block) :
    round.Owns 1 (target 1 2 round.start) ∨
      target 1 2 round.start = 1 :=
  Part.IsAt.owns_target round.start_le

/- The round of a loop does not start at its end. -/
theorem start_loop_ne_end
    (round : Block) :
    target 1 2 round.start ≠ 0 := by
  rcases round.owns_start_loop with hOwn | hChoice
  · exact Nat.ne_of_gt (Nat.lt_of_succ_lt hOwn.1)
  · rw [hChoice]
    exact Nat.one_ne_zero

/- To the choice a loop has the trails of its round. -/
theorem trails_round
    (greedy : Bool)
    (round : Block)
    (place : Place) :
    (round.loop greedy).code.trails 1 ∅
        (target 1 2 round.start, place) =
      (round.code.trails 0 ∅ (round.start, place)).map
        (.rename (target 1 2)) :=
  (isAt_loop greedy round).trails round.not_owns_choice
    round.start_le place

/- Where a round leads, it leads inside a loop. -/
theorem ends_round_iff
    (greedy : Bool)
    (round : Block)
    (place last : Place) :
    (round.loop greedy).code.Ends 1
        (target 1 2 round.start, place) last ↔
      ∃ passage ∈ round.passages place,
        passage.place = last := by
  unfold Code.Ends
  rw [trails_round]
  unfold passages Part.passages
  simp [Trail.rename, Code.passage]

/- Whoever leaves the choice is in the round, or at the end. -/
theorem mem_successors_loop_iff
    (greedy : Bool)
    (round : Block)
    (place : Place)
    (next : Node) :
    next ∈ (round.loop greedy).code.successors (1, place) ↔
      next = (target 1 2 round.start, place) ∨
        next = (0, place) := by
  rw [successors_loop]
  cases greedy <;> simp [Ways.prefer, or_comm]

/-
  A loop whose rounds always go on: what was entered in a
  round is not met again behind it, since from there one
  could get through a round without going on.
-/
theorem trails_behind_round
    (greedy : Bool)
    (hRound : round.Shortens)
    {passed : Finset Node}
    (hPassed : ∀ node ∈ passed, node = (1, place))
    {trail : Trail}
    (hTrail :
      trail ∈ (round.loop greedy).code.trails 1 ∅
        (target 1 2 round.start, place)) :
    (round.loop greedy).code.trails 0
        (passed ∪ trail.nodes.toFinset) (1, trail.last) =
      (round.loop greedy).code.trails 0 ∅
        (1, trail.last) := by
  have hLess : trail.last.rest.length < place.rest.length := by
    rcases (ends_round_iff greedy round place trail.last).mp
        ⟨trail, hTrail, rfl⟩
      with ⟨passage, hPassage, hLast⟩
    rw [← hLast]
    exact hRound place passage hPassage
  rw [← Finset.empty_union (passed ∪ _)]
  apply Code.trails_union_of_avoids
  rintro rest hRest ⟨index, met⟩ hMet hBefore
  have hFrom : trail.last.IsFrom met :=
    Code.isFrom_of_mem_nodes hRest hMet
  rcases Finset.mem_union.mp hBefore with hOld | hTrailed
  · cases hPassed _ hOld
    have hLength := hFrom.length_le
    omega
  -- The node leads to the choice, and so it does in place.
  have hNode := List.mem_toFinset.mp hTrailed
  rcases Code.exists_trail_of_mem_nodes hTrail hNode with
    ⟨inner, hInner, hLast⟩
  have hBack : met.IsFrom trail.last :=
    hLast ▸ Code.isFrom_last hInner
  have hPlace : met = trail.last :=
    hFrom.eq_of_length_le hBack.length_le
  subst hPlace
  have hOwn : round.Owns 1 index :=
    (isAt_loop greedy round).isConfined.inside_of_mem_nodes
      round.owns_start_loop hTrail hNode
  rcases Code.exists_of_mem_trails Nat.one_ne_zero hRest
    with ⟨-, next, hNext, later, hLater, rfl⟩
  rcases List.mem_cons.mp hMet with hChoice | hBehind
  · cases hChoice
    exact round.not_owns_choice hOwn
  rcases (mem_successors_loop_iff _ _ _ _).mp hNext
    with rfl | rfl
  · -- So a round leads from the choice back to it in place.
    have hInside :
        (round.loop greedy).code.Ends 1 (index, trail.last)
          trail.last :=
      ⟨inner, hInner, hLast⟩
    have hEnds :=
      Code.ends_of_mem_nodes (Finset.mem_insert_self _ _)
        (Place.IsFrom.refl trail.last) hLater hBehind hInside
    rcases (ends_round_iff greedy round _ _).mp hEnds with
      ⟨passage, hPassage, hSame⟩
    have hGoesOn := hRound _ passage hPassage
    rw [hSame] at hGoesOn
    exact Nat.lt_irrefl _ hGoesOn
  · rw [Code.trails_self, List.mem_singleton] at hLater
    simp [hLater] at hBehind

/- Behind a round such a loop starts again at its choice. -/
theorem trails_loop
    (greedy : Bool)
    (hRound : round.Shortens)
    {passed : Finset Node}
    (hPassed : ∀ node ∈ passed, node = (1, place)) :
    (round.loop greedy).code.trails 0 passed
        (target 1 2 round.start, place) =
      ((round.loop greedy).code.trails 1 ∅
          (target 1 2 round.start, place)).flatMap
        fun trail =>
          ((round.loop greedy).code.trails 0 ∅
            (1, trail.last)).map (.behind trail.nodes) := by
  have hConfined := (isAt_loop greedy round).isConfined
  have hAvoid :
      ∀ trail ∈ (round.loop greedy).code.trails 1 ∅
          (target 1 2 round.start, place),
        trail.Avoids passed := by
    intro trail hTrail node hNode hMet
    have hOwn :=
      hConfined.inside_of_mem_nodes round.owns_start_loop
        hTrail hNode
    rw [hPassed node hMet] at hOwn
    exact round.not_owns_choice hOwn
  have hFirst :
      (round.loop greedy).code.trails 1 passed
          (target 1 2 round.start, place) =
        (round.loop greedy).code.trails 1 ∅
          (target 1 2 round.start, place) := by
    rw [← Finset.empty_union passed]
    exact Code.trails_union_of_avoids hAvoid
  rw [hConfined.trails_eq_flatMap round.not_owns_choice
    round.not_owns_end round.owns_start_loop, hFirst]
  apply List.flatMap_congr
  intro trail hTrail
  rw [trails_behind_round greedy hRound hPassed hTrail]

/- The passages of such a loop, from its first round. -/
theorem passages_atLeastOnce
    (greedy : Bool)
    (hRound : round.Shortens)
    (place : Place) :
    (atLeastOnce greedy round).passages place =
      (round.passages place).flatMap fun passage =>
        ((round.loop greedy).passages 1 passage.place).map
          (.behind passage.marks) := by
  have hAt := isAt_loop greedy round
  have hPassed :
      ∀ node ∈ (∅ : Finset Node), node = (1, place) :=
    fun node hNode => absurd hNode (Finset.notMem_empty node)
  have hTrails := trails_loop greedy hRound hPassed
  unfold passages Part.passages atLeastOnce
  rw [hTrails, trails_round, List.flatMap_map,
    List.map_flatMap, List.flatMap_map]
  apply List.flatMap_congr
  intro trail hTrail
  have hPassage := hAt.passage_rename round.start_le hTrail
  rw [← hPassage, List.map_map, List.map_map]
  apply List.map_congr_left
  intro rest hRest
  rw [Function.comp_apply, Code.passage_behind]
  rfl

/- From its choice, a loop goes through a round, or ends. -/
theorem passages_loop
    (greedy : Bool)
    (hRound : round.Shortens)
    (place : Place) :
    (round.loop greedy).passages 1 place =
      Ways.prefer greedy
        ((atLeastOnce greedy round).passages place)
        [⟨place, []⟩] := by
  have hPassed :
      ∀ node ∈ insert (1, place) (∅ : Finset Node),
        node = (1, place) := by
    intro node hNode
    simpa using hNode
  have hEmpty :
      ∀ node ∈ (∅ : Finset Node), node = (1, place) :=
    fun node hNode => absurd hNode (Finset.notMem_empty node)
  have hMarks :
      [((1, place) : Node)].flatMap
          (round.loop greedy).code.marksAt =
        [] := by
    simp [Code.marksAt, Part.getElem?_code_succ, loop,
      Fragment.marks_prefer]
  have hBehind :
      ∀ trails : List Trail,
        (trails.map (.behind [(1, place)])).map
            (round.loop greedy).code.passage =
          trails.map (round.loop greedy).code.passage := by
    intro trails
    rw [List.map_map]
    apply List.map_congr_left
    intro trail _
    rw [Function.comp_apply, Code.passage_behind, hMarks]
    rfl
  have hInside :
      (round.loop greedy).code.trails 0
          (insert (1, place) ∅)
          (target 1 2 round.start, place) =
        (round.loop greedy).code.trails 0 ∅
          (target 1 2 round.start, place) := by
    rw [trails_loop greedy hRound hPassed,
      trails_loop greedy hRound hEmpty]
  rw [Part.passages,
    Code.trails_enter Nat.one_ne_zero
      (Finset.notMem_empty _),
    successors_loop, List.map_flatMap, Ways.flatMap_prefer,
    List.flatMap_singleton, List.flatMap_singleton, hBehind,
    hBehind, hInside, Code.trails_self]
  rfl

/- A loop ends at its choice, or behind further rounds. -/
theorem ends_choice_iff
    (greedy : Bool)
    (round : Block)
    (place last : Place) :
    (round.loop greedy).code.Ends 0 (1, place) last ↔
      place = last ∨
        (round.loop greedy).code.Ends 0
          (target 1 2 round.start, place) last := by
  rw [Code.ends_iff Nat.one_ne_zero]
  simp only [mem_successors_loop_iff, or_and_right, exists_or,
    exists_eq_left, Code.ends_stop_iff]
  rw [or_comm, eq_comm]

/-
  Behind a round in place a loop is left, because the start
  of the round is not entered again.
-/
theorem last_eq_of_round_in_place
    (greedy : Bool)
    (round : Block)
    {place : Place}
    {first rest : Trail}
    (hFirst :
      first ∈
        (round.loop greedy).code.trails 1 ∅
          (target 1 2 round.start, place))
    (hRest :
      rest ∈
        (round.loop greedy).code.trails 0
          (∅ ∪ first.nodes.toFinset) (1, place)) :
    rest.last = place := by
  rcases Code.exists_of_mem_trails Nat.one_ne_zero hRest with
    ⟨-, next, hNext, later, hLater, rfl⟩
  rcases (mem_successors_loop_iff _ _ _ _).mp hNext with
    rfl | rfl
  case inr =>
      rw [Code.trails_self, List.mem_singleton] at hLater
      rw [hLater]
      rfl
  case inl =>
      have hPassed :
          (target 1 2 round.start, place) ∈
            insert (1, place)
              (∅ ∪ first.nodes.toFinset) := by
        by_cases hStart : target 1 2 round.start = 1
        · rw [hStart]
          exact Finset.mem_insert_self _ _
        · rcases Code.exists_of_mem_trails hStart hFirst with
            ⟨-, _, -, _, -, hNodes⟩
          have hEntered :
              (target 1 2 round.start, place) ∈
                first.nodes := by
            rw [hNodes]
            exact List.mem_cons_self
          exact
            Finset.mem_insert_of_mem
              (Finset.mem_union_right _
                (List.mem_toFinset.mpr hEntered))
      rw [Code.trails_of_mem (start_loop_ne_end round)
        hPassed] at hLater
      cases hLater

/-
  Any loop ends behind a round or behind further rounds. A
  round in place is the last one.
-/
theorem ends_loop_iff
    (greedy : Bool)
    (round : Block)
    (place last : Place) :
    (round.loop greedy).code.Ends 0
        (target 1 2 round.start, place) last ↔
      ∃ middle,
        (∃ passage ∈ round.passages place,
          passage.place = middle) ∧
          (middle = last ∨
            middle.rest.length ≠ place.rest.length ∧
              (round.loop greedy).code.Ends 0
                (target 1 2 round.start, middle) last) := by
  have hConfined := (isAt_loop greedy round).isConfined
  constructor
  · rintro ⟨trail, hTrail, rfl⟩
    rw [hConfined.trails_eq_flatMap round.not_owns_choice
      round.not_owns_end round.owns_start_loop] at hTrail
    rcases List.mem_flatMap.mp hTrail with
      ⟨first, hFirst, hBehind⟩
    rcases List.mem_map.mp hBehind with ⟨rest, hRest, rfl⟩
    refine
      ⟨first.last,
        (ends_round_iff greedy round _ _).mp
          ⟨first, hFirst, rfl⟩, ?_⟩
    by_cases hPlace :
        first.last.rest.length = place.rest.length
    case neg =>
        have hEnds :
            (round.loop greedy).code.Ends 0 (1, first.last)
              rest.last :=
          .of_mem hRest
        rcases (ends_choice_iff _ _ _ _).mp hEnds with
          hLast | hMore
        · exact Or.inl hLast
        · exact Or.inr ⟨hPlace, hMore⟩
    case pos =>
        left
        have hSame : first.last = place :=
          (Code.isFrom_last hFirst).eq_of_length_le
            (Nat.le_of_eq hPlace.symm)
        rw [hSame] at hRest ⊢
        exact
          (last_eq_of_round_in_place greedy round hFirst
            hRest).symm
  · rintro ⟨middle, hRound, hRest⟩
    have hEnds :
        (round.loop greedy).code.Ends 0 (1, middle) last :=
      (ends_choice_iff _ _ _ _).mpr
        (hRest.imp_right And.right)
    exact
      hConfined.ends_trans round.not_owns_end
        round.owns_start_loop
        ((ends_round_iff greedy round _ _).mpr hRound) hEnds

end Block

end Regex

end RequestRouter
