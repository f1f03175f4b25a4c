import RequestRouter.Proofs.Regex.Trails

/-
  Code that can stand anywhere.

  The code of an expression is the same wherever it is
  written, up to the names of its indices. A part is such
  code with names of its own: index zero is where it leads
  on, and its instructions count from one. Every fragment
  that an expression gives writes a part.

  Key definitions include:
    * `Regex.Part`
    * `Regex.Block`
    * `Regex.Block.write`
    * `Regex.Expr.block`

  Main statements:
    * `Regex.Expr.code_eq_write`
    * `Regex.Expr.program_eq`
-/

------------------------------------------------------------
-- Parts
------------------------------------------------------------

namespace RequestRouter

namespace Regex

/-
  Where an index of a part comes to stand: index zero at the
  index to go on at, the others from a first one on.
-/
def target
    (next first : Nat) : Nat → Nat
  | 0 => next
  | index + 1 => first + index

/- In its own code a part stands where its names say. -/
theorem target_zero_one :
    target 0 1 = id := by
  funext index
  cases index with
  | zero => rfl
  | succ index => exact Nat.add_comm 1 index

/- A part of a part stands behind what is in front of it. -/
theorem target_target
    (next first middle offset : Nat) :
    target next first ∘ target middle (offset + 1) =
      target (target next first middle) (first + offset) := by
  funext index
  cases index with
  | zero => rfl
  | succ index =>
      have hIndex : offset + 1 + index = offset + index + 1 :=
        Nat.add_right_comm offset 1 index
      rw [Function.comp_apply, target, hIndex, target, target,
        Nat.add_assoc]

/- An index stays within a bound if both ends do. -/
theorem target_le
    {next first index length bound : Nat}
    (hIndex : index ≤ length)
    (hNext : next ≤ bound)
    (hBound : first + length ≤ bound + 1) :
    target next first index ≤ bound := by
  cases index with
  | zero => exact hNext
  | succ index =>
      rw [target]
      omega

/-
  Instructions that lead to each other, or to index zero,
  where they end. The instructions count from one.
-/
structure Part where
  body : List Instruction
  targets_le :
    ∀ instruction ∈ body,
      ∀ target ∈ instruction.targets, target ≤ body.length
  goes_on : .accept ∉ body

namespace Part

/- The number of instructions. -/
def length
    (part : Part) : Nat :=
  part.body.length

/- A part as code that accepts at its end. -/
def code
    (part : Part) : Code :=
  (.accept :: part.body).toArray

/- The instructions as they stand in code. -/
def renamed
    (part : Part)
    (next first : Nat) : List Instruction :=
  part.body.map (.rename (target next first))

/- Write a part behind code. -/
def write
    (part : Part)
    (next : Nat)
    (code : Code) : Code :=
  code ++ (part.renamed next code.size).toArray

/- Instructions that are renamed keep on leading inside. -/
theorem target_le_of_mem_renamed
    {part : Part}
    {next first bound : Nat}
    (hNext : next ≤ bound)
    (hBound : first + part.length ≤ bound + 1)
    {instruction : Instruction}
    (hInstruction : instruction ∈ part.renamed next first)
    {index : Nat}
    (hIndex : index ∈ instruction.targets) :
    index ≤ bound := by
  rcases List.mem_map.mp hInstruction with
    ⟨own, hOwn, rfl⟩
  rw [Instruction.targets_rename] at hIndex
  rcases List.mem_map.mp hIndex with ⟨inner, hInner, rfl⟩
  exact
    target_le (part.targets_le own hOwn inner hInner) hNext
      hBound

/- No instruction accepts under another name. -/
theorem accept_not_mem_renamed
    (part : Part)
    (next first : Nat) :
    .accept ∉ part.renamed next first := by
  intro hMember
  rcases List.mem_map.mp hMember with
    ⟨own, hOwn, hSame⟩
  cases own <;> cases hSame
  exact part.goes_on hOwn

/- There are as many instructions under other names. -/
@[simp] theorem length_renamed
    (part : Part)
    (next first : Nat) :
    (part.renamed next first).length = part.length :=
  List.length_map _

/- To rename twice is to place a part inside another. -/
theorem map_rename_renamed
    (part : Part)
    (next first middle offset : Nat) :
    (part.renamed middle (offset + 1)).map
        (.rename (target next first)) =
      part.renamed (target next first middle)
        (first + offset) := by
  unfold renamed
  rw [List.map_map]
  apply List.map_congr_left
  intro instruction hInstruction
  rw [Function.comp_apply, Instruction.rename_rename,
    target_target]

/- No instructions. -/
def empty : Part where
  body := []
  targets_le := by simp
  goes_on := List.not_mem_nil

/- One more instruction, which may lead to itself. -/
def push
    (part : Part)
    (instruction : Instruction)
    (hTargets :
      ∀ target ∈ instruction.targets,
        target ≤ part.length + 1)
    (hAccept : instruction ≠ .accept) : Part where
  body := part.body ++ [instruction]
  targets_le := by
    intro own hOwn index hIndex
    rw [List.length_append, List.length_singleton]
    rcases List.mem_append.mp hOwn with hOld | hNew
    · exact
        Nat.le_succ_of_le (part.targets_le own hOld index hIndex)
    · rw [List.mem_singleton.mp hNew] at hIndex
      exact hTargets index hIndex
  goes_on := by
    intro hMember
    rcases List.mem_append.mp hMember with hOld | hNew
    · exact part.goes_on hOld
    · exact hAccept (List.mem_singleton.mp hNew).symm

/-
  A part behind another one, which goes on at an index of
  the other one.
-/
def glue
    (first second : Part)
    (middle : Nat)
    (hMiddle : middle ≤ first.length) : Part where
  body :=
    first.body ++ second.renamed middle (first.length + 1)
  targets_le := by
    intro own hOwn index hIndex
    rw [List.length_append, length_renamed]
    rcases List.mem_append.mp hOwn with hFirst | hSecond
    · exact
        Nat.le_trans (first.targets_le own hFirst index hIndex)
          (Nat.le_add_right _ _)
    · apply target_le_of_mem_renamed _ _ hSecond hIndex
      · exact Nat.le_trans hMiddle (Nat.le_add_right _ _)
      · exact
          Nat.le_of_eq (Nat.add_right_comm first.length 1 _)
  goes_on := by
    intro hMember
    rcases List.mem_append.mp hMember with hFirst | hSecond
    · exact first.goes_on hFirst
    · exact accept_not_mem_renamed second _ _ hSecond

/- To write glued parts is to write one after the other. -/
theorem write_glue
    (first second : Part)
    {middle : Nat}
    (hMiddle : middle ≤ first.length)
    (next : Nat)
    (code : Code) :
    (first.glue second middle hMiddle).write next code =
      second.write (target next code.size middle)
        (first.write next code) := by
  have hSize :
      (first.write next code).size =
        code.size + first.length := by
    simp [write]
  rw [write, write, hSize, write, renamed, glue,
    List.map_append, map_rename_renamed]
  simp [renamed]

/- To write one more instruction is to push it. -/
theorem write_push
    (part : Part)
    {instruction : Instruction}
    (hTargets :
      ∀ target ∈ instruction.targets,
        target ≤ part.length + 1)
    (hAccept : instruction ≠ .accept)
    (next : Nat)
    (code : Code) :
    (part.push instruction hTargets hAccept).write next
        code =
      (part.write next code).push
        (instruction.rename (target next code.size)) := by
  simp [write, renamed, push]

end Part

end Regex

end RequestRouter

------------------------------------------------------------
-- Blocks
------------------------------------------------------------

namespace RequestRouter

namespace Regex

/- A part together with the index at which it starts. -/
structure Block extends Part where
  start : Nat
  start_le : start ≤ toPart.length

namespace Block

/- The fragment that writes a block. -/
def write
    (block : Block) : Fragment :=
  fun next code =>
    (target next code.size block.start,
      block.toPart.write next code)

/- Nothing to do. -/
def stay : Block where
  toPart := .empty
  start := 0
  start_le := Nat.le_refl 0

/- One instruction, which leads on. -/
def single
    (instruction : Instruction)
    (hTargets : ∀ target ∈ instruction.targets, target = 0)
    (hAccept : instruction ≠ .accept) : Block where
  toPart :=
    Part.empty.push instruction
      (fun index hIndex => hTargets index hIndex ▸ Nat.zero_le _)
      hAccept
  start := 1
  start_le := Nat.le_refl 1

/- Record the position in a slot. -/
def save
    (slot : Nat) : Block :=
  single (.save slot 0) (by simp [Instruction.targets])
    (by simp)

/- One block behind the other. -/
def andThen
    (first next : Block) : Block where
  toPart := next.glue first.toPart next.start next.start_le
  start := target next.start (next.length + 1) first.start
  start_le := by
    have hLength :
        (next.glue first.toPart next.start
            next.start_le).length =
          next.length + first.length := by
      simp [Part.length, Part.glue, Part.renamed]
    rw [hLength]
    apply target_le first.start_le
    · exact Nat.le_trans next.start_le (Nat.le_add_right _ _)
    · exact Nat.le_of_eq (Nat.add_right_comm next.length 1 _)

/- A choice between going inside and staying outside. -/
theorem targets_prefer
    {greedy : Bool}
    {inside outside index : Nat}
    (hIndex :
      index ∈
        (Fragment.prefer greedy inside outside).targets) :
    index = inside ∨ index = outside := by
  cases greedy <;>
    simpa [Fragment.prefer, Instruction.targets, or_comm]
      using hIndex

/- Such a choice does not accept. -/
theorem prefer_ne_accept
    (greedy : Bool)
    (inside outside : Nat) :
    Fragment.prefer greedy inside outside ≠ .accept := by
  simp [Fragment.prefer]

/- One round or none. -/
def atMostOnce
    (greedy : Bool)
    (round : Block) : Block where
  toPart :=
    round.push (Fragment.prefer greedy round.start 0)
      (by
        intro index hIndex
        rcases targets_prefer hIndex with rfl | rfl
        · exact Nat.le_succ_of_le round.start_le
        · exact Nat.zero_le _)
      (prefer_ne_accept _ _ _)
  start := round.length + 1
  start_le := by simp [Part.length, Part.push]

/- A choice, and a round that leads back to it. -/
def loop
    (greedy : Bool)
    (round : Block) : Part where
  body :=
    Fragment.prefer greedy (target 1 2 round.start) 0 ::
      round.renamed 1 2
  targets_le := by
    have hLength : 1 ≤ round.length + 1 := Nat.le_add_left _ _
    have hBound : 2 + round.length ≤ round.length + 1 + 1 := by
      omega
    intro own hOwn index hIndex
    rw [List.length_cons, Part.length_renamed]
    rcases List.mem_cons.mp hOwn with rfl | hRound
    · rcases targets_prefer hIndex with rfl | rfl
      · exact target_le round.start_le hLength hBound
      · exact Nat.zero_le _
    · exact
        Part.target_le_of_mem_renamed hLength hBound hRound
          hIndex
  goes_on := by
    intro hMember
    rcases List.mem_cons.mp hMember with hChoice | hRound
    · exact prefer_ne_accept _ _ _ hChoice.symm
    · exact Part.accept_not_mem_renamed _ _ _ hRound

/- One round or more. -/
def atLeastOnce
    (greedy : Bool)
    (round : Block) : Block where
  toPart := round.loop greedy
  start := target 1 2 round.start
  start_le := by
    have hLength :
        (round.loop greedy).length = round.length + 1 := by
      simp [Part.length, loop, Part.renamed]
    rw [hLength]
    apply target_le round.start_le (Nat.le_add_left 1 _)
    omega

/- Any number of rounds, entered through a choice. -/
def anyTimes
    (greedy canBeEmpty : Bool)
    (round : Block) : Block :=
  if canBeEmpty then
    atMostOnce greedy (atLeastOnce greedy round)
  else
    { toPart := round.loop greedy
      start := 1
      start_le := by simp [Part.length, loop] }

/- A block several times in a row. -/
def times
    (round : Block) : Nat → Block
  | 0 => stay
  | count + 1 => andThen round (times round count)

/- Up to so many rounds. -/
def upTo
    (greedy : Bool)
    (round : Block) : Nat → Block
  | 0 => stay
  | count + 1 =>
      atMostOnce greedy (andThen round (upTo greedy round count))

/- A repetition between two counts. -/
def repetition
    (min : Nat)
    (max : Option Nat)
    (greedy canBeEmpty : Bool)
    (round : Block) : Block :=
  match min, max with
  | 0, none => anyTimes greedy canBeEmpty round
  | least + 1, none =>
      andThen (times round least) (atLeastOnce greedy round)
  | least, some most =>
      andThen (times round least)
        (upTo greedy round (most - least))

end Block

/- A part together with several indices to start at. -/
structure Fork extends Part where
  starts : List Nat
  starts_le : ∀ start ∈ starts, start ≤ toPart.length

namespace Fork

/- Write the branches, and say where each of them starts. -/
def write
    (fork : Fork)
    (next : Nat)
    (code : Code) : List Nat × Code :=
  (fork.starts.map (target next code.size),
    fork.toPart.write next code)

/- No branches. -/
def nil : Fork where
  toPart := .empty
  starts := []
  starts_le := by simp

/- One more branch in front. -/
def cons
    (block : Block)
    (fork : Fork) : Fork where
  toPart := block.glue fork.toPart 0 (Nat.zero_le _)
  starts :=
    block.start ::
      fork.starts.map (target 0 (block.length + 1))
  starts_le := by
    have hLength :
        (block.glue fork.toPart 0 (Nat.zero_le _)).length =
          block.length + fork.length := by
      simp [Part.length, Part.glue, Part.renamed]
    intro start hStart
    rw [hLength]
    rcases List.mem_cons.mp hStart with rfl | hOther
    · exact Nat.le_trans block.start_le (Nat.le_add_right _ _)
    · rcases List.mem_map.mp hOther with ⟨own, hOwn, rfl⟩
      apply target_le (fork.starts_le own hOwn)
      · exact Nat.zero_le _
      · exact
          Nat.le_of_eq (Nat.add_right_comm block.length 1 _)

/- A choice between the branches. -/
def choice
    (fork : Fork) : Block where
  toPart :=
    fork.push (.split fork.starts)
      (fun index hIndex =>
        Nat.le_succ_of_le (fork.starts_le index hIndex))
      (by simp)
  start := fork.length + 1
  start_le := by simp [Part.length, Part.push]

end Fork

namespace Expr

mutual

/- The block of an expression. -/
def block : Expr → Block
  | .empty => .stay
  | .char c =>
      .single (.char c 0) (by simp [Instruction.targets])
        (by simp)
  | .set chars =>
      .single (.set chars 0) (by simp [Instruction.targets])
        (by simp)
  | .assertion condition =>
      .single (.assertion condition 0)
        (by simp [Instruction.targets]) (by simp)
  | .group index _ body =>
      (Block.save (2 * index)).andThen
        (body.block.andThen (.save (2 * index + 1)))
  | .repetition min max greedy body =>
      .repetition min max greedy body.canBeEmpty body.block
  | .concat items => sequenceBlock items
  | .alternation branches => (branchFork branches).choice

/- The block of expressions in a row. -/
def sequenceBlock : List Expr → Block
  | [] => .stay
  | e :: rest => e.block.andThen (sequenceBlock rest)

/- The blocks of branches, side by side. -/
def branchFork : List Expr → Fork
  | [] => .nil
  | e :: rest => .cons e.block (branchFork rest)

end

end Expr

end Regex

end RequestRouter

------------------------------------------------------------
-- Fragments
------------------------------------------------------------

namespace RequestRouter

namespace Regex

namespace Block

/- To write nothing is to go on at once. -/
theorem write_stay :
    stay.write = fun next code => (next, code) := by
  funext next code
  simp [write, stay, target, Part.write, Part.renamed,
    Part.empty]

/- To write one instruction is to emit it. -/
theorem write_single
    {make : Nat → Instruction}
    (hMake : ∀ move, (make 0).rename move = make (move 0))
    (hTargets : ∀ target ∈ (make 0).targets, target = 0)
    (hAccept : make 0 ≠ .accept) :
    (single (make 0) hTargets hAccept).write =
      Fragment.emit make := by
  funext next code
  have hEmpty : Part.empty.write next code = code := by
    simp [Part.write, Part.renamed, Part.empty]
  simp only [write, single, Fragment.emit, Part.write_push,
    hEmpty, hMake]
  rfl

/- So it is for an instruction that saves the position. -/
theorem write_save
    (slot : Nat) :
    (save slot).write = Fragment.emit (.save slot) :=
  write_single (fun _ => rfl) _ _

/- Blocks in a row are written back to front. -/
theorem write_andThen
    (first next : Block) :
    (andThen first next).write = fun exit code =>
      let (later, code) := next.write exit code
      first.write later code := by
  funext exit code
  have hSize :
      (next.toPart.write exit code).size =
        code.size + next.length := by
    simp [Part.write]
  have hStart :=
    congrFun
      (target_target exit code.size next.start next.length)
      first.start
  simp only [write, andThen, Part.write_glue, hSize]
  exact Prod.ext hStart rfl

/- A choice is written behind its round. -/
theorem write_atMostOnce
    (greedy : Bool)
    (round : Block) :
    (atMostOnce greedy round).write =
      Fragment.atMostOnce greedy round.write := by
  funext next code
  have hSize :
      (round.toPart.write next code).size =
        code.size + round.length := by
    simp [Part.write]
  have hChoice :
      (Fragment.prefer greedy round.start 0).rename
          (target next code.size) =
        Fragment.prefer greedy
          (target next code.size round.start) next := by
    cases greedy <;> rfl
  simp only [write, atMostOnce, Fragment.atMostOnce,
    Part.write_push, hSize, hChoice]
  exact Prod.ext rfl rfl

/- A loop is written in front of its round, and corrected. -/
theorem loop_write
    (greedy : Bool)
    (round : Block)
    (next : Nat)
    (code : Code) :
    Fragment.loop greedy round.write next code =
      (target next code.size (target 1 2 round.start),
        code.size, (round.loop greedy).write next code) := by
  have hStart :
      target next code.size (target 1 2 round.start) =
        target code.size (code.size + 1) round.start :=
    congrFun (target_target next code.size 1 1) round.start
  have hRound :
      (round.renamed 1 2).map
          (.rename (target next code.size)) =
        round.renamed code.size (code.size + 1) :=
    round.map_rename_renamed next code.size 1 1
  have hChoice :
      (Fragment.prefer greedy (target 1 2 round.start)
          0).rename (target next code.size) =
        Fragment.prefer greedy
          (target next code.size (target 1 2 round.start))
          next := by
    cases greedy <;> rfl
  have hCorrected :
      ∀ (instruction : Instruction) (rest : List Instruction),
        (code.push (.split []) ++
            rest.toArray).setIfInBounds code.size
            instruction =
          code ++ (instruction :: rest).toArray := by
    intro instruction rest
    apply Array.toList_inj.mp
    simp
  have hLoop :
      (round.loop greedy).renamed next code.size =
        Fragment.prefer greedy
            (target code.size (code.size + 1) round.start)
            next ::
          round.renamed code.size (code.size + 1) := by
    rw [Part.renamed, loop, List.map_cons, hRound, hChoice,
      hStart]
  simp only [Fragment.loop, write, Part.write,
    Array.size_push, hCorrected, hStart, hLoop]

/- One round or more is the loop, started in the round. -/
theorem write_atLeastOnce
    (greedy : Bool)
    (round : Block) :
    (atLeastOnce greedy round).write =
      Fragment.atLeastOnce greedy round.write := by
  funext next code
  rw [Fragment.atLeastOnce, loop_write]
  rfl

/- Any number of rounds is the loop, started in front. -/
theorem write_anyTimes
    (greedy canBeEmpty : Bool)
    (round : Block) :
    (anyTimes greedy canBeEmpty round).write =
      Fragment.anyTimes greedy canBeEmpty round.write := by
  funext next code
  cases canBeEmpty with
  | true =>
      simp [anyTimes, Fragment.anyTimes, write_atMostOnce,
        write_atLeastOnce]
  | false =>
      simp [anyTimes, Fragment.anyTimes, loop_write, write,
        target]

/- Several rounds are written one behind the other. -/
theorem write_times
    (round : Block)
    (count : Nat) :
    (times round count).write =
      Fragment.times round.write count := by
  induction count with
  | zero => exact write_stay
  | succ count ih =>
      rw [times, write_andThen, ih]
      rfl

/- So are the rounds of which some may be left out. -/
theorem write_upTo
    (greedy : Bool)
    (round : Block)
    (count next : Nat) :
    (upTo greedy round count).write next =
      Fragment.upTo greedy round.write next count next := by
  induction count with
  | zero => rw [upTo, write_stay, Fragment.upTo]
  | succ count ih =>
      funext code
      rw [upTo, write_atMostOnce, write_andThen]
      simp only [Fragment.atMostOnce, ih, Fragment.upTo]

/- A repetition of a block writes a block. -/
theorem write_repetition
    (min : Nat)
    (max : Option Nat)
    (greedy canBeEmpty : Bool)
    (round : Block) :
    (repetition min max greedy canBeEmpty round).write =
      Fragment.repetition min max greedy canBeEmpty
        round.write := by
  funext next code
  unfold repetition Fragment.repetition
  split
  · rw [write_anyTimes]
  · rw [write_andThen, write_times, write_atLeastOnce]
  · rw [write_andThen, write_times]
    simp only [write_upTo]

end Block

namespace Expr

mutual

/- The code of an expression is its block, written down. -/
theorem code_eq_write
    (e : Expr) :
    e.code = e.block.write := by
  cases e with
  | empty => rw [code, block, Block.write_stay]
  | char c =>
      rw [code, block]
      exact (Block.write_single (fun _ => rfl) _ _).symm
  | set chars =>
      rw [code, block]
      exact (Block.write_single (fun _ => rfl) _ _).symm
  | assertion condition =>
      rw [code, block]
      exact (Block.write_single (fun _ => rfl) _ _).symm
  | group index name body =>
      rw [code, block, Block.write_andThen,
        Block.write_andThen, code_eq_write body,
        Block.write_save, Block.write_save]
  | repetition min max greedy body =>
      rw [code, block, Block.write_repetition,
        code_eq_write body]
  | concat items =>
      rw [code, block, sequenceCode_eq_write items]
  | alternation branches =>
      funext next code
      have hSize :
          ((branchFork branches).toPart.write next code).size =
            code.size + (branchFork branches).length := by
        simp [Part.write]
      rw [Expr.code, block, branchCode_eq_write branches]
      simp only [Fork.write, Block.write, Fork.choice,
        Part.write_push, hSize]
      rfl

/- So it is for expressions in a row. -/
theorem sequenceCode_eq_write
    (items : List Expr) :
    sequenceCode items = (sequenceBlock items).write := by
  cases items with
  | nil => rw [sequenceCode, sequenceBlock, Block.write_stay]
  | cons e rest =>
      rw [sequenceCode, sequenceBlock, Block.write_andThen,
        code_eq_write e, sequenceCode_eq_write rest]

/- So it is for branches, each of them with its start. -/
theorem branchCode_eq_write
    (branches : List Expr) :
    branchCode branches = (branchFork branches).write := by
  funext next code
  cases branches with
  | nil =>
      simp [branchCode, branchFork, Fork.write, Fork.nil,
        Part.write, Part.renamed, Part.empty]
  | cons e rest =>
      have hSize :
          (e.block.toPart.write next code).size =
            code.size + e.block.length := by
        simp [Part.write]
      have hStarts :=
        target_target next code.size 0 e.block.length
      rw [branchCode, branchFork, code_eq_write e,
        branchCode_eq_write rest]
      simp only [Fork.write, Fork.cons, Part.write_glue,
        Block.write, hSize, List.map_cons, List.map_map,
        hStarts]
      rfl

end

/- The program of an expression is the block of its whole. -/
theorem program_eq
    (e : Expr) :
    e.program =
      ⟨e.whole.block.code, e.whole.block.start,
        e.lastGroup⟩ := by
  have hNames :
      (e.whole.block.renamed 0 1) = e.whole.block.body := by
    rw [Part.renamed, target_zero_one]
    simp
  have hWrite :
      e.whole.block.write 0 #[.accept] =
        (e.whole.block.start, e.whole.block.code) := by
    simp [Block.write, Part.write, target_zero_one, hNames,
      Part.code]
  rw [program, code_eq_write]
  change
    (⟨(e.whole.block.write 0 #[.accept]).2,
      (e.whole.block.write 0 #[.accept]).1,
      e.lastGroup⟩ : Program) = _
  rw [hWrite]

end Expr

end Regex

end RequestRouter
