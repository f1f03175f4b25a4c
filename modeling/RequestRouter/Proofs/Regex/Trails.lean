import Mathlib.Data.Finset.Card
import RequestRouter.Proofs.Regex.Leading

/-
  Trails through the code of a program.

  A trail enters one instruction after the other, each at a
  place of the text, until it comes to an index where it
  ends. The trails that enter no instruction twice at one
  place are listed in the order in which a search tries
  them. To pass by fewer nodes is to keep the trails that
  do not need them, so that a node without a trail can be
  passed by without a loss.

  Key definitions include:
    * `Regex.Trail`
    * `Regex.Code.successors`
    * `Regex.Code.trails`
    * `Regex.Code.Ends`

  Main statements:
    * `Regex.Code.trails_union`
    * `Regex.Code.trails_insert_of_eq_nil`
    * `Regex.Code.ends_iff`
-/

------------------------------------------------------------
-- Successors
------------------------------------------------------------

namespace RequestRouter

namespace Regex

/-
  Whether a place is another one or has less text behind it.
-/
def Place.IsFrom
    (first last : Place) : Prop :=
  last = first ∨ last.rest.length < first.rest.length

namespace Place.IsFrom

variable {first middle last : Place}

/- Every place is from itself. -/
theorem refl
    (place : Place) :
    IsFrom place place :=
  Or.inl rfl

/- What is from a place further on is from the first. -/
theorem trans
    (hFront : IsFrom first middle)
    (hRest : IsFrom middle last) :
    IsFrom first last := by
  rcases hFront with rfl | hFront
  · exact hRest
  rcases hRest with rfl | hRest
  · exact Or.inr hFront
  · exact Or.inr (Nat.lt_trans hRest hFront)

/- Less text cannot become as much again. -/
theorem eq_of_length_le
    (hFrom : IsFrom first last)
    (hLength : first.rest.length ≤ last.rest.length) :
    last = first := by
  rcases hFrom with rfl | hLess
  · rfl
  · omega

/- There is at most as much text behind a later place. -/
theorem length_le
    (hFrom : IsFrom first last) :
    last.rest.length ≤ first.rest.length := by
  rcases hFrom with rfl | hLess
  · exact Nat.le_refl _
  · exact Nat.le_of_lt hLess

end Place.IsFrom

/- An instruction, by its index, at a place. -/
abbrev Node :=
  Nat × Place

namespace Instruction

/- The nodes that an instruction leads to, in order. -/
def successors
    (place : Place) : Instruction → List Node
  | .char c next =>
      (Ways.pass (· == c) place).map ((next, ·.place))
  | .set chars next =>
      (Ways.pass chars.contains place).map ((next, ·.place))
  | .assertion condition next =>
      (Ways.check condition place).map ((next, ·.place))
  | .save _ next => [(next, place)]
  | .split targets => targets.map ((·, place))
  | .accept => []

/- The indices that an instruction names. -/
def targets : Instruction → List Nat
  | .char _ next => [next]
  | .set _ next => [next]
  | .assertion _ next => [next]
  | .save _ next => [next]
  | .split targets => targets
  | .accept => []

/- The successors of an instruction stand at its targets. -/
theorem mem_targets_of_mem_successors
    {instruction : Instruction}
    {place : Place}
    {next : Node}
    (hNext : next ∈ instruction.successors place) :
    next.1 ∈ instruction.targets := by
  cases instruction <;>
    simp only [successors, List.mem_map, List.mem_singleton,
      List.not_mem_nil] at hNext
  case char | set | assertion =>
      rcases hNext with ⟨way, -, rfl⟩
      exact List.mem_singleton_self _
  case save => simp [targets, hNext]
  case split =>
      rcases hNext with ⟨target, hTarget, rfl⟩
      exact hTarget

/- A successor stays in place, or behind one character. -/
theorem place_of_mem_successors
    {instruction : Instruction}
    {place : Place}
    {next : Node}
    (hNext : next ∈ instruction.successors place) :
    next.2 = place ∨
      ∃ c rest, place.rest = c :: rest ∧
        next.2 = ⟨some c, rest⟩ := by
  have hPass :
      ∀ (wanted : Char → Bool) (way : Way),
        way ∈ Ways.pass wanted place →
          ∃ c rest, place.rest = c :: rest ∧
            way.place = ⟨some c, rest⟩ := by
    intro wanted way hWay
    rcases (Ways.leads_pass_iff _ _ _).mp ⟨way, hWay, rfl⟩
      with ⟨c, rest, hRest, -, hPlace⟩
    exact ⟨c, rest, hRest, hPlace⟩
  cases instruction <;>
    simp only [successors, List.mem_map, List.mem_singleton,
      List.not_mem_nil] at hNext
  case char | set =>
      rcases hNext with ⟨way, hWay, rfl⟩
      exact Or.inr (hPass _ way hWay)
  case assertion =>
      rcases hNext with ⟨way, hWay, rfl⟩
      rcases (Ways.leads_check_iff _ _ _).mp ⟨way, hWay, rfl⟩
        with ⟨-, hPlace⟩
      exact Or.inl hPlace
  case save => exact Or.inl (by rw [hNext])
  case split =>
      rcases hNext with ⟨target, -, rfl⟩
      exact Or.inl rfl

end Instruction

namespace Code

/- The nodes behind a node, the preferred one first. -/
def successors
    (code : Code)
    (node : Node) : List Node :=
  code[node.1]?.elim [] (·.successors node.2)

/- Only an instruction of the code has successors. -/
theorem exists_of_mem_successors
    {code : Code}
    {node next : Node}
    (hNext : next ∈ code.successors node) :
    ∃ instruction, code[node.1]? = some instruction ∧
      next ∈ instruction.successors node.2 := by
  unfold successors at hNext
  cases hCode : code[node.1]? with
  | none =>
      rw [hCode] at hNext
      cases hNext
  | some instruction =>
      rw [hCode] at hNext
      exact ⟨instruction, rfl, hNext⟩

/- The text behind a node never becomes longer. -/
theorem isFrom_of_mem_successors
    {code : Code}
    {node next : Node}
    (hNext : next ∈ code.successors node) :
    node.2.IsFrom next.2 := by
  rcases exists_of_mem_successors hNext with
    ⟨_, -, hInstruction⟩
  rcases Instruction.place_of_mem_successors hInstruction with
    hSame | ⟨c, rest, hRest, hPlace⟩
  · exact Or.inl hSame
  · exact Or.inr (by simp [hRest, hPlace])

end Code

end Regex

end RequestRouter

------------------------------------------------------------
-- Trails
------------------------------------------------------------

namespace RequestRouter

namespace Regex

/- A trail: the nodes it enters in turn, and its end. -/
structure Trail where
  nodes : List Node
  last : Place

/- Enter nodes in front of a trail. -/
def Trail.behind
    (nodes : List Node)
    (trail : Trail) : Trail :=
  ⟨nodes ++ trail.nodes, trail.last⟩

/- No nodes in front of a trail change nothing. -/
@[simp] theorem Trail.behind_nil :
    behind [] = id :=
  rfl

/- Nodes in front of others are in front of the trail. -/
@[simp] theorem Trail.behind_behind
    (first second : List Node)
    (trail : Trail) :
    (trail.behind second).behind first =
      trail.behind (first ++ second) := by
  simp [behind]

/- Whether a trail enters none of some nodes. -/
def Trail.Avoids
    (trail : Trail)
    (more : Finset Node) : Prop :=
  ∀ node ∈ trail.nodes, node ∉ more

instance
    (trail : Trail)
    (more : Finset Node) :
    Decidable (trail.Avoids more) :=
  inferInstanceAs (Decidable (∀ node ∈ trail.nodes, _))

/- In front of a trail, too, the nodes have to be avoided. -/
theorem Trail.avoids_behind_iff
    (node : Node)
    (trail : Trail)
    (more : Finset Node) :
    (trail.behind [node]).Avoids more ↔
      node ∉ more ∧ trail.Avoids more := by
  exact List.forall_mem_cons

namespace Code

/- The instructions that were not entered at a place. -/
def unpassed
    (code : Code)
    (passed : Finset Node)
    (place : Place) : Finset Nat :=
  (Finset.range code.size).filter
    fun index => (index, place) ∉ passed

/- To enter an instruction leaves fewer of them. -/
theorem card_unpassed_insert_lt
    {code : Code}
    {passed : Finset Node}
    {node next : Node}
    (hFresh : node ∉ passed)
    (hNext : next ∈ code.successors node) :
    (code.unpassed (insert node passed) node.2).card <
      (code.unpassed passed node.2).card := by
  rcases exists_of_mem_successors hNext with ⟨_, hCode, -⟩
  rcases Array.getElem?_eq_some_iff.mp hCode with ⟨hIndex, -⟩
  apply Finset.card_lt_card
  refine Finset.ssubset_iff_subset_ne.mpr ⟨?_, ?_⟩
  · intro index hMember
    simp only [unpassed, Finset.mem_filter,
      Finset.mem_insert, not_or] at hMember ⊢
    exact ⟨hMember.1, hMember.2.2⟩
  · intro hSame
    have hMember :
        node.1 ∈ code.unpassed passed node.2 := by
      simp [unpassed, hIndex, hFresh]
    rw [← hSame] at hMember
    simp [unpassed] at hMember

/-
  The trails from a node to an index where trails end, in
  order of preference. Nodes that were passed are not
  entered again.
-/
def trails
    (code : Code)
    (stop : Nat)
    (passed : Finset Node)
    (node : Node) : List Trail :=
  if node.1 = stop then [⟨[], node.2⟩]
  else if node ∈ passed then []
  else
    (code.successors node).attach.flatMap fun next =>
      (code.trails stop (insert node passed) next.1).map
        (.behind [node])
termination_by
  (node.2.rest.length, (code.unpassed passed node.2).card)
decreasing_by
  have hNext := next.2
  rcases isFrom_of_mem_successors hNext with hSame | hLess
  · rw [hSame]
    exact Prod.Lex.right _
      (card_unpassed_insert_lt ‹node ∉ passed› hNext)
  · exact Prod.Lex.left _ _ hLess

variable {code : Code}
variable {stop : Nat}
variable {passed more : Finset Node}
variable {node : Node}

/- A trail ends where it comes to the last index. -/
theorem trails_stop
    (hStop : node.1 = stop) :
    code.trails stop passed node = [⟨[], node.2⟩] := by
  rw [trails, if_pos hStop]

/- In particular it does so at once. -/
@[simp] theorem trails_self
    (code : Code)
    (stop : Nat)
    (passed : Finset Node)
    (place : Place) :
    code.trails stop passed (stop, place) =
      [⟨[], place⟩] :=
  trails_stop rfl

/- No trail enters a node that was passed. -/
theorem trails_of_mem
    (hStop : node.1 ≠ stop)
    (hPassed : node ∈ passed) :
    code.trails stop passed node = [] := by
  rw [trails, if_neg hStop, if_pos hPassed]

/- A trail that enters a node goes on behind it. -/
theorem trails_enter
    (hStop : node.1 ≠ stop)
    (hFresh : node ∉ passed) :
    code.trails stop passed node =
      (code.successors node).flatMap fun next =>
        (code.trails stop (insert node passed) next).map
          (.behind [node]) := by
  rw [trails, if_neg hStop, if_neg hFresh]
  simp only [List.flatMap_def, List.map_attach_eq_pmap,
    List.pmap_eq_map]

/-
  Induction along trails: they end, or meet a node that was
  passed, or enter a node and go on behind it.
-/
theorem trails_induction
    {motive : Finset Node → Node → Prop}
    (code : Code)
    (stop : Nat)
    (hStop :
      ∀ passed node, node.1 = stop → motive passed node)
    (hPassed :
      ∀ passed node, node.1 ≠ stop → node ∈ passed →
        motive passed node)
    (hEnter :
      ∀ passed node, node.1 ≠ stop → node ∉ passed →
        (∀ next ∈ code.successors node,
          motive (insert node passed) next) →
        motive passed node)
    (passed : Finset Node)
    (node : Node) :
    motive passed node := by
  induction passed, node using trails.induct code stop with
  | case1 passed node hEnd => exact hStop passed node hEnd
  | case2 passed node hEnd hMember =>
      exact hPassed passed node hEnd hMember
  | case3 passed node hEnd hFresh ih =>
      refine hEnter passed node hEnd hFresh ?_
      intro next hNext
      exact ih ⟨next, hNext⟩

/- The trails that need none of some nodes pass by them. -/
theorem trails_union
    (code : Code)
    (stop : Nat)
    (passed more : Finset Node)
    (node : Node) :
    code.trails stop (passed ∪ more) node =
      (code.trails stop passed node).filter
        (·.Avoids more) := by
  induction passed, node using trails_induction code stop with
  | hStop passed node hStop =>
      rw [trails_stop hStop, trails_stop hStop]
      simp [Trail.Avoids]
  | hPassed passed node hStop hPassed =>
      rw [trails_of_mem hStop hPassed,
        trails_of_mem hStop
          (Finset.mem_union_left more hPassed)]
      rfl
  | hEnter passed node hStop hFresh ih =>
      rw [trails_enter hStop hFresh, List.filter_flatMap]
      by_cases hMore : node ∈ more
      · rw [trails_of_mem hStop
          (Finset.mem_union_right passed hMore)]
        symm
        apply List.flatMap_eq_nil_iff.mpr
        intro next hNext
        simp [Trail.avoids_behind_iff, hMore]
      · have hUnion : node ∉ passed ∪ more := by
          simp [hFresh, hMore]
        rw [trails_enter hStop hUnion]
        apply List.flatMap_congr
        intro next hNext
        rw [← Finset.insert_union, ih next hNext,
          List.filter_map]
        simp [Trail.avoids_behind_iff, hMore,
          Function.comp_def]

/- Whoever passes by more nodes has fewer trails. -/
theorem mem_trails_union_iff
    {trail : Trail} :
    trail ∈ code.trails stop (passed ∪ more) node ↔
      trail ∈ code.trails stop passed node ∧
        trail.Avoids more := by
  rw [trails_union]
  simp

/- Nodes that no trail needs can be passed by. -/
theorem trails_union_of_avoids
    (hOther :
      ∀ trail ∈ code.trails stop passed node,
        trail.Avoids more) :
    code.trails stop (passed ∪ more) node =
      code.trails stop passed node := by
  rw [trails_union]
  apply List.filter_eq_self.mpr
  intro trail hTrail
  simpa using hOther trail hTrail

/- A trail is behind a node that it enters. -/
theorem exists_of_mem_trails
    (hStop : node.1 ≠ stop)
    {trail : Trail}
    (hTrail : trail ∈ code.trails stop passed node) :
    node ∉ passed ∧
      ∃ next ∈ code.successors node,
        ∃ rest ∈ code.trails stop (insert node passed) next,
          trail = rest.behind [node] := by
  by_cases hPassed : node ∈ passed
  · rw [trails_of_mem hStop hPassed] at hTrail
    cases hTrail
  · rw [trails_enter hStop hPassed] at hTrail
    rcases List.mem_flatMap.mp hTrail with
      ⟨next, hNext, hRest⟩
    rcases List.mem_map.mp hRest with ⟨rest, hBehind, rfl⟩
    exact ⟨hPassed, next, hNext, rest, hBehind, rfl⟩

/- A node on a trail has a trail of its own to the end. -/
theorem exists_trail_of_mem_nodes
    {trail : Trail}
    (hTrail : trail ∈ code.trails stop passed node)
    {other : Node}
    (hOther : other ∈ trail.nodes) :
    ∃ rest ∈ code.trails stop passed other,
      rest.last = trail.last := by
  induction passed, node using trails_induction code stop
    generalizing trail with
  | hStop passed node hStop =>
      rw [trails_stop hStop, List.mem_singleton] at hTrail
      simp [hTrail] at hOther
  | hPassed passed node hStop hPassed =>
      rw [trails_of_mem hStop hPassed] at hTrail
      cases hTrail
  | hEnter passed node hStop hFresh ih =>
      rcases exists_of_mem_trails hStop hTrail with
        ⟨-, next, hNext, rest, hRest, rfl⟩
      rcases List.mem_cons.mp hOther with rfl | hLater
      · exact ⟨_, hTrail, rfl⟩
      · rcases ih next hNext hRest hLater with
          ⟨own, hOwn, hLast⟩
        rw [← Finset.union_singleton] at hOwn
        exact ⟨own, (mem_trails_union_iff.mp hOwn).1, hLast⟩

/- Nothing is lost by passing a node without a trail. -/
theorem trails_insert_of_eq_nil
    {other : Node}
    (hNone : code.trails stop passed other = []) :
    code.trails stop (insert other passed) node =
      code.trails stop passed node := by
  rw [← Finset.union_singleton]
  apply trails_union_of_avoids
  intro trail hTrail met hMet hSame
  rw [Finset.mem_singleton.mp hSame] at hMet
  rcases exists_trail_of_mem_nodes hTrail hMet with
    ⟨rest, hRest, -⟩
  rw [hNone] at hRest
  cases hRest

/- The places on a trail are from each other in turn. -/
theorem isFrom_of_mem_nodes
    {trail : Trail}
    (hTrail : trail ∈ code.trails stop passed node)
    {other : Node}
    (hOther : other ∈ trail.nodes) :
    node.2.IsFrom other.2 := by
  induction passed, node using trails_induction code stop
    generalizing trail with
  | hStop passed node hStop =>
      rw [trails_stop hStop, List.mem_singleton] at hTrail
      simp [hTrail] at hOther
  | hPassed passed node hStop hPassed =>
      rw [trails_of_mem hStop hPassed] at hTrail
      cases hTrail
  | hEnter passed node hStop hFresh ih =>
      rcases exists_of_mem_trails hStop hTrail with
        ⟨-, next, hNext, rest, hRest, rfl⟩
      rcases List.mem_cons.mp hOther with rfl | hLater
      · exact .refl _
      · exact
          (isFrom_of_mem_successors hNext).trans
            (ih next hNext hRest hLater)

/- A trail ends at the place where it starts, or later. -/
theorem isFrom_last
    {trail : Trail}
    (hTrail : trail ∈ code.trails stop passed node) :
    node.2.IsFrom trail.last := by
  induction passed, node using trails_induction code stop
    generalizing trail with
  | hStop passed node hStop =>
      rw [trails_stop hStop, List.mem_singleton] at hTrail
      rw [hTrail]
      exact .refl _
  | hPassed passed node hStop hPassed =>
      rw [trails_of_mem hStop hPassed] at hTrail
      cases hTrail
  | hEnter passed node hStop hFresh ih =>
      rcases exists_of_mem_trails hStop hTrail with
        ⟨-, next, hNext, rest, hRest, rfl⟩
      have hLast : next.2.IsFrom rest.last :=
        ih next hNext hRest
      exact (isFrom_of_mem_successors hNext).trans hLast

/- Whether some trail from a node ends at a place. -/
def Ends
    (code : Code)
    (stop : Nat)
    (node : Node)
    (last : Place) : Prop :=
  ∃ trail ∈ code.trails stop ∅ node, trail.last = last

/- What was passed does not matter for where trails end. -/
theorem Ends.of_mem
    {trail : Trail}
    (hTrail : trail ∈ code.trails stop passed node) :
    code.Ends stop node trail.last := by
  rw [← Finset.empty_union passed] at hTrail
  exact ⟨trail, (mem_trails_union_iff.mp hTrail).1, rfl⟩

/- At the last index there is nothing left to do. -/
theorem ends_stop_iff
    (hStop : node.1 = stop)
    (last : Place) :
    code.Ends stop node last ↔ last = node.2 := by
  unfold Ends
  rw [trails_stop hStop]
  simp [eq_comm]

/-
  Trails from a node end where those behind it do: a trail
  that comes back to the node can be started there.
-/
theorem ends_iff
    (hStop : node.1 ≠ stop)
    (last : Place) :
    code.Ends stop node last ↔
      ∃ next ∈ code.successors node,
        code.Ends stop next last := by
  constructor
  · rintro ⟨trail, hTrail, rfl⟩
    rcases exists_of_mem_trails hStop hTrail with
      ⟨-, next, hNext, rest, hRest, rfl⟩
    have hEnds : code.Ends stop next rest.last :=
      .of_mem hRest
    exact ⟨next, hNext, hEnds⟩
  · rintro ⟨next, hNext, rest, hRest, rfl⟩
    by_cases hBack : node ∈ rest.nodes
    · exact exists_trail_of_mem_nodes hRest hBack
    · refine ⟨rest.behind [node], ?_, rfl⟩
      rw [trails_enter hStop (Finset.notMem_empty node)]
      apply List.mem_flatMap.mpr
      refine ⟨next, hNext, List.mem_map_of_mem ?_⟩
      rw [← Finset.union_singleton]
      apply mem_trails_union_iff.mpr
      refine ⟨hRest, ?_⟩
      intro other hOther hSame
      rw [Finset.mem_singleton.mp hSame] at hOther
      exact hBack hOther

end Code

end Regex

end RequestRouter

------------------------------------------------------------
-- Trails in a Part of the Code
------------------------------------------------------------

namespace RequestRouter

namespace Regex

/- Give every index on a trail another name. -/
def Trail.rename
    (move : Nat → Nat)
    (trail : Trail) : Trail :=
  ⟨trail.nodes.map fun node => (move node.1, node.2),
    trail.last⟩

namespace Instruction

/- Give every target another name. -/
def rename
    (move : Nat → Nat) : Instruction → Instruction
  | .char c next => .char c (move next)
  | .set chars next => .set chars (move next)
  | .assertion condition next =>
      .assertion condition (move next)
  | .save slot next => .save slot (move next)
  | .split targets => .split (targets.map move)
  | .accept => .accept

/- Successors are renamed like the targets. -/
theorem successors_rename
    (move : Nat → Nat)
    (place : Place)
    (instruction : Instruction) :
    (instruction.rename move).successors place =
      (instruction.successors place).map
        fun node => (move node.1, node.2) := by
  cases instruction <;>
    simp [rename, successors, Function.comp_def]

/- So are the targets themselves. -/
theorem targets_rename
    (move : Nat → Nat)
    (instruction : Instruction) :
    (instruction.rename move).targets =
      instruction.targets.map move := by
  cases instruction <;> rfl

/- To rename twice is to rename once. -/
theorem rename_rename
    (move other : Nat → Nat)
    (instruction : Instruction) :
    (instruction.rename move).rename other =
      instruction.rename (other ∘ move) := by
  cases instruction <;> simp [rename]

/- To keep every name is to keep the instruction. -/
@[simp] theorem rename_id :
    rename id = id := by
  funext instruction
  cases instruction <;> simp [rename]

end Instruction

namespace Code

variable {code : Code}
variable {inside : Nat → Prop}
variable {middle stop : Nat}
variable {passed : Finset Node}
variable {node : Node}

/-
  Whether a part of the code leads to itself, or to one
  index behind it.
-/
def IsConfined
    (code : Code)
    (inside : Nat → Prop)
    (stop : Nat) : Prop :=
  ∀ node next, inside node.1 →
    next ∈ code.successors node →
      inside next.1 ∨ next.1 = stop

/- A trail that ends behind a part stays inside it. -/
theorem IsConfined.inside_of_mem_nodes
    (hConfined : code.IsConfined inside stop)
    (hNode : inside node.1 ∨ node.1 = stop)
    {trail : Trail}
    (hTrail : trail ∈ code.trails stop passed node)
    {other : Node}
    (hOther : other ∈ trail.nodes) :
    inside other.1 := by
  induction passed, node using trails_induction code stop
    generalizing trail with
  | hStop passed node hStop =>
      rw [trails_stop hStop, List.mem_singleton] at hTrail
      simp [hTrail] at hOther
  | hPassed passed node hStop hPassed =>
      rw [trails_of_mem hStop hPassed] at hTrail
      cases hTrail
  | hEnter passed node hStop hFresh ih =>
      have hInside : inside node.1 :=
        hNode.resolve_right hStop
      rcases exists_of_mem_trails hStop hTrail with
        ⟨-, next, hNext, rest, hRest, rfl⟩
      rcases List.mem_cons.mp hOther with rfl | hLater
      · exact hInside
      · exact
          ih next hNext (hConfined node next hInside hNext)
            hRest hLater

/-
  A trail that leaves a part goes to its end and then on
  from there, without what was entered before.
-/
theorem IsConfined.trails_eq_flatMap
    (hConfined : code.IsConfined inside middle)
    (hMiddle : ¬ inside middle)
    (hStop : ¬ inside stop)
    (hNode : inside node.1 ∨ node.1 = middle) :
    code.trails stop passed node =
      (code.trails middle passed node).flatMap fun trail =>
        (code.trails stop (passed ∪ trail.nodes.toFinset)
          (middle, trail.last)).map
            (.behind trail.nodes) := by
  induction passed, node using trails_induction code middle with
  | hStop passed node hEnd =>
      subst hEnd
      simp [trails_stop]
  | hPassed passed node hEnd hPassed =>
      have hInside : inside node.1 :=
        hNode.resolve_right hEnd
      have hOther : node.1 ≠ stop := by
        intro hSame
        exact hStop (hSame ▸ hInside)
      rw [trails_of_mem hOther hPassed,
        trails_of_mem hEnd hPassed]
      rfl
  | hEnter passed node hEnd hFresh ih =>
      have hInside : inside node.1 :=
        hNode.resolve_right hEnd
      have hOther : node.1 ≠ stop := by
        intro hSame
        exact hStop (hSame ▸ hInside)
      rw [trails_enter hOther hFresh, trails_enter hEnd hFresh,
        List.flatMap_assoc]
      apply List.flatMap_congr
      intro next hNext
      rw [ih next hNext (hConfined node next hInside hNext)]
      have hNodes :
          ∀ trail : Trail,
            passed ∪ (trail.behind [node]).nodes.toFinset =
              insert node passed ∪ trail.nodes.toFinset := by
        intro trail
        simp [Trail.behind, Finset.union_insert,
          Finset.insert_union]
      simp only [List.map_flatMap, List.flatMap_map, hNodes,
        List.map_map, Function.comp_def, Trail.behind_behind]
      rfl

/- Where a part ends, one can go on from there. -/
theorem IsConfined.ends_trans
    (hConfined : code.IsConfined inside middle)
    (hStop : ¬ inside stop)
    (hNode : inside node.1 ∨ node.1 = middle)
    {place last : Place}
    (hFirst : code.Ends middle node place)
    (hRest : code.Ends stop (middle, place) last) :
    code.Ends stop node last := by
  rcases hFirst with ⟨trail, hTrail, rfl⟩
  generalize (∅ : Finset Node) = passed at hTrail
  induction passed, node using trails_induction code middle
    generalizing trail with
  | hStop passed node hEnd =>
      rw [trails_stop hEnd, List.mem_singleton] at hTrail
      rw [hTrail, ← hEnd] at hRest
      exact hRest
  | hPassed passed node hEnd hPassed =>
      rw [trails_of_mem hEnd hPassed] at hTrail
      cases hTrail
  | hEnter passed node hEnd hFresh ih =>
      have hInside : inside node.1 :=
        hNode.resolve_right hEnd
      have hOther : node.1 ≠ stop := by
        intro hSame
        exact hStop (hSame ▸ hInside)
      rcases exists_of_mem_trails hEnd hTrail with
        ⟨-, next, hNext, rest, hInner, rfl⟩
      exact
        (ends_iff hOther last).mpr
          ⟨next, hNext,
            ih next hNext (hConfined node next hInside hNext)
              rest hRest hInner⟩

/-
  A trail that has passed a gate meets no node in place that
  leads to the gate, unless it can lead there all along.
-/
theorem ends_of_mem_nodes
    {gate index : Nat}
    {place last : Place}
    (hGate : (gate, place) ∈ passed)
    (hNode : place.IsFrom node.2)
    {trail : Trail}
    (hTrail : trail ∈ code.trails stop passed node)
    (hMet : (index, place) ∈ trail.nodes)
    (hEnds : code.Ends gate (index, place) last) :
    code.Ends gate node last := by
  induction passed, node using trails_induction code stop
    generalizing trail with
  | hStop passed node hStop =>
      rw [trails_stop hStop, List.mem_singleton] at hTrail
      simp [hTrail] at hMet
  | hPassed passed node hStop hPassed =>
      rw [trails_of_mem hStop hPassed] at hTrail
      cases hTrail
  | hEnter passed node hStop hFresh ih =>
      have hBack : node.2.IsFrom place :=
        isFrom_of_mem_nodes hTrail hMet
      have hPlace : node.2 = place :=
        hNode.eq_of_length_le hBack.length_le
      rcases exists_of_mem_trails hStop hTrail with
        ⟨-, next, hNext, rest, hRest, rfl⟩
      rcases List.mem_cons.mp hMet with rfl | hLater
      · exact hEnds
      · have hOpen : node.1 ≠ gate := by
          rintro rfl
          rw [← hPlace] at hGate
          exact hFresh hGate
        have hOn : place.IsFrom next.2 :=
          hPlace ▸ isFrom_of_mem_successors hNext
        exact
          (ends_iff hOpen last).mpr
            ⟨next, hNext,
              ih next hNext (Finset.mem_insert_of_mem hGate)
                hOn hRest hLater⟩

/-
  What lies behind a part can be looked at by itself, if it
  does not lead back.
-/
theorem IsConfined.trails_eq_flatMap_of_disjoint
    (hConfined : code.IsConfined inside middle)
    {outside : Nat → Prop}
    (hBehind : code.IsConfined outside stop)
    (hDisjoint : ∀ index, inside index → ¬ outside index)
    (hMiddle : ¬ inside middle)
    (hStop : ¬ inside stop)
    (hNode : inside node.1 ∨ node.1 = middle)
    (hOn : outside middle ∨ middle = stop) :
    code.trails stop ∅ node =
      (code.trails middle ∅ node).flatMap fun trail =>
        (code.trails stop ∅ (middle, trail.last)).map
          (.behind trail.nodes) := by
  rw [hConfined.trails_eq_flatMap hMiddle hStop hNode]
  apply List.flatMap_congr
  intro trail hTrail
  rw [trails_union_of_avoids]
  intro rest hRest other hOther hMet
  have hInside : inside other.1 :=
    hConfined.inside_of_mem_nodes hNode hTrail
      (List.mem_toFinset.mp hMet)
  have hOutside : outside other.1 :=
    hBehind.inside_of_mem_nodes hOn hRest hOther
  exact hDisjoint other.1 hInside hOutside

/-
  A copy of a part has the same trails, with the names of
  the copy.
-/
theorem IsConfined.trails_rename
    (hConfined : code.IsConfined inside stop)
    {copy : Code}
    {move : Nat → Nat}
    (hCopy :
      ∀ index, inside index →
        copy[move index]? =
          code[index]?.map (.rename move))
    (hMove :
      ∀ first second, inside first →
        inside second ∨ second = stop →
          move first = move second → first = second)
    (hInside : ∀ other ∈ passed, inside other.1)
    (hStop : ¬ inside stop)
    (hNode : inside node.1 ∨ node.1 = stop) :
    copy.trails (move stop)
        (passed.image fun other => (move other.1, other.2))
        (move node.1, node.2) =
      (code.trails stop passed node).map
        (.rename move) := by
  induction passed, node using trails_induction code stop with
  | hStop passed node hEnd =>
      subst hEnd
      simp [trails_stop, Trail.rename]
  | hPassed passed node hEnd hPassed =>
      have hOwn : inside node.1 := hNode.resolve_right hEnd
      have hOther : move node.1 ≠ move stop := by
        intro hSame
        exact hEnd (hMove _ _ hOwn (.inr rfl) hSame)
      rw [trails_of_mem hEnd hPassed, trails_of_mem hOther]
      · rfl
      · exact Finset.mem_image_of_mem _ hPassed
  | hEnter passed node hEnd hFresh ih =>
      have hOwn : inside node.1 := hNode.resolve_right hEnd
      have hOther : move node.1 ≠ move stop := by
        intro hSame
        exact hEnd (hMove _ _ hOwn (.inr rfl) hSame)
      have hMoved :
          (move node.1, node.2) ∉
            passed.image fun other =>
              (move other.1, other.2) := by
        intro hMember
        rcases Finset.mem_image.mp hMember with
          ⟨other, hPassed, hSame⟩
        rw [Prod.mk.injEq] at hSame
        have hIndex : other.1 = node.1 :=
          hMove _ _ (hInside other hPassed) (.inl hOwn)
            hSame.1
        exact hFresh (Prod.ext hIndex hSame.2 ▸ hPassed)
      have hSuccessors :
          copy.successors (move node.1, node.2) =
            (code.successors node).map
              fun next => (move next.1, next.2) := by
        unfold successors
        dsimp only
        rw [hCopy node.1 hOwn]
        cases code[node.1]? with
        | none => rfl
        | some instruction =>
            exact
              Instruction.successors_rename move node.2
                instruction
      rw [trails_enter hOther hMoved, trails_enter hEnd hFresh,
        hSuccessors, List.flatMap_map, List.map_flatMap]
      apply List.flatMap_congr
      intro next hNext
      have hMore :
          ∀ other ∈ insert node passed, inside other.1 := by
        intro other hOther
        rcases Finset.mem_insert.mp hOther with rfl | hOld
        · exact hOwn
        · exact hInside other hOld
      have hRest :=
        ih next hNext hMore
          (hConfined node next hOwn hNext)
      rw [Finset.image_insert] at hRest
      rw [hRest, List.map_map, List.map_map]
      rfl

end Code

end Regex

end RequestRouter
