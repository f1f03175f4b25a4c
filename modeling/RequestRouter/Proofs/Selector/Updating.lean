import RequestRouter.Proofs.LinearScan.Agreement
import RequestRouter.Proofs.Selector.Choice

/-
  Registering in place.

  A matcher is changed step by step: variants are read one
  after the other, and what they are made into is attached
  where it belongs. An error ends a registration wherever it
  has got to, and what was done by then stays done. But every
  matcher reads all variants before it attaches anything, and
  attaching does not fail. So a registration that is refused
  leaves the matcher as it was, and a run goes on as if it
  had not been asked for.

  Key definitions include:
    * `Update.settle`
    * `Matcher.register`
    * `Matcher.carryOut`
    * `Matcher.carryAll`

  Main statements:
    * `Matcher.run_register`
    * `Matcher.carryOut_of_isRefused`
    * `Matcher.carryAll_kept`
-/

------------------------------------------------------------
-- Updates
------------------------------------------------------------

namespace RequestRouter

/-
  A procedure that updates a state in place. An error comes
  with the state that it leaves behind.
-/
abbrev Update (σ : Type) :=
  EStateM RouteError σ

namespace Update

variable {σ τ : Type}
variable {α β : Type}

/- Go on with a value, or end with an error. -/
def check
    (result : Except RouteError α) : Update σ α :=
  match result with
  | .ok value => return value
  | .error error => throw error

/- What a step gives that leaves the state alone. -/
def leaving
    (state : σ)
    (result : Except RouteError α) :
    EStateM.Result RouteError σ α :=
  match result with
  | .ok value => .ok value state
  | .error error => .error error state

/- The new state if there is one, and else the old one. -/
def settle
    (state : σ)
    (result : Except RouteError σ) :
    EStateM.Result RouteError σ Unit :=
  match result with
  | .ok next => .ok () next
  | .error error => .error error state

/- Update a part of a state. -/
def within
    (wrap : σ → τ)
    (update : Update σ α)
    (state : σ) : EStateM.Result RouteError τ α :=
  match update.run state with
  | .ok value next => .ok value (wrap next)
  | .error error next => .error error (wrap next)

/- A check leaves the state alone. -/
theorem run_check
    (result : Except RouteError α)
    (state : σ) :
    (check result).run state = leaving state result := by
  cases result <;> rfl

/- So does a loop of steps that do, up to a first error. -/
theorem run_mapM
    {step : α → Update σ β}
    {read : α → Except RouteError β}
    (hStep :
      ∀ item state,
        (step item).run state = leaving state (read item))
    (items : List α)
    (state : σ) :
    (items.mapM step).run state =
      leaving state (items.mapM read) := by
  induction items with
  | nil => rfl
  | cons item rest ih =>
      rw [List.mapM_cons, List.mapM_cons, EStateM.run_bind,
        hStep]
      cases read item with
      | error error => rfl
      | ok value =>
          dsimp only [leaving]
          rw [EStateM.run_bind, ih]
          cases rest.mapM read <;> rfl

/- So does a loop that only goes through a list. -/
theorem run_forM
    {step : α → Update σ Unit}
    {read : α → Except RouteError Unit}
    (hStep :
      ∀ item state,
        (step item).run state = leaving state (read item))
    (items : List α)
    (state : σ) :
    (items.forM step).run state =
      leaving state (items.forM read) := by
  induction items with
  | nil => rfl
  | cons item rest ih =>
      rw [List.forM, List.forM, EStateM.run_bind, hStep]
      cases read item with
      | error error => rfl
      | ok passed => exact ih

/- A loop of changes does not fail. -/
theorem run_forM_modify
    (change : α → σ → σ)
    (items : List α)
    (state : σ) :
    (items.forM fun item =>
        (modify (change item) : Update σ Unit)).run state =
      .ok ()
        (items.foldl (fun state item => change item state)
          state) := by
  induction items generalizing state with
  | nil => rfl
  | cons item rest ih =>
      exact ih (change item state)

/- Settling a part of a state is settling the state. -/
theorem within_settle
    {wrap : σ → τ}
    {update : Update σ Unit}
    {state : σ}
    {result : Except RouteError σ}
    (hRun : update.run state = settle state result) :
    within wrap update state =
      settle (wrap state) (result.map wrap) := by
  rw [within, hRun]
  cases result <;> rfl

end Update

end RequestRouter

------------------------------------------------------------
-- Registering with Strategies
------------------------------------------------------------

namespace RequestRouter

open Update

variable {E : Regex.Engine}
variable {H : Type}

namespace Compiled

/-
  A matcher that has been built ends at once. Otherwise all
  variants are read, and the route is put behind the others.
-/
def register
    (registration : Registration H) :
    Update (Compiled E H) Unit := do
  if (← get).built.isSome then
    throw .alreadyBuilt
  let variants ←
    (Path.variants registration.path).mapM fun variant => do
      let patterns ← check (Pattern.parsePath variant)
      return (variant, patterns)
  modify fun matcher =>
    { matcher with
      routes := matcher.routes ++
        [⟨registration.method, registration.handler,
          variants⟩] }

/- A registration is taken, or nothing is changed. -/
theorem run_register
    (registration : Registration H)
    (matcher : Compiled E H) :
    (register registration).run matcher =
      settle matcher (matcher.add registration) := by
  have hRead : ∀ variant (state : Compiled E H),
      EStateM.run
          (do
            let patterns : List (Pattern E) ←
              check (Pattern.parsePath variant)
            return (variant, patterns))
          state =
        leaving state
          (do
            let patterns ← Pattern.parsePath variant
            .ok (variant, patterns)) := by
    intro variant state
    rw [EStateM.run_bind, run_check]
    cases Pattern.parsePath (E := E) variant <;> rfl
  rw [register, EStateM.run_bind, EStateM.run_get]
  dsimp only
  rw [add]
  split
  case isTrue => rfl
  case isFalse =>
      rw [EStateM.run_bind, run_mapM hRead]
      unfold ParsedRoute.ofRegistration
      cases
        (Path.variants registration.path).mapM fun variant => do
          let patterns : List (Pattern E) ←
            Pattern.parsePath variant
          Except.ok (variant, patterns) <;>
        rfl

end Compiled

namespace Trie

/-
  All variants are read. Then the handler gets its score, and
  the score is attached for one variant after the other.
-/
def register
    (registration : Registration H) :
    Update (Trie E H) Unit := do
  let variants ←
    (Path.variants registration.path).mapM fun variant =>
      check (Pattern.parsePath variant)
  let score := (← get).size
  modify fun trie =>
    { trie with
      handlers := trie.handlers ++ [registration.handler] }
  variants.forM fun patterns =>
    modify fun trie =>
      { trie with
        root :=
          trie.root.attach registration.method score
            patterns }

/- A registration is taken, or nothing is changed. -/
theorem run_register
    (registration : Registration H)
    (trie : Trie E H) :
    (register registration).run trie =
      settle trie (trie.add registration) := by
  rw [register, EStateM.run_bind,
    run_mapM fun variant state =>
      run_check (Pattern.parsePath variant) state]
  rw [add]
  cases
    (Path.variants registration.path).mapM
      (Pattern.parsePath (E := E)) with
  | error error => rfl
  | ok variants =>
      dsimp only [leaving]
      rw [EStateM.run_bind, EStateM.run_get]
      dsimp only
      rw [EStateM.run_bind, EStateM.run_modify]
      refine (run_forM_modify _ variants _).trans ?_
      -- Attaching changes the root only.
      refine congrArg (EStateM.Result.ok ()) ?_
      exact
        List.foldl_hom
          (fun root : TrieNode E =>
            (⟨root, trie.handlers ++ [registration.handler]⟩ :
              Trie E H))
          fun _ _ => rfl

end Trie

namespace LinearScan

/- Read and compile one variant. -/
def prepare
    (path : Text) :
    Update (LinearScan E H) (ScanVariant E) := do
  let patterns ← check (Pattern.parsePath path)
  let source := ScanSource.ofPatterns (E := E) patterns
  match E.compile source.source with
  | .ok program => return ⟨program, source.params⟩
  | .error _ => throw (.unsupportedPath path)

/-
  All variants are read and compiled, and the route is put
  behind the others.
-/
def register
    (registration : Registration H) :
    Update (LinearScan E H) Unit := do
  let variants ←
    (Path.variants registration.path).mapM prepare
  modify fun scan =>
    ⟨scan.routes ++
      [⟨registration.method, registration.handler,
        variants⟩]⟩

/- A variant is compiled, with the error of a fault. -/
theorem run_prepare
    (path : Text)
    (scan : LinearScan E H) :
    (prepare path).run scan =
      leaving scan
        ((ScanVariant.compile path).mapError
          ScanFault.error) := by
  rw [prepare, EStateM.run_bind, run_check,
    ScanVariant.compile]
  cases Pattern.parsePath (E := E) path with
  | error error => rfl
  | ok patterns =>
      dsimp only [leaving]
      cases
        E.compile (ScanSource.ofPatterns patterns).source <;>
          rfl

/- A registration is taken, or nothing is changed. -/
theorem run_register
    (registration : Registration H)
    (scan : LinearScan E H) :
    (register registration).run scan =
      settle scan
        ((scan.add registration).mapError
          ScanFault.error) := by
  rw [register, EStateM.run_bind, run_mapM run_prepare,
    Sequence.mapM_mapError, add]
  cases
    (Path.variants registration.path).mapM
      (ScanVariant.compile (E := E)) <;>
    rfl

end LinearScan

namespace LiteralTable

/- The path is read, and has to be literal. -/
def register
    (E : Regex.Engine)
    (registration : Registration H) :
    Update (LiteralTable H) Unit := do
  let patterns : List (Pattern E) ←
    check (Pattern.parsePath registration.path)
  if Pattern.anyDynamic patterns then
    throw (.unsupportedPath registration.path)
  modify fun table => ⟨table.entries ++ [registration]⟩

/- A registration is taken, or nothing is changed. -/
theorem run_register
    (registration : Registration H)
    (table : LiteralTable H) :
    (register E registration).run table =
      settle table (table.add E registration) := by
  rw [register, EStateM.run_bind, run_check, add]
  cases Pattern.parsePath (E := E) registration.path with
  | error error => rfl
  | ok patterns =>
      dsimp only [leaving, bind, Except.bind]
      cases Pattern.anyDynamic patterns <;> rfl

end LiteralTable

end RequestRouter

------------------------------------------------------------
-- Registering with Matchers
------------------------------------------------------------

namespace RequestRouter

open Update

variable {E : Regex.Engine}
variable {H : Type}

namespace Matcher

/-
  All variants are read, and the registration is put behind
  those that wait for a choice.
-/
def postpone
    (E : Regex.Engine)
    (registration : Registration H) :
    Update (List (Registration H)) Unit := do
  (Path.variants registration.path).forM fun variant => do
    let _ : List (Pattern E) ←
      check (Pattern.parsePath variant)
  modify (· ++ [registration])

/- Register a handler in place. -/
def register
    (registration : Registration H) :
    Update (Matcher E H) Unit
  | .compiled own =>
      within .compiled (Compiled.register registration) own
  | .trie own =>
      within .trie (Trie.register registration) own
  | .linear own =>
      within .linear (LinearScan.register registration) own
  | .static own =>
      within .static (LiteralTable.register E registration)
        own
  | .pending candidates routes =>
      within (.pending candidates) (postpone E registration)
        routes
  | .chosen own => .error .alreadyBuilt (.chosen own)
  | .failed error => .error .alreadyBuilt (.failed error)

/- A registration waits, or nothing is changed. -/
theorem run_postpone
    (registration : Registration H)
    (routes : List (Registration H)) :
    (postpone E registration).run routes =
      settle routes
        ((checkPath E registration.path).map fun _ =>
          routes ++ [registration]) := by
  have hRead : ∀ variant (state : List (Registration H)),
      EStateM.run
          (do
            let _ : List (Pattern E) ←
              check (Pattern.parsePath variant))
          state =
        leaving state
          (do
            let _ : List (Pattern E) ←
              Pattern.parsePath variant
            .ok ()) := by
    intro variant state
    rw [EStateM.run_bind, run_check]
    cases Pattern.parsePath (E := E) variant <;> rfl
  rw [postpone, EStateM.run_bind, run_forM hRead, checkPath]
  cases
    (Path.variants registration.path).forM fun variant => do
      let _ : List (Pattern E) ← Pattern.parsePath variant
      Except.ok () <;>
    rfl

/- A registration is taken, or nothing is changed. -/
theorem run_register
    (registration : Registration H)
    (matcher : Matcher E H) :
    (register registration).run matcher =
      settle matcher (matcher.add registration).value := by
  cases matcher with
  | chosen | failed => rfl
  | compiled own =>
      exact within_settle (Compiled.run_register _ own)
  | trie own => exact within_settle (Trie.run_register _ own)
  | static own =>
      exact within_settle (LiteralTable.run_register _ own)
  | linear own =>
      refine
        (within_settle
          (LinearScan.run_register _ own)).trans ?_
      rw [add]
      cases own.add registration <;> rfl
  | pending candidates routes =>
      refine
        (within_settle
          (run_postpone registration routes)).trans ?_
      rw [add]
      cases checkPath E registration.path <;> rfl

/- Carry out one call, in place. -/
def carryOut
    (matcher : Matcher E H) :
    Call H → Answer H × Matcher E H
  | .add registration =>
      match (register registration).run matcher with
      | .ok _ next => (.added (.ok ()), next)
      | .error error next => (.added (.error error), next)
  | .lookup method path =>
      let outcome := (matcher.lookup method path).value
      (.found outcome.1, outcome.2)

/- Carry out a run of calls, one after the other. -/
def carryAll
    (matcher : Matcher E H) :
    List (Call H) → List (Answer H) × Matcher E H
  | [] => ([], matcher)
  | call :: rest =>
      let first := matcher.carryOut call
      let others := first.2.carryAll rest
      (first.1 :: others.1, others.2)

/- A call is carried out as it is said to be performed. -/
theorem carryOut_eq_perform
    (matcher : Matcher E H)
    (call : Call H) :
    matcher.carryOut call = matcher.perform call := by
  cases call with
  | lookup method path => rfl
  | add registration =>
      rw [carryOut, run_register, perform]
      cases (matcher.add registration).value <;> rfl

end Matcher

end RequestRouter

------------------------------------------------------------
-- Refused Registrations
------------------------------------------------------------

namespace RequestRouter

open Update

variable {E : Regex.Engine}
variable {H : Type}

namespace Answer

/- Whether an answer refuses a registration. -/
def isRefused : Answer H → Bool
  | .added (.error _) => true
  | _ => false

end Answer

namespace Matcher

/- Whether a matcher reads the variants of paths. -/
def readsVariants : Matcher E H → Bool
  | .static _ => false
  | _ => true

/- A refused registration leaves the matcher as it was. -/
theorem carryOut_of_isRefused
    {matcher : Matcher E H}
    {call : Call H}
    (hRefused : (matcher.carryOut call).1.isRefused = true) :
    (matcher.carryOut call).2 = matcher := by
  rw [carryOut_eq_perform] at hRefused ⊢
  cases call with
  | lookup method path => cases hRefused
  | add registration =>
      rcases matcher.perform_add registration with
        ⟨next, -, hPerform⟩ | ⟨error, hPerform⟩
      · rw [hPerform] at hRefused
        cases hRefused
      · rw [hPerform]

/- All variants of a registration that is taken are read. -/
theorem Adds.exists_patterns
    {registration : Registration H}
    {matcher next : Matcher E H}
    (hAdds : Adds registration matcher next)
    (hReads : matcher.readsVariants = true)
    {variant : Text}
    (hVariant : variant ∈ Path.variants registration.path) :
    ∃ patterns : List (Pattern E),
      Pattern.parsePath variant = .ok patterns := by
  cases hAdds with
  | static => cases hReads
  | pending hPath =>
      exact (checkPath_eq_ok_iff _).mp hPath variant hVariant
  | trie hOwn =>
      rcases (Sequence.bind_eq_ok_iff _ _ _).mp hOwn with
        ⟨variants, hVariants, -⟩
      rcases Sequence.exists_of_mem_items hVariants hVariant
        with ⟨patterns, -, hParse⟩
      exact ⟨patterns, hParse⟩
  | linear hOwn =>
      rcases (Sequence.bind_eq_ok_iff _ _ _).mp hOwn with
        ⟨variants, hVariants, -⟩
      rcases Sequence.exists_of_mem_items hVariants hVariant
        with ⟨compiled, -, hCompile⟩
      rcases ScanVariant.exists_of_compile hCompile with
        ⟨patterns, hParse, -, -⟩
      exact ⟨patterns, hParse⟩
  | compiled hOwn =>
      unfold Compiled.add at hOwn
      split at hOwn
      case isTrue => cases hOwn
      case isFalse =>
          rcases (Sequence.bind_eq_ok_iff _ _ _).mp hOwn with
            ⟨route, hRoute, -⟩
          have hAll :=
            (ParsedRoute.forall₂_of_ofRegistration hRoute).2.2
          rcases Sequence.exists_of_mem_left hAll hVariant with
            ⟨entry, -, -, hParse⟩
          exact ⟨entry.2, hParse⟩

/-
  A path with a variant that is not read, be it the last, is
  refused.
-/
theorem isRefused_of_not_read
    {matcher : Matcher E H}
    (hReads : matcher.readsVariants = true)
    {registration : Registration H}
    {variant : Text}
    (hVariant : variant ∈ Path.variants registration.path)
    (hParse :
      (Pattern.parsePath (E := E) variant).isOk = false) :
    (matcher.carryOut (.add registration)).1.isRefused =
      true := by
  rw [carryOut_eq_perform]
  rcases matcher.perform_add registration with
    ⟨next, hAdd, -⟩ | ⟨error, hRefused⟩
  · rcases
        (adds_of_add hAdd).exists_patterns hReads hVariant with
      ⟨patterns, hPatterns⟩
    rw [hPatterns] at hParse
    cases hParse
  · rw [hRefused]
    rfl

/- The calls that are not refused, with their answers. -/
def kept
    (matcher : Matcher E H)
    (calls : List (Call H)) : List (Call H × Answer H) :=
  (calls.zip (matcher.carryAll calls).1).filter
    (!·.2.isRefused)

/- The first call is kept, unless it is refused. -/
theorem kept_cons
    (matcher : Matcher E H)
    (call : Call H)
    (rest : List (Call H)) :
    matcher.kept (call :: rest) =
      if (matcher.carryOut call).1.isRefused then
        (matcher.carryOut call).2.kept rest
      else
        (call, (matcher.carryOut call).1) ::
          (matcher.carryOut call).2.kept rest := by
  rw [kept, carryAll, List.zip_cons_cons, List.filter_cons]
  cases (matcher.carryOut call).1.isRefused <;> rfl

/-
  A refused registration leaves no trace. Without those that
  are refused, a run has the answers that its other calls
  have with them, and ends with the same matcher. What is
  refused leaves the matcher as it is, and this goes for a
  path as a whole if one of its variants cannot be read.
-/
theorem carryAll_kept
    (matcher : Matcher E H) :
    (∀ calls,
      matcher.carryAll ((matcher.kept calls).map Prod.fst) =
        ((matcher.kept calls).map Prod.snd,
          (matcher.carryAll calls).2)) ∧
      (∀ call,
        (matcher.carryOut call).1.isRefused = true →
          (matcher.carryOut call).2 = matcher) ∧
      (matcher.readsVariants = true →
        ∀ registration,
          ∀ variant ∈ Path.variants registration.path,
            (Pattern.parsePath (E := E) variant).isOk =
                false →
              (matcher.carryOut
                (.add registration)).1.isRefused = true) := by
  refine ⟨fun calls => ?_, ?_, ?_⟩
  · induction calls generalizing matcher with
    | nil => rfl
    | cons call rest ih =>
        rw [kept_cons]
        split
        case isTrue hRefused =>
            rw [carryAll, carryOut_of_isRefused hRefused]
            exact ih matcher
        case isFalse =>
            rw [List.map_cons, List.map_cons, carryAll, ih]
            rfl
  · exact fun call hRefused => carryOut_of_isRefused hRefused
  · intro hReads registration variant hVariant hParse
    exact isRefused_of_not_read hReads hVariant hParse

/- A path whose second variant binds a name twice. -/
def repeating : Registration Nat :=
  ⟨['G'], ['/', ':', 'b', '/', ':', 'b', '?'], 1⟩

/- A trie with a route refuses it, and keeps just the route. -/
theorem carryAll_kept_repeating :
    let trie : Matcher Regex.treeEngine Nat :=
      (Blueprint.plain .trie).fresh.after
        [.add ⟨['G'], ['/', 'a'], 0⟩]
    (trie.carryOut (.add repeating)).1.isRefused = true ∧
      (trie.carryOut (.add repeating)).2 = trie := by
  intro trie
  have hVariant :
      ['/', ':', 'b', '/', ':', 'b'] ∈
        Path.variants repeating.path := by
    decide
  have hParse :
      (Pattern.parsePath (E := Regex.treeEngine)
        ['/', ':', 'b', '/', ':', 'b']).isOk = false := by
    decide +kernel
  have hReads : trie.readsVariants = true := by
    decide +kernel
  rcases carryAll_kept trie with ⟨-, hLeft, hRefused⟩
  have hOwn :=
    hRefused hReads repeating _ hVariant hParse
  exact ⟨hOwn, hLeft _ hOwn⟩

end Matcher

end RequestRouter
