import RequestRouter.CommandLine.Commands
import RequestRouter.Proofs.Router.Serving

/-
  Checking a table predicts what matching does.

  Both commands look a request up in the router of the
  table, and differ in the request only. Since the request
  has no part in whether and how a router is served, the
  checked table serves every request, by the strategy that
  is told, or none. This holds for every engine and for
  whatever reads the table.

  Key definition:
    * `Served.basis`

  Main statements:
    * `map_basis_serve`
    * `runCheck_predicts`
-/

------------------------------------------------------------
-- Serving
------------------------------------------------------------

namespace RequestRouter

variable {E : Regex.Engine}
variable {codec : Codec}

/- The table that is served, and by which strategy. -/
def Served.basis
    (served : Served) : RouteTable × String :=
  (served.table, served.strategy)

namespace RouteTable

/- Routes that are added leave a router open. -/
theorem isOpen_addRoutes
    {router built : Router E Nat}
    (hOpen : router.IsOpen)
    {index : Nat}
    {routes : List RouteSpec}
    (hAdds :
      (addRoutes router index routes).value = .ok built) :
    built.IsOpen := by
  induction routes generalizing router index with
  | nil =>
      cases hAdds
      exact hOpen
  | cons spec rest ih =>
      rw [addRoutes, Traced.value_bind] at hAdds
      split at hAdds
      case h_1 next hNext =>
          exact ih (Router.isOpen_add hOpen hNext) hAdds
      case h_2 => cases hAdds

/- The router of a table is open. -/
theorem isOpen_buildRouter
    {table : RouteTable}
    {router : Router E Nat}
    (hBuilt : table.buildRouter.value = .ok router) :
    router.IsOpen := by
  unfold buildRouter at hBuilt
  split at hBuilt
  case h_1 => cases hBuilt
  case h_2 fresh hFresh =>
      exact
        isOpen_addRoutes (Router.isOpen_of_ofConfig hFresh)
          hBuilt

end RouteTable

/- A table is served by what serves its router. -/
theorem map_basis_serveTable
    (file method path : Text)
    (table : RouteTable) :
    (serveTable E file method path table).value.map
        Served.basis =
      match (table.buildRouter (E := E)).value with
      | .error error => .error (.build error)
      | .ok router =>
          match router.service method path with
          | .error error => .error (.serve file error)
          | .ok strategy => .ok (table, strategy) := by
  rw [serveTable, Traced.value_bind]
  cases (table.buildRouter (E := E)).value with
  | error error => rfl
  | ok router =>
      dsimp only
      rw [Traced.value_bind, Router.service]
      cases (router.lookup method path).value.1 <;> rfl

/- How a file is served does not depend on the request. -/
theorem map_basis_serve
    (E : Regex.Engine)
    (codec : Codec)
    (file : Text)
    (content : FileContent)
    (method path other target : Text) :
    (serve E codec file content method path).value.map
        Served.basis =
      (serve E codec file content other target).value.map
        Served.basis := by
  rw [serve, serve, Traced.value_bind, Traced.value_bind]
  cases (loadTable codec file content).value with
  | error error => rfl
  | ok table =>
      dsimp only
      rw [map_basis_serveTable, map_basis_serveTable]
      cases hBuilt : (table.buildRouter (E := E)).value with
      | error error => rfl
      | ok router =>
          dsimp only
          rw [Router.service_eq_service
            (RouteTable.isOpen_buildRouter hBuilt) method
            path other target]

variable {file : Text}
variable {content : FileContent}
variable {method path : Text}

/- A file that cannot be served fails every request. -/
theorem serve_eq_error
    {error : CommandError}
    (hServe :
      (serve E codec file content method path).value =
        .error error)
    (other target : Text) :
    (serve E codec file content other target).value =
      .error error := by
  have hBasis :=
    map_basis_serve E codec file content method path other target
  rw [hServe] at hBasis
  cases hOther :
      (serve E codec file content other target).value with
  | error twin =>
      rw [hOther] at hBasis
      cases hBasis
      rfl
  | ok served =>
      rw [hOther] at hBasis
      cases hBasis

/- A file that is served once is always served alike. -/
theorem exists_serve_eq_ok
    {served : Served}
    (hServe :
      (serve E codec file content method path).value =
        .ok served)
    (other target : Text) :
    ∃ twin,
      (serve E codec file content other target).value =
          .ok twin ∧
        twin.basis = served.basis := by
  have hBasis :=
    map_basis_serve E codec file content method path other target
  rw [hServe] at hBasis
  cases hOther :
      (serve E codec file content other target).value with
  | error error =>
      rw [hOther] at hBasis
      cases hBasis
  | ok twin =>
      rw [hOther] at hBasis
      exact ⟨twin, rfl, (Except.ok.inj hBasis).symm⟩

end RequestRouter

------------------------------------------------------------
-- Outcomes
------------------------------------------------------------

namespace RequestRouter

variable {E : Regex.Engine}
variable {codec : Codec}

/-
  Whether a run that matched a request tells a strategy: at
  last in its log, and in the record that it prints if JSON
  is asked for.
-/
structure Tells
    (codec : Codec)
    (strategy : String)
    (method path format : Text)
    (run : Traced Outcome) : Prop where
  logged :
    ∃ served : Served, served.strategy = strategy ∧
      run.events.getLast? =
        some (lookupCompleted method path served)
  printed :
    format = "json".toList →
      ∃ members,
        run.value.stdout =
            codec.pretty (.record members) ++ "\n" ∧
          members.lookup "strategy" = some (.text strategy)

/- A request that is served ends with or without a match. -/
theorem code_findOutcome
    (codec : Codec)
    (method path format : Text)
    (served : Served) :
    (findOutcome codec method path format
        served).code = 0 ∨
      (findOutcome codec method path format
        served).code = 2 := by
  unfold findOutcome
  dsimp only
  split
  · right
    split <;> rfl
  · left
    split <;> rfl

/- A request that is served ends as it is looked up. -/
theorem value_runFind
    {file : Text}
    {content : FileContent}
    {method path : Text}
    {served : Served}
    (hServe :
      (serve E codec file content method path).value =
        .ok served)
    (format : Text) :
    (runFind E codec file content method path format).value =
      findOutcome codec method path format served := by
  rw [runFind, Traced.value_bind, hServe]
  rfl

/- A request that is served tells by which strategy. -/
theorem tells_runFind
    {file : Text}
    {content : FileContent}
    {method path : Text}
    {served : Served}
    (hServe :
      (serve E codec file content method path).value =
        .ok served)
    (format : Text) :
    Tells codec served.strategy method path format
      (runFind E codec file content method path
        format) := by
  have hEvents :
      (runFind E codec file content method path
          format).events =
        (serve E codec file content method path).events ++
          [lookupCompleted method path served] := by
    rw [runFind, Traced.events_bind, hServe]
    rfl
  refine ⟨⟨served, rfl, ?_⟩, ?_⟩
  · rw [hEvents, List.getLast?_concat]
  · rintro rfl
    rw [value_runFind hServe, findOutcome]
    cases served.found with
    | none => exact ⟨_, rfl, rfl⟩
    | some found => exact ⟨_, rfl, rfl⟩

/-
  A check succeeds if every request is matched or missed,
  and then tells the strategy that serves each of them. If
  it fails, every request fails with the same report.
-/
theorem runCheck_predicts
    (E : Regex.Engine)
    (codec : Codec)
    (file : Text)
    (content : FileContent) :
    let check := (runCheck E codec file content).value
    let find := runFind E codec file content
    (check.code = 0 ↔
      ∀ method path format,
        (find method path format).value.code = 0 ∨
          (find method path format).value.code = 2) ∧
    (check.code = 0 →
      ∃ (routes : Nat) (strategy : String),
        check.stdout =
            String.ofList file ++ ": " ++ toString routes ++
              " route(s), strategy " ++ strategy ++ "\n" ∧
          ∀ method path format,
            Tells codec strategy method path format
              (find method path format)) ∧
    (check.code ≠ 0 →
      ∃ report,
        check = .failure report ∧
          ∀ method path format,
            (find method path format).value =
              .failure report) := by
  intro check find
  cases hServe :
      (serve E codec file content "GET".toList
        "/".toList).value with
  | error error =>
      have hCheck : check = .failure error.report := by
        simp only [check]
        rw [runCheck, Traced.value_bind, hServe]
        rfl
      have hFind : ∀ method path format,
          (find method path format).value =
            .failure error.report := by
        intro method path format
        simp only [find]
        rw [runFind, Traced.value_bind,
          serve_eq_error hServe method path]
        rfl
      refine ⟨?_, ?_, fun _ => ⟨_, hCheck, hFind⟩⟩
      · simp [hCheck, hFind, Outcome.failure]
      · simp [hCheck, Outcome.failure]
  | ok served =>
      have hCheck : check = checkOutcome file served := by
        simp only [check]
        rw [runCheck, Traced.value_bind, hServe]
        rfl
      have hCode : check.code = 0 := by
        rw [hCheck]
        rfl
      refine ⟨iff_of_true hCode ?_, ?_, absurd hCode⟩
      · intro method path format
        rcases exists_serve_eq_ok hServe method path with
          ⟨twin, hTwin, -⟩
        simp only [find]
        rw [value_runFind hTwin]
        exact
          code_findOutcome codec method path format twin
      · intro _
        refine
          ⟨served.table.routes.length, served.strategy, ?_,
            ?_⟩
        · rw [hCheck]
          rfl
        · intro method path format
          rcases exists_serve_eq_ok hServe method path with
            ⟨twin, hTwin, hBasis⟩
          have hStrategy :
              twin.strategy = served.strategy :=
            congrArg Prod.snd hBasis
          rw [← hStrategy]
          exact tells_runFind hTwin format

/- A file with a table of one route. -/
def oneRoute
    (path : String) : FileContent :=
  .ok
    ("routes:\n- method: GET\n  path: " ++ path ++
      "\n  handler: h\n").toList

/- One such table serves, the other fails every request. -/
theorem runCheck_predicts_both :
    let E := Regex.treeEngine
    let good := oneRoute "/a"
    let bad := oneRoute "/:a/:a"
    (runCheck E .standard ['f'] good).value.code = 0 ∧
      (∀ method path format,
        ∃ strategy,
          Tells .standard strategy method path format
            (runFind E .standard ['f'] good method path
              format)) ∧
      (runCheck E .standard ['f'] bad).value.code = 1 ∧
      ∀ method path format,
        (runFind E .standard ['f'] bad method path
          format).value.code = 1 := by
  intro E good bad
  have hGood :
      (runCheck E .standard ['f'] good).value.code = 0 := by
    decide +kernel
  have hBad :
      (runCheck E .standard ['f'] bad).value.code = 1 := by
    decide +kernel
  rcases runCheck_predicts E .standard ['f'] good with
    ⟨-, hServed, -⟩
  rcases runCheck_predicts E .standard ['f'] bad with
    ⟨-, -, hRefused⟩
  rcases hServed hGood with ⟨routes, strategy, -, hTells⟩
  rcases hRefused (by simp [hBad]) with ⟨report, -, hFind⟩
  refine
    ⟨hGood, fun _ _ _ => ⟨strategy, hTells _ _ _⟩, hBad, ?_⟩
  intro method path format
  rw [hFind]
  rfl

end RequestRouter
