import RequestRouter.Compiled.Plan
import RequestRouter.Event

/-
  The combined expression of one method, ready to answer
  lookups.

  Key definitions include:
    * `MethodProgram`
    * `MethodProgram.build`
    * `MethodProgram.find`
-/

------------------------------------------------------------
-- Programs of Methods
------------------------------------------------------------

namespace RequestRouter

variable (E : Regex.Engine)
variable (H : Type)

/- What a dynamic leaf answers: handlers, and name groups. -/
structure DynamicLeaf where
  handlers : List H
  params : List (Text × Nat)

/- The compiled tree of a method with its group tables. -/
structure DynamicTable where
  program : E.Program
  leafGroups : List (Nat × Nat)
  leaves : List (DynamicLeaf H)

/-
  All that a method's lookups need: a table of literal
  paths, and one program for the other paths if there are
  any.
-/
structure MethodProgram where
  statics : List (Text × List H)
  dynamics : Option (DynamicTable E H)

variable {E H}

namespace DynamicTable

/- The table of a plan's dynamic leaves. -/
def ofPlan
    (program : E.Program)
    (emission : Emission)
    (dynamics : List (Leaf H × List Nat)) :
    DynamicTable E H :=
  ⟨program, emission.leafGroups,
    dynamics.map fun (leaf, trail) =>
      ⟨leaf.handlers,
        leaf.paramGroups emission.captureGroups trail⟩⟩

/-
  Match a path against the program. The leaf is the first
  whose marker took part.
-/
def find
    (table : DynamicTable E H)
    (path : Text) : Option (Match H) := do
  let captures ← E.find table.program path
  let (_, index) ←
    table.leafGroups.find? fun (group, _) =>
      (captures.group? group).isSome
  let leaf ← table.leaves[index]?
  some
    ⟨leaf.handlers,
      .ofList <| leaf.params.filterMap fun (name, group) =>
        (captures.group? group).map (name, ·)⟩

end DynamicTable

end RequestRouter

------------------------------------------------------------
-- Building
------------------------------------------------------------

namespace RequestRouter

variable {E : Regex.Engine}
variable {H : Type}

namespace MethodProgram

/- The event that reports a built table. -/
def builtEvent
    (method : Text)
    (sizes : List (String × FieldValue)) : Event :=
  ⟨.debug, "switchyard_router::regexp",
    some "compiled route table",
    ("method", .text (String.ofList method)) :: sizes⟩

/- The event that reports a refused expression. -/
def rejectedEvent
    (method : Text)
    (reason : Regex.Fault) : Event :=
  ⟨.debug, "switchyard_router::regexp",
    some "combined route regex rejected",
    [("method", .text (String.ofList method)),
      ("error", .text reason.message)]⟩

/- The literal paths of a plan with their handlers. -/
def staticsOf
    (plan : Plan H) : List (Text × List H) :=
  plan.statics.map fun leaf => (leaf.path, leaf.handlers)

/- Compile the plan of a method. -/
def ofPlan
    (method : Text)
    (plan : Plan H) :
    Traced (Except RouteError (MethodProgram E H)) :=
  let statics := staticsOf plan
  let staticSize :=
    ("static_paths", FieldValue.count statics.length)
  match plan.dynamics with
  | [] =>
      ⟨[builtEvent method [staticSize]],
        .ok ⟨statics, none⟩⟩
  | (leaf, trail) :: others =>
      let emission := plan.tree.flatten
      match E.compile emission.source with
      | .error reason =>
          ⟨[rejectedEvent method reason],
            .error (.unsupportedPath leaf.path)⟩
      | .ok program =>
          let dynamics := (leaf, trail) :: others
          let bytes :=
            (String.ofList emission.source).utf8ByteSize
          ⟨[builtEvent method
            [staticSize,
              ("dynamic_paths", .count dynamics.length),
              ("regex_len", .count bytes)]],
            .ok ⟨statics,
              some (.ofPlan program emission dynamics)⟩⟩

/- Build the program of a method. -/
def build
    (routes : List (ParsedRoute E H))
    (method : Text) :
    Traced (Except RouteError (MethodProgram E H)) :=
  match Plan.ofRoutes routes method with
  | .error error => .silent (.error error)
  | .ok plan => ofPlan method plan

/- Find the routes for a path; literal paths come first. -/
def find
    (program : MethodProgram E H)
    (path : Text) : Option (Match H) :=
  match program.statics.lookup path with
  | some handlers => some ⟨handlers, .empty⟩
  | none => program.dynamics.bind (·.find path)

end MethodProgram

end RequestRouter
