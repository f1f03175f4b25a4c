import RequestRouter.CommandLine.Arguments
import RequestRouter.CommandLine.Codec
import RequestRouter.CommandLine.Outcome

/-
  The commands, as functions of what is in the file with the
  route table.

  Matching a request and checking a table both look a
  request up in the router of the table, in `serve`.

  Key definitions include:
    * `Served`
    * `serve`
    * `runFind`
    * `runCheck`
    * `runList`
    * `Command.run`
-/

------------------------------------------------------------
-- Loading and Serving
------------------------------------------------------------

namespace RequestRouter

/- The content of a file, or why it has none. -/
abbrev FileContent :=
  Except ReadError Text

/- The event of a table that was read. -/
def routesLoaded
    (file : Text)
    (table : RouteTable) : Event :=
  { level := .info
    target := "switchyard"
    message := none
    fields := [
      ("event", .text "routes_loaded"),
      ("file", .text (String.ofList file)),
      ("routes", .count table.routes.length)] }

/- The table in a file. -/
def loadTable
    (codec : Codec)
    (file : Text)
    (content : FileContent) :
    Traced (Except CommandError RouteTable) :=
  match content with
  | .error error => Traced.silent (.error (.read file error))
  | .ok text =>
      match codec.decode text with
      | .error reason =>
          Traced.silent (.error (.decode file reason))
      | .ok table => do
          Traced.emit (routesLoaded file table)
          return .ok table

/-
  A table whose router has answered a request: the strategy
  that serves it, and the answer.
-/
structure Served where
  table : RouteTable
  strategy : String
  found : Option (Match Nat)

variable (E : Regex.Engine)

/- Look up a request in the router of a table. -/
def serveTable
    (file method path : Text)
    (table : RouteTable) :
    Traced (Except CommandError Served) := do
  let built : Except BuildError (Router E Nat) ←
    table.buildRouter
  match built with
  | .error error => return .error (.build error)
  | .ok router =>
      let (reply, router) ← router.lookup method path
      match reply with
      | .error error => return .error (.serve file error)
      | .ok found =>
          return .ok
            { table
              strategy := router.strategy?.getD router.name
              found }

/- Look up a request in the router of a file's table. -/
def serve
    (codec : Codec)
    (file : Text)
    (content : FileContent)
    (method path : Text) :
    Traced (Except CommandError Served) := do
  match ← loadTable codec file content with
  | .error error => return .error error
  | .ok table => serveTable E file method path table

end RequestRouter

------------------------------------------------------------
-- Matching
------------------------------------------------------------

namespace RequestRouter

/- The event of a request that was looked up. -/
def lookupCompleted
    (method path : Text)
    (served : Served) : Event :=
  { level := .debug
    target := "switchyard"
    message := none
    fields := [
      ("event", .text "lookup_completed"),
      ("method", .text (String.ofList method)),
      ("path", .text (String.ofList path)),
      ("strategy", .text served.strategy),
      ("matched", .flag served.found.isSome)] }

/- The names of the handlers of a match. -/
def handlerNames
    (table : RouteTable)
    (found : Match Nat) : List String :=
  found.handlers.map fun index =>
    String.ofList (table.handlerName index)

/- A match in words. -/
def matchText
    (table : RouteTable)
    (found : Match Nat) : String :=
  let params := found.params.entries.map
    fun (name, value) =>
      "param " ++ String.ofList name ++ " = " ++
        String.ofList value ++ "\n"
  "handlers: " ++ ", ".intercalate (handlerNames table found)
    ++ "\n" ++ "".intercalate params

/- The parameters of a match, by name. -/
def paramsJson
    (params : Params) : JsonValue :=
  let members := params.entries.map fun (name, value) =>
    (String.ofList name, JsonValue.text (String.ofList value))
  .record (members.mergeSort fun a b => !(b.1 < a.1))

/- A match as JSON, with its members in order. -/
def matchJson
    (method path : Text)
    (strategy : String)
    (table : RouteTable)
    (found : Match Nat) : JsonValue :=
  .record [
    ("handlers",
      .list ((handlerNames table found).map .text)),
    ("matched", .flag true),
    ("method", .text (String.ofList method)),
    ("params", paramsJson found.params),
    ("path", .text (String.ofList path)),
    ("strategy", .text strategy)]

/- The lack of a match as JSON. -/
def missJson
    (method path : Text)
    (strategy : String) : JsonValue :=
  .record [
    ("matched", .flag false),
    ("method", .text (String.ofList method)),
    ("path", .text (String.ofList path)),
    ("strategy", .text strategy)]

/- The outcome of a request that was looked up. -/
def findOutcome
    (codec : Codec)
    (method path format : Text)
    (served : Served) : Outcome :=
  let json := format == "json".toList
  match served.found with
  | none =>
      if json then
        { code := 2
          stdout :=
            codec.pretty
              (missJson method path served.strategy) ++
                "\n" }
      else
        { code := 2
          stderr := "no route matches " ++
            String.ofList method ++ " " ++
            String.ofList path ++ "\n" }
  | some found =>
      if json then
        { stdout :=
            codec.pretty
              (matchJson method path served.strategy
                served.table found) ++ "\n" }
      else { stdout := matchText served.table found }

variable (E : Regex.Engine)

/- Match a request against a table. -/
def runFind
    (codec : Codec)
    (file : Text)
    (content : FileContent)
    (method path format : Text) : Traced Outcome := do
  match ← serve E codec file content method path with
  | .error error => return .failure error.report
  | .ok served =>
      Traced.emit (lookupCompleted method path served)
      return findOutcome codec method path format served

end RequestRouter

------------------------------------------------------------
-- Checking
------------------------------------------------------------

namespace RequestRouter

/- The event of a table that can be served. -/
def strategySelected
    (file : Text)
    (served : Served) : Event :=
  { level := .info
    target := "switchyard"
    message := none
    fields := [
      ("event", .text "strategy_selected"),
      ("file", .text (String.ofList file)),
      ("strategy", .text served.strategy),
      ("strict", .flag served.table.config.strict)] }

/- The outcome of a table that can be served. -/
def checkOutcome
    (file : Text)
    (served : Served) : Outcome :=
  { stdout := String.ofList file ++ ": " ++
      toString served.table.routes.length ++
      " route(s), strategy " ++ served.strategy ++ "\n" }

variable (E : Regex.Engine)

/-
  Check that a table can be served. The first lookup has the
  router settle for a strategy, whatever the request is.
-/
def runCheck
    (codec : Codec)
    (file : Text)
    (content : FileContent) : Traced Outcome := do
  match ←
      serve E codec file content "GET".toList
        "/".toList with
  | .error error => return .failure error.report
  | .ok served =>
      Traced.emit (strategySelected file served)
      return checkOutcome file served

end RequestRouter

------------------------------------------------------------
-- Listing
------------------------------------------------------------

namespace RequestRouter

/- A method with blanks behind it, to a width of seven. -/
def methodColumn
    (method : Text) : Text :=
  method ++ List.replicate (7 - method.length) ' '

/- A registration on a line. -/
def routeLine
    (route : RouteSpec) : String :=
  String.ofList (methodColumn route.method) ++ " " ++
    String.ofList route.path ++ " -> " ++
    String.ofList route.handler ++ "\n"

/- List the registrations of a table. -/
def runList
    (codec : Codec)
    (file : Text)
    (content : FileContent) : Traced Outcome := do
  match ← loadTable codec file content with
  | .error error => return .failure error.report
  | .ok table =>
      let lines := table.routes.map routeLine
      return { stdout := "".intercalate lines }

end RequestRouter

------------------------------------------------------------
-- Commands
------------------------------------------------------------

namespace RequestRouter

namespace Command

/- The path of the file that a command reads. -/
def file : Command → Text
  | .find routes _ _ _ => routes
  | .check routes => routes
  | .list routes => routes

variable (E : Regex.Engine)

/- Carry out a command on the content of its file. -/
def run
    (codec : Codec)
    (content : FileContent) : Command → Traced Outcome
  | .find routes method path format =>
      runFind E codec routes content method path format
  | .check routes => runCheck E codec routes content
  | .list routes => runList codec routes content

end Command

end RequestRouter
