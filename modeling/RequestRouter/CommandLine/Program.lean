import RequestRouter.CommandLine.Commands
import RequestRouter.Log.Filter
import RequestRouter.Log.Settings

/-
  The program: from arguments to what is printed.

  The log has no part in what a command does; it only takes
  up the events that its filter allows.

  Key definitions include:
    * `Transcript`
    * `Invocation.run`
    * `logRecord`
-/

------------------------------------------------------------
-- Running
------------------------------------------------------------

namespace RequestRouter

/-
  The outcome of a run with its log, and notices about the
  filter of the log.
-/
structure Transcript where
  outcome : Outcome
  format : LogFormat := .json
  notices : List String := []
  logs : List Event := []
  deriving DecidableEq, Repr

namespace Invocation

/- The transcript of the program's name and version. -/
def versionTranscript : Transcript :=
  { outcome := { stdout := "switchyard 0.1.0\n" } }

/- The outcome of a format that is not known. -/
def invalidFormat
    (name : Text) : Outcome :=
  .failure ("invalid log format: " ++ String.ofList name)

variable (E : Regex.Engine)

/- Run an invocation on the content of its file. -/
def run
    (invocation : Invocation)
    (content : FileContent) : Transcript :=
  match LogFormat.ofName? invocation.logFormat with
  | none =>
      { outcome := invalidFormat invocation.logFormat }
  | some format =>
      let (filter, notices) :=
        LogFilter.parse invocation.logLevel
      let result :=
        invocation.command.run E .standard content
      { outcome := result.value
        format
        notices
        logs := result.events.filter filter.allows }

end Invocation

end RequestRouter

------------------------------------------------------------
-- Log Lines
------------------------------------------------------------

namespace RequestRouter

/- The value of a field as JSON. -/
def FieldValue.json : FieldValue → JsonValue
  | .text value => .text value
  | .count value => .count value
  | .flag value => .flag value

/- The value of a field in words. -/
def FieldValue.words : FieldValue → String
  | .text value => value
  | .count value => toString value
  | .flag value => toString value

/- An event as a record of the log. -/
def logRecord
    (event : Event) : JsonValue :=
  .record <|
    [("level", .text event.level.name)] ++
      (event.message.map fun m =>
        ("message", .text m)).toList ++
      (event.fields.map fun (name, value) =>
        (name, value.json)) ++
      [("target", .text event.target)]

/- An event in words. -/
def logWords
    (event : Event) : String :=
  let fields := event.fields.map fun (name, value) =>
    name ++ ": " ++ value.words
  event.level.name ++ " " ++ event.target ++ ": " ++
    ", ".intercalate (event.message.toList ++ fields)

namespace Transcript

/- The lines of the log. -/
def logLines
    (transcript : Transcript) : List String :=
  transcript.logs.map fun event =>
    match transcript.format with
    | .json => (logRecord event).compact
    | .pretty => logWords event

end Transcript

end RequestRouter
