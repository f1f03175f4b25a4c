import RequestRouter.Event
import RequestRouter.Text

/-
  The settings of the log.

  Key definitions include:
    * `LogFormat`
    * `LogFormat.ofName?`
    * `LogSettings`
    * `LogError`

  Main statement:
    * `LogFormat.ofName?_name`
-/

------------------------------------------------------------
-- Formats
------------------------------------------------------------

namespace RequestRouter

/- The layouts of log lines. -/
inductive LogFormat where
  | json
  | pretty
  deriving DecidableEq, Repr

namespace LogFormat

/- The name of a format. -/
def name : LogFormat → String
  | .json => "json"
  | .pretty => "pretty"

/-
  The format of a name in any case. No other letters than
  ASCII ones are among the lower-case forms of these names,
  so ASCII case is all there is to fold.
-/
def ofName?
    (name : Text) : Option LogFormat :=
  let lower := name.map Char.toLower
  if lower = "json".toList then some .json
  else if lower = "pretty".toList then some .pretty
  else none

/- A format is found by its name. -/
theorem ofName?_name
    (format : LogFormat) :
    ofName? format.name.toList = some format := by
  cases format <;> rfl

end LogFormat

end RequestRouter

------------------------------------------------------------
-- Settings
------------------------------------------------------------

namespace RequestRouter

/- Which events are logged, as filter text, and how. -/
structure LogSettings where
  level : String := "info"
  format : LogFormat := .json
  deriving DecidableEq, Repr

namespace LogSettings

/- Settings with another filter. -/
def withLevel
    (settings : LogSettings)
    (level : String) : LogSettings :=
  { settings with level := level }

/- Settings with another format. -/
def withFormat
    (settings : LogSettings)
    (format : LogFormat) : LogSettings :=
  { settings with format := format }

end LogSettings

/- Why there is no log. -/
inductive LogError where
  | unavailable (reason : String)
  deriving DecidableEq, Repr

namespace LogError

/- The report of an error. -/
def message : LogError → String
  | .unavailable reason =>
      "failed to initialize logging: " ++ reason

end LogError

end RequestRouter
