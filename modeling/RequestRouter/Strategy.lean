import RequestRouter.Text

/-
  The strategies and the settings of a router.

  Key definitions include:
    * `Strategy`
    * `RouterConfig`
    * `RouterConfig.validate`

  Main statement:
    * `Strategy.ofName?_name`
-/

------------------------------------------------------------
-- Strategies
------------------------------------------------------------

namespace RequestRouter

/- The ways to match routes. -/
inductive Strategy where
  | compiled
  | trie
  | linear
  | static
  deriving DecidableEq, Repr

namespace Strategy

/- The name of a strategy in settings and reports. -/
def name : Strategy → String
  | .compiled => "regexp"
  | .trie => "trie"
  | .linear => "linear"
  | .static => "static"

/- The strategy of a name. -/
def ofName?
    (name : String) : Option Strategy :=
  match name with
  | "regexp" => some .compiled
  | "trie" => some .trie
  | "linear" => some .linear
  | "static" => some .static
  | _ => none

/- The capitalized name of a strategy in debug output. -/
def debugName : Strategy → String
  | .compiled => "Regexp"
  | .trie => "Trie"
  | .linear => "Linear"
  | .static => "Static"

/- A strategy is found by its name. -/
theorem ofName?_name
    (strategy : Strategy) :
    ofName? strategy.name = some strategy := by
  cases strategy <;> rfl

end Strategy

end RequestRouter

------------------------------------------------------------
-- Settings
------------------------------------------------------------

namespace RequestRouter

/- Why settings are refused. -/
inductive ConfigError where
  | emptyStrategies
  | duplicateStrategy (strategy : Strategy)
  deriving DecidableEq, Repr

namespace ConfigError

/- The report of an error. -/
def message : ConfigError → String
  | .emptyStrategies =>
      "at least one routing strategy must be configured"
  | .duplicateStrategy strategy =>
      "strategy '" ++ strategy.name ++
        "' is listed more than once"

end ConfigError

/-
  The settings of a router: whether paths are compared as
  they are written, and the strategies in order of
  preference.
-/
structure RouterConfig where
  strict : Bool := false
  strategies : List Strategy := [.compiled, .trie]
  deriving DecidableEq, Repr

namespace RouterConfig

/- The first strategy that also stands earlier. -/
def firstRepeated
    (seen : List Strategy) :
    List Strategy → Option Strategy
  | [] => none
  | strategy :: rest =>
      if seen.contains strategy then some strategy
      else firstRepeated (strategy :: seen) rest

/- Settings name some strategy and none of them twice. -/
def validate
    (config : RouterConfig) :
    Except ConfigError Unit :=
  if config.strategies.isEmpty then
    .error .emptyStrategies
  else
    match firstRepeated [] config.strategies with
    | some strategy => .error (.duplicateStrategy strategy)
    | none => .ok ()

/- Settings in debug output. -/
def debugText
    (config : RouterConfig) : String :=
  "RouterConfig \x7b strict: " ++ toString config.strict ++
    ", strategies: [" ++
    ", ".intercalate (config.strategies.map (·.debugName)) ++
    "] \x7d"

end RouterConfig

end RequestRouter
