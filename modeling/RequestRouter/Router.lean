import RequestRouter.Path.Normal
import RequestRouter.Selector

/-
  The router that applications embed.

  A router brings methods into upper case and, unless it is
  strict, routes and request paths into normal form. It has
  a matcher of one strategy, or a selector among several.

  Key definitions include:
    * `Router`
    * `Router.ofConfig`
    * `Router.add`
    * `Router.lookup`
-/

------------------------------------------------------------
-- Routers
------------------------------------------------------------

namespace RequestRouter

variable (E : Regex.Engine)
variable (H : Type)

/- Settings with a matcher made for them. -/
structure Router where
  config : RouterConfig
  matcher : Matcher E H

variable {E H}

namespace Router

/- What the matcher of a router is made of. -/
def blueprint
    (config : RouterConfig) : Blueprint :=
  match config.strategies with
  | [strategy] => .plain strategy
  | strategies => .selector (strategies.map .plain)

/- A router without routes. -/
def ofConfig
    (config : RouterConfig) :
    Except ConfigError (Router E H) := do
  config.validate
  .ok ⟨config, (blueprint config).fresh⟩

/- A router with the default settings. -/
def default : Router E H :=
  ⟨{}, (blueprint {}).fresh⟩

/- The path under which a router registers a route. -/
def routePath
    (config : RouterConfig)
    (path : Text) : Text :=
  if config.strict then path else Path.normalizeRoute path

/- The path under which a router looks up a request. -/
def requestPath
    (config : RouterConfig)
    (path : Text) : Text :=
  if config.strict then path else Path.normalize path

/- Register a handler. -/
def add
    (router : Router E H)
    (registration : Registration H) :
    Traced (Except RouteError (Router E H)) := do
  match ← router.matcher.add
      ⟨Method.canonical registration.method,
        routePath router.config registration.path,
        registration.handler⟩ with
  | .error error => return .error error
  | .ok matcher =>
      return .ok { router with matcher := matcher }

/- Find all routes that match a request. -/
def lookup
    (router : Router E H)
    (method path : Text) :
    Traced (Reply H × Router E H) := do
  let (reply, matcher) ←
    router.matcher.lookup (Method.canonical method)
      (requestPath router.config path)
  return (reply, { router with matcher := matcher })

/- The name of the configured matcher. -/
def name
    (router : Router E H) : String :=
  router.matcher.name

/- The strategy that serves lookups, once it is known. -/
def strategy?
    (router : Router E H) : Option String :=
  router.matcher.active?

/- A router in debug output. -/
def debugText
    (router : Router E H) : String :=
  "Router \x7b config: " ++ router.config.debugText ++
    ", matcher: \"" ++ router.name ++ "\" \x7d"

end Router

end RequestRouter
