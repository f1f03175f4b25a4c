import RequestRouter.Compiled.Matcher
import RequestRouter.LinearScan.Matcher
import RequestRouter.LiteralTable
import RequestRouter.Strategy
import RequestRouter.Trie.Matcher

/-
  Matchers of every strategy, and the selector among them.

  A selector records registrations. Its first lookup gives
  them to each of its candidates in turn, and the first that
  accepts them all serves this and every later lookup.

  Key definitions include:
    * `Blueprint`
    * `Matcher`
    * `Matcher.add`
    * `Matcher.lookup`
    * `Matcher.active?`
-/

------------------------------------------------------------
-- Blueprints and Matchers
------------------------------------------------------------

namespace RequestRouter

/- What a fresh matcher is made of. -/
inductive Blueprint where
  | plain (strategy : Strategy)
  | selector (candidates : List Blueprint)
  deriving Inhabited, Repr

variable (E : Regex.Engine)
variable (H : Type)

/-
  A matcher. A selector waits with its registrations until
  the first lookup; then it has chosen a matcher, or failed
  for good.
-/
inductive Matcher where
  | compiled (matcher : Compiled E H)
  | trie (matcher : Trie E H)
  | linear (matcher : LinearScan E H)
  | static (matcher : LiteralTable H)
  | pending
      (candidates : List Blueprint)
      (routes : List (Registration H))
  | chosen (matcher : Matcher)
  | failed (error : RouteError)

/- The answer of a lookup. -/
abbrev Reply :=
  Except RouteError (Option (Match H))

variable {E H}

namespace Blueprint

/- The name of a matcher made from a blueprint. -/
def name : Blueprint → String
  | .plain strategy => strategy.name
  | .selector _ => "smart"

/- A matcher without routes. -/
def fresh : Blueprint → Matcher E H
  | .plain .compiled => .compiled .empty
  | .plain .trie => .trie .empty
  | .plain .linear => .linear .empty
  | .plain .static => .static .empty
  | .selector candidates => .pending candidates []

/- The selector that prefers the compiled strategy. -/
def preferCompiled : Blueprint :=
  .selector [.plain .compiled, .plain .trie]

end Blueprint

namespace Matcher

/- The name of a matcher's kind. -/
def name : Matcher E H → String
  | .compiled _ => Strategy.compiled.name
  | .trie _ => Strategy.trie.name
  | .linear _ => Strategy.linear.name
  | .static _ => Strategy.static.name
  | .pending _ _ | .chosen _ | .failed _ => "smart"

/- The name of the strategy that serves lookups, if known. -/
def active? : Matcher E H → Option String
  | .chosen matcher => some matcher.name
  | .pending _ _ | .failed _ => none
  | matcher => some matcher.name

end Matcher

end RequestRouter

------------------------------------------------------------
-- Registration
------------------------------------------------------------

namespace RequestRouter

variable {E : Regex.Engine}
variable {H : Type}

namespace Matcher

/- Whether every variant of a path is well formed. -/
def checkPath
    (E : Regex.Engine)
    (path : Text) :
    Except RouteError Unit :=
  (Path.variants path).forM fun variant => do
    let _ : List (Pattern E) ← Pattern.parsePath variant
    .ok ()

/- Register a handler. -/
def add
    (registration : Registration H) :
    Matcher E H →
      Traced (Except RouteError (Matcher E H))
  | .compiled matcher =>
      .silent ((matcher.add registration).map .compiled)
  | .trie matcher =>
      .silent ((matcher.add registration).map .trie)
  | .linear matcher =>
      match matcher.add registration with
      | .ok matcher => .silent (.ok (.linear matcher))
      | .error fault => ⟨fault.events, .error fault.error⟩
  | .static matcher =>
      .silent ((matcher.add E registration).map .static)
  | .pending candidates routes =>
      .silent <|
        (checkPath E registration.path).map fun _ =>
          .pending candidates (routes ++ [registration])
  | .chosen _ | .failed _ => .silent (.error .alreadyBuilt)

/- Register handlers in order, up to a first failure. -/
def addAll :
    List (Registration H) → Matcher E H →
      Traced (Except RouteError (Matcher E H))
  | [], matcher => .silent (.ok matcher)
  | registration :: rest, matcher => do
      match ← matcher.add registration with
      | .error error => return .error error
      | .ok matcher => matcher.addAll rest

end Matcher

end RequestRouter

------------------------------------------------------------
-- Selection
------------------------------------------------------------

namespace RequestRouter

variable {E : Regex.Engine}
variable {H : Type}

namespace Selection

/- The event that reports the chosen strategy. -/
def selectedEvent
    (strategy : String)
    (routes : Nat) : Event :=
  ⟨.info, "switchyard_router::smart",
    some "routing strategy selected",
    [("event", .text "strategy_selected"),
      ("strategy", .text strategy),
      ("routes", .count routes)]⟩

/- The event that reports a strategy passed over. -/
def rejectedEvent
    (strategy : String)
    (path : Text) : Event :=
  ⟨.debug, "switchyard_router::smart",
    some "routing strategy rejected route set",
    [("strategy", .text strategy),
      ("path", .text (String.ofList path))]⟩

/- The event that reports that no strategy is left. -/
def exhaustedEvent
    (routes : Nat)
    (path : Text) : Event :=
  ⟨.warn, "switchyard_router::smart",
    some "no routing strategy accepted the route set",
    [("routes", .count routes),
      ("path", .text (String.ofList path))]⟩

/-
  What a trial gives: the answer to the first request with
  the matcher that gave it, or an error.
-/
abbrev Trial (E : Regex.Engine) (H : Type) :=
  Except RouteError (Option (Match H) × Matcher E H)

/- The answer and the state of a selector after its choice. -/
def conclude
    (trial : Trial E H) :
    Reply H × Matcher E H :=
  match trial with
  | .ok (found, matcher) => (.ok found, .chosen matcher)
  | .error error => (.error error, .failed error)

/- Answer a request by a matcher of a plain strategy. -/
def lookupPlain
    (method path : Text) :
    Matcher E H → Traced (Trial E H)
  | .compiled matcher => do
      let (reply, matcher) ← matcher.lookup method path
      return reply.map (·, .compiled matcher)
  | .trie matcher =>
      .silent
        (.ok (matcher.lookup method path, .trie matcher))
  | .linear matcher =>
      .silent
        (.ok (matcher.lookup method path, .linear matcher))
  | .static matcher =>
      .silent
        (.ok (matcher.lookup method path, .static matcher))
  | _ => .silent (.error .alreadyBuilt)

mutual

/- Try a fresh matcher on the routes and a request. -/
def attempt
    (routes : List (Registration H))
    (method path : Text) :
    Blueprint → Traced (Trial E H)
  | .plain strategy => do
      match ← (Blueprint.plain strategy).fresh.addAll
          routes with
      | .error error => return .error error
      | .ok matcher => lookupPlain method path matcher
  | .selector candidates => do
      match ← (Blueprint.selector candidates).fresh.addAll
          routes with
      | .error error => return .error error
      | .ok (_ : Matcher E H) =>
          match ← choose routes method path path
              candidates with
          | .error error => return .error error
          | .ok (found, matcher) =>
              return .ok (found, .chosen matcher)

/-
  Try candidates in order. Only an unsupported path leads
  on to the next; the last such path is reported when no
  candidate is left.
-/
def choose
    (routes : List (Registration H))
    (method path rejected : Text) :
    List Blueprint → Traced (Trial E H)
  | [] => do
      Traced.emit (exhaustedEvent routes.length rejected)
      return .error (.noStrategy rejected)
  | candidate :: rest => do
      match ← attempt routes method path candidate with
      | .ok trial =>
          Traced.emit
            (selectedEvent candidate.name routes.length)
          return .ok trial
      | .error (.unsupportedPath unsupported) =>
          Traced.emit
            (rejectedEvent candidate.name unsupported)
          choose routes method path unsupported rest
      | .error error => return .error error

end

end Selection

end RequestRouter

------------------------------------------------------------
-- Lookup
------------------------------------------------------------

namespace RequestRouter

variable {E : Regex.Engine}
variable {H : Type}

namespace Matcher

/- Find all routes that match a request. -/
def lookup
    (method path : Text) :
    Matcher E H → Traced (Reply H × Matcher E H)
  | .compiled matcher => do
      let (reply, matcher) ← matcher.lookup method path
      return (reply, .compiled matcher)
  | .trie matcher =>
      .silent
        (.ok (matcher.lookup method path), .trie matcher)
  | .linear matcher =>
      .silent
        (.ok (matcher.lookup method path), .linear matcher)
  | .static matcher =>
      .silent
        (.ok (matcher.lookup method path), .static matcher)
  | .pending candidates routes => do
      let trial ←
        Selection.choose routes method path path candidates
      return Selection.conclude trial
  | .chosen matcher => do
      let (reply, matcher) ← matcher.lookup method path
      return (reply, .chosen matcher)
  | .failed error => .silent (.error error, .failed error)

/- A matcher in debug output, where it has one. -/
def debugText? : Matcher E H → Option String
  | .compiled matcher =>
      some ("RegExpMatcher \x7b routes: " ++
        toString matcher.routes.length ++ ", built: " ++
        toString matcher.built.isSome ++ " \x7d")
  | .chosen matcher =>
      some ("SmartMatcher \x7b active: Some(\"" ++
        matcher.name ++ "\") \x7d")
  | .pending _ _ | .failed _ =>
      some "SmartMatcher \x7b active: None \x7d"
  | _ => none

end Matcher

end RequestRouter
