import RequestRouter.Path.Optional
import RequestRouter.Route.Match
import RequestRouter.Trie.Search

/-
  The trie strategy: any route set is accepted, and each
  request is searched in one trie.

  Key definitions include:
    * `Trie`
    * `Trie.add`
    * `Trie.lookup`
-/

------------------------------------------------------------
-- The Trie
------------------------------------------------------------

namespace RequestRouter

variable (E : Regex.Engine)
variable (H : Type)

/-
  A trie with the handlers of its registrations. A score is
  the position of a handler in the list; all variants of a
  registration share it.
-/
structure Trie where
  root : TrieNode E
  handlers : List H

variable {E H}

namespace Trie

/- A trie without routes. -/
def empty : Trie E H :=
  ⟨.empty, []⟩

/- The number of registrations. -/
def size
    (trie : Trie E H) : Nat :=
  trie.handlers.length

/-
  Register a handler for every variant of its path; a path
  with a variant that is refused changes nothing.
-/
def add
    (trie : Trie E H)
    (registration : Registration H) :
    Except RouteError (Trie E H) := do
  let variants ←
    (Path.variants registration.path).mapM Pattern.parsePath
  .ok
    ⟨variants.foldl
      (fun root patterns =>
        root.attach registration.method trie.size patterns)
      trie.root,
      trie.handlers ++ [registration.handler]⟩

/- The handlers of the scores that were hit. -/
def handlersOf
    (trie : Trie E H)
    (hits : List TrieSearch.Hit) : List H :=
  trie.handlers.zipIdx.filterMap fun (handler, score) =>
    if hits.any (·.score == score) then some handler
    else none

/-
  The parameters that hits bind: registrations in order,
  and the hits of one registration in search order.
-/
def paramsOf
    (trie : Trie E H)
    (hits : List TrieSearch.Hit) : Params :=
  .ofList <|
    (List.range trie.size).flatMap fun score =>
      (hits.filter (·.score == score)).flatMap (·.bindings)

/- Find all routes that match a request. -/
def lookup
    (trie : Trie E H)
    (method path : Text) : Option (Match H) :=
  let hits := TrieSearch.hits trie.root method path
  Match.ofHandlers? (trie.handlersOf hits)
    (trie.paramsOf hits)

end Trie

end RequestRouter
