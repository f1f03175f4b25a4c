import RequestRouter.Trie.Node

/-
  The search of a request path in the trie.

  The search goes through the parts of the path from left to
  right with all nodes that the parts so far may lead to. A
  constraint may take several parts at once; what it leads
  to waits until the parts it took have been passed.

  Key definitions include:
    * `TrieSearch.Candidate`
    * `TrieSearch.Hit`
    * `TrieSearch.visit`
    * `TrieSearch.run`
-/

------------------------------------------------------------
-- Candidates and Hits
------------------------------------------------------------

namespace RequestRouter

namespace TrieSearch

variable (E : Regex.Engine)

/- Names with the texts bound to them, in path order. -/
abbrev Bindings :=
  List (Text × Text)

/- A node with the bindings made on the way to it. -/
structure Candidate where
  node : TrieNode E
  bindings : Bindings

/- A score that the path reaches, with its bindings. -/
structure Hit where
  score : Nat
  bindings : Bindings
  deriving DecidableEq, Repr

/-
  What a candidate leads to: hits, and candidates that
  resume behind a number of further parts.
-/
structure Outcome where
  hits : List Hit
  resumed : List (Nat × Candidate E)

end TrieSearch

end RequestRouter

------------------------------------------------------------
-- Visiting One Candidate
------------------------------------------------------------

namespace RequestRouter

namespace TrieSearch

variable {E : Regex.Engine}

namespace Outcome

/- Nothing at all. -/
def nothing : Outcome E :=
  ⟨[], []⟩

/- Outcomes in a row. -/
def concat
    (outcomes : List (Outcome E)) : Outcome E :=
  ⟨outcomes.flatMap (·.hits), outcomes.flatMap (·.resumed)⟩

end Outcome

/- The hits at a node. -/
def collect
    (method : Text)
    (node : TrieNode E)
    (bindings : Bindings) : List Hit :=
  (node.scores.scoresFor method).map (⟨·, bindings⟩)

/- The hits at the wildcard child of a node. -/
def collectTail
    (method : Text)
    (node : TrieNode E)
    (bindings : Bindings) : List Hit :=
  match node.wildcard with
  | none => []
  | some child => collect method child bindings

/-
  Come to a node behind `gap` of the parts that follow. At
  the end of the path it gives its hits and those of a
  trailing wildcard.
-/
def arrive
    (method : Text)
    (rest : List Text)
    (node : TrieNode E)
    (bindings : Bindings)
    (gap : Nat) : Outcome E :=
  if gap = rest.length then
    ⟨collect method node bindings ++
      collectTail method node bindings, []⟩
  else
    ⟨[], [(gap, ⟨node, bindings⟩)]⟩

/- The literal child for a part. -/
def visitLiteral
    (method part : Text)
    (rest : List Text)
    (candidate : Candidate E) : Outcome E :=
  match candidate.node.literal? part with
  | none => .nothing
  | some child =>
      arrive method rest child candidate.bindings 0

/-
  The wildcard child for a part. Its own scores match the
  part and all that follows; as one segment it takes only a
  nonempty part.
-/
def visitWildcard
    (method part : Text)
    (rest : List Text)
    (candidate : Candidate E) : Outcome E :=
  match candidate.node.wildcard with
  | none => .nothing
  | some child =>
      let hits := collect method child candidate.bindings
      if part.isEmpty then ⟨hits, []⟩
      else if rest.isEmpty then
        ⟨hits ++
          collectTail method child candidate.bindings, []⟩
      else
        ⟨hits, [(0, ⟨child, candidate.bindings⟩)]⟩

/- One parameter child for a part. -/
def visitParam
    (method part : Text)
    (rest : List Text)
    (candidate : Candidate E) :
    Pattern E × TrieNode E → Outcome E
  | (.param name, child) =>
      if part.isEmpty then .nothing
      else
        arrive method rest child
          (candidate.bindings ++ [(name, part)]) 0
  | (.constrained name constraint, child) =>
      .concat <|
        (List.range (rest.length + 1)).map fun gap =>
          let text :=
            ['/'].intercalate (part :: rest.take gap)
          if constraint.isMatch text then
            arrive method rest child
              (candidate.bindings ++ [(name, text)]) gap
          else
            .nothing
  | _ => .nothing

/- All children of a candidate for a part. -/
def visit
    (method part : Text)
    (rest : List Text)
    (candidate : Candidate E) : Outcome E :=
  .concat
    (visitLiteral method part rest candidate ::
      visitWildcard method part rest candidate ::
        candidate.node.params.map
          (visitParam method part rest candidate))

end TrieSearch

end RequestRouter

------------------------------------------------------------
-- Running the Search
------------------------------------------------------------

namespace RequestRouter

namespace TrieSearch

variable {E : Regex.Engine}

/-
  Search the parts of a path. Each waiting candidate comes
  with the number of parts to pass before it is visited.
-/
def run
    (method : Text) :
    List Text → List (Nat × Candidate E) → List Hit
  | [], _ => []
  | part :: rest, waiting =>
      let due := waiting.filter (·.1 == 0)
      let later := waiting.filter (·.1 != 0)
      let outcome :=
        Outcome.concat
          (due.map fun entry =>
            visit method part rest entry.2)
      outcome.hits ++
        run method rest
          (later.map (fun entry => (entry.1 - 1, entry.2)) ++
            outcome.resumed)

/- All hits of a request, in the order of the search. -/
def hits
    (root : TrieNode E)
    (method path : Text) : List Hit :=
  run method (path.splitOn '/') [(0, ⟨root, []⟩)]

end TrieSearch

end RequestRouter
