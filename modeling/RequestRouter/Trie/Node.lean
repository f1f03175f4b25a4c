import RequestRouter.Route.Pattern
import RequestRouter.Trie.MethodTable

/-
  The nodes of the segment trie.

  Key definitions include:
    * `TrieNode`
    * `TrieNode.empty`
    * `TrieNode.attach`
-/

------------------------------------------------------------
-- Nodes
------------------------------------------------------------

namespace RequestRouter

variable (E : Regex.Engine)

/-
  A place in the trie. Literal children are told apart by
  their text, parameter children by their label; the latter
  stay in the order of insertion. The wildcard child stands
  for one segment, and its own scores for any rest.
-/
structure TrieNode where
  literals : List (Text × TrieNode)
  params : List (Pattern E × TrieNode)
  wildcard : Option TrieNode
  scores : MethodTable

variable {E}

namespace TrieNode

/- A node without children and scores. -/
def empty : TrieNode E :=
  ⟨[], [], none, .empty⟩

/- The literal child with a text. -/
def literal?
    (node : TrieNode E)
    (text : Text) : Option (TrieNode E) :=
  AssocList.find? (· == text) node.literals

/-
  Attach a score under a method where a list of patterns
  leads, making the nodes that are missing.
-/
def attach
    (method : Text)
    (score : Nat) :
    List (Pattern E) → TrieNode E → TrieNode E
  | [], node =>
      { node with scores := node.scores.attach method score }
  | .literal text :: rest, node =>
      { node with
        literals :=
          AssocList.upsert (· == text) text empty
            (attach method score rest) node.literals }
  | .wildcard :: rest, node =>
      { node with
        wildcard :=
          some (attach method score rest
            (node.wildcard.getD empty)) }
  | pattern :: rest, node =>
      { node with
        params :=
          AssocList.upsert (·.label == pattern.label) pattern
            empty (attach method score rest) node.params }

end TrieNode

end RequestRouter
