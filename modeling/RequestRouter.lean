import RequestRouter.Router
import RequestRouter.RouteTable.Decode
import RequestRouter.CommandLine.Program
import RequestRouter.Main
import RequestRouter.Proofs.Trie.Exactness
import RequestRouter.Proofs.Compiled.Agreement
import RequestRouter.Proofs.LinearScan.Agreement
import RequestRouter.Proofs.Regex.Closed
import RequestRouter.Proofs.Route.Refusal
import RequestRouter.Proofs.Selector.Choice
import RequestRouter.Proofs.Selector.History
import RequestRouter.Proofs.SegmentTree.Coexistence
import RequestRouter.Proofs.SegmentTree.Likeness
import RequestRouter.Proofs.Compiled.PlanOrder
import RequestRouter.Proofs.Compiled.Reordering
import RequestRouter.Proofs.Regex.Leading
import RequestRouter.Proofs.Regex.Leftmost
import RequestRouter.Proofs.SegmentTree.Reports
import RequestRouter.Proofs.Compiled.Spelling
import RequestRouter.Proofs.SegmentTree.Foremost
import RequestRouter.Proofs.Path.Cutting
import RequestRouter.Proofs.Regex.Passing
import RequestRouter.Proofs.SegmentTree.Precedence
import RequestRouter.Proofs.Compiled.Precedence
import RequestRouter.Proofs.Bookkeeping
import RequestRouter.Proofs.Selector.Refusal
import RequestRouter.Proofs.Selector.WellFormed
import RequestRouter.Proofs.Router.Run
import RequestRouter.Proofs.Router.Serving
import RequestRouter.Proofs.CommandLine.Check
import RequestRouter.Proofs.Regex.Ending
import RequestRouter.Proofs.Regex.Floating
import RequestRouter.Proofs.LinearScan.Constraint
import RequestRouter.Proofs.LinearScan.Floating
import RequestRouter.Proofs.LinearScan.Parity
import RequestRouter.Proofs.LinearScan.Values
import RequestRouter.Proofs.Catchall
import RequestRouter.Proofs.Selector.Contents
import RequestRouter.Proofs.Selector.Updating
import RequestRouter.Proofs.Router.Fallback
import RequestRouter.Proofs.LiteralTable.Lookup
import RequestRouter.Proofs.Compiled.Literal
import RequestRouter.Proofs.Trie.Growth
import RequestRouter.Proofs.Path.Expansion
import RequestRouter.Proofs.Path.Normal
import RequestRouter.Proofs.LiteralTable.Acceptance
import RequestRouter.Proofs.Regex.Cutting
import RequestRouter.Proofs.Regex.ItemCutting
import RequestRouter.Proofs.Regex.Unopened
import RequestRouter.Proofs.Route.Anchoring
import RequestRouter.Proofs.Route.Reading
import RequestRouter.Proofs.SegmentTree.Tables
import RequestRouter.Proofs.Compiled.Overlap
import RequestRouter.Proofs.Trie.MethodTable
