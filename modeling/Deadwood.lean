import Deadwood.Command.Grammar
import Deadwood.Command.Request
import Deadwood.Command.Run
import Deadwood.Command.Watch
import Deadwood.Digest.Sha256
import Deadwood.Discovery.Walk
import Deadwood.Glob.Pattern
import Deadwood.Graph.Basic
import Deadwood.Graph.Build
import Deadwood.Graph.Cycle
import Deadwood.Graph.EntryPoints
import Deadwood.Graph.Reach
import Deadwood.Graph.Resolve
import Deadwood.Ignore.Pattern
import Deadwood.Ignore.Rule
import Deadwood.Import.Basic
import Deadwood.Import.Clause
import Deadwood.Import.Extract
import Deadwood.Import.Pattern
import Deadwood.Import.Unused
import Deadwood.Issue.Basic
import Deadwood.Issue.Encoding
import Deadwood.Json.Basic
import Deadwood.Json.Decode
import Deadwood.Json.Parser
import Deadwood.Json.Printer
import Deadwood.Main
import Deadwood.Path.Basic
import Deadwood.Path.Relative
import Deadwood.Proofs.Order
import Deadwood.Report.Basic
import Deadwood.Report.Document
import Deadwood.Report.Styled
import Deadwood.Report.Terminal
import Deadwood.Scan.Analyzer
import Deadwood.Scan.Gate
import Deadwood.Scan.Outcome
import Deadwood.Scan.Project
import Deadwood.Scan.Run
import Deadwood.Scan.Schema
import Deadwood.Settings.Basic
import Deadwood.Settings.Decode
import Deadwood.Settings.Json
import Deadwood.Settings.Load
import Deadwood.Settings.Toml
import Deadwood.Settings.Yaml
import Deadwood.Source
import Deadwood.Store.Basic
import Deadwood.Store.Entry
import Deadwood.Store.Key
import Deadwood.Store.Shelf
import Deadwood.Text.CharClass
import Deadwood.Text.Octets
import Deadwood.Text.Piece
import Deadwood.Toml.Basic
import Deadwood.Toml.Decode
import Deadwood.Toml.Parser
import Deadwood.Toml.Scalar
import Deadwood.Tree.Basic
import Deadwood.Tree.Change
import Deadwood.Yaml.Basic
import Deadwood.Yaml.Decode
import Deadwood.Yaml.Parser
import Deadwood.Yaml.Scalar
import Deadwood.Yaml.Token
import Deadwood.Proofs.Graph.Reach
import Deadwood.Proofs.Graph.Build
import Deadwood.Proofs.Report
import Deadwood.Proofs.Scan.DeadFiles
import Deadwood.Proofs.Issue.Encoding
import Deadwood.Proofs.Scan.Transparent
import Deadwood.Proofs.Import.Clause
import Deadwood.Proofs.Import.Recognise
import Deadwood.Proofs.Import.LineStart
import Deadwood.Proofs.Import.Printed
import Deadwood.Proofs.Import.Span
import Deadwood.Proofs.Import.Unused
import Deadwood.Proofs.Graph.Cycle
import Deadwood.Proofs.Store.Kept
import Deadwood.Proofs.Scan.Accounting
import Deadwood.Proofs.Scan.Incremental
import Deadwood.Proofs.Scan.Permutation
import Deadwood.Proofs.Graph.History
import Deadwood.Proofs.Scan.Upkeep
import Deadwood.Proofs.Path
import Deadwood.Proofs.Graph.Moved
import Deadwood.Proofs.Scan.Moved
import Deadwood.Proofs.Scan.Accesses
import Deadwood.Proofs.Store.Drafts
import Deadwood.Proofs.Store.Frame
import Deadwood.Proofs.Graph.Traversal
import Deadwood.Proofs.Graph.Components
import Deadwood.Proofs.Json.Pretty
import Deadwood.Proofs.Report.Document
import Deadwood.Proofs.Graph.Origins
import Deadwood.Proofs.Path.Lexical
import Deadwood.Proofs.Report.Merged
import Deadwood.Proofs.Import.Aliased
import Deadwood.Proofs.Graph.Resolution
import Deadwood.Proofs.Graph.Accounting
import Deadwood.Proofs.Import.Reading
import Deadwood.Proofs.Import.WellFormed
import Deadwood.Proofs.Import.Neighbours
import Deadwood.Proofs.Store.Identity
import Deadwood.Proofs.Scan.Attempts
import Deadwood.Proofs.Report.Terminal
