import Columnlet.Attempt
import Columnlet.Bus.Basic
import Columnlet.Bus.Reader
import Columnlet.Bus.Writer
import Columnlet.Bytes
import Columnlet.Channel
import Columnlet.Command.Arguments
import Columnlet.Command.Run
import Columnlet.Config
import Columnlet.Content
import Columnlet.Coordinator
import Columnlet.Decimal.Shortest
import Columnlet.Error
import Columnlet.Files
import Columnlet.Files.Location
import Columnlet.Format
import Columnlet.Index.Builder
import Columnlet.Index.Encoding
import Columnlet.Index.Locator
import Columnlet.Index.Lookup
import Columnlet.Index.Node
import Columnlet.Index.Trie
import Columnlet.Key
import Columnlet.Main
import Columnlet.Memory
import Columnlet.Metrics.Counters
import Columnlet.Metrics.Registry
import Columnlet.Proofs.Attempt
import Columnlet.Proofs.Bus.Batches
import Columnlet.Proofs.Bus.Fifo
import Columnlet.Proofs.Bus.Geometry
import Columnlet.Proofs.Bus.Looks
import Columnlet.Proofs.Bus.Pending
import Columnlet.Proofs.Bus.Poll
import Columnlet.Proofs.Bus.Record
import Columnlet.Proofs.Bus.Rollback
import Columnlet.Proofs.Bus.Safety
import Columnlet.Proofs.Bus.Scan
import Columnlet.Proofs.Bus.Sending
import Columnlet.Proofs.Bus.Skip
import Columnlet.Proofs.Bus.Sweep
import Columnlet.Proofs.Bus.Turnover
import Columnlet.Proofs.Bus.Waiting
import Columnlet.Proofs.Bytes
import Columnlet.Proofs.Bytes.Order
import Columnlet.Proofs.Command.Reports
import Columnlet.Proofs.Content
import Columnlet.Proofs.Content.Access
import Columnlet.Proofs.Content.Entries
import Columnlet.Proofs.Content.Refusal
import Columnlet.Proofs.Coordinator
import Columnlet.Proofs.Coordinator.Count
import Columnlet.Proofs.Coordinator.Drain
import Columnlet.Proofs.Files
import Columnlet.Proofs.Index.Access
import Columnlet.Proofs.Index.Bounds
import Columnlet.Proofs.Index.Branching
import Columnlet.Proofs.Index.Canonical
import Columnlet.Proofs.Index.Corruption
import Columnlet.Proofs.Index.Frame
import Columnlet.Proofs.Index.Layout
import Columnlet.Proofs.Index.Lookup
import Columnlet.Proofs.Index.Order
import Columnlet.Proofs.Index.Path
import Columnlet.Proofs.Index.Placement
import Columnlet.Proofs.Index.Prefix
import Columnlet.Proofs.Index.Publish
import Columnlet.Proofs.Index.Reading
import Columnlet.Proofs.Index.RoundTrip
import Columnlet.Proofs.Index.Semantics
import Columnlet.Proofs.Index.Shape
import Columnlet.Proofs.Index.Spelling
import Columnlet.Proofs.Index.Traversal
import Columnlet.Proofs.Index.Walk
import Columnlet.Proofs.Key
import Columnlet.Proofs.Key.Order
import Columnlet.Proofs.Reader.Accounting
import Columnlet.Proofs.Reader.Opening
import Columnlet.Proofs.Reader.Read
import Columnlet.Proofs.Reader.Rebuild
import Columnlet.Proofs.Reader.Reports
import Columnlet.Proofs.Reader.Retention
import Columnlet.Proofs.Region
import Columnlet.Proofs.Region.Counter
import Columnlet.Proofs.Region.Window
import Columnlet.Reader
import Columnlet.Region
import Columnlet.Region.Counter
import Columnlet.Text.Digits
import Columnlet.Text.Invisible
import Columnlet.Text.Json
import Columnlet.Text.Quoted
import Columnlet.Yaml.BlockScalar
import Columnlet.Yaml.Document
import Columnlet.Yaml.Mark
import Columnlet.Yaml.Node
import Columnlet.Yaml.Property
import Columnlet.Yaml.Scalar
import Columnlet.Yaml.Token
import Columnlet.Yaml.Token.Lexer
