import Arbor.Batch
import Arbor.Census
import Arbor.Command.Options
import Arbor.Command.Run
import Arbor.Config
import Arbor.Conversion
import Arbor.Export
import Arbor.FileSystem
import Arbor.FileType
import Arbor.Json
import Arbor.Kind
import Arbor.Limits
import Arbor.Main
import Arbor.Message
import Arbor.Message.Misfit
import Arbor.Message.Prune
import Arbor.Message.Records
import Arbor.Node
import Arbor.Node.Cut
import Arbor.Node.Equality
import Arbor.Node.Json
import Arbor.Node.Message
import Arbor.Node.Shape
import Arbor.Outline
import Arbor.Path
import Arbor.Proofs.Canonical
import Arbor.Proofs.Clean
import Arbor.Proofs.Embedding
import Arbor.Proofs.Failures
import Arbor.Proofs.Fidelity
import Arbor.Proofs.Induction
import Arbor.Proofs.Misfit
import Arbor.Proofs.Pruning
import Arbor.Proofs.Rebuild
import Arbor.Proofs.Records
import Arbor.Proofs.Reversible
import Arbor.Proofs.Tidy
import Arbor.Proofs.Wire.Decoding
import Arbor.Proofs.Wire.Layout
import Arbor.Proofs.Wire.Nesting
import Arbor.Proofs.Wire.RoundTrip
import Arbor.Proofs.Wire.Values
import Arbor.Proofs.WireTypes
import Arbor.Scan
import Arbor.Toml.Document
import Arbor.Toml.Item
import Arbor.Toml.Scalar
import Arbor.Trace
import Arbor.Tree
import Arbor.Wire.Encode
import Arbor.Wire.Fault
import Arbor.Wire.Record
import Arbor.Wire.Schema
import Arbor.Wire.Varint
import Arbor.Workspace
import Arbor.Proofs.Wire.Prefix
import Arbor.Proofs.Wire.Seam
import Arbor.Proofs.Truncation
import Arbor.Proofs.Walk.Calls
import Arbor.Proofs.Walk.Nesting
import Arbor.Proofs.Walk.Visits
import Arbor.Proofs.Cutting
import Arbor.Proofs.Wire.Thinning
import Arbor.Proofs.Thinning
import Arbor.Proofs.Normalization
import Arbor.Proofs.Depth
import Arbor.Proofs.Size
import Arbor.Proofs.Wire.Whole
import Arbor.Proofs.Concatenation
import Arbor.Proofs.Export
import Arbor.Proofs.Batch
import Arbor.Proofs.Command
import Arbor.Proofs.Config
import Arbor.Proofs.Toml
import Arbor.Proofs.Notices
import Arbor.Proofs.Counting
import Arbor.Proofs.Outline.Levels
import Arbor.Proofs.Outline.Shape
import Arbor.Proofs.Outline.LineCount
import Arbor.Proofs.Walk.Strictness
import Arbor.Proofs.Balance
import Arbor.Proofs.Path
import Arbor.Proofs.Scan
