import SchemaCatalog.Calendar.Date
import SchemaCatalog.Calendar.Digits
import SchemaCatalog.Calendar.Time
import SchemaCatalog.Catalog.Basic
import SchemaCatalog.Catalog.Definitions
import SchemaCatalog.Catalog.Related
import SchemaCatalog.Codec.Decode
import SchemaCatalog.Command.Arguments
import SchemaCatalog.Command.Basic
import SchemaCatalog.Command.Help
import SchemaCatalog.Command.Run
import SchemaCatalog.Composition.Graph
import SchemaCatalog.Composition.Order
import SchemaCatalog.Disk.Basic
import SchemaCatalog.Disk.Snapshot
import SchemaCatalog.Entity.Basic
import SchemaCatalog.Entity.Build
import SchemaCatalog.Entity.Merge
import SchemaCatalog.Error
import SchemaCatalog.Form.Basic
import SchemaCatalog.Form.Codec
import SchemaCatalog.Form.Validation
import SchemaCatalog.Json.Basic
import SchemaCatalog.Json.Printer
import SchemaCatalog.Json.Reader
import SchemaCatalog.Json.Reading
import SchemaCatalog.Keyed
import SchemaCatalog.Linker.Basic
import SchemaCatalog.Linker.Check
import SchemaCatalog.Linker.Codec
import SchemaCatalog.Linker.PathTree
import SchemaCatalog.Main
import SchemaCatalog.Number.Binary64
import SchemaCatalog.Number.Literal
import SchemaCatalog.Number.Render
import SchemaCatalog.Number.Shortest
import SchemaCatalog.Pattern.Basic
import SchemaCatalog.Pattern.CharSet
import SchemaCatalog.Pattern.Parser
import SchemaCatalog.Pattern.Written
import SchemaCatalog.Proofs.Catalog.Invariants
import SchemaCatalog.Proofs.Catalog.Runs
import SchemaCatalog.Proofs.Catalog.Saving
import SchemaCatalog.Proofs.Composition.Reachability
import SchemaCatalog.Proofs.Form.Checking
import SchemaCatalog.Proofs.Form.Scope
import SchemaCatalog.Proofs.Form.Verdict
import SchemaCatalog.Proofs.Linker.PathFault
import SchemaCatalog.Proofs.Linker.Tree
import SchemaCatalog.Proofs.Linker.TreeCheck
import SchemaCatalog.Proofs.Results
import SchemaCatalog.Proofs.Schema.Members
import SchemaCatalog.Proofs.Text.Dotted
import SchemaCatalog.Requirement.Basic
import SchemaCatalog.Requirement.Codec
import SchemaCatalog.Schema.Basic
import SchemaCatalog.Schema.Definition
import SchemaCatalog.Schema.Kind
import SchemaCatalog.Schema.ScalarCodec
import SchemaCatalog.Settings.Basic
import SchemaCatalog.Settings.Layers
import SchemaCatalog.Settings.Load
import SchemaCatalog.Settings.Path
import SchemaCatalog.Settings.Value
import SchemaCatalog.Store
import SchemaCatalog.Text.Basic
import SchemaCatalog.Text.Letters
import SchemaCatalog.Text.Quoted
import SchemaCatalog.Toml.Basic
import SchemaCatalog.Toml.Moment
import SchemaCatalog.Toml.Parser
import SchemaCatalog.Toml.Scalar
import SchemaCatalog.Toml.Writer
import SchemaCatalog.Proofs.Linker.Verdict
import SchemaCatalog.Proofs.Composition.Arrangement
import SchemaCatalog.Proofs.Catalog.Loading
import SchemaCatalog.Proofs.Catalog.Reloading
import SchemaCatalog.Proofs.Calendar.Written
import SchemaCatalog.Proofs.Catalog.Lookups
import SchemaCatalog.Proofs.Entity.Exported
import SchemaCatalog.Proofs.Entity.Updating
import SchemaCatalog.Proofs.Catalog.Indexing
import SchemaCatalog.Proofs.Catalog.Relating
import SchemaCatalog.Proofs.Catalog.Identifiers
import SchemaCatalog.Proofs.Catalog.Counters
import SchemaCatalog.Proofs.Catalog.Histories
import SchemaCatalog.Proofs.Form.Places
import SchemaCatalog.Proofs.Form.HiddenLists
import SchemaCatalog.Proofs.Entity.Conformance
import SchemaCatalog.Proofs.Entity.Restoring
import SchemaCatalog.Proofs.Requirement.Describing
import SchemaCatalog.Proofs.Catalog.Appending
import SchemaCatalog.Proofs.Catalog.Mirroring
import SchemaCatalog.Proofs.Catalog.Reach
import SchemaCatalog.Proofs.Catalog.Outages
import SchemaCatalog.Proofs.Form.Visits
import SchemaCatalog.Proofs.Form.Attribution
import SchemaCatalog.Proofs.Linker.References
import SchemaCatalog.Proofs.Catalog.Resolving
import SchemaCatalog.Proofs.Codec.Values
import SchemaCatalog.Proofs.Codec.Records
import SchemaCatalog.Proofs.Schema.RoundTrip
import SchemaCatalog.Proofs.Linker.Matches
import SchemaCatalog.Proofs.Composition.Cycles
import SchemaCatalog.Proofs.Entity.Merging
import SchemaCatalog.Proofs.Form.Wrapping
import SchemaCatalog.Proofs.Entity.Undeclared
import SchemaCatalog.Proofs.Requirement.Typing
import SchemaCatalog.Proofs.Codec.Exchange
import SchemaCatalog.Proofs.Linker.TreeKeys
import SchemaCatalog.Proofs.Schema.Duplicates
import SchemaCatalog.Proofs.Composition.Closures
import SchemaCatalog.Proofs.Toml.Documents
import SchemaCatalog.Proofs.Disk.Writing
import SchemaCatalog.Proofs.Settings.Layering
import SchemaCatalog.Proofs.Settings.Saving
