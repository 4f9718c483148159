import FieldOrder.ChangeScope
import FieldOrder.ChangeScope.Codec
import FieldOrder.Check
import FieldOrder.CommandLine.Arguments
import FieldOrder.CommandLine.Command
import FieldOrder.Config
import FieldOrder.Config.Codec
import FieldOrder.Diagnostic
import FieldOrder.Disk
import FieldOrder.Facts
import FieldOrder.Facts.Codec
import FieldOrder.Fault
import FieldOrder.HelperCache
import FieldOrder.Json.Number
import FieldOrder.Json.Reader
import FieldOrder.Json.Record
import FieldOrder.Json.Value
import FieldOrder.Json.Writer
import FieldOrder.Log
import FieldOrder.Main
import FieldOrder.ModulePath
import FieldOrder.Order
import FieldOrder.Pass
import FieldOrder.Path
import FieldOrder.Provenance.Bindings
import FieldOrder.Provenance.Model
import FieldOrder.Provenance.Trace
import FieldOrder.Resolution
import FieldOrder.Schema.Flags
import FieldOrder.Schema.Helper
import FieldOrder.Schema.Literal
import FieldOrder.Schema.Map
import FieldOrder.Syntax.Basic
import FieldOrder.Syntax.Codec
import FieldOrder.Syntax.View
import FieldOrder.Syntax.Visit
import FieldOrder.Table
import FieldOrder.Text
import FieldOrder.Text.Uppercase
import FieldOrder.Verdict
import FieldOrder.Yaml.Cursor
import FieldOrder.Yaml.Node
import FieldOrder.Yaml.Reader
import FieldOrder.Yaml.Scalar
import FieldOrder.Proofs.ChangeScope.Lookup
import FieldOrder.Proofs.Check.Callees
import FieldOrder.Proofs.Check.Growth
import FieldOrder.Proofs.Check.Parens
import FieldOrder.Proofs.Check.Scope
import FieldOrder.Proofs.Check.Sequence
import FieldOrder.Proofs.Check.Sites
import FieldOrder.Proofs.Check.Soundness
import FieldOrder.Proofs.CommandLine.Outcome
import FieldOrder.Proofs.Diagnostic.Order
import FieldOrder.Proofs.Diagnostic.RoundTrip
import FieldOrder.Proofs.Facts.LookUp
import FieldOrder.Proofs.Facts.RoundTrip
import FieldOrder.Proofs.HelperCache.Discovery
import FieldOrder.Proofs.HelperCache.LifeCycle
import FieldOrder.Proofs.HelperCache.Origins
import FieldOrder.Proofs.HelperCache.Requests
import FieldOrder.Proofs.Json.Record
import FieldOrder.Proofs.Json.Scalar
import FieldOrder.Proofs.Json.Spelling
import FieldOrder.Proofs.Order.Canonical
import FieldOrder.Proofs.Order.Finding
import FieldOrder.Proofs.Order.Groups
import FieldOrder.Proofs.Order.Nested
import FieldOrder.Proofs.Order.Rearrangement
import FieldOrder.Proofs.Pass.Searches
import FieldOrder.Proofs.Pass.Workers
import FieldOrder.Proofs.Path.Ancestors
import FieldOrder.Proofs.Path.Components
import FieldOrder.Proofs.Provenance.Answers
import FieldOrder.Proofs.Provenance.Arguments
import FieldOrder.Proofs.Provenance.Composition
import FieldOrder.Proofs.Provenance.ModelSources
import FieldOrder.Proofs.Provenance.Parens
import FieldOrder.Proofs.Provenance.Reads
import FieldOrder.Proofs.Provenance.StraightLine
import FieldOrder.Proofs.Provenance.Structure
import FieldOrder.Proofs.Provenance.Tables
import FieldOrder.Proofs.Provenance.Tags
import FieldOrder.Proofs.Schema.Answers
import FieldOrder.Proofs.Schema.Extraction
import FieldOrder.Proofs.Schema.FollowedPath
import FieldOrder.Proofs.Schema.LastKeys
import FieldOrder.Proofs.Schema.NearestAssignment
import FieldOrder.Proofs.Schema.Parens
import FieldOrder.Proofs.Schema.QualifiedNames
import FieldOrder.Proofs.Schema.Routes
import FieldOrder.Proofs.Syntax.Addresses
import FieldOrder.Proofs.Syntax.Children
import FieldOrder.Proofs.Syntax.Hollow
import FieldOrder.Proofs.Syntax.Nesting
import FieldOrder.Proofs.Syntax.Parens
import FieldOrder.Proofs.Syntax.Parts
import FieldOrder.Proofs.Syntax.RoundTrip
import FieldOrder.Proofs.Syntax.Walk
import FieldOrder.Proofs.Syntax.Wrapping
import FieldOrder.Proofs.Table.Keys
import FieldOrder.Proofs.Table.Last
import FieldOrder.Proofs.Text.Bytes
import FieldOrder.Proofs.Text.LowerCase
