import RouteDoc.CommandLine.Options
import RouteDoc.CommandLine.Parser
import RouteDoc.Decimal.Binary64
import RouteDoc.Decimal.Layout
import RouteDoc.Decimal.Shortest
import RouteDoc.Docblock.Arguments
import RouteDoc.Docblock.Extract
import RouteDoc.Docblock.Fault
import RouteDoc.Docblock.Metadata
import RouteDoc.Docblock.Sighting
import RouteDoc.Docblock.Url
import RouteDoc.Dump.Entry
import RouteDoc.Dump.Fault
import RouteDoc.Dump.Import
import RouteDoc.Extraction
import RouteDoc.Files.Disk
import RouteDoc.Files.Fault
import RouteDoc.Files.Path
import RouteDoc.Files.Scan
import RouteDoc.Files.Tree
import RouteDoc.Format
import RouteDoc.Json.Fault
import RouteDoc.Json.Form
import RouteDoc.Json.Number
import RouteDoc.Json.Parser
import RouteDoc.Json.Printer
import RouteDoc.Json.Value
import RouteDoc.Keyed
import RouteDoc.Listing
import RouteDoc.Log
import RouteDoc.Main
import RouteDoc.Notice
import RouteDoc.OpenApi.Builder
import RouteDoc.OpenApi.Collision
import RouteDoc.OpenApi.Decoding
import RouteDoc.OpenApi.Document
import RouteDoc.OpenApi.Encoding
import RouteDoc.OpenApi.Finding
import RouteDoc.OpenApi.Validation
import RouteDoc.OrderedMap
import RouteDoc.Output
import RouteDoc.Parameter
import RouteDoc.Placeholder
import RouteDoc.Program
import RouteDoc.Route
import RouteDoc.RouteSet
import RouteDoc.Text.Blank
import RouteDoc.Text.Lines
import RouteDoc.Text.Plain
import RouteDoc.Text.Search
import RouteDoc.Verb
import RouteDoc.Yaml.Ambiguity
import RouteDoc.Yaml.Printer
import RouteDoc.Yaml.Scalar
import RouteDoc.Proofs.Dump.Import
import RouteDoc.Proofs.RouteSet.Operations
import RouteDoc.Proofs.Dump.Absorb
import RouteDoc.Proofs.Json.Members
import RouteDoc.Proofs.Extraction.Outcome
import RouteDoc.Proofs.Extraction.Merge
import RouteDoc.Proofs.Text.Search
import RouteDoc.Proofs.Docblock.Fields
import RouteDoc.Proofs.Docblock.Markers
import RouteDoc.Proofs.Docblock.Arguments
import RouteDoc.Proofs.Json.Object
import RouteDoc.Proofs.Docblock.Blocks
import RouteDoc.Proofs.Docblock.Profile
import RouteDoc.Proofs.Docblock.Rendering
import RouteDoc.Proofs.Dump.Profile
import RouteDoc.Proofs.OpenApi.Paths
import RouteDoc.Proofs.OpenApi.Findings
import RouteDoc.Proofs.Dump.Document
import RouteDoc.Proofs.Dump.Reapply
import RouteDoc.Proofs.RouteSet.Reachable
import RouteDoc.Proofs.Dump.Reimport
import RouteDoc.Proofs.Extraction.Rerun
import RouteDoc.Proofs.OpenApi.Operations
import RouteDoc.Proofs.OpenApi.Collisions
import RouteDoc.Proofs.Text.Bytes
import RouteDoc.Proofs.OpenApi.Soundness
import RouteDoc.Proofs.Docblock.Independence
import RouteDoc.Proofs.Docblock.WellFormed
import RouteDoc.Proofs.Dump.Order
import RouteDoc.Proofs.Dump.Frame
import RouteDoc.Proofs.Json.Printed
import RouteDoc.Proofs.OpenApi.RoundTrip
import RouteDoc.Proofs.Docblock.Openings
import RouteDoc.Proofs.Dump.Effect
import RouteDoc.Proofs.Files.Path
import RouteDoc.Proofs.Files.Visits
import RouteDoc.Proofs.Files.Scan
import RouteDoc.Proofs.Files.Writing
import RouteDoc.Proofs.Program.Outputs
import RouteDoc.Proofs.Docblock.Layout
import RouteDoc.Proofs.Docblock.LineEndings
import RouteDoc.Proofs.OpenApi.SharedParameters
import RouteDoc.Proofs.Docblock.Url
import RouteDoc.Proofs.Listing
import RouteDoc.Proofs.Dump.Placeholders
import RouteDoc.Proofs.Route
