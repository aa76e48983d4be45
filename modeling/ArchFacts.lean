import ArchFacts.Text.Blank
import ArchFacts.Text.Utf8
import ArchFacts.Text.Match
import ArchFacts.Json.Printer
import ArchFacts.Json.Node
import ArchFacts.Json.Decode
import ArchFacts.Fact.Basic
import ArchFacts.Fact.Decoder
import ArchFacts.Fact.Writer
import ArchFacts.SlashPath
import ArchFacts.Records.Reader
import ArchFacts.Records.Writer
import ArchFacts.FirstSeen
import ArchFacts.Graph.Basic
import ArchFacts.Graph.Impact
import ArchFacts.Graph.Path
import ArchFacts.Cycle.Components
import ArchFacts.Cycle.Finding
import ArchFacts.Store.Basic
import ArchFacts.Store.Filter
import ArchFacts.Store.Query
import ArchFacts.Store.Tagging
import ArchFacts.Directory.Access
import ArchFacts.Failure
import ArchFacts.Store.Change
import ArchFacts.Cycle.Report
import ArchFacts.Graph.Report
import ArchFacts.Yaml.Document
import ArchFacts.Yaml.Writer
import ArchFacts.Config.Basic
import ArchFacts.Config.Decoder
import ArchFacts.Config.File
import ArchFacts.CommandLine.Command
import ArchFacts.CommandLine.Run
import ArchFacts.Main
import ArchFacts.Proofs.Store.Indexes
import ArchFacts.Proofs.Cycle.Partition
import ArchFacts.Proofs.Graph.Adjacency
import ArchFacts.Proofs.Graph.Traversal
import ArchFacts.Proofs.Store.Persistence
import ArchFacts.Proofs.Graph.Construction
import ArchFacts.Proofs.Graph.Agreement
import ArchFacts.Proofs.Cycle.Findings
import ArchFacts.Proofs.Store.Paging
import ArchFacts.Proofs.Store.Filtering
import ArchFacts.Proofs.Cycle.Resolution
import ArchFacts.Proofs.Cycle.GraphEdges
import ArchFacts.Proofs.FactOrder
import ArchFacts.Proofs.Store.History
import ArchFacts.Proofs.Records.Stream
import ArchFacts.Proofs.Store.GraphSnapshot
import ArchFacts.Proofs.Records.Reading
import ArchFacts.Proofs.Records.Batches
import ArchFacts.Proofs.Fact.Presentations
import ArchFacts.Proofs.Directory.Naming
import ArchFacts.Proofs.Directory.Making
import ArchFacts.Proofs.Store.Saving
import ArchFacts.Proofs.Store.Replacing
import ArchFacts.Proofs.Store.Loading
import ArchFacts.Proofs.Store.Tagging
import ArchFacts.Proofs.Store.Dimensions
import ArchFacts.Proofs.CommandLine.Files
import ArchFacts.Proofs.CommandLine.Import
import ArchFacts.Proofs.Json.Proper
import ArchFacts.Proofs.Fact.Proper
import ArchFacts.Proofs.CommandLine.Tagging
import ArchFacts.Proofs.Graph.Trails
import ArchFacts.Proofs.Graph.Ceilings
import ArchFacts.Proofs.Graph.Discoveries
import ArchFacts.Proofs.Graph.Crossings
import ArchFacts.Proofs.Graph.Layers
import ArchFacts.Proofs.Graph.Buckets
import ArchFacts.Proofs.Graph.Impact
import ArchFacts.Proofs.Graph.NearestModule
import ArchFacts.Proofs.Cycle.Discovery
import ArchFacts.Proofs.Cycle.FindingPath
import ArchFacts.Proofs.Cycle.Evidence
import ArchFacts.Proofs.Cycle.CompletionOrder
import ArchFacts.Proofs.Cycle.Ledger
import ArchFacts.Proofs.Cycle.RecursiveSearch
import ArchFacts.Proofs.Store.Summaries
import ArchFacts.Proofs.Yaml.Layout
import ArchFacts.Proofs.Yaml.BlockMapping
import ArchFacts.Proofs.Config.RoundTrip
import ArchFacts.Proofs.Config.Decoding
import ArchFacts.Proofs.Config.Settings
import ArchFacts.Proofs.CommandLine.Searches
