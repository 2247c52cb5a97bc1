import Ostia.Bench.Agreement
import Ostia.Bench.Channel
import Ostia.Bench.Cut
import Ostia.Bench.Delivery
import Ostia.Bench.Exits
import Ostia.Bench.Progress
import Ostia.Bench.PutStream
import Ostia.Bench.Rendezvous
import Ostia.Capture.Accepted
import Ostia.Capture.BusId
import Ostia.Capture.Bytes
import Ostia.Capture.Collect
import Ostia.Capture.Consumer
import Ostia.Capture.Contract
import Ostia.Capture.Decimal
import Ostia.Capture.DerivedFixed
import Ostia.Capture.Directory
import Ostia.Capture.EmitXml
import Ostia.Capture.EmittedXml
import Ostia.Capture.Finish
import Ostia.Capture.Hex
import Ostia.Capture.HwlocFacts
import Ostia.Capture.HwlocTree
import Ostia.Capture.Interrupt
import Ostia.Capture.JsonSpans
import Ostia.Capture.LeakSearch
import Ostia.Capture.Manifest
import Ostia.Capture.Nvml
import Ostia.Capture.Pipeline
import Ostia.Capture.Prepare
import Ostia.Capture.Published
import Ostia.Capture.QueriedLinks
import Ostia.Capture.RawSet
import Ostia.Capture.Record
import Ostia.Capture.Replay
import Ostia.Capture.ReplayedFacts
import Ostia.Capture.Restored
import Ostia.Capture.Scope
import Ostia.Capture.Sources
import Ostia.Capture.Spans
import Ostia.Capture.Staging
import Ostia.Capture.ValuesFree
import Ostia.Capture.Verdict
import Ostia.Capture.Visible
import Ostia.Capture.Vpd
import Ostia.Capture.Writers
import Ostia.Capture.WrittenDocs
import Ostia.Dev.Artifacts
import Ostia.Dev.Bench
import Ostia.Dev.Bootstrap
import Ostia.Dev.Capabilities
import Ostia.Dev.CompareRuns
import Ostia.Dev.Evidence
import Ostia.Dev.Fetch
import Ostia.Dev.Gate
import Ostia.Dev.Guards
import Ostia.Dev.Importer
import Ostia.Dev.JsonText
import Ostia.Dev.Kept
import Ostia.Dev.LinkPools
import Ostia.Dev.Links
import Ostia.Dev.LogStream
import Ostia.Dev.Manifest
import Ostia.Dev.PairFile
import Ostia.Dev.PollRanks
import Ostia.Dev.PosixPath
import Ostia.Dev.Remote
import Ostia.Dev.RequiredGate
import Ostia.Dev.StepPlan
import Ostia.Dev.Supervisor
import Ostia.Dev.Teardown
import Ostia.Dev.Text
import Ostia.Dev.Upload
import Ostia.Dev.Value
import Ostia.Dev.Watchdog
import Ostia.Dev.WrittenText
import Ostia.Foundation.Binary64
import Ostia.Foundation.Deciding
import Ostia.Foundation.DenseRank
import Ostia.Foundation.Double
import Ostia.Foundation.Effect
import Ostia.Foundation.Fallible
import Ostia.Foundation.ForestClasses
import Ostia.Foundation.Framing
import Ostia.Foundation.Growth
import Ostia.Foundation.JsonGrammar
import Ostia.Foundation.Multigraph
import Ostia.Foundation.OrdMap
import Ostia.Foundation.Outage
import Ostia.Foundation.Reordering
import Ostia.Foundation.Resume
import Ostia.Foundation.Sha256
import Ostia.Foundation.ShellWords
import Ostia.Foundation.Sorting
import Ostia.Foundation.Transition
import Ostia.Foundation.Transversal
import Ostia.Foundation.UnionFind
import Ostia.Foundation.While
import Ostia.Foundation.WordSearch
import Ostia.Foundation.Xml
import Ostia.Telemetry.Catalog
import Ostia.Telemetry.Header
import Ostia.Telemetry.Lines
import Ostia.Tool.Command
import Ostia.Tool.Diff
import Ostia.Tool.Fixture
import Ostia.Tool.Golden
import Ostia.Tool.Identified
import Ostia.Tool.Imported
import Ostia.Tool.PairDiff
import Ostia.Tool.PrintDiff
import Ostia.Topology.Builder
import Ostia.Topology.BuilderContract
import Ostia.Topology.BuilderGraph
import Ostia.Topology.BuilderLinks
import Ostia.Topology.BuilderNvlinks
import Ostia.Topology.BuilderOrder
import Ostia.Topology.BuilderSafety
import Ostia.Topology.BuilderTree
import Ostia.Topology.Compact
import Ostia.Topology.Identity.Canonical
import Ostia.Topology.Identity.Certificate
import Ostia.Topology.Identity.Closing
import Ostia.Topology.Identity.Equitable
import Ostia.Topology.Identity.Graph
import Ostia.Topology.Identity.Isomorphism
import Ostia.Topology.Identity.Level
import Ostia.Topology.Identity.Meeting
import Ostia.Topology.Identity.Orbits
import Ostia.Topology.Identity.Pair
import Ostia.Topology.Identity.PermGroup
import Ostia.Topology.Identity.Pruning
import Ostia.Topology.Identity.Refine
import Ostia.Topology.Identity.Search
import Ostia.Topology.Identity.StabiliserChain
import Ostia.Topology.Identity.StrongGenerators
import Ostia.Topology.Identity.Tree
import Ostia.Topology.Identity.Twins
import Ostia.Topology.Json
import Ostia.Topology.Layout
import Ostia.Topology.Model
import Ostia.Topology.Pretty
import Ostia.Topology.Schema
import Ostia.Topology.SchemaMeaning
import Ostia.Topology.SchemaPaths
import Ostia.Topology.Sha256
