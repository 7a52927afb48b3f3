import PipelineStacks.Archive.Crc32
import PipelineStacks.Archive.Gzip
import PipelineStacks.Archive.Inflate
import PipelineStacks.Archive.Tar
import PipelineStacks.Backoff
import PipelineStacks.Cluster.Api
import PipelineStacks.Cluster.Kind
import PipelineStacks.Cluster.Metadata
import PipelineStacks.Cluster.Object
import PipelineStacks.Cluster.Store
import PipelineStacks.Cluster.Timestamp
import PipelineStacks.CommandLine.Arguments
import PipelineStacks.CommandLine.Report
import PipelineStacks.CommandLine.Session
import PipelineStacks.Controller.Outside
import PipelineStacks.Controller.Startup
import PipelineStacks.Controller.Watching
import PipelineStacks.Decimal.Binary64
import PipelineStacks.Decimal.Shortest
import PipelineStacks.Digest.Sha256
import PipelineStacks.Effect
import PipelineStacks.Failure
import PipelineStacks.Gateway
import PipelineStacks.Json.Basic
import PipelineStacks.Json.MergePatch
import PipelineStacks.Json.Parser
import PipelineStacks.Json.Printer
import PipelineStacks.Json.Record
import PipelineStacks.Logging.Filter
import PipelineStacks.Logging.TraceSpec
import PipelineStacks.Main
import PipelineStacks.Metrics
import PipelineStacks.Pipeline.Activation
import PipelineStacks.Pipeline.Archive
import PipelineStacks.Pipeline.Asset
import PipelineStacks.Pipeline.Documents
import PipelineStacks.Pipeline.Error
import PipelineStacks.Pipeline.Fetch
import PipelineStacks.Pipeline.Index
import PipelineStacks.Pipeline.Ownership
import PipelineStacks.Pipeline.Source
import PipelineStacks.Pipeline.Template
import PipelineStacks.Pipeline.Upkeep
import PipelineStacks.Pipeline.UseMap
import PipelineStacks.Probes
import PipelineStacks.Program
import PipelineStacks.Proofs.Activation
import PipelineStacks.Proofs.Adoption
import PipelineStacks.Proofs.Answers
import PipelineStacks.Proofs.ArchiveDependence
import PipelineStacks.Proofs.ArchiveIntegrity
import PipelineStacks.Proofs.Attempts
import PipelineStacks.Proofs.BodyOrigin
import PipelineStacks.Proofs.Certificates
import PipelineStacks.Proofs.Completion
import PipelineStacks.Proofs.Conduct
import PipelineStacks.Proofs.Confinement
import PipelineStacks.Proofs.Convergence
import PipelineStacks.Proofs.Counters
import PipelineStacks.Proofs.Decoding
import PipelineStacks.Proofs.Delays
import PipelineStacks.Proofs.Deletion
import PipelineStacks.Proofs.DeletionRace
import PipelineStacks.Proofs.DirectiveGrammar
import PipelineStacks.Proofs.Downloads
import PipelineStacks.Proofs.Expiry
import PipelineStacks.Proofs.FixedPoint
import PipelineStacks.Proofs.Glimpse
import PipelineStacks.Proofs.Interleaving
import PipelineStacks.Proofs.JsonText
import PipelineStacks.Proofs.Leftovers
import PipelineStacks.Proofs.ListedNames
import PipelineStacks.Proofs.Loading
import PipelineStacks.Proofs.LostWrites
import PipelineStacks.Proofs.ObjectStore
import PipelineStacks.Proofs.OwnerSet
import PipelineStacks.Proofs.OwnerUpdates
import PipelineStacks.Proofs.Owners
import PipelineStacks.Proofs.Presence
import PipelineStacks.Proofs.Reach
import PipelineStacks.Proofs.Recorded
import PipelineStacks.Proofs.ReleasedObject
import PipelineStacks.Proofs.Rendering
import PipelineStacks.Proofs.Requests
import PipelineStacks.Proofs.Restoration
import PipelineStacks.Proofs.Retention
import PipelineStacks.Proofs.Retries
import PipelineStacks.Proofs.Revalidation
import PipelineStacks.Proofs.RevalidationRace
import PipelineStacks.Proofs.Settling
import PipelineStacks.Proofs.SharedAssets
import PipelineStacks.Proofs.Sightings
import PipelineStacks.Proofs.SortedMap
import PipelineStacks.Proofs.StatusPatch
import PipelineStacks.Proofs.StatusShape
import PipelineStacks.Proofs.StatusText
import PipelineStacks.Proofs.SteadyStore
import PipelineStacks.Proofs.StoreTrace
import PipelineStacks.Proofs.Tally
import PipelineStacks.Proofs.TraceDirectives
import PipelineStacks.Proofs.UseCount
import PipelineStacks.Proofs.Utf8RoundTrip
import PipelineStacks.Proofs.VersionedStore
import PipelineStacks.Proofs.Withdrawal
import PipelineStacks.Reconcile.Pass
import PipelineStacks.Reconcile.Record
import PipelineStacks.Reconcile.Requeue
import PipelineStacks.Reconcile.Status
import PipelineStacks.Settings
import PipelineStacks.SortedMap
import PipelineStacks.Stack.Definition
import PipelineStacks.Stack.Resource
import PipelineStacks.Stack.Spec
import PipelineStacks.Stack.Status
import PipelineStacks.Text.Blank
import PipelineStacks.Text.Chars
import PipelineStacks.Text.Hex
import PipelineStacks.Text.Order
import PipelineStacks.Text.Quoted
import PipelineStacks.Text.Utf8
import PipelineStacks.Transport.Cache
import PipelineStacks.Transport.Download
import PipelineStacks.Transport.ReleaseHost
import PipelineStacks.Watch
import PipelineStacks.WordSize
import PipelineStacks.Yaml.Cursor
import PipelineStacks.Yaml.Document
import PipelineStacks.Yaml.Node
import PipelineStacks.Yaml.Plain
import PipelineStacks.Yaml.Printer
import PipelineStacks.Yaml.Record
import PipelineStacks.Yaml.Resolve
import PipelineStacks.Yaml.Token
import PipelineStacks.Yaml.Token.Property
import PipelineStacks.Yaml.Token.Scalar
import PipelineStacks.Yaml.Token.Stream
import PipelineStacks.Yaml.Value
