import Rvx.Cli.TraceSort
import Rvx.Cli.TraceSorted
import Rvx.Collector.Progress
import Rvx.Collector.Safety
import Rvx.Collector.System
import Rvx.Core.ArtifactLineage
import Rvx.Core.Artifacts
import Rvx.Core.Double
import Rvx.Core.JsonGrammar
import Rvx.Core.JsonText
import Rvx.Core.Number
import Rvx.Core.NumberText
import Rvx.Core.Pointer
import Rvx.Core.Protocol
import Rvx.Core.References
import Rvx.Core.SnapshotChanges
import Rvx.Core.SnapshotText
import Rvx.Core.SnapshotViews
import Rvx.Core.Snapshots
import Rvx.Core.StoredSnapshot
import Rvx.Core.Tables
import Rvx.Core.Text
import Rvx.Core.Tracker
import Rvx.Core.Ui
import Rvx.Core.Value
import Rvx.Engine.ArtifactIndex
import Rvx.Engine.Batch
import Rvx.Engine.CatalogExact
import Rvx.Engine.CatalogReading
import Rvx.Engine.ChartCatalog
import Rvx.Engine.ChartContents
import Rvx.Engine.ChartCoverage
import Rvx.Engine.ChartFields
import Rvx.Engine.ChartIndex
import Rvx.Engine.ChartInsert
import Rvx.Engine.Consistency
import Rvx.Engine.Database
import Rvx.Engine.Discovery
import Rvx.Engine.HeadRuns
import Rvx.Engine.Heads
import Rvx.Engine.IngestSpec
import Rvx.Engine.Lifecycle
import Rvx.Engine.Lineage
import Rvx.Engine.LineageContents
import Rvx.Engine.PageRows
import Rvx.Engine.PageWalks
import Rvx.Engine.Pages
import Rvx.Engine.Pagination
import Rvx.Engine.Progress
import Rvx.Engine.Projections
import Rvx.Engine.Query
import Rvx.Engine.QueryControlled
import Rvx.Engine.QueryMerged
import Rvx.Engine.QueryPartition
import Rvx.Engine.QueryPoints
import Rvx.Engine.QuerySampling
import Rvx.Engine.QueryScan
import Rvx.Engine.QuerySelection
import Rvx.Engine.QuerySound
import Rvx.Engine.QueryWindows
import Rvx.Engine.Rebuild
import Rvx.Engine.Redelivery
import Rvx.Engine.Resolve
import Rvx.Engine.SampleArithmetic
import Rvx.Engine.Serde
import Rvx.Engine.SessionView
import Rvx.Engine.SnapshotDiff
import Rvx.Engine.SnapshotStore
import Rvx.Engine.StoreRuns
import Rvx.Lib.Ascii
import Rvx.Lib.Binary64
import Rvx.Lib.Binary64Order
import Rvx.Lib.Check
import Rvx.Lib.Decimal
import Rvx.Lib.Descent
import Rvx.Lib.ExactCover
import Rvx.Lib.FloatBits
import Rvx.Lib.Grouping
import Rvx.Lib.InFlight
import Rvx.Lib.KeyedTable
import Rvx.Lib.LittleEndian
import Rvx.Lib.LossyUtf8
import Rvx.Lib.OrderStatistics
import Rvx.Lib.OrderedMap
import Rvx.Lib.Paging
import Rvx.Lib.Printer
import Rvx.Lib.Projection
import Rvx.Lib.Ring
import Rvx.Lib.RoundRobin
import Rvx.Lib.RunMerging
import Rvx.Lib.Runs
import Rvx.Lib.Sampling
import Rvx.Lib.Script
import Rvx.Lib.Selection
import Rvx.Lib.StableSort
import Rvx.Lib.Table
import Rvx.Lib.TableScript
import Rvx.Lib.Tiling
import Rvx.Lib.Truncation
import Rvx.Lib.Windows
import Rvx.Registry.AuthSessions
import Rvx.Registry.Collector
import Rvx.Registry.ConfiguredRuns
import Rvx.Registry.Ingestor
import Rvx.Registry.IngestorRuns
import Rvx.Registry.Repository
import Rvx.Registry.RunLifecycle
import Rvx.Registry.UiContract
import Rvx.Registry.UiSaves
import Rvx.Registry.UiSelections
import Rvx.Registry.UiStore
import Rvx.Server.Access
import Rvx.Server.AccessControl
import Rvx.Server.LoginThrottle
import Rvx.Snapshots.Admission
import Rvx.Snapshots.History
import Rvx.Snapshots.Producer
import Rvx.Snapshots.ProducerInvariant
import Rvx.Snapshots.Session
import Rvx.Tables.Accumulators
import Rvx.Tables.AggregatePages
import Rvx.Tables.Aggregates
import Rvx.Tables.Catalog
import Rvx.Tables.Cells
import Rvx.Tables.Columns
import Rvx.Tables.Discovered
import Rvx.Tables.GroupedRows
import Rvx.Tables.Interleaving
import Rvx.Tables.Loading
import Rvx.Tables.Matching
import Rvx.Tables.NumericKey
import Rvx.Tables.PinnedReads
import Rvx.Tables.RecordPages
import Rvx.Tables.RowPages
import Rvx.Tables.Rows
import Rvx.Tables.Scalars
import Rvx.Tables.Scan
import Rvx.Tables.Search
import Rvx.Tables.Summary
import Rvx.Tables.SummaryExact
import Rvx.Tracking.AlertDelivery
import Rvx.Tracking.AlertEngine
import Rvx.Tracking.AlertModel
import Rvx.Tracking.AlertQueue
import Rvx.Tracking.AlertRuns
import Rvx.Tracking.AlertWindows
import Rvx.Tracking.ArtifactDigest
import Rvx.Tracking.Atomicity
import Rvx.Tracking.Batches
import Rvx.Tracking.Calls
import Rvx.Tracking.DigestIdentity
import Rvx.Tracking.DispatchAccounting
import Rvx.Tracking.Dispatcher
import Rvx.Tracking.DistinctSteps
import Rvx.Tracking.Expression
import Rvx.Tracking.Finishing
import Rvx.Tracking.Headers
import Rvx.Tracking.HistoryQuery
import Rvx.Tracking.HistoryReplay
import Rvx.Tracking.MissingData
import Rvx.Tracking.Parser
import Rvx.Tracking.Rendering
import Rvx.Tracking.RoundTrip
import Rvx.Tracking.Spelling
import Rvx.Tracking.State
import Rvx.Tracking.StepMachine
import Rvx.Tracking.ThreeValued
import Rvx.Web.Agreement
import Rvx.Web.BrowserPreferences
import Rvx.Web.ChoicesKept
import Rvx.Web.Coordinator
import Rvx.Web.DecimalDisplay
import Rvx.Web.DecimalRounding
import Rvx.Web.DurationPrinting
import Rvx.Web.DurationText
import Rvx.Web.EntriesKept
import Rvx.Web.ExactJson
import Rvx.Web.ExactProjection
import Rvx.Web.IntegerText
import Rvx.Web.LinearShades
import Rvx.Web.Numbers
import Rvx.Web.Preferences
import Rvx.Web.ReadCaching
import Rvx.Web.ReadsSettle
import Rvx.Web.SavesIsolated
import Rvx.Web.Script
import Rvx.Web.Served
import Rvx.Web.ShadeCoverage
import Rvx.Web.ShadeOrder
import Rvx.Web.ShadeWindow
import Rvx.Web.Shading
import Rvx.Web.SharedReads
import Rvx.Web.StatusFrames
import Rvx.Web.Tabs
import Rvx.Web.TimeBounds
import Rvx.Web.TimeBoundsExact
import Rvx.Web.Validators
import Rvx.Web.WorkspaceSaves
