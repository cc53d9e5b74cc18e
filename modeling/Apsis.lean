import Apsis.Core.Celestrak.Http
import Apsis.Core.Celestrak.RoundTrip
import Apsis.Core.Config
import Apsis.Core.Events.Attempt
import Apsis.Core.Events.Batches
import Apsis.Core.Events.Completion
import Apsis.Core.Events.Connection
import Apsis.Core.Events.Delivery
import Apsis.Core.Events.Dispatcher
import Apsis.Core.Events.Dsn
import Apsis.Core.Events.Exclusive
import Apsis.Core.Events.Isolation
import Apsis.Core.Events.Lifecycle
import Apsis.Core.Events.Overtaking
import Apsis.Core.Events.Progress
import Apsis.Core.Events.Queue
import Apsis.Core.Events.Reconnection
import Apsis.Core.Events.Recording
import Apsis.Core.Events.Worker
import Apsis.Core.Jobs.Cadence
import Apsis.Core.Jobs.Exclusion
import Apsis.Core.Jobs.Fencing
import Apsis.Core.Jobs.Loop
import Apsis.Core.Jobs.Passes
import Apsis.Core.Jobs.Progress
import Apsis.Core.Jobs.Spacing
import Apsis.Core.Jobs.Statements
import Apsis.Core.Jobs.Worker
import Apsis.Library.Hosting
import Apsis.Library.Lines
import Apsis.Library.Paging
import Apsis.Library.Percent
import Apsis.Library.Planar
import Apsis.Library.Progress
import Apsis.Library.ReadCommitted
import Apsis.Library.Refinement
import Apsis.Library.Sessions
import Apsis.Library.System
import Apsis.Library.Table
import Apsis.Library.Text
import Apsis.Library.Timing
import Apsis.Library.Url
import Apsis.Library.Waiting
import Apsis.Main
import Apsis.Shutdown
import Apsis.Tracking.Apart
import Apsis.Tracking.Bbox
import Apsis.Tracking.Calls
import Apsis.Tracking.Convergence
import Apsis.Tracking.Dangling
import Apsis.Tracking.Deadlock
import Apsis.Tracking.Extraction
import Apsis.Tracking.Feed
import Apsis.Tracking.Freshness
import Apsis.Tracking.Ingest
import Apsis.Tracking.Mixing
import Apsis.Tracking.Passes
import Apsis.Tracking.Provenance
import Apsis.Tracking.Pursuit
import Apsis.Tracking.Readings
import Apsis.Tracking.Recompute
import Apsis.Tracking.Registration
import Apsis.Tracking.Replacement
import Apsis.Tracking.Sampling
import Apsis.Tracking.SatelliteList
import Apsis.Tracking.Splicing
import Apsis.Tracking.StationPasses
import Apsis.Tracking.Tables
