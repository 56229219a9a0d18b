import EufyNvr.Addon.Cleared
import EufyNvr.Cloud.SameRegion
import EufyNvr.Cloud.ShareKey
import EufyNvr.Cloud.Wire
import EufyNvr.Coordinator.Primed
import EufyNvr.Discovery.Delivery
import EufyNvr.Endpoint.Entries
import EufyNvr.Endpoint.Internal
import EufyNvr.Endpoint.Rtsp
import EufyNvr.Gate.Closeup
import EufyNvr.Gate.Fifo
import EufyNvr.Gate.ProcessStart
import EufyNvr.Generator.Credentials
import EufyNvr.Generator.Distinct
import EufyNvr.Generator.Publication
import EufyNvr.Generator.Stability
import EufyNvr.Lib.Search
import EufyNvr.Oracle.ControlStatus
import EufyNvr.Oracle.Events
import EufyNvr.Oracle.Lines
import EufyNvr.Snapshot.Discard
import EufyNvr.Snapshot.Failure
import EufyNvr.Snapshot.Staleness
import EufyNvr.Stream.Acknowledgement
import EufyNvr.Stream.Conversation
import EufyNvr.Stream.Reader
import EufyNvr.Supervisor.Echo
import EufyNvr.Supervisor.Rejection
import EufyNvr.Supervisor.Stall
import EufyNvr.Supervisor.Success
import EufyNvr.Supervisor.Teardown
import EufyNvr.System.Safety
import EufyNvr.Warmer.Authorization
import EufyNvr.Warmer.Report
