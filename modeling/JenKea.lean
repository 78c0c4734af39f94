import JenKea.Api.NeedsHands
import JenKea.Api.Unwritten
import JenKea.Api.Recorded
import JenKea.Api.Loaded
import JenKea.ChangeSet.AllOrNothing
import JenKea.RevisionHistory
import JenKea.Investigation.RoundTrip
import JenKea.Investigation.Runs
import JenKea.Dns.Converge
import JenKea.Dns.Unread
import JenKea.Dns.Owned
import JenKea.Dns.Distinct
import JenKea.Import.Guards
import JenKea.Import.Integrity
import JenKea.Import.Isc
import JenKea.Incidents.Run
import JenKea.Compare.Unprinted
import JenKea.Edit.Sockets
import JenKea.Edit.SubnetRuns
import JenKea.Edit.KeptPools
import JenKea.Edit.OptionEditor
import JenKea.Doctor.PoolsOverlap
import JenKea.Doctor.Never
import JenKea.Explain.Inputs
import JenKea.Explain.Options
import JenKea.Changes.Exact
import JenKea.Edit.Attached
import JenKea.Edit.DeleteClass
import JenKea.Explain.Classes
import JenKea.Explain.Raises
import JenKea.Explain.Guards
import JenKea.Explain.Reservations
import JenKea.Explain.Expression
import JenKea.Explain.Agree
import JenKea.Credentials.Convert
import JenKea.Recovery.Tamper
import JenKea.Problems.Timing
import JenKea.Problems.Once
import JenKea.Export.Undo
import JenKea.Export.ReadBack
import JenKea.Api.LoadTime
import JenKea.Subnets.Pools
import JenKea.Subnets.OptionKept
import JenKea.Import.Routes
import JenKea.Import.Handled
import JenKea.Import.Trees
import JenKea.Helper.FileSet
import JenKea.Helper.Apply
import JenKea.Helper.LogCursor
import JenKea.Helper.Update
import JenKea.SubnetMap.RoundTrip
import JenKea.Settings.Serial
import JenKea.KeaLog.Naks
import JenKea.ConfigMerge.Merge
import JenKea.ConfigMerge.Configure
import JenKea.ConfigMerge.Identity
import JenKea.ConfigMerge.Answers
import JenKea.KeaLog.Transactions
import JenKea.KeaLog.Unmixed
import JenKea.Lib.Sessions
import JenKea.KeaLog.Exchanges
import JenKea.LogTail.Tail
import JenKea.Migrations.Promotion
import JenKea.Lib.SingleFlight
