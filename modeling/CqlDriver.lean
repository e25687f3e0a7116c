import CqlDriver.Cluster.HostUp
import CqlDriver.Cluster.Reconnection
import CqlDriver.Cluster.SchedulerRuns
import CqlDriver.Concurrent.Yields
import CqlDriver.Concurrent.FailFast
import CqlDriver.Connection.Delivery
import CqlDriver.Connection.Frames
import CqlDriver.Connection.TimerErrors
import CqlDriver.Connection.WaiterReturns
import CqlDriver.Pool.Capacity
import CqlDriver.Pool.HostConnection
import CqlDriver.Session.KeyspaceReport
import CqlDriver.Session.Prepare
import CqlDriver.Session.Timestamps
import CqlDriver.Session.ColumnNames
import CqlDriver.Requests.Deadline
import CqlDriver.Requests.Once
import CqlDriver.Requests.Ledger
import CqlDriver.Metadata.Racks
import CqlDriver.Metadata.Recompute
import CqlDriver.Metadata.OneRack
import CqlDriver.Metadata.Tables
import CqlDriver.Metadata.Murmur3
import CqlDriver.Metadata.UserTypes
import CqlDriver.Policies.LocalDc
import CqlDriver.Policies.RoundRobin
import CqlDriver.Policies.TokenAware
import CqlDriver.Types.Vints
import CqlDriver.Types.TypeNames
import CqlDriver.Types.SortedSetRuns
import CqlDriver.Types.RoundTrip
import CqlDriver.Types.Nulls
import CqlDriver.Types.TimeUUIDs
import CqlDriver.Types.Times
import CqlDriver.Decoding.Agreement
import CqlDriver.Decoding.Sets
import CqlDriver.Statements.Batch
import CqlDriver.Results.ResultSet
import CqlDriver.Protocol.Rows
import CqlDriver.Literals.Escape
import CqlDriver.Mapper.Tracking
import CqlDriver.Mapper.BlindUpdate
import CqlDriver.Mapper.Diff
import CqlDriver.Mapper.BatchParameters
import CqlDriver.Mapper.NullColumns
