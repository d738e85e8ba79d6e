import SeastarStarter.Registry
import SeastarStarter.Quiescence
import SeastarStarter.Reentrancy
import SeastarStarter.MongoInterface
import SeastarStarter.CrudHandler
import SeastarStarter.Plan
import SeastarStarter.Commands
import SeastarStarter.Replies
import SeastarStarter.ConnLog
import SeastarStarter.ConnCreate
import SeastarStarter.DBClients
import SeastarStarter.MainFut
import SeastarStarter.HandleCounter
import SeastarStarter.DetachOrder
import SeastarStarter.FailedAttach
import SeastarStarter.ShardedMutex
import SeastarStarter.Reads
import SeastarStarter.TwoRequests
import SeastarStarter.Lib.OneAccess
import SeastarStarter.Requests
import SeastarStarter.AuditTrail
import SeastarStarter.Lib.Purge
import SeastarStarter.Tenants
import SeastarStarter.Snapshots
import SeastarStarter.Seastar
import SeastarStarter.StopSignal
import SeastarStarter.Lifecycle
import SeastarStarter.Shutdown
import SeastarStarter.Ownership
import SeastarStarter.DispatchEnds
import SeastarStarter.Restarts
import SeastarStarter.RequestFormat
import SeastarStarter.LockSections
import SeastarStarter.Serving
import SeastarStarter.Program
