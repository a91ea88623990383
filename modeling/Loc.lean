import Loc.Lib.Runs
import Loc.Lib.Channel
import Loc.Lib.Recency
import Loc.Record
import Loc.Cache
import Loc.Lookup
import Loc.Message
import Loc.Coordinator
import Loc.Entity.Protocol
import Loc.System
import Loc.Refinement
import Loc.Access
import Loc.Progress
import Loc.Entity.Routing
import Loc.Entity.Authority
import Loc.Guarantee.Authority
import Loc.Entity.Waiters
import Loc.Guarantee.Waiters
import Loc.Entity.Existence
import Loc.Guarantee.Existence
import Loc.Entity.Provenance
import Loc.Guarantee.Provenance
import Loc.Entity.Convergence
import Loc.Guarantee.Convergence
import Loc.Guarantee.Recognition
import Loc.Entity.News
import Loc.Entity.Refresh
import Loc.Guarantee.Refresh
import Loc.Entity.Unregister
import Loc.Guarantee.Unregister
import Loc.Lib.Retention
import Loc.Lib.Inclusion
import Loc.CacheRuns
import Loc.Guarantee.Cache
import Loc.Guarantee.Lookup
import Loc.Entity.SelfPointer
import Loc.Guarantee.SelfPointer
import Loc.Lib.Stateful
import Loc.Entity.Ledger
import Loc.Ledger
import Loc.Guarantee.Noninterference
import Loc.Guarantee.Immediate
import Loc.Lib.Flush
import Loc.Reentrancy
import Loc.Serving
import Loc.Guarantee.Reentrancy
import Loc.Lib.Termination
import Loc.Entity.Drain
import Loc.Harness
import Loc.Guarantee.Drain
import Loc.Guarantee.Resolution
import Loc.Entity.Interest
import Loc.Entity.Traffic
import Loc.Guarantee.Traffic
import Loc.Lib.Timeline
import Loc.Entity.Reads
import Loc.Guarantee.Reads
import Loc.Records
import Loc.Guarantee.Records
import Loc.Lib.Residence
import Loc.Guarantee.Retention
import Loc.Guarantee.Topology
import Loc.Entity.Order
import Loc.Guarantee.Order
import Loc.Entity.Lax
import Loc.Guarantee.Lax
import Loc.Entity.Pace
import Loc.Guarantee.Service
import Loc.Entity.Verdicts
import Loc.Guarantee.Verdicts
import Loc.Lib.Pointers
import Loc.Entity.Forwarding
import Loc.Guarantee.Forwarding
