import Adro.Orchestration.Closure
import Adro.Orchestration.Paths
import Adro.Orchestration.Extract
import Adro.Orchestration.Backoff
import Adro.Orchestration.Tick
import Adro.Orchestration.Measured
import Adro.Orchestration.Traces
import Adro.EventStore.Idempotency
import Adro.EventStore.Streams
import Adro.EventStore.Tamper
import Adro.Harness.Frontier
import Adro.Harness.Reduce
import Adro.Control.Isolation
import Adro.Control.Nesting
import Adro.Control.Shared
import Adro.Control.Oldest
import Adro.Control.Logs
import Adro.Orchestration.Words
import Adro.Runtime.Lineage
import Adro.Context.Manifest
import Adro.Events.Durable
import Adro.Runtime.Leases
import Adro.Pipeline.Workflow
import Adro.Store.Comments
import Adro.Auth.Login
