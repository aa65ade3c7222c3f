import Eggwork.Lib.Broadcast
import Eggwork.Lib.Program
import Eggwork.Runner.Output
import Eggwork.Store.Changes

/-! The node: its durable tables, one process over them, and the operations its
tasks are made of.

A task is a program over `Op`. An operation is one access to shared state, so two
tasks may interleave between any two of them; those that are an `await` in the
source are marked, since only there can a request's future be dropped. Ids of
records and tasks are positions in their lists, which only grow while a process
lives. The history of store calls and the log are bookkeeping: no operation reads
them. -/
namespace Eggwork.Server
open Lib Store Runner

abbrev RecordId := Nat
abbrev TaskId := Nat

def eventCapacity : Nat := 32
def maxRecentExecutions : Nat := 1024
def i64Max : Int := 2 ^ 63 - 1

inductive ResourceId where
  | execution (id : ExecutionId)
  | workspace (id : WorkspaceId)
deriving DecidableEq

/-- What the node is started with. The authorizer, the request digest, the lease
hash and the UUID parser are not modelled further. -/
structure NodeConfig where
  leaseTtlMillis : Nat
  maxActiveExecutions : Nat
  capabilitiesFeatures : List String
  authorizeExecute : PrincipalId → ResourceId → Bool
  requestDigestWithWorkspace : ExecutionSpec → Option WorkspaceId → Option (UInt16 × String)
  leaseHash : LeaseId → String
  isUuid : String → Bool

/-- `unix_millis().saturating_add(lease_ttl)`. -/
def NodeConfig.leaseExpiry (config : NodeConfig) (now : Int) : Int :=
  min (now + min (config.leaseTtlMillis : Int) i64Max) i64Max

/-! ### Records, streams, responses -/

structure LeaseState where
  expiresAt : Nat
  expired : Bool
deriving DecidableEq, Repr

/-- `ExecutionRecord`. `key` is the row it was made for, `pipe` the output channel
its run has opened; a lock holds the task that has it. -/
structure ExecutionRecord where
  key : RowKey
  snapshot : ExecutionSnapshot
  commitLock : Option TaskId
  cancelled : Bool
  events : Broadcast ExecutionEvent
  finished : Bool
  leaseHash : String
  lease : LeaseState
  leaseLock : Option TaskId
  pipe : Option Pipe

/-- The record an event stream attaches to: one of the heap, or a
`recovered_record`, whose channel has no other sender. -/
inductive Attached where
  | live (record : RecordId)
  | recovered (snapshot : ExecutionSnapshot)
deriving DecidableEq

/-- The state `stream::unfold` carries; no receiver once its sender is gone. -/
structure EventStream where
  key : RowKey
  receiver : Option (RecordId × Nat)
  replay : List ExecutionEvent
  lastSequence : Nat
  ended : Bool
deriving DecidableEq

inductive Response where
  | error (status : Nat) (code message : String)
  | snapshot (status : Nat) (snapshot : ExecutionSnapshot)
  | events (stream : EventStream)
  | internal (message : String)
deriving DecidableEq

inductive StreamItem where
  | event (event : ExecutionEvent)
  | lagged
deriving DecidableEq

/-- What a run captures outputs for. -/
structure WorkspaceCapture where
  id : WorkspaceId
  outputs : List DeclaredOutput
deriving DecidableEq

/-- What `run_execution` is spawned with. -/
structure RunRequest where
  record : RecordId
  isolation : IsolationRequirement
  resources : ResourceRequirements
  workspace : Option WorkspaceCapture
deriving DecidableEq

structure WorkspaceRecord where
  executionId : String
  generation : UInt64
  principalId : String
  storageKey : String
  state : String
  expiresUnixMs : Option Nat
  /-- The root is a directory and no link. -/
  directory : Bool
deriving DecidableEq

/-! ### Operations -/

/-- Which branch of the lease monitor's `select!` is taken. -/
inductive Wake where
  | cancelled | notified | elapsed
deriving DecidableEq

inductive Received where
  | event (event : ExecutionEvent) (next : Nat)
  | lagged
  | closed

inductive Op where
  -- the map of recent executions, behind one async mutex
  | lockExecutions
  | unlockExecutions
  | executionsGet (id : ExecutionId)
  | executionsLen
  | executionsIter
  | executionsRemove (id : ExecutionId)
  | executionsInsert (id : ExecutionId) (record : RecordId)
  -- the store, on the blocking pool
  | lookup (id : ExecutionId) (generation : ExecutionGeneration)
  | reserve (snapshot : ExecutionSnapshot) (canonicalVersion : UInt16) (digest principalId leaseHash : String)
      (leaseExpiresUnixMs : Int)
  | commitEvent (snapshot : ExecutionSnapshot) (kind : ExecutionEventKind)
  | updateLease (id : ExecutionId) (generation : ExecutionGeneration) (leaseHash renewalId : String)
      (leaseExpiresUnixMs : Int)
  | loadPage (id : ExecutionId) (generation : ExecutionGeneration) (afterSequence : Nat)
  | loadSnapshot (id : ExecutionId) (generation : Option ExecutionGeneration)
  | incrementMetric (name : String)
  -- one record
  | newRecord (snapshot : ExecutionSnapshot) (leaseHash : String)
  | readSnapshot (record : RecordId)
  | writeSnapshot (record : RecordId) (snapshot : ExecutionSnapshot)
  | lockCommit (record : RecordId)
  | unlockCommit (record : RecordId)
  | recordLeaseHash (record : RecordId)
  | cancel (record : RecordId)
  | finish (record : RecordId)
  | lockLease (record : RecordId)
  | unlockLease (record : RecordId)
  | readLease (record : RecordId)
  | extendLease (record : RecordId) (expiresAt : Nat)
  | expireLease (record : RecordId)
  | waitLease (record : RecordId) (deadline : Nat)
  | send (record : RecordId) (event : ExecutionEvent)
  | subscribe (record : RecordId)
  | recv (record : RecordId) (position : Nat)
  -- the node
  | loadDraining
  | isPersistentlyDraining
  | storeDraining
  | tryAcquirePermit
  | dropPermit
  | unixMillis
  | instant
  | resolve (workspace : WorkspaceId) (id : ExecutionId) (generation : ExecutionGeneration) (principal : PrincipalId)
  | markActive (workspace : WorkspaceId)
  | markTerminal (workspace : WorkspaceId)
  -- tasks
  | spawnMonitor (record : RecordId)
  | spawnRun (request : RunRequest)
  | respond (response : Response)
  | yield (item : StreamItem)
  -- the runner of a record
  | startRunner (record : RecordId)
  | select (record : RecordId) (outputClosed pending : Bool)
  | isDrained (record : RecordId)
  | tryRecv (record : RecordId)
  | captureDeclared
  | panicked
deriving DecidableEq

@[reducible] def Op.Answer : Op → Type
  | .executionsGet _ => Option RecordId
  | .executionsLen => Nat
  | .executionsIter => List (ExecutionId × RecordId)
  | .lookup .. => Except StoreError (Option ExistingExecution)
  | .reserve .. => Except StoreError ReserveResult
  | .commitEvent .. => Except StoreError (Option ExecutionEvent)
  | .updateLease .. => Except StoreError (Option Int)
  | .loadPage .. => Except StoreError (Option EventPage)
  | .loadSnapshot .. => Except StoreError (Option ExecutionSnapshot)
  | .newRecord .. => RecordId
  | .readSnapshot _ => ExecutionSnapshot
  | .recordLeaseHash _ => String
  | .readLease _ => LeaseState
  | .waitLease .. => Wake
  | .subscribe _ => Nat
  | .recv .. => Received
  | .loadDraining | .isPersistentlyDraining | .tryAcquirePermit => Bool
  | .unixMillis => Int
  | .instant => Nat
  | .resolve .. => Option String
  | .markActive _ | .markTerminal _ => Bool
  | .select .. => Polled
  | .isDrained _ => Bool
  | .tryRecv _ => Option OutputChunk
  | .captureDeclared => Option Nat
  | _ => Unit

theorem Op.answer_nonempty (o : Op) : Nonempty o.Answer := by
  cases o <;> first
    | exact ⟨()⟩
    | exact ⟨none⟩
    | exact ⟨[]⟩
    | exact ⟨.error .sql⟩
    | exact ⟨(0 : Nat)⟩
    | exact ⟨(0 : Int)⟩
    | exact ⟨true⟩
    | exact ⟨""⟩
    | exact ⟨Wake.elapsed⟩
    | exact ⟨Received.closed⟩
    | exact ⟨Polled.disabled⟩
    | exact ⟨LeaseState.mk 0 false⟩
    | exact ⟨ExecutionSnapshot.mk 0 ⟨"id", by decide⟩ ⟨0⟩ .accepted none⟩

/-- The operations a suspended future can be dropped at. -/
def Op.awaits : Op → Bool
  | .lockExecutions | .lookup .. | .reserve .. | .commitEvent .. | .updateLease .. | .loadPage ..
  | .loadSnapshot .. | .incrementMetric _ | .readSnapshot _ | .writeSnapshot .. | .lockCommit _ | .lockLease _
  | .waitLease .. | .recv .. | .select .. | .captureDeclared => true
  | _ => false

/-- The transaction an operation runs on the blocking pool, if it writes. -/
def Op.call (now : Int) : Op → Option Call
  | .reserve snapshot version digest principal hash expires =>
    some (.reserve snapshot version digest principal hash expires now)
  | .commitEvent snapshot kind => some (.commitEvent snapshot kind now)
  | .updateLease id generation hash renewal expires => some (.updateLease id generation hash renewal expires now)
  | _ => none

/-- The local state of `run_execution` between two rounds of its loops. -/
structure Run where
  request : RunRequest
  drain : Drain
deriving DecidableEq

/-- The loops of the node's tasks, by what they carry round. -/
inductive Loop where
  | monitorLease (record : RecordId)
  | runExecution (request : RunRequest)
  | drain (run : Run)
  | flush (run : Run)
  | events (stream : EventStream)

abbrev effects : Effects := ⟨Op, Op.Answer, Loop⟩

abbrev Async := Program effects

/-! ### The node -/

/-- What a task was started for. -/
inductive Origin where
  | execute (handle : ExecutionHandle)
  | control (id : ExecutionId) (generation : ExecutionGeneration) (renew : Bool)
  | events (id : ExecutionId) (generation : ExecutionGeneration) (after : Nat)
  | run (record : RecordId)
  | monitor (record : RecordId)
deriving DecidableEq

/-- A request's future may be dropped by the runtime, a spawned task may not. -/
def Origin.isRequest : Origin → Bool
  | .execute _ | .control .. | .events .. => true
  | _ => false

structure Task where
  origin : Origin
  program : Async Unit
  permit : Bool
  response : Option Response
  output : List StreamItem

/-- What a task can do to a record. -/
inductive Act where
  | published | cancelled | leased
deriving DecidableEq

inductive Observation where
  | spawned (key : RowKey)
  | acted (origin : Origin) (act : Act) (key : RowKey)
deriving DecidableEq

structure Node (J : Serde) where
  -- durable
  store : ExecutionStore J
  history : List (Call × Bool)
  marker : Bool
  workspaces : Table WorkspaceId WorkspaceRecord
  -- clocks
  unixMillis : Nat
  instant : Nat
  -- the process
  up : Bool
  executions : Table ExecutionId RecordId
  executionsLock : Option TaskId
  records : List ExecutionRecord
  permits : Nat
  draining : Bool
  tasks : List Task
  jobs : List Op
  log : List Observation

end Eggwork.Server
