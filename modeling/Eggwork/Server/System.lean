import Eggwork.Lib.Transition
import Eggwork.Server.Handlers

/-! The node as a transition system.

An action lets one task make its next operation, or is something the world does:
a request arrives, its future is dropped, a runner writes output or exits, time
passes, the process dies and is started again. Every interleaving is a list of
actions. A store call in flight when its future is dropped still runs, as a job
of its own. -/
namespace Eggwork.Server
open Lib Store Runner

inductive Request where
  | execute (principal : PrincipalId) (body : Body ExecuteRequest)
  | control (id : ExecutionId) (principal : PrincipalId) (renew : Bool) (body : Body ControlRequest)
  | events (id : ExecutionId) (principal : PrincipalId) (query : EventsQuery)

/-- The generation and the cursor a query names; without one the route answers at once. -/
def EventsQuery.named (query : EventsQuery) : Option (ExecutionGeneration × Nat) :=
  match query.generation, query.after with
  | .value generation, .value after => some (generation, after.toNat)
  | _, _ => none

/-- The task a request starts; none where the handler answers at once. -/
def Request.task (config : NodeConfig) : Request → Option Task
  | .execute principal (.parsed wire) =>
    some ⟨.execute wire.handle, serve (Server.execute config principal (.parsed wire)), false, none, []⟩
  | .control id principal renew (.parsed request) =>
    some ⟨.control id request.handle.generation renew,
      serve (Server.control config id principal renew (.parsed request)), false, none, []⟩
  | .events id principal query => query.named.map fun (generation, after) =>
    ⟨.events id generation after, serve (eventsRoute config id principal query), false, none, []⟩
  | _ => none

inductive Action where
  | request (request : Request)
  | task (t : TaskId) (choice : Choice)
  | drop (t : TaskId)
  | job (i : Nat) (fails : Bool)
  | output (r : RecordId) (chunk : OutputChunk)
  | hangUp (r : RecordId)
  | exit (r : RecordId) (how : Joined)
  | clock (unixMillis elapsed : Nat)
  | setMarker (marker : Bool)
  | setDraining (draining : Bool)
  | setWorkspaces (workspaces : Table WorkspaceId WorkspaceRecord)
  | crash
  | start (fault : Fault)

variable {J : Serde}

/-- The task goes on with a program; at its end its guards are dropped. -/
def Node.resume (s : Node J) (t : TaskId) (program : Async Unit) : Node J :=
  let s' := s.modifyTask t fun task => {task with program}
  match program with
  | .done _ => s'.release t
  | _ => s'

def stepTask (config : NodeConfig) (s : Node J) (t : TaskId) (choice : Choice) : Option (Node J) :=
  match s.tasks[t]? with
  | none => none
  | some task =>
    match task.program with
    | .done _ => none
    | .loop l => some (s.resume t (body l))
    | .perform o next => (perform config s t choice o).map fun answer => answer.2.resume t (next answer.1)

/-- The runtime drops the future of a suspended request. -/
def dropTask (s : Node J) (t : TaskId) : Option (Node J) :=
  match s.tasks[t]? with
  | none => none
  | some task =>
    if task.origin.isRequest then
      match task.program with
      | .perform o _ =>
        if o.awaits then
          some ({s with jobs := if (o.call 0).isSome then s.jobs ++ [o] else s.jobs}.resume t (.done ()))
        else none
      | .loop _ => some (s.resume t (.done ()))
      | .done _ => none
    else none

/-- A detached store call finishes. -/
def runJob (s : Node J) (i : Nat) (fails : Bool) : Option (Node J) :=
  match s.jobs[i]? with
  | none => none
  | some o =>
    let s' := {s with jobs := s.jobs.eraseIdx i}
    match o.call s.unixMillis with
    | some call => some (if fails then s' else s'.transact call)
    | none => some s'

def modifyPipe (s : Node J) (r : RecordId) (f : Pipe → Option Pipe) : Option (Node J) :=
  match (s.records[r]?).bind (·.pipe) with
  | some pipe => (f pipe).map fun pipe => s.modifyRecord r fun record => {record with pipe := some pipe}
  | none => none

/-- The process is gone, with everything in memory. -/
def Node.stopped (s : Node J) : Node J :=
  {s with
    up := false
    executions := Table.empty
    executionsLock := none
    records := []
    permits := 0
    draining := false
    tasks := []
    jobs := []}

/-- The record `start` makes of a stored snapshot. -/
def loadedRecord (s : Node J) (snapshot : ExecutionSnapshot) : ExecutionRecord where
  key := rowKey snapshot
  snapshot := snapshot
  commitLock := none
  cancelled := false
  events := Broadcast.channel
  finished := true
  leaseHash := ""
  lease := ⟨s.instant, false⟩
  leaseLock := none
  pipe := none

def insertLoaded (s : Node J) (snapshot : ExecutionSnapshot) : Node J :=
  {s with
    executions := s.executions.put snapshot.executionId s.records.length
    records := s.records ++ [loadedRecord s snapshot]}

/-- `NodeServer::start`: recover, then load every snapshot into the map. -/
def start (config : NodeConfig) (s : Node J) (fault : Fault) : Node J :=
  if fault = .early then s
  else
    let s' := s.transact (.recover s.unixMillis)
    match s.store.recover s.unixMillis, s'.store.loadAll with
    | .ok _, .ok snapshots =>
      if fault = .late then s'
      else snapshots.foldl insertLoaded {s' with
        up := true
        permits := config.maxActiveExecutions
        draining := s.marker}
    | _, _ => s'

def step (config : NodeConfig) (s : Node J) : Action → Option (Node J)
  | .request request =>
    if s.up then
      match request.task config with
      | some task => some {s with tasks := s.tasks ++ [task]}
      | none => some s
    else none
  | .task t choice => stepTask config s t choice
  | .drop t => dropTask s t
  | .job i fails => runJob s i fails
  | .output r chunk => modifyPipe s r fun pipe => if pipe.closed then none else some (pipe.send chunk)
  | .hangUp r => modifyPipe s r fun pipe => some {pipe with closed := true}
  | .exit r how => modifyPipe s r fun pipe => if pipe.joined.isNone then some {pipe with joined := some how} else none
  | .clock unixMillis elapsed => some {s with unixMillis, instant := s.instant + elapsed}
  | .setMarker marker => some {s with marker}
  | .setDraining draining => if s.up then some {s with draining} else none
  | .setWorkspaces workspaces => some {s with workspaces}
  | .crash => if s.up then some s.stopped else none
  | .start fault => if s.up then none else some (start config s fault)

/-- A machine on which the node was never started. -/
def fresh (J : Serde) : Node J where
  store := ExecutionStore.empty
  history := []
  marker := false
  workspaces := Table.empty
  unixMillis := 0
  instant := 0
  up := false
  executions := Table.empty
  executionsLock := none
  records := []
  permits := 0
  draining := false
  tasks := []
  jobs := []
  log := []

/-! ### A small node

A configuration and requests for concrete runs. Digest and lease hash stand for
the SHA-256 of what they are given. -/

namespace Example

def config : NodeConfig where
  leaseTtlMillis := 60000
  maxActiveExecutions := 2
  capabilitiesFeatures := []
  authorizeExecute _ _ := true
  requestDigestWithWorkspace spec workspace :=
    some (2, String.intercalate " " spec.command.argv ++ (workspace.elim "" IdType.value))
  leaseHash lease := lease.value
  isUuid text := text.length == 36

def client : PrincipalId := ⟨"client", by decide⟩

/-- A generation of one execution, always under the same lease. -/
def handle (generation : UInt64) : ExecutionHandle :=
  ⟨⟨"build", by decide⟩, ⟨generation⟩, ⟨"lease", by decide⟩⟩

def key (generation : UInt64) : RowKey := ((handle generation).executionId, (handle generation).generation.asI64)

def spec : ExecutionSpec where
  schemaVersion := apiSchemaVersion
  command :=
    { argv := ["make"], cwd := none, environment := [], stdin := .null, timeoutMillis := 1000,
      output := ⟨1024, 16, .truncate⟩, declaredOutputs := [],
      resources := ⟨.notRequested, .notRequested, .notRequested⟩, isolation := .none, network := .unrestricted }
  metadata := []

def execute (generation : UInt64) : Action :=
  .request (.execute client (.parsed ⟨apiSchemaVersion, handle generation, none, spec⟩))

def cancel (generation : UInt64) : Action :=
  .request (.control (handle generation).executionId client false (.parsed ⟨apiSchemaVersion, handle generation, none⟩))

/-- A task makes its next operations. -/
def runs (t : TaskId) (operations : Nat) : List Action := List.replicate operations (.task t {})

/-- An execution is admitted and its run spawned, as task 2. -/
def admitted : List Action := [.start .none, execute 1] ++ runs 0 23

/-- Its run says that it is running, and waits for output. -/
def running : List Action := runs 2 9

/-- It is cancelled, by task 3. -/
def cancelled : List Action := [cancel 1] ++ runs 3 21

/-- The run of the first record ends. -/
def ended : List Action := [.hangUp 0, .exit 0 .panicked] ++ runs 2 17

end Example
end Eggwork.Server
