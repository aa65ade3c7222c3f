import Eggwork.Server.Perform

/-! The node's request handlers and background tasks, as programs.

Each definition follows the source function of its name, in its order of shared
accesses; `execute` is cut at its stages. Guards a function still holds when it
returns are dropped by `respond`, or when the task ends. -/
namespace Eggwork.Server
open Lib Store Runner

/-- An operation the source awaits. -/
abbrev await (o : Op) : Async o.Answer := Program.op (E := effects) o

/-- An operation the source makes without awaiting. -/
abbrev sync (o : Op) : Async o.Answer := Program.op (E := effects) o

abbrev again {α : Type} (l : Loop) : Async α := Program.again (E := effects) l

/-- Count a rejection, then answer it. -/
def refuse (metric : String) (status : Nat) (code message : String) : Async Response := do
  await (.incrementMetric metric)
  pure (.error status code message)

def storeUnavailable : Response := .internal "execution store unavailable"

def executionNotFound : Response := .error 404 "execution_not_found" "execution not found"

/-! ### Publishing -/

def publish (r : RecordId) (state : ExecutionState) (result : Option ExecutionResult)
    (kind : ExecutionEventKind) : Async Unit := do
  await (.lockCommit r)
  let base ← await (.readSnapshot r)
  if isTerminal base.state then sync (.unlockCommit r)
  else
    let proposed := {base with state := state, result := result.or base.result}
    match ← await (.commitEvent proposed kind) with
    | .ok (some event) =>
      await (.writeSnapshot r proposed)
      sync (.send r event)
      sync (.unlockCommit r)
    | .ok none => sync (.unlockCommit r)
    | .error _ =>
      sync .storeDraining
      sync (.cancel r)
      sync (.unlockCommit r)

/-! ### Event streams -/

/-- `subscribe`: a recovered record's channel has no sender beyond the handler. -/
def subscribe : Attached → Async (Option (RecordId × Nat))
  | .live r => do
    let position ← sync (.subscribe r)
    pure (some (r, position))
  | .recovered _ => pure none

def attachedSnapshot : Attached → Async ExecutionSnapshot
  | .live r => await (.readSnapshot r)
  | .recovered snapshot => pure snapshot

def eventStreamResponse (key : RowKey) (after : Nat) (replay : List ExecutionEvent)
    (receiver : Option (RecordId × Nat)) (initialTerminal : Bool) : EventStream where
  key := key
  receiver := receiver
  replay := replay
  lastSequence := after
  ended := initialTerminal && replay.isEmpty

/-- What a page comes to for a cursor. -/
inductive Resumed where
  | expired
  | ahead
  | page (events : List ExecutionEvent)
deriving DecidableEq

/-- The checks `event_response` makes of a page. -/
def checkPage (after : Nat) (page : EventPage) : Resumed :=
  if ExecutionStore.saturatingAdd after 1 < page.baseSequence then .expired
  else if after ≥ page.nextSequence then .ahead
  else .page page.events

def eventResponse (id : ExecutionId) (generation : ExecutionGeneration) (after : Nat) (record : Attached) :
    Async Response := do
  let receiver ← subscribe record
  match ← await (.loadPage id generation after) with
  | .error _ => pure storeUnavailable
  | .ok none => pure executionNotFound
  | .ok (some page) =>
    match checkPage after page with
    | .expired => refuse "event_history_resync" 410 "history_expired" "event history has expired"
    | .ahead => pure (.error 416 "cursor_ahead" "event cursor is ahead of the journal")
    | .page events =>
      let snapshot ← attachedSnapshot record
      pure (.events (eventStreamResponse (id, generation.asI64) after events receiver (isTerminal snapshot.state)))

/-- An event taken from the replay or the receiver: skipped if already delivered. -/
def deliver (stream : EventStream) (event : ExecutionEvent) : Async Unit :=
  if event.sequence ≤ stream.lastSequence then again (.events stream)
  else do
    sync (.yield (.event event))
    again (.events {stream with lastSequence := event.sequence, ended := event.kind.isTerminal})

/-- One round of the stream's `unfold`. -/
def nextEvent (stream : EventStream) : Async Unit :=
  if stream.ended then pure ()
  else
    match stream.replay with
    | event :: replay => deliver {stream with replay} event
    | [] =>
      match stream.receiver with
      | none => pure ()
      | some (r, position) => do
        match ← await (.recv r position) with
        | .event event next => deliver {stream with receiver := some (r, next)} event
        | .lagged =>
          sync (.yield .lagged)
          again (.events {stream with ended := true})
        | .closed => pure ()

/-! ### Execute -/

def checkIsolationSupported (config : NodeConfig) : IsolationRequirement → Bool
  | .none | .bestEffort => true
  | .required => config.capabilitiesFeatures.contains "isolation.landlock.workspace-rw.v1"

def checkResourcesSupported (config : NodeConfig) (resources : ResourceRequirements) : Bool :=
  (!resources.memoryBytes.isRequired || config.capabilitiesFeatures.contains "resources.cgroups-v2.memory") &&
    (!resources.cpuMillis.isRequired || config.capabilitiesFeatures.contains "resources.cgroups-v2.cpu") &&
    (!resources.pids.isRequired || config.capabilitiesFeatures.contains "resources.cgroups-v2.pids")

def checkNetworkSupported (network : NetworkRequirement) : Bool := network == .unrestricted

/-- The admission flag, then the drain marker on disk. -/
def isDraining : Async Bool := do
  if ← sync .loadDraining then pure true else sync .isPersistentlyDraining

def refuseDraining : Async Response :=
  refuse "rejected_draining" 503 "draining" "node is not accepting executions"

def refuseWorkspace : Async Response :=
  refuse "rejected_invalid" 409 "workspace_not_ready" "workspace is unavailable for this execution"

/-- What a request stands for once it is canonicalized. -/
structure Identity where
  handle : ExecutionHandle
  canonicalVersion : UInt16
  digest : String
  principalId : String
  leaseHash : String
deriving DecidableEq

def Identity.key (i : Identity) : RowKey := (i.handle.executionId, i.handle.generation.asI64)

/-- The first snapshot of an execution. -/
def Identity.accepted (i : Identity) : ExecutionSnapshot where
  schemaVersion := apiSchemaVersion
  executionId := i.handle.executionId
  generation := i.handle.generation
  state := .accepted
  result := none

/-- Let a workspace expire that was activated for nothing. -/
def retire : Option WorkspaceId → Async Unit
  | none => pure ()
  | some workspace => do
    let _ ← sync (.markTerminal workspace)
    pure ()

/-- After `Created`: the record enters the map, then the run is spawned. -/
def launch (wire : ExecuteRequest) (i : Identity) : Async Response := do
  let r ← sync (.newRecord i.accepted i.leaseHash)
  sync (.executionsInsert i.handle.executionId r)
  sync .unlockExecutions
  publish r .accepted none (.state .accepted)
  sync (.spawnMonitor r)
  sync (.spawnRun {
    record := r
    isolation := wire.spec.command.isolation
    resources := wire.spec.command.resources
    workspace := wire.workspaceId.map fun id => ⟨id, wire.spec.command.declaredOutputs⟩ })
  eventResponse i.handle.executionId i.handle.generation 0 (.live r)

def reserveExecution (wire : ExecuteRequest) (i : Identity) (expires : Int) : Async Response := do
  match ← await (.reserve i.accepted i.canonicalVersion i.digest i.principalId i.leaseHash expires) with
  | .error _ =>
    retire wire.workspaceId
    pure storeUnavailable
  | .ok .created =>
    await (.incrementMetric "executions_accepted")
    launch wire i
  | .ok (.existing snapshot) =>
    sync .dropPermit
    if isTerminal snapshot.state then retire wire.workspaceId
    sync .unlockExecutions
    eventResponse i.handle.executionId i.handle.generation 0 (.recovered snapshot)
  | .ok .conflict =>
    retire wire.workspaceId
    pure (.error 409 "execution_identity_conflict" "execution identity conflicts with an existing request")
  | .ok .staleGeneration =>
    retire wire.workspaceId
    pure (.error 409 "generation_mismatch" "execution generation is stale or out of sequence")
  | .ok .storageFull =>
    await (.incrementMetric "rejected_storage")
    retire wire.workspaceId
    pure (.error 503 "storage_exhausted" "execution identity capacity reached")

/-- The terminal records met until their removal makes room. -/
def findTerminal (len : Nat) : List (ExecutionId × RecordId) → List ExecutionId → Async (List ExecutionId)
  | [], terminal => pure terminal
  | (id, r) :: rest, terminal => do
    let snapshot ← await (.readSnapshot r)
    let terminal := if isTerminal snapshot.state then terminal ++ [id] else terminal
    if len - terminal.length < maxRecentExecutions then pure terminal else findTerminal len rest terminal

def removeAll : List ExecutionId → Async Unit
  | [] => pure ()
  | id :: rest => do
    sync (.executionsRemove id)
    removeAll rest

/-- Make room in the map of recent executions. -/
def evict : Async Unit := do
  let len ← sync .executionsLen
  if len ≥ maxRecentExecutions then
    let entries ← sync .executionsIter
    let terminal ← findTerminal len entries []
    removeAll terminal

def activate : Option WorkspaceId → Async Bool
  | none => pure true
  | some workspace => sync (.markActive workspace)

/-- A new identity, with the map locked: admission proper. -/
def admitNew (wire : ExecuteRequest) (i : Identity) (expires : Int) : Async Response := do
  if ← isDraining then refuseDraining
  else if !(← sync .tryAcquirePermit) then
    refuse "rejected_busy" 503 "busy" "node execution limit reached"
  else
    evict
    if (← sync .executionsLen) ≥ maxRecentExecutions then
      refuse "rejected_storage" 503 "storage_exhausted" "recent execution capacity reached"
    else if !(← activate wire.workspaceId) then
      sync .dropPermit
      sync .unlockExecutions
      refuseWorkspace
    else reserveExecution wire i expires

/-- The map's record if it is of this generation, else one made of the row. -/
def attach (i : Identity) (existing : ExistingExecution) : Async Attached := do
  match ← sync (.executionsGet i.handle.executionId) with
  | some r =>
    let snapshot ← await (.readSnapshot r)
    pure (if snapshot.generation = i.handle.generation then .live r else .recovered existing.snapshot)
  | none => pure (.recovered existing.snapshot)

/-- An identity the store knows. -/
def resubmitted (i : Identity) (existing : ExistingExecution) : Async Response := do
  if existing.canonicalVersion ≠ i.canonicalVersion then
    pure (.error 409 "canonicalization_version_mismatch"
      "execution identity uses an unsupported request canonicalization version")
  else if existing.principalId ≠ i.principalId then
    pure (.error 403 "forbidden" "execution belongs to another principal")
  else if existing.digest ≠ i.digest ∨ existing.leaseTokenHash ≠ i.leaseHash then
    pure (.error 409 "execution_identity_conflict" "execution identity conflicts with an existing request")
  else
    let record ← attach i existing
    sync .unlockExecutions
    eventResponse i.handle.executionId i.handle.generation 0 record

def identify (config : NodeConfig) (wire : ExecuteRequest) (i : Identity) : Async Response := do
  let now ← sync .unixMillis
  await .lockExecutions
  match ← await (.lookup i.handle.executionId i.handle.generation) with
  | .error _ => pure storeUnavailable
  | .ok (some existing) => resubmitted i existing
  | .ok none => admitNew wire i (config.leaseExpiry now)

/-- Whether the workspace a request names, if any, is ready for it. -/
def resolveRoot (wire : ExecuteRequest) (principal : PrincipalId) : Async Bool :=
  match wire.workspaceId with
  | none => pure true
  | some workspace => do
    let root ← sync (.resolve workspace wire.handle.executionId wire.handle.generation principal)
    pure root.isSome

/-- The gates before the identity is looked up. `RunnerRequest::from_spec`, last
of them, repeats a validation that has passed. -/
def passGates (config : NodeConfig) (principal : PrincipalId) (wire : ExecuteRequest) : Async Response := do
  if ← isDraining then refuseDraining
  else if !checkIsolationSupported config wire.spec.command.isolation then
    refuse "rejected_capability" 409 "capability_mismatch"
      "requested filesystem isolation capability is unavailable"
  else if !checkResourcesSupported config wire.spec.command.resources then
    refuse "rejected_capability" 409 "capability_mismatch" "requested resource control capability is unavailable"
  else if !checkNetworkSupported wire.spec.command.network then
    refuse "rejected_capability" 409 "capability_mismatch" "requested network capability is unavailable"
  else
    match config.requestDigestWithWorkspace wire.spec wire.workspaceId with
    | none => refuse "rejected_invalid" 400 "invalid_request" "execution specification is invalid"
    | some (canonicalVersion, digest) =>
      if !(← resolveRoot wire principal) then refuseWorkspace
      else identify config wire ⟨wire.handle, canonicalVersion, digest, principal.value,
        config.leaseHash wire.handle.leaseId⟩

def authorized (config : NodeConfig) (principal : PrincipalId) (wire : ExecuteRequest) : Bool :=
  config.authorizeExecute principal (.execution wire.handle.executionId) &&
    wire.workspaceId.all fun workspace => config.authorizeExecute principal (.workspace workspace)

def execute (config : NodeConfig) (principal : PrincipalId) : Body ExecuteRequest → Async Response
  | .tooLarge => pure (.error 413 "request_too_large" "request body exceeds limit")
  | .invalid => pure (.error 400 "invalid_request" "request body is invalid")
  | .parsed wire =>
    if wire.schemaVersion ≠ apiSchemaVersion then
      pure (.error 426 "protocol_version" "unsupported schema version")
    else if !authorized config principal wire then
      pure (.error 403 "forbidden" "operation is not authorized")
    else if wire.handle.generation.get = 0 then
      pure (.error 400 "invalid_request" "execution generation is invalid")
    else if wire.spec.schemaVersion ≠ apiSchemaVersion then
      refuse "rejected_invalid" 426 "protocol_version" "unsupported execution schema version"
    else if !wire.spec.validate.isOk then
      refuse "rejected_invalid" 400 "invalid_request" "execution specification is invalid"
    else if !wire.spec.command.declaredOutputs.isEmpty && wire.workspaceId.isNone then
      refuse "rejected_invalid" 400 "workspace_required" "declared outputs require an execution workspace"
    else passGates config principal wire

/-! ### Control -/

def invalidLease : Response := .error 403 "invalid_lease" "execution lease is invalid"

def leaseExpired : Response := .error 409 "lease_expired" "execution lease has expired"

/-- The lease is past its expiry, or marked so. -/
def leaseLapsed (r : RecordId) : Async Bool := do
  let lease ← sync (.readLease r)
  if lease.expired then pure true
  else
    let now ← sync .instant
    pure (decide (now ≥ lease.expiresAt))

/-- Renew, with the record fetched and its snapshot read. -/
def renew (config : NodeConfig) (r : RecordId) (request : ControlRequest) (leaseHash : String)
    (snapshot : ExecutionSnapshot) : Async Response :=
  match request.renewalId with
  | none => pure (.error 400 "invalid_request" "renewal identifier is required")
  | some renewalId =>
    if renewalId.isEmpty || decide (renewalId.utf8ByteSize > maxIdBytes) then
      pure (.error 400 "invalid_request" "renewal identifier is invalid")
    else if isTerminal snapshot.state then
      pure (.error 409 "execution_terminal" "terminal execution cannot be renewed")
    else do
      await (.lockLease r)
      if ← leaseLapsed r then pure leaseExpired
      else
        let now ← sync .unixMillis
        match ← await (.updateLease request.handle.executionId request.handle.generation leaseHash renewalId
          (config.leaseExpiry now)) with
        | .error _ => pure storeUnavailable
        | .ok none => pure leaseExpired
        | .ok (some expires) =>
          let now ← sync .unixMillis
          let instant ← sync .instant
          sync (.extendLease r (instant + (expires - now).toNat))
          pure (.snapshot 200 snapshot)

/-- Cancel, with the record fetched and its snapshot read. -/
def cancel (r : RecordId) (snapshot : ExecutionSnapshot) : Async Response := do
  if !isTerminal snapshot.state && snapshot.state != .cancelling then
    await (.lockLease r)
    if ← leaseLapsed r then pure leaseExpired
    else
      sync (.unlockLease r)
      publish r .cancelling none (.state .cancelling)
      if !isTerminal (← await (.readSnapshot r)).state then sync (.cancel r)
      pure (.snapshot 202 (← await (.readSnapshot r)))
  else
    if snapshot.state == .cancelling then sync (.cancel r)
    pure (.snapshot 202 (← await (.readSnapshot r)))

/-- `executions.lock().await.get(&id).cloned()`. -/
def fetchRecord (id : ExecutionId) : Async (Option RecordId) := do
  await .lockExecutions
  let record ← sync (.executionsGet id)
  sync .unlockExecutions
  pure record

/-- The durable row and the latest generation are checked; then the record of the
execution is fetched, whichever generation it is of by then. -/
def controlRecord (config : NodeConfig) (request : ControlRequest) (isRenew : Bool)
    (existing : ExistingExecution) : Async Response := do
  match ← fetchRecord request.handle.executionId with
  | none => pure executionNotFound
  | some r =>
    let hash ← sync (.recordLeaseHash r)
    if hash ≠ existing.leaseTokenHash then pure invalidLease
    else
      let snapshot ← await (.readSnapshot r)
      if isRenew then renew config r request existing.leaseTokenHash snapshot else cancel r snapshot

def control (config : NodeConfig) (id : ExecutionId) (principal : PrincipalId) (isRenew : Bool) :
    Body ControlRequest → Async Response
  | .tooLarge => pure (.error 413 "request_too_large" "request body exceeds limit")
  | .invalid => pure (.error 400 "invalid_request" "request body is invalid")
  | .parsed request => do
    if request.schemaVersion ≠ apiSchemaVersion ∨ request.handle.executionId ≠ id then
      pure (.error 400 "invalid_request" "control request is invalid")
    else
      match ← await (.lookup id request.handle.generation) with
      | .error _ => pure storeUnavailable
      | .ok none => pure executionNotFound
      | .ok (some existing) =>
        if existing.principalId ≠ principal.value then
          pure (.error 403 "forbidden" "execution belongs to another principal")
        else if existing.leaseTokenHash ≠ config.leaseHash request.handle.leaseId then pure invalidLease
        else
          match ← await (.loadSnapshot id none) with
          | .error _ => pure storeUnavailable
          | .ok none => pure executionNotFound
          | .ok (some latest) =>
            if latest.generation ≠ request.handle.generation then
              pure (.error 409 "generation_mismatch" "execution generation is stale")
            else controlRecord config request isRenew existing

/-! ### Events -/

inductive Parameter (α : Type) where
  | absent
  | invalid
  | value (value : α)

structure EventsQuery where
  generation : Parameter ExecutionGeneration
  after : Parameter UInt64
  lease : Parameter LeaseId

def invalidRequest (message : String) : Response := .error 400 "invalid_request" message

def eventsRoute (config : NodeConfig) (id : ExecutionId) (principal : PrincipalId) (query : EventsQuery) :
    Async Response :=
  match query.generation with
  | .absent => pure (invalidRequest "generation is required")
  | .invalid => pure (invalidRequest "generation is invalid")
  | .value generation =>
    match query.after with
    | .absent => pure (invalidRequest "event cursor is required")
    | .invalid => pure (invalidRequest "event cursor is invalid")
    | .value after =>
      if (after.toNat : Int) > i64Max then
        pure (.error 416 "cursor_ahead" "event cursor is ahead of the journal")
      else
        match query.lease with
        | .absent => pure (invalidRequest "execution lease is required")
        | .invalid => pure (invalidRequest "execution lease is invalid")
        | .value lease => do
          match ← await (.lookup id generation) with
          | .error _ => pure storeUnavailable
          | .ok none => pure executionNotFound
          | .ok (some existing) =>
            if existing.principalId ≠ principal.value ∨ existing.leaseTokenHash ≠ config.leaseHash lease then
              pure (.error 403 "forbidden" "execution event access is not authorized")
            else follow id generation after.toNat (← fetchRecord id)
where
  follow (id : ExecutionId) (generation : ExecutionGeneration) (after : Nat) : Option RecordId → Async Response
    | some r => do
      let snapshot ← await (.readSnapshot r)
      if snapshot.generation = generation then eventResponse id generation after (.live r)
      else recovered id generation after
    | none => recovered id generation after
  recovered (id : ExecutionId) (generation : ExecutionGeneration) (after : Nat) : Async Response := do
    match ← await (.loadSnapshot id (some generation)) with
    | .error _ => pure storeUnavailable
    | .ok none => pure executionNotFound
    | .ok (some snapshot) => eventResponse id generation after (.recovered snapshot)

/-! ### Background tasks -/

def monitorLease (r : RecordId) : Async Unit := do
  if isTerminal (← await (.readSnapshot r)).state then pure ()
  else
    await (.lockLease r)
    let lease ← sync (.readLease r)
    sync (.unlockLease r)
    match ← await (.waitLease r lease.expiresAt) with
    | .cancelled => pure ()
    | .notified => again (.monitorLease r)
    | .elapsed =>
      await (.lockLease r)
      let now ← sync .instant
      let lease ← sync (.readLease r)
      if now ≥ lease.expiresAt then
        sync (.expireLease r)
        sync (.cancel r)
        sync (.unlockLease r)
      else
        sync (.unlockLease r)
        again (.monitorLease r)

def runExecution (request : RunRequest) : Async Unit := do
  publish request.record .running none (.state .running)
  sync (.startRunner request.record)
  again (.drain ⟨request, Drain.start⟩)

/-- One round of the drain loop. -/
def drainOutput (run : Run) : Async Unit := do
  match ← await (.select run.request.record run.drain.outputClosed run.drain.pending) with
  | .output chunk =>
    publish run.request.record .running none chunk.kind
    again (.drain run)
  | .closed =>
    let drain := run.drain.close
    again (if drain.result.isSome then .flush {run with drain} else .drain {run with drain})
  | .joined how =>
    let drain := run.drain.join how
    if ← sync (.isDrained run.request.record) then again (.flush {run with drain})
    else again (.drain {run with drain})
  | .disabled => sync .panicked

/-- Whether a finished run's declared outputs are captured. -/
def shouldCapture (completed : Bool) (workspace : WorkspaceCapture) (result : ExecutionResult) : Bool :=
  completed && !workspace.outputs.isEmpty && (result.state == .succeeded || result.state == .failed) &&
    result.failure != some .outputLimit

/-- Capture the declared outputs and let the workspace expire. -/
def finalize (run : Run) (result : ExecutionResult) : Async ExecutionResult :=
  match run.request.workspace with
  | none => pure result
  | some workspace => do
    let result ←
      if shouldCapture run.drain.result.isSome workspace result then do
        let _ ← await (.readSnapshot run.request.record)
        match ← await .captureDeclared with
        | some count => pure {result with artifactCount := count}
        | none => pure {result with finalizationFailure := some .artifactCapture}
      else pure result
    if ← sync (.markTerminal workspace.id) then pure result
    else pure {result with finalizationFailure := some .retention}

/-- After the drain loop: the terminal event. -/
def finishRun (run : Run) : Async Unit := do
  await (.lockLease run.request.record)
  let lease ← sync (.readLease run.request.record)
  sync (.unlockLease run.request.record)
  let result ← finalize run
    (run.drain.executionResult lease.expired run.request.isolation run.request.resources)
  await (.incrementMetric "terminal")
  publish run.request.record result.state (some result) (.state result.state)
  sync (.finish run.request.record)

/-- One round of the loop that empties the channel once the drain loop is left. -/
def flushOutput (run : Run) : Async Unit := do
  match ← sync (.tryRecv run.request.record) with
  | some chunk =>
    publish run.request.record .running none chunk.kind
    again (.flush run)
  | none => finishRun run

/-! ### Tasks -/

/-- A handler's response is returned; an event stream is then produced. -/
def serve (handler : Async Response) : Async Unit := do
  let response ← handler
  sync (.respond response)
  match response with
  | .events stream => again (.events stream)
  | _ => pure ()

def body : Loop → Async Unit
  | .monitorLease r => monitorLease r
  | .runExecution request => runExecution request
  | .drain run => drainOutput run
  | .flush run => flushOutput run
  | .events stream => nextEvent stream

end Eggwork.Server
