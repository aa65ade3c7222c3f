import Eggwork.Server.State

/-! What each operation does.

`perform` answers an operation and gives the node after it, or nothing while the
operation waits. What the outside world decides is the `Choice`: whether a store
call or a file-system call fails, in which order a hash map is walked, which
ready branch a `select!` takes. A failing store call leaves no trace. -/
namespace Eggwork.Server
open Lib Store Runner

def defaultRetentionMillis : Nat := 30 * 24 * 60 * 60 * 1000

/-- A call that fails before it has done anything, or after its first effect. -/
inductive Fault where
  | none | early | late
deriving DecidableEq

structure Choice where
  fault : Fault := .none
  order : List (ExecutionId × RecordId) := []
  wake : Wake := .elapsed
  artifacts : Option Nat := none

variable {J : Serde}

namespace Node

def modifyRecord (s : Node J) (r : RecordId) (f : ExecutionRecord → ExecutionRecord) : Node J :=
  {s with records := s.records.modify r f}

def modifyTask (s : Node J) (t : TaskId) (f : Task → Task) : Node J := {s with tasks := s.tasks.modify t f}

def observe (s : Node J) (o : Observation) : Node J := {s with log := s.log ++ [o]}

/-- Record what task `t` did to a record. -/
def act (s : Node J) (t : TaskId) (a : Act) (key : RowKey) : Node J :=
  match s.tasks[t]? with
  | some task => s.observe (.acted task.origin a key)
  | none => s

/-- Run a transaction on the store. -/
def transact (s : Node J) (call : Call) : Node J :=
  {s with store := call.exec s.store, history := s.history ++ [(call, true)]}

def releasePermit (s : Node J) (t : TaskId) : Node J :=
  match s.tasks[t]? with
  | some task =>
    if task.permit then {s.modifyTask t fun task => {task with permit := false} with permits := s.permits + 1}
    else s
  | none => s

def releaseLocks (t : TaskId) (record : ExecutionRecord) : ExecutionRecord :=
  {record with
    commitLock := if record.commitLock = some t then none else record.commitLock
    leaseLock := if record.leaseLock = some t then none else record.leaseLock}

/-- Drop every guard a task holds: at its end, or when its future is dropped. -/
def release (s : Node J) (t : TaskId) : Node J :=
  {s.releasePermit t with
    executionsLock := if s.executionsLock = some t then none else s.executionsLock
    records := s.records.map (releaseLocks t)}

end Node

/-! ### Workspaces -/

def validStorageKey (config : NodeConfig) (key : String) : Bool :=
  "workspace-".toList.isPrefixOf key.toList && config.isUuid (String.ofList (key.toList.drop 10))

def WorkspaceRecord.isExpired (w : WorkspaceRecord) (now : Nat) : Bool := w.expiresUnixMs.any (· ≤ now)

def resolve (config : NodeConfig) (s : Node J) (workspace : WorkspaceId) (id : ExecutionId)
    (generation : ExecutionGeneration) (principal : PrincipalId) : Option String :=
  match s.workspaces.get? workspace with
  | none => none
  | some w =>
    if w.state ≠ "Ready" ∨ w.executionId ≠ id.value ∨ w.generation ≠ generation.get ∨
        w.principalId ≠ principal.value ∨ w.isExpired s.unixMillis = true then none
    else if validStorageKey config w.storageKey = false ∨ w.directory = false then none
    else some w.storageKey

def markActive (config : NodeConfig) (s : Node J) (fault : Fault) (workspace : WorkspaceId) : Bool × Node J :=
  match s.workspaces.get? workspace with
  | none => (false, s)
  | some w =>
    if fault = .early ∨ w.state ≠ "Ready" ∨ w.isExpired s.unixMillis = true ∨
        validStorageKey config w.storageKey = false ∨ w.directory = false then (false, s)
    else (fault = .none, {s with
      workspaces := s.workspaces.update workspace fun w => {w with expiresUnixMs := none}})

def markTerminal (s : Node J) (fault : Fault) (workspace : WorkspaceId) : Bool × Node J :=
  if fault = .early then (false, s)
  else (fault = .none, {s with
    workspaces := s.workspaces.update workspace fun w =>
      {w with expiresUnixMs := some (s.unixMillis + defaultRetentionMillis)}})

/-! ### Answers of the store -/

/-- The answer of a call that reached its commit. -/
def answered {α : Type} : Except StoreError (α × ExecutionStore J) → Except StoreError α
  | .ok (answer, _) => .ok answer
  | .error e => .error e

/-- An event was journaled. -/
def published : Except StoreError (Option ExecutionEvent) → Bool
  | .ok (some _) => true
  | _ => false

def newRecord (config : NodeConfig) (s : Node J) (snapshot : ExecutionSnapshot) (leaseHash : String) :
    ExecutionRecord where
  key := rowKey snapshot
  snapshot := snapshot
  commitLock := none
  cancelled := false
  events := Broadcast.channel
  finished := false
  leaseHash := leaseHash
  lease := ⟨s.instant + config.leaseTtlMillis, false⟩
  leaseLock := none
  pipe := none

/-- The sender of a record lives as long as the map or its run holds it. -/
def senderDropped (s : Node J) (r : RecordId) (record : ExecutionRecord) : Bool :=
  record.finished && s.executions.rows.all fun entry => entry.2 != r

/-! ### The operations -/

def perform (config : NodeConfig) (s : Node J) (t : TaskId) (choice : Choice) :
    (o : Op) → Option (o.Answer × Node J)
  | .lockExecutions =>
    if s.executionsLock.isNone then some ((), {s with executionsLock := some t}) else none
  | .unlockExecutions => some ((), {s with executionsLock := none})
  | .executionsGet id => some (s.executions.get? id, s)
  | .executionsLen => some (s.executions.rows.length, s)
  | .executionsIter => if choice.order.isPerm s.executions.rows then some (choice.order, s) else none
  | .executionsRemove id => some ((), {s with executions := s.executions.delete (· == id)})
  | .executionsInsert id r => some ((), {s with executions := s.executions.put id r})
  | .lookup id generation =>
    if choice.fault = .none then some (s.store.lookup id generation, s) else some (.error .sql, s)
  | .reserve snapshot version digest principal hash expires =>
    if choice.fault = .none then
      some (answered (s.store.reserve snapshot version digest principal hash expires s.unixMillis),
        s.transact (.reserve snapshot version digest principal hash expires s.unixMillis))
    else some (.error .sql, s)
  | .commitEvent snapshot kind =>
    if choice.fault = .none then
      let answer := answered (s.store.commitEvent snapshot kind s.unixMillis)
      let s' := s.transact (.commitEvent snapshot kind s.unixMillis)
      some (answer, if published answer then s'.act t .published (rowKey snapshot) else s')
    else some (.error .sql, s)
  | .updateLease id generation hash renewal expires =>
    if choice.fault = .none then
      some (answered (s.store.updateLease id generation hash renewal expires s.unixMillis),
        s.transact (.updateLease id generation hash renewal expires s.unixMillis))
    else some (.error .sql, s)
  | .loadPage id generation after =>
    if choice.fault = .none then some (s.store.loadPage id generation after, s) else some (.error .sql, s)
  | .loadSnapshot id generation =>
    if choice.fault = .none then some (s.store.loadSnapshot id generation, s) else some (.error .sql, s)
  | .incrementMetric _ => some ((), s)
  | .newRecord snapshot hash =>
    some (s.records.length, {s with records := s.records ++ [newRecord config s snapshot hash]})
  | .readSnapshot r => s.records[r]?.map fun record => (record.snapshot, s)
  | .writeSnapshot r snapshot => some ((), s.modifyRecord r fun record => {record with snapshot})
  | .lockCommit r =>
    match s.records[r]? with
    | some record =>
      if record.commitLock.isNone then
        some ((), s.modifyRecord r fun record => {record with commitLock := some t})
      else none
    | none => none
  | .unlockCommit r => some ((), s.modifyRecord r fun record => {record with commitLock := none})
  | .recordLeaseHash r => s.records[r]?.map fun record => (record.leaseHash, s)
  | .cancel r => s.records[r]?.map fun record =>
    ((), (s.modifyRecord r fun record => {record with cancelled := true}).act t .cancelled
      record.key)
  | .finish r => some ((), s.modifyRecord r fun record => {record with finished := true})
  | .lockLease r =>
    match s.records[r]? with
    | some record =>
      if record.leaseLock.isNone then
        some ((), s.modifyRecord r fun record => {record with leaseLock := some t})
      else none
    | none => none
  | .unlockLease r => some ((), s.modifyRecord r fun record => {record with leaseLock := none})
  | .readLease r => s.records[r]?.map fun record => (record.lease, s)
  | .extendLease r expiresAt => s.records[r]?.map fun record =>
    ((), (s.modifyRecord r fun record => {record with lease := {record.lease with expiresAt}}).act t .leased
      record.key)
  | .expireLease r =>
    some ((), s.modifyRecord r fun record => {record with lease := {record.lease with expired := true}})
  | .waitLease r deadline =>
    match s.records[r]? with
    | some record =>
      match choice.wake with
      | .cancelled => if record.cancelled then some (.cancelled, s) else none
      | .notified => some (.notified, s)
      | .elapsed => if deadline ≤ s.instant then some (.elapsed, s) else none
    | none => none
  | .send r event => some ((), s.modifyRecord r fun record => {record with events := record.events.send event})
  | .subscribe r => s.records[r]?.map fun record => (record.events.subscribe, s)
  | .recv r position =>
    match s.records[r]? with
    | some record =>
      match record.events.recv eventCapacity position with
      | .item event next => some (.event event next, s)
      | .lagged => some (.lagged, s)
      | .waiting => if senderDropped s r record then some (.closed, s) else none
    | none => none
  | .loadDraining => some (s.draining, s)
  | .isPersistentlyDraining => some (s.marker, s)
  | .storeDraining => some ((), {s with draining := true})
  | .tryAcquirePermit =>
    if s.permits = 0 then some (false, s)
    else some (true, {s.modifyTask t fun task => {task with permit := true} with permits := s.permits - 1})
  | .dropPermit => some ((), s.releasePermit t)
  | .unixMillis => some ((s.unixMillis : Int), s)
  | .instant => some (s.instant, s)
  | .resolve workspace id generation principal => some (resolve config s workspace id generation principal, s)
  | .markActive workspace => some (markActive config s choice.fault workspace)
  | .markTerminal workspace => some (markTerminal s choice.fault workspace)
  | .spawnMonitor r =>
    some ((), {s with tasks := s.tasks ++ [⟨.monitor r, .loop (.monitorLease r), false, none, []⟩]})
  | .spawnRun request =>
    match s.tasks[t]?, s.records[request.record]? with
    | some task, some record =>
      -- the permit moves into the spawned task
      let s' := s.modifyTask t fun task => {task with permit := false}
      some ((), {s' with
        tasks := s'.tasks ++ [⟨.run request.record, .loop (.runExecution request), task.permit, none, []⟩]
        log := s'.log ++ [.spawned record.key]})
    | _, _ => none
  | .respond response =>
    some ((), (s.release t).modifyTask t fun task => {task with response := some response})
  | .yield item => some ((), s.modifyTask t fun task => {task with output := task.output ++ [item]})
  | .startRunner r => some ((), s.modifyRecord r fun record => {record with pipe := some Pipe.channel})
  | .select r outputClosed pending =>
    match (s.records[r]?).bind (·.pipe) with
    | some pipe => (pipe.select outputClosed pending).map fun polled =>
      (polled.1, s.modifyRecord r fun record => {record with pipe := some polled.2})
    | none => none
  | .isDrained r => ((s.records[r]?).bind (·.pipe)).map fun pipe => (pipe.drained, s)
  | .tryRecv r => ((s.records[r]?).bind (·.pipe)).map fun pipe =>
    (pipe.tryRecv.1, s.modifyRecord r fun record => {record with pipe := some pipe.tryRecv.2})
  | .captureDeclared => some (choice.artifacts, s)
  | .panicked => some ((), s)

end Eggwork.Server
