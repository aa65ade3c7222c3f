import Eggwork.Server.System

/-! What a step can do to the state the tasks share.

`View` is the part of a node its safety depends on: the store, the map of recent
executions and its lock, what is visible of each record, and the log. `Effect`
says once, operation by operation, how that part moves and what the answer tells
about it (`perform_effect`); most operations do not move it at all. -/
namespace Eggwork.Server
open Lib Store Runner Option List

variable {J : Serde}
variable {t : TaskId} {r : RecordId} {task : Task} {cfg : NodeConfig} {c : Choice}

/-! ### The view -/

structure RecordView where
  key : RowKey
  snapshot : ExecutionSnapshot
  commitLock : Option TaskId
  events : Broadcast ExecutionEvent
  finished : Bool
  leaseHash : String

def ExecutionRecord.view (record : ExecutionRecord) : RecordView where
  key := record.key
  snapshot := record.snapshot
  commitLock := record.commitLock
  events := record.events
  finished := record.finished
  leaseHash := record.leaseHash

structure View (J : Serde) where
  store : ExecutionStore J
  history : List (Call × Bool)
  up : Bool
  executions : Table ExecutionId RecordId
  executionsLock : Option TaskId
  records : List RecordView
  jobs : List Op
  log : List Observation

def Node.view (s : Node J) : View J where
  store := s.store
  history := s.history
  up := s.up
  executions := s.executions
  executionsLock := s.executionsLock
  records := s.records.map ExecutionRecord.view
  jobs := s.jobs
  log := s.log

variable {s s' : Node J}

namespace View

def modifyRecord (v : View J) (r : RecordId) (f : RecordView → RecordView) : View J :=
  {v with records := v.records.modify r f}

def observe (v : View J) (o : Observation) : View J := {v with log := v.log ++ [o]}

def transact (v : View J) (call : Call) : View J :=
  {v with store := call.exec v.store, history := v.history ++ [(call, true)]}

def releaseLock (t : TaskId) (record : RecordView) : RecordView :=
  {record with commitLock := if record.commitLock = some t then none else record.commitLock}

/-- A task's guards are dropped. -/
def release (v : View J) (t : TaskId) : View J :=
  {v with
    executionsLock := if v.executionsLock = some t then none else v.executionsLock
    records := v.records.map (releaseLock t)}

/-- The process is gone. -/
def stopped (v : View J) : View J :=
  {v with up := false, executions := Table.empty, executionsLock := none, records := [], jobs := []}

def recordOf (snapshot : ExecutionSnapshot) (leaseHash : String) (finished : Bool) : RecordView where
  key := rowKey snapshot
  snapshot := snapshot
  commitLock := none
  events := Broadcast.channel
  finished := finished
  leaseHash := leaseHash

/-- A stored snapshot enters the map at start. -/
def load (v : View J) (snapshot : ExecutionSnapshot) : View J :=
  {v with
    executions := v.executions.put snapshot.executionId v.records.length
    records := v.records ++ [recordOf snapshot "" true]}

end View

theorem View.record_modify {v : View J} {i : RecordId} {f : RecordView → RecordView} {rec : RecordView}
    (h : v.records[i]? = some rec) : (v.modifyRecord r f).records[i]? = some (if r = i then f rec else rec) := by
  show (v.records.modify r f)[i]? = _
  rw [getElem?_modify, h]
  split <;> rfl

@[simp] theorem view_modifyTask (s : Node J) (t : TaskId) (f : Task → Task) : (s.modifyTask t f).view = s.view := rfl

theorem view_modifyRecord (s : Node J) (r : RecordId) (f : ExecutionRecord → ExecutionRecord)
    (f' : RecordView → RecordView) (h : ∀ rec, (f rec).view = f' rec.view) :
    (s.modifyRecord r f).view = s.view.modifyRecord r f' := by
  have hrs : (s.records.modify r f).map ExecutionRecord.view = (s.records.map ExecutionRecord.view).modify r f' := by
    apply ext_getElem?
    intro i
    rw [getElem?_map, getElem?_modify, getElem?_modify, getElem?_map]
    cases s.records[i]? with
    | none => rfl
    | some rec => by_cases hi : r = i <;> simp [hi, h]
  simp only [Node.view, Node.modifyRecord, View.modifyRecord, hrs]

theorem view_modifyRecord_hidden (s : Node J) (r : RecordId) (f : ExecutionRecord → ExecutionRecord)
    (h : ∀ rec, (f rec).view = rec.view) : (s.modifyRecord r f).view = s.view := by
  rw [view_modifyRecord s r f id h]
  simp [View.modifyRecord, modify_id]

theorem view_getElem? (s : Node J) (r : RecordId) :
    s.view.records[r]? = s.records[r]?.map ExecutionRecord.view := getElem?_map ..

@[simp] theorem view_releasePermit (s : Node J) (t : TaskId) : (s.releasePermit t).view = s.view := by
  unfold Node.releasePermit
  split
  · split <;> rfl
  · rfl

@[simp] theorem view_release (s : Node J) (t : TaskId) : (s.release t).view = s.view.release t := by
  have hp := view_releasePermit s t
  simp only [Node.view, View.mk.injEq] at hp
  simp only [Node.view, Node.release, View.release, hp, List.map_map]
  congr 1

theorem view_act (s : Node J) (ht : s.tasks[t]? = some task) (a : Act) (key : RowKey) :
    (s.act t a key).view = s.view.observe (.acted task.origin a key) := by
  simp only [Node.act, ht]
  rfl

/-! ### Effects -/

/-- The operations that leave the view as it is and whose answers say nothing of it. -/
def Op.quiet : Op → Bool
  | .executionsLen | .incrementMetric _ | .lockLease _ | .unlockLease _ | .readLease _ | .expireLease _
  | .waitLease .. | .loadDraining | .isPersistentlyDraining | .storeDraining | .tryAcquirePermit | .dropPermit
  | .unixMillis | .instant | .resolve .. | .markActive _ | .markTerminal _ | .spawnMonitor _ | .yield _
  | .startRunner _ | .select .. | .isDrained _ | .tryRecv _ | .captureDeclared | .panicked => true
  | _ => false

variable {o : Op} {a : o.Answer}

/-- What an operation of task `t` does to the view, with the answer it gives. -/
inductive Effect (t : TaskId) (origin : Origin) (v : View J) : (o : Op) → o.Answer → View J → Prop
  | quiet {o : Op} {answer : o.Answer} (hquiet : o.quiet = true) : Effect t origin v o answer v
  | lockExecutions (hfree : v.executionsLock = none) :
      Effect t origin v .lockExecutions () {v with executionsLock := some t}
  | unlockExecutions : Effect t origin v .unlockExecutions () {v with executionsLock := none}
  | executionsGet (id : ExecutionId) : Effect t origin v (.executionsGet id) (v.executions.get? id) v
  | executionsIter {order : List (ExecutionId × RecordId)} (horder : order.Perm v.executions.rows) :
      Effect t origin v .executionsIter order v
  | executionsRemove (id : ExecutionId) :
      Effect t origin v (.executionsRemove id) () {v with executions := v.executions.delete (· == id)}
  | executionsInsert (id : ExecutionId) (r : RecordId) :
      Effect t origin v (.executionsInsert id r) () {v with executions := v.executions.put id r}
  -- a store call fails with no effect, or runs
  | failedLookup {id : ExecutionId} {g : ExecutionGeneration} : Effect t origin v (.lookup id g) (.error .sql) v
  | lookup (id : ExecutionId) (g : ExecutionGeneration) : Effect t origin v (.lookup id g) (v.store.lookup id g) v
  | failedReserve {snapshot : ExecutionSnapshot} {version : UInt16} {digest principal hash : String} {expires : Int} :
      Effect t origin v (.reserve snapshot version digest principal hash expires) (.error .sql) v
  | reserve (snapshot : ExecutionSnapshot) (version : UInt16) (digest principal hash : String) (expires now : Int) :
      Effect t origin v (.reserve snapshot version digest principal hash expires)
        (answered (v.store.reserve snapshot version digest principal hash expires now))
        (v.transact (.reserve snapshot version digest principal hash expires now))
  | failedCommit {snapshot : ExecutionSnapshot} {kind : ExecutionEventKind} :
      Effect t origin v (.commitEvent snapshot kind) (.error .sql) v
  | refusedCommit {snapshot : ExecutionSnapshot} {kind : ExecutionEventKind}
      {answer : Except StoreError (Option ExecutionEvent)} (now : Int)
      (hanswer : answered (v.store.commitEvent snapshot kind now) = answer) (hrefused : published answer = false) :
      Effect t origin v (.commitEvent snapshot kind) answer (v.transact (.commitEvent snapshot kind now))
  | commitEvent {snapshot : ExecutionSnapshot} {kind : ExecutionEventKind} {event : ExecutionEvent} (now : Int)
      (hanswer : answered (v.store.commitEvent snapshot kind now) = .ok (some event)) :
      Effect t origin v (.commitEvent snapshot kind) (.ok (some event))
        ((v.transact (.commitEvent snapshot kind now)).observe (.acted origin .published (rowKey snapshot)))
  | failedUpdateLease {id : ExecutionId} {g : ExecutionGeneration} {hash renewal : String} {expires : Int} :
      Effect t origin v (.updateLease id g hash renewal expires) (.error .sql) v
  | updateLease (id : ExecutionId) (g : ExecutionGeneration) (hash renewal : String) (expires now : Int) :
      Effect t origin v (.updateLease id g hash renewal expires)
        (answered (v.store.updateLease id g hash renewal expires now))
        (v.transact (.updateLease id g hash renewal expires now))
  | failedLoadPage {id : ExecutionId} {g : ExecutionGeneration} {after : Nat} :
      Effect t origin v (.loadPage id g after) (.error .sql) v
  | loadPage (id : ExecutionId) (g : ExecutionGeneration) (after : Nat) :
      Effect t origin v (.loadPage id g after) (v.store.loadPage id g after) v
  | failedLoadSnapshot {id : ExecutionId} {g : Option ExecutionGeneration} :
      Effect t origin v (.loadSnapshot id g) (.error .sql) v
  | loadSnapshot (id : ExecutionId) (g : Option ExecutionGeneration) :
      Effect t origin v (.loadSnapshot id g) (v.store.loadSnapshot id g) v
  -- records
  | newRecord (snapshot : ExecutionSnapshot) (hash : String) :
      Effect t origin v (.newRecord snapshot hash) v.records.length
        {v with records := v.records ++ [View.recordOf snapshot hash false]}
  | readSnapshot {r : RecordId} {record : RecordView} (hrecord : v.records[r]? = some record) :
      Effect t origin v (.readSnapshot r) record.snapshot v
  | writeSnapshot (r : RecordId) (snapshot : ExecutionSnapshot) :
      Effect t origin v (.writeSnapshot r snapshot) () (v.modifyRecord r fun record => {record with snapshot})
  | lockCommit {r : RecordId} {record : RecordView} (hrecord : v.records[r]? = some record)
      (hfree : record.commitLock = none) :
      Effect t origin v (.lockCommit r) () (v.modifyRecord r fun record => {record with commitLock := some t})
  | unlockCommit (r : RecordId) :
      Effect t origin v (.unlockCommit r) () (v.modifyRecord r fun record => {record with commitLock := none})
  | recordLeaseHash {r : RecordId} {record : RecordView} (hrecord : v.records[r]? = some record) :
      Effect t origin v (.recordLeaseHash r) record.leaseHash v
  | cancel {r : RecordId} {record : RecordView} (hrecord : v.records[r]? = some record) :
      Effect t origin v (.cancel r) () (v.observe (.acted origin .cancelled record.key))
  | extendLease {r : RecordId} {record : RecordView} {expiresAt : Nat} (hrecord : v.records[r]? = some record) :
      Effect t origin v (.extendLease r expiresAt) () (v.observe (.acted origin .leased record.key))
  | finish (r : RecordId) :
      Effect t origin v (.finish r) () (v.modifyRecord r fun record => {record with finished := true})
  | send (r : RecordId) (event : ExecutionEvent) :
      Effect t origin v (.send r event) ()
        (v.modifyRecord r fun record => {record with events := record.events.send event})
  | subscribe {r : RecordId} {record : RecordView} (hrecord : v.records[r]? = some record) :
      Effect t origin v (.subscribe r) record.events.subscribe v
  | received {r : RecordId} {record : RecordView} {position next : Nat} {event : ExecutionEvent}
      (hrecord : v.records[r]? = some record)
      (hitem : record.events.recv eventCapacity position = .item event next) :
      Effect t origin v (.recv r position) (.event event next) v
  | lagged {r : RecordId} {position : Nat} : Effect t origin v (.recv r position) .lagged v
  | closed {r : RecordId} {record : RecordView} {position : Nat} (hrecord : v.records[r]? = some record)
      (hfinished : record.finished = true) (hwaiting : record.events.recv eventCapacity position = .waiting) :
      Effect t origin v (.recv r position) .closed v
  -- tasks
  | spawnRun {request : RunRequest} {record : RecordView} (hrecord : v.records[request.record]? = some record) :
      Effect t origin v (.spawnRun request) () (v.observe (.spawned record.key))
  | respond (response : Response) : Effect t origin v (.respond response) () (v.release t)

theorem perform_quiet (hq : o.quiet = true) (h : perform cfg s t c o = some (a, s')) : s'.view = s.view := by
  cases o <;> first
    | (exact absurd hq Bool.false_ne_true)
    | (cases h; rfl)
    | skip
  case lockLease r =>
    simp only [perform] at h
    split at h
    · split at h <;> cases h
      exact view_modifyRecord_hidden s r _ fun _ => rfl
    · cases h
  case unlockLease r =>
    cases h
    exact view_modifyRecord_hidden s r _ fun _ => rfl
  case readLease r =>
    obtain ⟨rec, _, hr⟩ := map_eq_some_iff.mp h
    cases hr
    rfl
  case expireLease r =>
    cases h
    exact view_modifyRecord_hidden s r _ fun _ => rfl
  case waitLease r deadline =>
    simp only [perform] at h
    split at h
    · split at h
      · split at h <;> cases h
        rfl
      · cases h
        rfl
      · split at h <;> cases h
        rfl
    · cases h
  case tryAcquirePermit =>
    simp only [perform] at h
    split at h <;> cases h <;> rfl
  case dropPermit =>
    cases h
    exact view_releasePermit s t
  case markActive workspace =>
    simp only [perform, markActive] at h
    split at h
    · cases h
      rfl
    · split at h <;> cases h <;> rfl
  case markTerminal workspace =>
    simp only [perform, markTerminal] at h
    split at h <;> cases h <;> rfl
  case startRunner r =>
    cases h
    exact view_modifyRecord_hidden s r _ fun _ => rfl
  case select r closed pending =>
    simp only [perform] at h
    split at h
    · obtain ⟨polled, _, hp⟩ := map_eq_some_iff.mp h
      cases hp
      exact view_modifyRecord_hidden s r _ fun _ => rfl
    · cases h
  case isDrained r =>
    obtain ⟨pipe, _, hpipe⟩ := map_eq_some_iff.mp h
    cases hpipe
    rfl
  case tryRecv r =>
    obtain ⟨pipe, _, hpipe⟩ := map_eq_some_iff.mp h
    cases hpipe
    exact view_modifyRecord_hidden s r _ fun _ => rfl

theorem view_record {rec : ExecutionRecord} (h : s.records[r]? = some rec) : s.view.records[r]? = some rec.view := by
  rw [view_getElem?, h]
  rfl

theorem perform_effect (ht : s.tasks[t]? = some task) (h : perform cfg s t c o = some (a, s')) :
    Effect t task.origin s.view o a s'.view := by
  by_cases hq : o.quiet = true
  · rw [perform_quiet hq h]
    exact .quiet hq
  cases o <;> first
    | (exact absurd rfl hq)
    | skip
  case lockExecutions =>
    obtain ⟨hf, ⟨⟩⟩ := ite_none_right_eq_some.mp h
    exact .lockExecutions (isNone_iff_eq_none.mp hf)
  case unlockExecutions =>
    cases h
    exact .unlockExecutions
  case executionsGet id =>
    cases h
    exact .executionsGet id
  case executionsIter =>
    obtain ⟨ho, ⟨⟩⟩ := ite_none_right_eq_some.mp h
    exact .executionsIter (isPerm_iff.mp ho)
  case executionsRemove id =>
    cases h
    exact .executionsRemove id
  case executionsInsert id r =>
    cases h
    exact .executionsInsert id r
  case lookup id g =>
    simp only [perform] at h
    split at h <;> cases h
    · exact .lookup id g
    · exact .failedLookup
  case reserve snapshot version digest principal hash expires =>
    simp only [perform] at h
    split at h <;> cases h
    · exact .reserve snapshot version digest principal hash expires _
    · exact .failedReserve
  case commitEvent snapshot kind =>
    simp only [perform] at h
    split at h
    · cases ha : answered (s.store.commitEvent snapshot kind s.unixMillis) with
      | error e =>
        rw [ha] at h
        cases h
        exact .refusedCommit _ ha rfl
      | ok committed =>
        rw [ha] at h
        cases committed with
        | none =>
          cases h
          exact .refusedCommit _ ha rfl
        | some ev =>
          cases h
          show Effect _ _ _ _ _ ((s.transact _).act t .published (rowKey snapshot)).view
          rw [view_act (s.transact _) ht]
          exact .commitEvent _ ha
    · cases h
      exact .failedCommit
  case updateLease id g hash renewal expires =>
    simp only [perform] at h
    split at h <;> cases h
    · exact .updateLease id g hash renewal expires _
    · exact .failedUpdateLease
  case loadPage id g after =>
    simp only [perform] at h
    split at h <;> cases h
    · exact .loadPage id g after
    · exact .failedLoadPage
  case loadSnapshot id g =>
    simp only [perform] at h
    split at h <;> cases h
    · exact .loadSnapshot id g
    · exact .failedLoadSnapshot
  case newRecord snapshot hash =>
    cases h
    have hlen : s.records.length = s.view.records.length := (length_map _).symm
    have hview : {s with records := s.records ++ [newRecord cfg s snapshot hash]}.view =
        {s.view with records := s.view.records ++ [View.recordOf snapshot hash false]} := by
      simp only [Node.view, map_append]
      rfl
    rw [hview, hlen]
    exact .newRecord snapshot hash
  case readSnapshot r =>
    obtain ⟨rec, hr, he⟩ := map_eq_some_iff.mp h
    cases he
    exact .readSnapshot (view_record hr)
  case writeSnapshot r snapshot =>
    cases h
    rw [view_modifyRecord s r _ (fun rec => {rec with snapshot}) fun _ => rfl]
    exact .writeSnapshot r snapshot
  case lockCommit r =>
    simp only [perform] at h
    split at h
    · rename_i rec hr
      split at h <;> cases h
      rename_i hf
      rw [view_modifyRecord s r _ (fun rec => {rec with commitLock := some t}) fun _ => rfl]
      exact .lockCommit (view_record hr) (isNone_iff_eq_none.mp hf)
    · cases h
  case unlockCommit r =>
    cases h
    rw [view_modifyRecord s r _ (fun rec => {rec with commitLock := none}) fun _ => rfl]
    exact .unlockCommit r
  case recordLeaseHash r =>
    obtain ⟨rec, hr, he⟩ := map_eq_some_iff.mp h
    cases he
    exact .recordLeaseHash (view_record hr)
  case cancel r =>
    obtain ⟨rec, hr, he⟩ := map_eq_some_iff.mp h
    cases he
    have hview := view_modifyRecord_hidden s r (fun rec => {rec with cancelled := true}) fun _ => rfl
    rw [view_act (s.modifyRecord r _) ht, hview]
    exact .cancel (view_record hr)
  case finish r =>
    cases h
    rw [view_modifyRecord s r _ (fun rec => {rec with finished := true}) fun _ => rfl]
    exact .finish r
  case extendLease r expiresAt =>
    obtain ⟨rec, hr, he⟩ := map_eq_some_iff.mp h
    cases he
    have hview := view_modifyRecord_hidden s r
      (fun rec => {rec with lease := {rec.lease with expiresAt}}) fun _ => rfl
    rw [view_act (s.modifyRecord r _) ht, hview]
    exact .extendLease (view_record hr)
  case send r ev =>
    cases h
    rw [view_modifyRecord s r _ (fun rec => {rec with events := rec.events.send ev}) fun _ => rfl]
    exact .send r ev
  case subscribe r =>
    obtain ⟨rec, hr, he⟩ := map_eq_some_iff.mp h
    cases he
    exact .subscribe (view_record hr)
  case recv r position =>
    simp only [perform] at h
    split at h
    · rename_i rec hr
      split at h
      · rename_i ev next hitem
        cases h
        exact .received (view_record hr) hitem
      · cases h
        exact .lagged
      rename_i hw
      split at h <;> cases h
      rename_i hd
      exact .closed (view_record hr) (Bool.and_eq_true_iff.mp hd).1 hw
    · cases h
  case spawnRun request =>
    simp only [perform, ht] at h
    split at h
    · rename_i task' rec he hr
      cases h
      exact .spawnRun (view_record hr)
    · cases h
  case respond response =>
    cases h
    rw [view_modifyTask, view_release]
    exact .respond response

end Eggwork.Server
