import Mathlib.Algebra.Order.Ring.Int
import Mathlib.Data.List.Sort
import Eggwork.Core.Types
import Eggwork.Lib.Table

/-! The durable execution journal: two tables and the transactions on them.

Each call of `ExecutionStore` is one SQLite transaction, so it is a function from
the store to an answer and the store after the commit; an error, or a return
before `commit`, leaves the store it started from. The clock (`unix_millis`) is
an argument. Snapshots and events are stored encoded: what `serde_json` does to
them is the parameter `Serde`, of which the code relies on the round trip and on
the interruption event being small. -/
namespace Eggwork.Store
open Lib

/-- Encoding of a type to blobs, with the blob's length in bytes. -/
structure Codec (α : Type) where
  Blob : Type
  encode : α → Blob
  decode : Blob → Option α
  length : Blob → Nat
  decode_encode : ∀ a, decode (encode a) = some a

/-- `serde_json` on the two stored types. -/
structure Serde where
  snapshot : Codec ExecutionSnapshot
  event : Codec ExecutionEvent
  interrupted_length : ∀ n,
    event.length (event.encode (.plain n (.state .interrupted))) ≤ maxEventBytes

def maxRetainedEvents : Nat := 256
def maxRetainedEventBytes : Nat := maxEventBytes
def maxExecutionIdentities : Nat := 2048

/-- Primary key of `executions`; the generation column is an `i64`. -/
abbrev RowKey := ExecutionId × Int
/-- Primary key of `execution_events`. -/
abbrev EventKey := RowKey × Nat

structure ExecutionRow (J : Serde) where
  canonicalVersion : Int
  digest : String
  principalId : String
  leaseTokenHash : String
  leaseExpiresUnixMs : Int
  lastRenewalId : Option String
  state : String
  nextSequence : Nat
  snapshotJson : J.snapshot.Blob
  createdUnixMs : Int
  updatedUnixMs : Int

structure ExecutionStore (J : Serde) where
  executions : Table RowKey (ExecutionRow J)
  executionEvents : Table EventKey J.event.Blob

inductive StoreError where
  | sql | json | worker | invalidEvent
deriving DecidableEq, Repr

inductive ReserveResult where
  | created
  | existing (snapshot : ExecutionSnapshot)
  | conflict
  | staleGeneration
  | storageFull
deriving DecidableEq, Repr

structure ExistingExecution where
  canonicalVersion : UInt16
  digest : String
  principalId : String
  leaseTokenHash : String
  snapshot : ExecutionSnapshot
deriving DecidableEq, Repr

structure EventPage where
  baseSequence : Nat
  nextSequence : Nat
  events : List ExecutionEvent
deriving DecidableEq, Repr

def stateName : ExecutionState → String
  | .accepted => "Accepted"
  | .preparing => "Preparing"
  | .running => "Running"
  | .cancelling => "Cancelling"
  | .succeeded => "Succeeded"
  | .failed => "Failed"
  | .cancelled => "Cancelled"
  | .timedOut => "TimedOut"
  | .interrupted => "Interrupted"

def isTerminalName (state : String) : Bool :=
  state == "Succeeded" || state == "Failed" || state == "Cancelled" || state == "TimedOut" ||
    state == "Interrupted"

/-- The `IN` list of `recover`. -/
def isLiveName (state : String) : Bool :=
  state == "Accepted" || state == "Preparing" || state == "Running" || state == "Cancelling"

/-- The row a snapshot is written to. -/
def rowKey (snapshot : ExecutionSnapshot) : RowKey := (snapshot.executionId, snapshot.generation.asI64)

variable {J : Serde}

namespace ExecutionStore

def empty : ExecutionStore J := ⟨Table.empty, Table.empty⟩

def generations (st : ExecutionStore J) (id : ExecutionId) : List (RowKey × ExecutionRow J) :=
  st.executions.select fun key => key.1 == id

/-- `ORDER BY generation DESC LIMIT 1`. -/
def latest (st : ExecutionStore J) (id : ExecutionId) : Option (RowKey × ExecutionRow J) :=
  (st.generations id).maxOn? fun row => row.1.2

/-! ### Trimming -/

/-- The retained events of one execution generation. -/
def retained (events : Table EventKey J.event.Blob) (key : RowKey) : List (EventKey × J.event.Blob) :=
  events.select fun k => k.1 == key

def retainedBytes (events : Table EventKey J.event.Blob) (key : RowKey) : Nat :=
  ((retained events key).map fun row => J.event.length row.2).sum

def withinBudget (events : Table EventKey J.event.Blob) (key : RowKey) : Bool :=
  decide ((retained events key).length ≤ maxRetainedEvents) &&
    decide (retainedBytes events key ≤ maxRetainedEventBytes)

def deleteOldest (events : Table EventKey J.event.Blob) (key : RowKey) : Table EventKey J.event.Blob :=
  match ((retained events key).map fun row => row.1.2).min? with
  | none => events
  | some sequence => events.delete fun k => k == (key, sequence)

def trimLoop (key : RowKey) : Nat → Table EventKey J.event.Blob → Table EventKey J.event.Blob
  | 0, events => events
  | fuel + 1, events =>
    if withinBudget events key then events else trimLoop key fuel (deleteOldest events key)

/-- The source loops until both budgets hold; every round deletes one event, so
the number of retained events bounds the rounds (`trimEvents_loops`). -/
def trimEvents (events : Table EventKey J.event.Blob) (key : RowKey) : Table EventKey J.event.Blob :=
  trimLoop key (retained events key).length events

/-! ### The transactions -/

/-- The generation `latest` allows next: one for a new execution, the successor
of the latest generation once that one is terminal. -/
def mayFollow (latest : Option (RowKey × ExecutionRow J)) (generation : Int) : Bool :=
  match latest with
  | none => generation == 1
  | some (key, row) => generation == key.2 + 1 && isTerminalName row.state

def reserve (st : ExecutionStore J) (snapshot : ExecutionSnapshot) (canonicalVersion : UInt16)
    (digest principalId leaseTokenHash : String) (leaseExpiresUnixMs now : Int) :
    Except StoreError (ReserveResult × ExecutionStore J) :=
  match st.executions.get? (rowKey snapshot) with
  | some old =>
    if old.canonicalVersion = canonicalVersion.toNat ∧ old.digest = digest ∧
        old.principalId = principalId ∧ old.leaseTokenHash = leaseTokenHash then
      match J.snapshot.decode old.snapshotJson with
      | some stored => .ok (.existing stored, st)
      | none => .error .json
    else .ok (.conflict, st)
  | none =>
    if !mayFollow (st.latest snapshot.executionId) snapshot.generation.asI64 then
      .ok (.staleGeneration, st)
    else if st.executions.rows.length ≥ maxExecutionIdentities then .ok (.storageFull, st)
    else
      match st.executions.insert (rowKey snapshot)
        { canonicalVersion := canonicalVersion.toNat, digest, principalId, leaseTokenHash,
          leaseExpiresUnixMs, lastRenewalId := none, state := stateName snapshot.state,
          nextSequence := 1, snapshotJson := J.snapshot.encode snapshot,
          createdUnixMs := now, updatedUnixMs := now } with
      | some executions => .ok (.created, {st with executions})
      | none => .error .sql

def lookup (st : ExecutionStore J) (id : ExecutionId) (generation : ExecutionGeneration) :
    Except StoreError (Option ExistingExecution) :=
  match st.executions.get? (id, generation.asI64) with
  | none => .ok none
  | some row =>
    match J.snapshot.decode row.snapshotJson with
    | none => .error .json
    | some snapshot => .ok (some
      { canonicalVersion := UInt16.ofInt row.canonicalVersion, digest := row.digest,
        principalId := row.principalId, leaseTokenHash := row.leaseTokenHash, snapshot })

/-- Without a generation, the latest of the principal's own. -/
def loadSnapshotForPrincipal (st : ExecutionStore J) (id : ExecutionId) (generation : Option ExecutionGeneration)
    (principalId : String) : Except StoreError (Option ExecutionSnapshot) :=
  let row : Option (ExecutionRow J) :=
    match generation with
    | some generation =>
      (st.executions.get? (id, generation.asI64)).filter fun row => row.principalId == principalId
    | none =>
      (((st.generations id).filter fun row => row.2.principalId == principalId).maxOn? fun row => row.1.2).map Prod.snd
  match row with
  | none => .ok none
  | some row =>
    match J.snapshot.decode row.snapshotJson with
    | none => .error .json
    | some snapshot => .ok (some snapshot)

/-- The write of `commit_event` and of `recover`: the row moves to the snapshot
and the next sequence number, the event is journaled, the journal is trimmed. -/
def journal (st : ExecutionStore J) (key : RowKey) (state : String) (snapshot : ExecutionSnapshot)
    (sequence : Nat) (event : ExecutionEvent) (now : Int) : Except StoreError (ExecutionStore J) :=
  match st.executionEvents.insert (key, sequence) (J.event.encode event) with
  | none => .error .sql
  | some events => .ok
    { executions := st.executions.update key fun row =>
        {row with
          state := state
          nextSequence := sequence + 1
          snapshotJson := J.snapshot.encode snapshot
          updatedUnixMs := now}
      executionEvents := trimEvents events key }

def commitEvent (st : ExecutionStore J) (snapshot : ExecutionSnapshot) (kind : ExecutionEventKind)
    (now : Int) : Except StoreError (Option ExecutionEvent × ExecutionStore J) :=
  match st.executions.get? (rowKey snapshot) with
  | none => .ok (none, st)
  | some row =>
    if isTerminalName row.state then .ok (none, st)
    else
      let event := ExecutionEvent.plain row.nextSequence kind
      match event.validate with
      | .error _ => .error .invalidEvent
      | .ok () =>
        if J.event.length (J.event.encode event) > maxRetainedEventBytes then .error .invalidEvent
        else (st.journal (rowKey snapshot) (stateName snapshot.state) snapshot row.nextSequence event now).map
          (some event, ·)

def updateLease (st : ExecutionStore J) (id : ExecutionId) (generation : ExecutionGeneration)
    (leaseTokenHash renewalId : String) (leaseExpiresUnixMs now : Int) :
    Except StoreError (Option Int × ExecutionStore J) :=
  match st.executions.get? (id, generation.asI64) with
  | none => .ok (none, st)
  | some row =>
    if row.leaseTokenHash ≠ leaseTokenHash ∨ isTerminalName row.state = true ∨
        row.leaseExpiresUnixMs ≤ now then .ok (none, st)
    else if row.lastRenewalId = some renewalId then .ok (some row.leaseExpiresUnixMs, st)
    else
      let expires := max row.leaseExpiresUnixMs leaseExpiresUnixMs
      .ok (some expires, {st with
        executions := st.executions.update (id, generation.asI64) fun row =>
          -- the statement repeats the lease test in its `WHERE`
          if row.leaseTokenHash = leaseTokenHash then
            {row with
              leaseExpiresUnixMs := expires
              lastRenewalId := some renewalId
              updatedUnixMs := now}
          else row})

/-! ### Reads -/

/-- `u64::saturating_add`. -/
def saturatingAdd (a b : Nat) : Nat := min (a + b) (2 ^ 64 - 1)

/-- `u64 as i64`. -/
def asI64 (a : Nat) : Int := if a < 2 ^ 63 then a else (a : Int) - 2 ^ 64

def loadPage (st : ExecutionStore J) (id : ExecutionId) (generation : ExecutionGeneration)
    (afterSequence : Nat) : Except StoreError (Option EventPage) :=
  match st.executions.get? (id, generation.asI64) with
  | none => .ok none
  | some row =>
    let rows := retained st.executionEvents (id, generation.asI64)
    let baseSequence := max ((rows.map fun r => r.1.2).min?.getD row.nextSequence) 1
    if saturatingAdd afterSequence 1 < baseSequence then
      .ok (some ⟨baseSequence, row.nextSequence, []⟩)
    else
      let page := (rows.filter fun r => decide ((r.1.2 : Int) > asI64 afterSequence)).insertionSort
        fun a b => a.1.2 ≤ b.1.2
      match page.mapM fun r => J.event.decode r.2 with
      | none => .error .json
      | some events => .ok (some ⟨baseSequence, row.nextSequence, events⟩)

def loadSnapshot (st : ExecutionStore J) (id : ExecutionId) (generation : Option ExecutionGeneration) :
    Except StoreError (Option ExecutionSnapshot) :=
  let row := match generation with
    | some generation => st.executions.get? (id, generation.asI64)
    | none => (st.latest id).map Prod.snd
  match row with
  | none => .ok none
  | some row =>
    match J.snapshot.decode row.snapshotJson with
    | none => .error .json
    | some snapshot => .ok (some snapshot)

/-- `ORDER BY execution_id, generation`. -/
def loadAll (st : ExecutionStore J) : Except StoreError (List ExecutionSnapshot) :=
  let rows := st.executions.rows.insertionSort fun a b =>
    a.1.1.value < b.1.1.value ∨ a.1.1.value = b.1.1.value ∧ a.1.2 ≤ b.1.2
  match rows.mapM fun row => J.snapshot.decode row.2.snapshotJson with
  | none => .error .json
  | some snapshots => .ok snapshots

/-! ### Restart recovery -/

def interruptedResult : ExecutionResult where
  state := .interrupted
  exitCode := none
  failure := some .interrupted
  stdoutBytes := 0
  stderrBytes := 0
  stdoutOmitted := 0
  stderrOmitted := 0
  cleanupWarning := none
  finalizationFailure := none
  artifactCount := 0
  sandbox := none
  resources := none

def interrupt (snapshot : ExecutionSnapshot) : ExecutionSnapshot :=
  {snapshot with state := .interrupted, result := some interruptedResult}

/-- The loop body of `recover`. The row is found from the decoded snapshot, not
from the key it was read under. -/
def recoverOne (now : Int) (st : ExecutionStore J) (snapshot : ExecutionSnapshot) :
    Except StoreError (ExecutionStore J) :=
  match st.executions.get? (rowKey snapshot) with
  | none => .error .sql
  | some row => st.journal (rowKey snapshot) "Interrupted" snapshot row.nextSequence
      (.plain row.nextSequence (.state .interrupted)) now

def recover (st : ExecutionStore J) (now : Int) :
    Except StoreError (List ExecutionSnapshot × ExecutionStore J) :=
  match (st.executions.rows.filter fun row => isLiveName row.2.state).mapM
      fun row => J.snapshot.decode row.2.snapshotJson with
  | none => .error .json
  | some live =>
    let snapshots := live.map interrupt
    (snapshots.foldlM (recoverOne now) st).map (snapshots, ·)

end ExecutionStore

end Eggwork.Store
