import Eggwork.Server.Discipline

/-! The protocol of admission and publication, which all tasks of the node keep.

The local state of a task says whether it holds the map of recent executions, how
far it is in admitting an execution (`Claim`), and how far it is in publishing on
a record (`Publishing`). An `execute` request may create the one row its handle
names, then makes the record, puts it into the map, releases the map and spawns
the run, in that order and with no other end (`Local.settled` once it answers).
A publication locks a record, reads its snapshot, commits a snapshot of the same
row, and writes back and sends exactly what it committed. -/
namespace Eggwork.Server
open Lib Store Runner Option Bool

variable {r : RecordId}

/-! ### Local states -/

/-- How far a request is in admitting its execution. -/
inductive Claim where
  | none
  | created
  | recorded (record : RecordId)
  | inserted (record : RecordId)
deriving DecidableEq

inductive Role where
  | admitting (key : RowKey) (claim : Claim)
  | run (record : RecordId)
  | other
deriving DecidableEq

/-- How far a task is in `publish`. -/
inductive Publishing where
  | idle
  | locked (record : RecordId)
  | based (record : RecordId) (base : ExecutionSnapshot)
  | wrote (record : RecordId) (proposed : ExecutionSnapshot) (event : ExecutionEvent)
  | told (record : RecordId) (event : ExecutionEvent)
deriving DecidableEq

/-- There is a result exactly in a terminal state, and it is of that state. -/
def resultFits (state : ExecutionState) : Option ExecutionResult → Bool
  | some result => isTerminal state && result.state == state
  | none => !isTerminal state

structure Local where
  role : Role
  holds : Bool
  publishing : Publishing
  /-- What a walk of the map has shown since it was locked. -/
  entries : List (ExecutionId × RecordId)
  /-- The records seen terminal since then. -/
  terminal : List RecordId
deriving DecidableEq

namespace Local

/-- The row the task has created and not yet handed to a run, and how far it is. -/
def claimed (g : Local) : Option (RowKey × Claim) :=
  match g.role with
  | .admitting _ .none => none
  | .admitting key claim => some (key, claim)
  | _ => none

/-- The row created but not yet in the map. -/
def pending (g : Local) : Option RowKey :=
  match g.role with
  | .admitting key .created | .admitting key (.recorded _) => some key
  | _ => none

theorem pending_eq_none {g : Local} (h : g.claimed = none) : g.pending = none := by
  obtain ⟨role, holds, publishing, es, terminal⟩ := g
  rcases role with ⟨key, claim⟩ | r | _
  · cases claim <;> first
      | rfl
      | cases h
  · rfl
  · rfl

/-- Nothing is under way that has to be finished. -/
def settled (g : Local) : Prop := g.claimed = none ∧ g.publishing = .idle

instance (g : Local) : Decidable g.settled := inferInstanceAs (Decidable (_ ∧ _))

/-- The map has this entry and its record was seen terminal. -/
def removable (g : Local) (id : ExecutionId) : Bool := g.entries.any fun e => e.1 == id && g.terminal.contains e.2

/-- Give up the map. -/
def unlock (g : Local) : Local := {g with holds := false, entries := [], terminal := []}

/-- Who may move a record to a state: the claimant to `Accepted`, its run to
`Running` and to a terminal state, anyone to `Cancelling`. -/
def mayPublish (g : Local) (r : RecordId) : ExecutionState → Bool
  | .accepted =>
    match g.role with
    | .admitting _ claim => claim == .inserted r
    | _ => false
  | .preparing => false
  | .cancelling => true
  | _ => g.role == .run r

/-- A commit follows from the snapshot read: same row, not terminal, the event is
terminal exactly if the state is, and the result fits if the one read did. -/
def mayCommit (g : Local) (r : RecordId) (base proposed : ExecutionSnapshot) (kind : ExecutionEventKind) : Bool :=
  (resultFits proposed.state proposed.result || !resultFits base.state base.result) &&
    rowKey proposed == rowKey base && !isTerminal base.state && kind.isTerminal == isTerminal proposed.state &&
    g.mayPublish r proposed.state

/-- What is known of an allowed commit. -/
structure Commits (g : Local) (r : RecordId) (base proposed : ExecutionSnapshot) (kind : ExecutionEventKind) : Prop where
  result : resultFits base.state base.result = true → resultFits proposed.state proposed.result = true
  row : rowKey proposed = rowKey base
  live : isTerminal base.state = false
  kind : kind.isTerminal = isTerminal proposed.state
  may : g.mayPublish r proposed.state = true

theorem commits_of_mayCommit {g : Local} {base proposed : ExecutionSnapshot} {kind : ExecutionEventKind}
    (h : g.mayCommit r base proposed kind = true) : g.Commits r base proposed kind := by
  simp only [mayCommit, and_eq_true, or_eq_true, not_eq_true', beq_iff_eq] at h
  obtain ⟨⟨⟨⟨hresult, hr⟩, hl⟩, hkind⟩, hmay⟩ := h
  refine ⟨fun hbase => hresult.resolve_right fun hf => ?_, hr, hl, hkind, hmay⟩
  rw [hbase] at hf
  cases hf

def read (g : Local) (r : RecordId) (snapshot : ExecutionSnapshot) : Local :=
  let g := if g.holds && isTerminal snapshot.state then {g with terminal := r :: g.terminal} else g
  if g.publishing = .locked r then {g with publishing := .based r snapshot} else g

end Local

/-! ### The protocol -/

/-- How an operation moves the local state; `none` where it is not allowed. -/
def Local.advance (g : Local) : (o : Op) → o.Answer → Option Local
  | .lockExecutions, _ => if g.holds then none else some {g with holds := true}
  | .unlockExecutions, _ => if g.holds ∧ g.pending = none then some g.unlock else none
  | .executionsGet _, _ => if g.holds then some g else none
  | .executionsIter, entries => if g.holds then some {g with entries} else none
  | .executionsRemove id, _ => if g.holds ∧ g.removable id = true then some g else none
  | .executionsInsert id r, _ =>
    match g.role with
    | .admitting key (.recorded r') =>
      if g.holds ∧ r' = r ∧ key.1 = id then some {g with role := .admitting key (.inserted r), entries := []} else none
    | _ => none
  | .reserve snapshot .., answer =>
    match g.role with
    | .admitting key .none =>
      if g.holds ∧ rowKey snapshot = key ∧ snapshot.state = .accepted then
        match answer with
        | .ok .created => some {g with role := .admitting key .created}
        | _ => some g
      else none
    | _ => none
  | .newRecord snapshot _, r =>
    match g.role with
    | .admitting key .created =>
      if rowKey snapshot = key then some {g with role := .admitting key (.recorded r)} else none
    | _ => none
  | .spawnRun request, _ =>
    match g.role with
    | .admitting key (.inserted r) =>
      if request.record = r then some {g with role := .admitting key .none} else none
    | _ => none
  | .lockCommit r, _ => if g.publishing = .idle then some {g with publishing := .locked r} else none
  | .readSnapshot r, snapshot => some (g.read r snapshot)
  | .commitEvent proposed kind, answer =>
    match g.publishing with
    | .based r base =>
      if g.mayCommit r base proposed kind then
        match answer with
        | .ok (some event) => some {g with publishing := .wrote r proposed event}
        | _ => some {g with publishing := .locked r}
      else none
    | _ => none
  | .writeSnapshot r snapshot, _ =>
    match g.publishing with
    | .wrote r' proposed event =>
      if r' = r ∧ proposed = snapshot then some {g with publishing := .told r event} else none
    | _ => none
  | .send r event, _ => if g.publishing = .told r event then some {g with publishing := .locked r} else none
  | .unlockCommit r, _ =>
    match g.publishing with
    | .locked r' | .based r' _ => if r' = r then some {g with publishing := .idle} else none
    | _ => none
  | .finish r, _ =>
    if g.role = .run r ∧ g.publishing = .idle then some {g with role := .other} else none
  | .respond _, _ => if g.settled then some g.unlock else none
  | _, _ => some g

/-- A task may end, or go round a loop, with nothing held. -/
def Local.final (g : Local) : Prop := g.settled ∧ g.holds = false

def Loop.record? : Loop → Option RecordId
  | .runExecution request => some request.record
  | .drain run | .flush run => some run.request.record
  | _ => none

abbrev admission : Protocol effects Local where
  advance := Local.advance
  enter l g := g.final ∧ ∀ r, l.record? = some r → g.role = .run r

def Local.idle : Local := ⟨.other, false, .idle, [], []⟩

def Local.birth : Origin → Local
  | .execute handle => {Local.idle with role := .admitting (handle.executionId, handle.generation.asI64) .none}
  | .run r => {Local.idle with role := .run r}
  | _ => Local.idle

variable {g g' : Local}

/-! ### What a move does to the role -/

/-- The operations that move a claim. -/
def Op.claims : Op → Bool
  | .reserve .. | .newRecord .. | .executionsInsert .. | .spawnRun _ => true
  | _ => false

variable {o : Op} {a : o.Answer}

theorem Local.read_role (g : Local) (r : RecordId) (snap : ExecutionSnapshot) : (g.read r snap).role = g.role := by
  unfold Local.read
  split <;> dsimp only <;> split <;> rfl

/-- No other operation moves the role, but a run gives it up when it is finished. -/
theorem Local.advance_role (ho : o.claims = false) (h : g.advance o a = some g') :
    g'.role = g.role ∨ ∃ r, o = .finish r ∧ g.role = .run r ∧ g'.role = .other := by
  cases o <;> first
    | exact absurd ho Bool.noConfusion
    | (cases h; exact .inl rfl)
    | skip
  case lockExecutions =>
    delta Local.advance at h
    dsimp only at h
    split at h <;> cases h
    exact .inl rfl
  case executionsGet | executionsIter | executionsRemove | lockCommit | send | unlockExecutions | respond =>
    delta Local.advance at h
    dsimp only at h
    split at h <;> cases h
    exact .inl rfl
  case readSnapshot r =>
    cases h
    exact .inl (Local.read_role g r a)
  case commitEvent =>
    delta Local.advance at h
    dsimp only at h
    split at h
    · obtain ⟨_, h⟩ := Option.ite_none_right_eq_some.mp h
      split at h <;> cases h <;> exact .inl rfl
    · cases h
  case writeSnapshot | unlockCommit =>
    delta Local.advance at h
    dsimp only at h
    split at h
    all_goals first
      | (split at h <;> cases h; exact .inl rfl)
      | cases h
  case finish r =>
    obtain ⟨hrole, ⟨⟩⟩ := Option.ite_none_right_eq_some.mp h
    exact .inr ⟨r, rfl, hrole.1, rfl⟩

theorem Local.claimed_of_role {key : RowKey} {claim : Claim} (hrole : g.role = .admitting key claim)
    (hc : claim ≠ .none) : g.claimed = some (key, claim) := by
  unfold Local.claimed
  rw [hrole]
  cases claim <;> first
    | rfl
    | exact absurd rfl hc

theorem Local.claimed_congr (h : g'.role = g.role) : g'.claimed = g.claimed := by
  simp only [Local.claimed, h]

theorem Local.advance_claimed (ho : o.claims = false) (h : g.advance o a = some g') : g'.claimed = g.claimed := by
  rcases Local.advance_role ho h with he | ⟨r, _, hrole, hrole'⟩
  · exact Local.claimed_congr he
  · simp only [Local.claimed, hrole, hrole']

theorem Local.advance_reserve {snap : ExecutionSnapshot} {ver : UInt16} {digest principal hash : String}
    {exp : Int} {a : Except StoreError ReserveResult}
    (h : g.advance (.reserve snap ver digest principal hash exp) a = some g') :
    g.role = .admitting (rowKey snap) .none ∧ (g.holds = true ∧ snap.state = .accepted) ∧
      ((a = .ok .created ∧ g' = {g with role := .admitting (rowKey snap) .created}) ∨ (a ≠ .ok .created ∧ g' = g)) := by
  delta Local.advance at h
  dsimp only at h
  split at h
  · rename_i key hrole
    obtain ⟨⟨hh, rfl, hst⟩, h⟩ := ite_none_right_eq_some.mp h
    refine ⟨hrole, ⟨hh, hst⟩, ?_⟩
    split at h
    · cases h
      exact .inl ⟨rfl, rfl⟩
    rename_i hne
    cases h
    exact .inr ⟨hne, rfl⟩
  · cases h

theorem Local.advance_newRecord {snap : ExecutionSnapshot} {hash : String}
    (h : g.advance (.newRecord snap hash) r = some g') :
    g.role = .admitting (rowKey snap) .created ∧ g' = {g with role := .admitting (rowKey snap) (.recorded r)} := by
  delta Local.advance at h
  dsimp only at h
  split at h
  · rename_i key hrole
    split at h <;> cases h
    rename_i hk
    subst hk
    exact ⟨hrole, rfl⟩
  · cases h

theorem Local.advance_executionsInsert {id : ExecutionId} {a : Unit}
    (h : g.advance (.executionsInsert id r) a = some g') :
    g.holds = true ∧ ∃ key, key.1 = id ∧ g.role = .admitting key (.recorded r) ∧
      g' = {g with role := .admitting key (.inserted r), entries := []} := by
  delta Local.advance at h
  dsimp only at h
  split at h
  · rename_i key r' hrole
    split at h <;> cases h
    rename_i hg
    obtain ⟨hh, rfl, hid⟩ := hg
    exact ⟨hh, key, hid, hrole, rfl⟩
  · cases h

theorem Local.advance_spawnRun {req : RunRequest} {a : Unit} (h : g.advance (.spawnRun req) a = some g') :
    ∃ key, g.role = .admitting key (.inserted req.record) ∧ g' = {g with role := .admitting key .none} := by
  delta Local.advance at h
  dsimp only at h
  split at h
  · rename_i key r hrole
    split at h <;> cases h
    rename_i hr
    subst hr
    exact ⟨key, hrole, rfl⟩
  · cases h

/-- A request admits the same row to its end, and a run stays with its record. -/
theorem Local.role_of_advance (h : g.advance o a = some g') :
    (∀ key claim', g'.role = .admitting key claim' → ∃ claim, g.role = .admitting key claim) ∧
      ∀ r, g'.role = .run r → g.role = .run r := by
  by_cases hc : o.claims = false
  · rcases Local.advance_role hc h with he | ⟨r, _, _, hne⟩
    · exact ⟨fun key claim hrole => ⟨claim, he ▸ hrole⟩, fun r hrole => he ▸ hrole⟩
    · rw [hne]
      exact ⟨fun _ _ hrole => (nomatch hrole), fun _ hrole => (nomatch hrole)⟩
  cases o <;> first
    | exact absurd rfl hc
    | skip
  case reserve snap ver digest principal hash exp =>
    obtain ⟨hrole, _, ⟨_, rfl⟩ | ⟨_, rfl⟩⟩ := Local.advance_reserve h
    · exact ⟨fun key claim he => by cases he; exact ⟨_, hrole⟩, fun r he => by cases he⟩
    · exact ⟨fun key claim he => ⟨claim, he⟩, fun r => id⟩
  case newRecord snap hash =>
    obtain ⟨hrole, rfl⟩ := Local.advance_newRecord h
    exact ⟨fun key claim he => by cases he; exact ⟨_, hrole⟩, fun r he => by cases he⟩
  case executionsInsert id r =>
    obtain ⟨_, key, _, hrole, rfl⟩ := Local.advance_executionsInsert h
    exact ⟨fun key claim he => by cases he; exact ⟨_, hrole⟩, fun r he => by cases he⟩
  case spawnRun request =>
    obtain ⟨key, hrole, rfl⟩ := Local.advance_spawnRun h
    exact ⟨fun key claim he => by cases he; exact ⟨_, hrole⟩, fun r he => by cases he⟩

end Eggwork.Server
