import Eggwork.Server.Locks
import Eggwork.Server.Moves
import Eggwork.Store.States

/-! The lifecycle of an execution moves forward only.

Tasks publish with a fixed target state, and `publish` refuses only a terminal
record. Before its run is spawned a row is `Accepted` or `Cancelling`, so the first
publication never meets a `Running` row; but a cancellation recorded before the
run has published its last output is overwritten by `Running`
(`cancelling_overwritten`). Where a cancellation is recorded only once the run of
its row is past its last `Running`, the recorded state of every row only rises
(`lifecycle_rises`). -/
namespace Eggwork.Server
open Lib Store Runner Function Local List Option Bool Discipline

variable {J : Serde}
variable {v v' : View J} {t : TaskId} {g : Local} {st : ExecutionStore J} {locals : TaskId → Local}
variable {claims : TaskId → Option (RowKey × Claim)} {snap : ExecutionSnapshot} {kind : ExecutionEventKind}
variable {call : Call} {origin : Origin}

/-! ### The rule -/

def Op.publishesRunning : Op → Bool
  | .commitEvent snapshot _ => snapshot.state == .running
  | _ => false

/-- Whatever it is answered, the program publishes `Running` no more. -/
def Spent (program : Async Unit) : Prop := program.Uses (fun o : Op => o.publishesRunning = false) fun _ => False

/-- The run of a row has been spawned, and is past its last `Running`. -/
def Node.Settled (s : Node J) (key : RowKey) : Prop :=
  key ∈ spawnedKeys s.log ∧ ∀ task ∈ s.tasks, ∀ r, task.origin = .run r →
    ∀ record ∈ s.records[r]?, record.key = key → Spent task.program

/-- The row a store call records `Cancelling` for. -/
def cancelledRow : Call → Option RowKey
  | .reserve snapshot .. | .commitEvent snapshot .. =>
    if snapshot.state = .cancelling then some (rowKey snapshot) else none
  | _ => none

def Op.cancels (o : Op) : Option RowKey := (o.call 0).bind cancelledRow

/-- A task, or a store call left by a dropped one, records `Cancelling` for these rows only. -/
def CancelsIn (allowed : RowKey → Prop) (s : Node J) : Action → Prop
  | .task t _ => ∀ o ∈ s.nextOp t, ∀ key ∈ o.cancels, allowed key
  | .job i _ => ∀ o ∈ s.jobs[i]?, ∀ key ∈ o.cancels, allowed key
  | _ => True

/-- `Cancelling` is recorded only where the run publishes `Running` no more. -/
def CancelsLast (s : Node J) : Action → Prop := CancelsIn s.Settled s

/-- The operation commits `Accepted` or `Running` to a row that records `Cancelling`. -/
def Op.overwrites (st : ExecutionStore J) : Op → Bool
  | .commitEvent snapshot _ =>
    (snapshot.state == .accepted || snapshot.state == .running) &&
      recordedState st (rowKey snapshot) == some .cancelling
  | _ => false

/-! ### Rows before their run -/

/-- A row that was created, that no task still admits, and that has no run. -/
def Orphan (claims : TaskId → Option (RowKey × Claim)) (v : View J) (key : RowKey) : Prop :=
  (v.store.executions.get? key).isSome ∧ key ∉ spawnedKeys v.log ∧ ∀ t claim, claims t ≠ some (key, claim)

/-- What a dropped request can leave in flight. -/
def Leftover (claims : TaskId → Option (RowKey × Claim)) (v : View J) : Op → Prop
  | .commitEvent snapshot _ =>
    snapshot.state = .cancelling ∨ (snapshot.state = .accepted ∧ Orphan claims v (rowKey snapshot))
  | .reserve snapshot .. => snapshot.state = .accepted
  | _ => True

/-- No row that has no run is `Preparing` or `Running`. -/
def Unspawned (st : ExecutionStore J) (spawned : List RowKey) : Prop :=
  ∀ key state, recordedState st key = some state → key ∉ spawned → state ≠ .preparing ∧ state ≠ .running

structure Ordered (claims : TaskId → Option (RowKey × Claim)) (v : View J) : Prop where
  unspawned : Unspawned v.store (spawnedKeys v.log)
  jobs : ∀ o ∈ v.jobs, Leftover claims v o

/-- What a task may write: `Accepted` before the run is spawned, `Running` after. -/
def Op.timely (spawned : List RowKey) : Op → Prop
  | .commitEvent snapshot _ =>
    match snapshot.state with
    | .accepted => rowKey snapshot ∉ spawned
    | .preparing => False
    | .running => rowKey snapshot ∈ spawned
    | _ => True
  | .reserve snapshot .. => snapshot.state = .accepted
  | _ => True

variable {o : Op} {answer : o.Answer}

theorem Leftover.timely (h : Leftover claims v o) : o.timely (spawnedKeys v.log) := by
  cases o <;> first
    | trivial
    | exact h
    | skip
  case commitEvent snap kind =>
    rcases h with hst | ⟨hst, _, hf, _⟩
    · simp only [Op.timely, hst]
    · simp only [Op.timely, hst]
      exact hf

theorem rank_of_timely {spawned : List RowKey} {old : ExecutionState} (h : (Op.commitEvent snap kind).timely spawned)
    (hu : Unspawned st spawned) (hs : (Op.commitEvent snap kind).overwrites st = false)
    (hold : recordedState st (rowKey snap) = some old) (hl : isTerminal old = false) : old.rank ≤ snap.state.rank := by
  simp only [Op.timely] at h
  simp only [Op.overwrites, hold] at hs
  cases hst : snap.state <;> simp only [hst] at h hs ⊢
  case accepted =>
    obtain ⟨hp, hrun⟩ := hu _ old hold h
    cases old <;> simp_all [isTerminal, ExecutionState.rank]
  case running => cases old <;> simp_all [isTerminal, ExecutionState.rank]
  case cancelling => cases old <;> simp_all [isTerminal, ExecutionState.rank]
  all_goals exact old.rank_le

theorem Op.timely.rises {spawned : List RowKey} (h : o.timely spawned) (hc : Coherent st)
    (hu : Unspawned st spawned) (hs : o.overwrites st = false) {now : Int} (hcall : o.call now = some call) :
    Rises st (call.exec st) := by
  refine Rises.exec hc fun snap kind now old hcommit hold hl => ?_
  subst hcommit
  cases o <;> cases hcall
  exact rank_of_timely h hu hs hold hl

/-- A call keeps the rows without a run in order, if what it writes is timely. -/
theorem Unspawned.exec {spawned : List RowKey} (h : Unspawned st spawned) (hc : Coherent st)
    (hcall : (∃ now, call = .recover now) ∨ ∃ o now, Op.call now o = some call ∧ o.timely spawned) :
    Unspawned (call.exec st) spawned := by
  intro key state hst hfree
  have hm := exec_moves hc call key
  rw [hst] at hm
  generalize hold : recordedState st key = old at hm
  cases hm with
  | same => exact h key state hold hfree
  | reserved hkey =>
    rcases hcall with ⟨now, hr⟩ | ⟨o, now, ho, ht⟩
    · cases hr
    cases o <;> cases ho
    rw [show ExecutionSnapshot.state _ = .accepted from ht]
    exact ⟨ExecutionState.noConfusion, ExecutionState.noConfusion⟩
  | committed hkey =>
    rename_i snap kind now' old hl
    rcases hcall with ⟨now, hr⟩ | ⟨o, now, ho, ht⟩
    · cases hr
    cases o <;> cases ho
    subst hkey
    simp only [Op.timely] at ht
    cases hsnap : snap.state <;> simp only [hsnap] at ht <;> first
      | exact absurd ht hfree
      | exact ⟨ExecutionState.noConfusion, ExecutionState.noConfusion⟩
  | interrupted => exact ⟨ExecutionState.noConfusion, ExecutionState.noConfusion⟩

/-! ### The tasks -/

/-- Who commits what: the claimant of a row its first state, the run of a row
`Running` and the terminal states, anyone a cancellation. -/
theorem commit_cases {answer : Except StoreError (Option ExecutionEvent)}
    (hm : (locals t).advance (.commitEvent snap kind) answer = some g) (ho : Owned (claimsOf locals) v)
    (hrecorded : Recorded locals v) :
    (snap.state = .accepted ∧ ∃ r, claimsOf locals t = some (rowKey snap, .inserted r)) ∨ snap.state = .cancelling ∨
      ((snap.state = .running ∨ isTerminal snap.state = true) ∧ rowKey snap ∈ spawnedKeys v.log ∧
        ∃ r, (locals t).role = .run r ∧ ∃ record : RecordView, v.records[r]? = some record ∧
          record.key = rowKey snap) := by
  obtain ⟨r, base, hb, hmay, _⟩ := advance_commitEvent hm
  obtain ⟨rec, hrecord, hk⟩ := hrecorded.proposed t r base (by rw [hb]; rfl)
  obtain ⟨_, hr, _, _, hmay⟩ := commits_of_mayCommit hmay
  rw [← hr] at hk
  have hrun : (locals t).role = .run r → rowKey snap ∈ spawnedKeys v.log ∧ ∃ r, (locals t).role = .run r ∧
      ∃ record : RecordView, v.records[r]? = some record ∧ record.key = rowKey snap := by
    intro hrole
    obtain ⟨rec', hr', hs⟩ := hrecorded.runs t r hrole
    rw [hrecord, some.injEq] at hr'
    exact ⟨hk ▸ hr' ▸ hs, r, hrole, rec, hrecord, hk⟩
  cases hst : snap.state <;> simp only [hst, mayPublish, beq_iff_eq] at hmay
  case accepted =>
    split at hmay
    · rename_i key claim hrole
      rw [beq_iff_eq] at hmay
      subst hmay
      have hc : claimsOf locals t = some (key, .inserted r) := by
        simp only [claimsOf, claimed, hrole]
      obtain ⟨rec', hr', rfl⟩ := ho.recorded t key _ r hc rfl
      rw [hrecord, some.injEq] at hr'
      exact .inl ⟨rfl, r, hk ▸ hr' ▸ hc⟩
    · cases hmay
  case preparing => cases hmay
  case running => exact .inr (.inr ⟨.inl rfl, hrun hmay⟩)
  case cancelling => exact .inr (.inl rfl)
  all_goals exact .inr (.inr ⟨.inr rfl, hrun hmay⟩)

theorem Local.timely (hm : (locals t).advance o answer = some g) (ho : Owned (claimsOf locals) v)
    (hr : Recorded locals v) : o.timely (spawnedKeys v.log) := by
  cases o <;> first
    | trivial
    | skip
  case reserve => exact (advance_reserve hm).2.1.2
  case commitEvent snapshot kind =>
    simp only [Op.timely]
    rcases commit_cases hm ho hr with ⟨hst, r, hc⟩ | hst | ⟨hst, hs, _⟩
    · rw [hst]
      exact (ho.claimed t _ _ hc).2
    · rw [hst]
      trivial
    · cases hsnap : snapshot.state <;> simp [hsnap, isTerminal] at hst ⊢
      exact hs

/-- A row that is claimed now was claimed before, or has just been created. -/
theorem Effect.claimed_before (he : Effect t origin v o answer v') {g' : Local} (hm : g.advance o answer = some g')
    {key : RowKey} {claim : Claim} (hc : g'.claimed = some (key, claim)) :
    (∃ old, g.claimed = some (key, old)) ∨ v.store.executions.get? key = none := by
  by_cases hclaim : o.claims = false
  · exact .inl ⟨claim, (advance_claimed hclaim hm).symm.trans hc⟩
  cases he with
  | failedReserve =>
    obtain ⟨_, _, ⟨hnew, _⟩ | ⟨_, rfl⟩⟩ := advance_reserve hm
    · cases hnew
    · exact .inl ⟨claim, hc⟩
  | reserve =>
    obtain ⟨_, _, ⟨hnew, rfl⟩ | ⟨_, rfl⟩⟩ := advance_reserve hm
    · obtain ⟨st', hst'⟩ := answered_ok hnew
      cases hc
      exact .inr (reserve_created hst').1
    · exact .inl ⟨claim, hc⟩
  | newRecord =>
    obtain ⟨hrole, rfl⟩ := advance_newRecord hm
    cases hc
    exact .inl ⟨.created, by simp only [claimed, hrole]⟩
  | executionsInsert =>
    rename_i id r
    obtain ⟨_, key', _, hrole, rfl⟩ := advance_executionsInsert hm
    cases hc
    exact .inl ⟨.recorded r, by simp only [claimed, hrole]⟩
  | spawnRun =>
    obtain ⟨key', _, rfl⟩ := advance_spawnRun hm
    cases hc
  | quiet hq =>
    cases o <;> first
      | exact absurd rfl hclaim
      | cases hq
  | _ => exact absurd rfl hclaim

/-- An orphan stays one: only its claimant could have spawned its run. -/
theorem Orphan.performs {n : TaskId} (he : Effect t origin v o answer v') (hm : (locals t).advance o answer = some g)
    (hn : locals n = Local.idle) (ho : Owned (claimsOf locals) v) {key : RowKey} (h : Orphan (claimsOf locals) v key) :
    Orphan (claimsOf (update (admissionDiscipline.births locals n o) t g)) v' key := by
  rw [claimsOf_update, claimsOf_births hn]
  obtain ⟨hr, hf, hclaim⟩ := h
  refine ⟨(he.keeps ho.sound).1 key hr, ?_, fun i claim hi => ?_⟩
  · by_cases hs : ∀ req, o ≠ .spawnRun req
    · rw [(he.extends hs).spawned]
      exact hf
    simp only [not_forall, Decidable.not_not] at hs
    obtain ⟨req, rfl⟩ := hs
    cases he with
    | quiet hq => cases hq
    | spawnRun hrecord =>
      obtain ⟨key', hrole, _⟩ := advance_spawnRun hm
      have hc : claimsOf locals t = some (key', .inserted req.record) := by
        simp only [claimsOf, Local.claimed, hrole]
      obtain ⟨rec', hr', rfl⟩ := ho.recorded t key' _ _ hc rfl
      rw [hrecord, Option.some.injEq] at hr'
      subst hr'
      rw [spawnedKeys_spawned, List.mem_append, List.mem_singleton]
      rintro (hspared | rfl)
      · exact hf hspared
      · exact hclaim t _ hc
  · by_cases hit : i = t
    · subst hit
      rw [update_self] at hi
      rcases he.claimed_before hm hi with ⟨old, hold⟩ | hnone
      · exact hclaim i old hold
      · rw [hnone] at hr
        cases hr
    · rw [update_of_ne hit] at hi
      exact hclaim i claim hi

theorem Leftover.mono {claims' : TaskId → Option (RowKey × Claim)} (h : Leftover claims v o)
    (ho : ∀ key, Orphan claims v key → Orphan claims' v' key) : Leftover claims' v' o := by
  cases o <;> first
    | trivial
    | exact h
    | skip
  case commitEvent snap kind => exact h.imp id fun h => ⟨h.1, ho _ h.2⟩

/-- What a dropped request leaves in flight. -/
theorem leftover_of_drop {locals : TaskId → Local} {v : View J} {t : TaskId} {task : Task}
    (hr : task.origin.isRequest = true) (hfits : admissionDiscipline.fits task.face (locals t))
    (hall : admissionDiscipline.Allows (locals t) task.program) (hown : Owned (claimsOf locals) v)
    (hrecord : Recorded locals v) {o : Op} (ho : o ∈ detached task.program) :
    Leftover (update (claimsOf locals) t none) v o := by
  unfold detached at ho
  split at ho
  · rename_i o' next hp
    split at ho
    · rw [mem_singleton.mp ho]
      rw [hp] at hall
      cases o' <;> first
        | trivial
        | skip
      case reserve =>
        obtain ⟨g, hm, _⟩ := allows_perform hall (.error .sql)
        exact (advance_reserve hm).2.1.2
      case commitEvent snapshot kind =>
        obtain ⟨g, hm, _⟩ := allows_perform hall (.error .sql)
        rcases commit_cases hm hown hrecord with ⟨hst, r, hc⟩ | hst | ⟨_, _, r, hrole, _⟩
        · obtain ⟨hsome, hf⟩ := hown.claimed t _ _ hc
          refine .inr ⟨hst, hsome, hf, fun i claim hi => ?_⟩
          by_cases hit : i = t
          · subst hit
            rw [update_self] at hi
            cases hi
          · rw [update_of_ne hit] at hi
            exact hit (hown.distinct i t _ claim _ hi hc)
        · exact .inl hst
        · -- a request is no run
          have horigin : task.origin = .run r := hfits.2 r hrole
          rw [horigin] at hr
          cases hr
    · cases ho
  · cases ho

/-! ### Cancellations that come last -/

theorem Op.cancels_call {now : Int} (h : o.call now = some call) : o.cancels = cancelledRow call := by
  cases o <;> cases h <;> rfl

theorem cancels_of_exec (hc : Coherent st) {key : RowKey} (h : recordedState (call.exec st) key = some .cancelling) :
    recordedState st key = some .cancelling ∨ key ∈ cancelledRow call := by
  have hm := exec_moves hc call key
  rw [h] at hm
  generalize hold : recordedState st key = old, hnew : some ExecutionState.cancelling = new at hm
  cases hm with
  | same => exact .inl rfl
  | reserved hkey | committed hkey =>
    subst hkey
    exact .inr (if_pos (some.inj hnew).symm)
  | interrupted => cases hnew

theorem cancelling_of_recover {now : Int} (hc : Coherent st) {key : RowKey}
    (h : recordedState ((Call.recover now).exec st) key = some .cancelling) :
    recordedState st key = some .cancelling :=
  (cancels_of_exec hc h).resolve_right (not_mem_none key)

/-- In a step, only the rows it may cancel come to record `Cancelling`. -/
theorem cancelling_inductive (allowed : RowKey → Prop) (keys : List RowKey) :
    admissionDiscipline.Inductive (CancelsIn allowed)
    (fun locals v => Owned (J := J) (claimsOf locals) v ∧ Recorded locals v)
    fun _ v => keys ⊆ spawnedKeys v.log ∧ ∀ key, recordedState v.store key = some .cancelling → allowed key where
  performs hrule ht hp _ _ heffect _ _ _ _ hg h := by
    have hs := hg.1.sound
    refine ⟨List.Subset.trans h.1 (heffect.keeps hs).2.1, fun key hkey => ?_⟩
    rcases heffect.store_cases with he | ⟨now, call, hcall, he⟩
    · exact h.2 key (he ▸ hkey)
    rcases cancels_of_exec hs.reachable.coherent (he ▸ hkey) with hold | hnew
    · exact h.2 key hold
    · exact hrule _ (nextOp_eq ht hp) key (Op.cancels_call hcall ▸ hnew)
  releases _ _ h := h
  arrives _ _ _ _ _ h := h
  drops _ _ _ _ _ _ h := h
  jobs {s i fails o now call locals} hrule hjob hcall hg h := by
    cases fails
    · refine ⟨h.1, fun key hkey => ?_⟩
      rcases cancels_of_exec hg.1.sound.reachable.coherent hkey with hold | hnew
      · exact h.2 key hold
      · exact hrule o hjob key (Op.cancels_call hcall ▸ hnew)
    · exact h
  crashes _ h := h
  recovers now _ _ _ hg h :=
    ⟨h.1, fun key hkey => h.2 key (cancelling_of_recover hg.1.sound.reachable.coherent hkey)⟩
  starts {locals v interrupted snapshots} now _ _ _ _ _ hg h := by
    rw [foldl_load_store, (View.Extends.foldl_load snapshots _).spawned]
    exact ⟨h.1, fun key hkey => h.2 key (cancelling_of_recover hg.1.sound.reachable.coherent hkey)⟩

/-- Every run has its record, and every row that records `Cancelling` is settled. -/
structure Node.Lasting (s : Node J) : Prop where
  rooted : ∀ task ∈ s.tasks, ∀ r, task.origin = .run r → ∃ record, s.records[r]? = some record
  settled : ∀ key, recordedState s.store key = some .cancelling → s.Settled key

section Lasting
variable {config : NodeConfig} {s s' : Node J} {a : Action} {ls' : TaskId → Local}

/-- A commit to a settled row that is timely, and not of `Running`. -/
theorem Node.Lasting.spares (hl : s.Lasting) (ht : (Op.commitEvent snap kind).timely (spawnedKeys s.log))
    (hnot : recordedState s.store (rowKey snap) = some .cancelling → snap.state ≠ .running) :
    (Op.commitEvent snap kind).overwrites s.store = false := by
  by_contra hover
  simp only [Op.overwrites, Bool.not_eq_false, Bool.and_eq_true, Bool.or_eq_true, beq_iff_eq] at hover
  obtain ⟨haccepted | hrunning, hstate⟩ := hover
  · simp only [Op.timely, haccepted] at ht
    exact ht (hl.settled _ hstate).1
  · exact hnot hstate hrunning

/-- A run is spawned for a row that had none. -/
theorem record_of_spawnRun {request : RunRequest} (answer : (Op.spawnRun request).Answer)
    (ho : Owned (claimsOf locals) s.view) (hm : (locals t).advance (.spawnRun request) answer = some g) :
    ∃ record, s.records[request.record]? = some record ∧ record.key ∉ spawnedKeys s.log := by
  obtain ⟨key, hrole, _⟩ := advance_spawnRun hm
  have hc : claimsOf locals t = some (key, .inserted request.record) := by
    simp only [claimsOf, claimed, hrole]
  obtain ⟨_, hr, rfl⟩ := ho.recorded t key _ _ hc rfl
  rw [view_getElem?] at hr
  obtain ⟨record, hrecord, rfl⟩ := map_eq_some_iff.mp hr
  exact ⟨record, hrecord, (ho.claimed t _ _ hc).2⟩

/-- Of a task as a step finds it: if it runs a settled row, its program is spent. -/
def Node.Spends (s : Node J) (origin : Origin) (program : Async Unit) : Prop :=
  s.up = true ∧ ∀ r, origin = .run r →
    ∃ record, s.records[r]? = some record ∧ (s.Settled record.key → Spent program)

theorem Node.Spends.mono {p p' : Async Unit} (h : s.Spends origin p) (hp : Spent p → Spent p') : s.Spends origin p' := by
  refine ⟨h.1, fun r hr => ?_⟩
  obtain ⟨record, hrecord, hspent⟩ := h.2 r hr
  exact ⟨record, hrecord, fun hsettled => hp (hspent hsettled)⟩

theorem Node.Spends.request {p : Async Unit} (hr : origin.isRequest = true) (hup : s.up = true) : s.Spends origin p := by
  refine ⟨hup, ?_⟩
  rintro r rfl
  cases hr

/-- The runs after a step are on records of before, and none that is spent goes on to publish. -/
theorem Node.Lasting.runs (hl : s.Lasting) (hk : admissionDiscipline.Keeps locals s)
    (ho : Owned (claimsOf locals) s.view) (hm : admissionDiscipline.Moves config locals s a ls' s') {task : Task}
    (ht : task ∈ s'.tasks) {r : RecordId} (hr : task.origin = .run r) :
    ∃ record record', s.records[r]? = some record ∧ s'.records[r]? = some record' ∧ record'.key = record.key ∧
      (s.Settled record.key → Spent task.program) := by
  have hcrash : a ≠ .crash := by
    rintro rfl
    cases hm
    cases ht
  have hspawns : ∀ {t task o answer g origin l}, s.tasks[t]? = some task → (locals t).advance o answer = some g →
      o.spawns = some (origin, l) → s.Spends origin (.loop l) := by
    intro t _ o answer _ _ _ ht hmove hspawns
    refine ⟨hk.up ht, ?_⟩
    rintro r rfl
    cases o <;> cases hspawns
    obtain ⟨record, hrecord, hfree⟩ := record_of_spawnRun answer ho hmove
    exact ⟨record, hrecord, fun hsettled => absurd hsettled.1 hfree⟩
  have hthread : ∀ {t : TaskId} {face : Face} {program}, s.threads[t]? = some (face, program) →
      s.Spends face.origin program := by
    intro t _ _ hthread
    obtain ⟨task, ht, rfl, rfl⟩ := task_of_thread hthread
    have hmem := mem_of_getElem? ht
    refine ⟨hk.up ht, fun r hr => ?_⟩
    obtain ⟨record, hrecord⟩ := hl.rooted task hmem r hr
    exact ⟨record, hrecord, fun hsettled => hsettled.2 task hmem r hr record hrecord rfl⟩
  obtain ⟨i, hi⟩ := mem_iff_getElem?.mp ht
  obtain ⟨hup, hrun⟩ := hm.tasks (P := fun origin _ program => s.Spends origin program) hspawns .request
    (fun hp _ => hp.mono fun hspent => hspent.2 _) (fun hp => hp.mono False.elim)
    (fun hrequest hp => .request hrequest hp.1) hthread (threads_getElem? hi)
  obtain ⟨record, hrecord, hspent⟩ := hrun r hr
  obtain ⟨record', hrecord', hlater⟩ := (hm.lives hup hcrash).later r record hrecord
  exact ⟨record, record', hrecord, hrecord', hlater.key, hspent⟩

/-- A step that cancels where it may leaves what was settled settled. -/
theorem Node.Lasting.moves (hl : s.Lasting) (hrule : CancelsLast s a) (hk : admissionDiscipline.Keeps locals s)
    (hg : Owned (claimsOf locals) s.view ∧ Recorded locals s.view)
    (hm : admissionDiscipline.Moves config locals s a ls' s') : s'.Lasting := by
  have hgiven := (owned_inductive (CancelsIn s.Settled)).and (recorded_inductive (J := J) (CancelsIn s.Settled))
  obtain ⟨_, hspawned, hcancelling⟩ := (hgiven.and (cancelling_inductive s.Settled (spawnedKeys s.log))).moves
    hrule hk hm ⟨hg, List.Subset.refl _, hl.settled⟩
  refine ⟨fun task ht r hr => ?_, fun key hkey => ?_⟩
  · obtain ⟨_, record', _, hrecord', _⟩ := hl.runs hk hg.1 hm ht hr
    exact ⟨record', hrecord'⟩
  have hsettled := hcancelling key hkey
  refine ⟨hspawned hsettled.1, fun task ht r hr found hfound hsame => ?_⟩
  obtain ⟨record, record', _, hrecord', hkept, hspent⟩ := hl.runs hk hg.1 hm ht hr
  rw [hrecord', mem_some] at hfound
  subst hfound
  exact hspent ((hkept.symm.trans hsame).symm ▸ hsettled)

/-- Only the run of a row publishes `Running`, and where the row is cancelled it is past that. -/
theorem Node.Lasting.performs (hl : s.Lasting) {next : o.Answer → Async Unit} (ht : s.tasks[t]? = some task)
    (hp : task.program = .perform o next) (hfits : admissionDiscipline.fits task.face (locals t))
    (hm : (locals t).advance o answer = some g) (ho : Owned (claimsOf locals) s.view) (hr : Recorded locals s.view) :
    o.overwrites s.store = false := by
  cases o <;> first
    | rfl
    | skip
  case commitEvent snap kind =>
    refine hl.spares (Local.timely hm ho hr) fun hstate hrunning => ?_
    rcases commit_cases hm ho hr with ⟨hst, _⟩ | hst | ⟨_, _, r, hrole, record, hrecord, hkey⟩
    · cases hst.symm.trans hrunning
    · cases hst.symm.trans hrunning
    rw [view_getElem?] at hrecord
    obtain ⟨found, hfound, rfl⟩ := map_eq_some_iff.mp hrecord
    have hspent := (hl.settled _ hstate).2 task (mem_of_getElem? ht) r (hfits.2 r hrole) found hfound hkey
    rw [hp] at hspent
    have hnot : (snap.state == .running) = false := hspent.1
    rw [hrunning] at hnot
    cases hnot

theorem Node.Lasting.jobs (hl : s.Lasting) (h : Leftover claims s.view o) : o.overwrites s.store = false := by
  have htimely := h.timely
  cases o <;> first
    | rfl
    | skip
  case commitEvent snap kind =>
    refine hl.spares htimely fun _ hrunning => ?_
    rcases h with hst | ⟨hst, _⟩ <;> cases hst.symm.trans hrunning

/-- Where cancellations come last, every state on the way is lasting. -/
theorem lasting_run (hrun : Steps (step config) CancelsLast s s') (hl : s.Lasting)
    (h : admissionDiscipline.Holds Founded s) :
    Steps (step config) (fun s _ => s.Lasting) s s' ∧ s'.Lasting ∧ admissionDiscipline.Holds Founded s' := by
  induction hrun with
  | refl => exact ⟨.refl _, hl, h⟩
  | tail _ hrule hstep ih =>
    obtain ⟨hsteps, hl, hh⟩ := ih
    refine ⟨.tail hsteps hl hstep, ?_, (founded_inductive Free).step trivial hstep hh⟩
    obtain ⟨locals, hk, hg, _⟩ := hh
    obtain ⟨ls', _, hm⟩ := hk.moves hstep
    exact hl.moves hrule hk hg hm

end Lasting

/-! ### Every run -/

/-- The state of every row only rises, from any store on the way. -/
theorem ordered_inductive (start : ExecutionStore J) : admissionDiscipline.Inductive (fun s _ => s.Lasting)
    (fun locals v => Owned (claimsOf locals) v ∧ Recorded locals v)
    fun locals v => Ordered (claimsOf locals) v ∧ Rises start v.store where
  performs {s t task choice o next answer v locals g n} hl ht hp _ hfits heffect hm _ hn _ hg h := by
    obtain ⟨hown, hrecord⟩ := hg
    obtain ⟨horder, hr⟩ := h
    have hc := hown.sound.reachable.coherent
    have htimely := timely hm hown hrecord
    have hs := hl.performs ht hp hfits hm hown hrecord
    have hspawned := (heffect.keeps hown.sound).2.1
    refine ⟨⟨fun key state hst hf => ?_, fun o' ho' => ?_⟩, ?_⟩
    · have hfree' : key ∉ spawnedKeys s.view.log := fun hmember => hf (hspawned hmember)
      rcases heffect.store_cases with he | ⟨now, call, hcall, he⟩
      · exact horder.unspawned key state (he ▸ hst) hfree'
      · exact horder.unspawned.exec hc (.inr ⟨o, now, hcall, htimely⟩) key state (he ▸ hst) hfree'
    · exact (horder.jobs o' (heffect.jobs ▸ ho')).mono fun key horphan => horphan.performs heffect hm hn hown
    · rcases heffect.store_cases with he | ⟨now, call, hcall, he⟩
      · exact he ▸ hr
      · exact he ▸ hr.trans (htimely.rises hc horder.unspawned hs hcall)
  releases _ _ h := ⟨⟨h.1.unspawned, fun o ho => (h.1.jobs o ho).mono fun _ => id⟩, h.2⟩
  arrives origin _ _ hn _ h := (claimsOf_birth hn origin).symm ▸ h
  drops {s t task locals} _ _ hrequest hfits hall hg h := by
    rw [claimsOf_update]
    refine ⟨⟨h.1.unspawned, fun o ho => ?_⟩, h.2⟩
    rcases mem_append.mp ho with ho | ho
    · refine (h.1.jobs o ho).mono fun key horphan => ⟨horphan.1, horphan.2.1, fun i claim hi => ?_⟩
      by_cases hit : i = t
      · subst hit
        rw [update_self] at hi
        cases hi
      · rw [update_of_ne hit] at hi
        exact horphan.2.2 i claim hi
    · exact leftover_of_drop hrequest hfits hall hg.1 hg.2 ho
  jobs {s i fails o now call locals} hl hjob hcall hg h := by
    obtain ⟨horder, hr⟩ := h
    have hc := hg.1.sound.reachable.coherent
    have hleftover := horder.jobs o (mem_of_getElem? hjob)
    have htimely := hleftover.timely
    have hleft : ∀ o ∈ s.view.jobs.eraseIdx i, Leftover (claimsOf locals) s.view o :=
      fun o ho => horder.jobs o (mem_of_mem_eraseIdx ho)
    cases fails
    · refine ⟨⟨horder.unspawned.exec hc (.inr ⟨o, now, hcall, htimely⟩), fun o ho => ?_⟩,
        hr.trans (htimely.rises hc horder.unspawned (hl.jobs hleftover) hcall)⟩
      refine (hleft o ho).mono fun key horphan => ⟨?_, horphan.2⟩
      exact (View.Extends.transact s.view call).rows hg.1.sound key horphan.1
    · exact ⟨⟨horder.unspawned, fun o ho => hleft o ho⟩, hr⟩
  crashes _ h := ⟨⟨h.1.unspawned, fun _ ho => (nomatch ho)⟩, h.2⟩
  recovers {locals v} now _ _ hstop hg h := by
    have hc := hg.1.sound.reachable.coherent
    have hjobs : v.jobs = [] := congrArg View.jobs hstop
    refine ⟨⟨h.1.unspawned.exec hc (.inl ⟨now, rfl⟩), fun o ho => ?_⟩, h.2.trans (Rises.exec hc fun _ _ _ _ he => ?_)⟩
    · have ho : o ∈ v.jobs := ho
      rw [hjobs] at ho
      cases ho
    · cases he
  starts {locals v interrupted snapshots} now _ _ hstop _ _ hg h := by
    have hc := hg.1.sound.reachable.coherent
    have hjobs : v.jobs = [] := congrArg View.jobs hstop
    have hload := View.Extends.foldl_load snapshots {v.transact (.recover now) with up := true}
    refine ⟨⟨?_, fun o ho => ?_⟩, ?_⟩
    · rw [foldl_load_store, hload.spawned]
      exact h.1.unspawned.exec hc (.inl ⟨now, rfl⟩)
    · rw [(foldl_load_up snapshots _).2] at ho
      have ho : o ∈ v.jobs := ho
      rw [hjobs] at ho
      cases ho
    · rw [foldl_load_store]
      exact h.2.trans (Rises.exec hc fun _ _ _ _ he => by cases he)

theorem ordered_fresh : Ordered (claimsOf fun _ => idle) (fresh J).view :=
  ⟨fun _ _ hst => (nomatch hst), fun _ ho => (nomatch ho)⟩

/-- **The lifecycle of an execution moves forward only.** In every run in which
`Cancelling` is recorded for a row only when its run has been spawned and has no
`Running` left to publish, whatever state a row records at some point, what it
records at any later point is not before it in the order
`Accepted < Preparing < Running < Cancelling < terminal`; in particular, after
`Cancelling` no snapshot is `Accepted` or `Running`. -/
theorem lifecycle_rises {config : NodeConfig} {s s' : Node J}
    (hreach : Steps (step config) CancelsLast (fresh J) s) (hrun : Steps (step config) CancelsLast s s')
    {key : RowKey} {state : ExecutionState} (hstate : recordedState s.store key = some state) :
    ∃ state', recordedState s'.store key = some state' ∧ state.rank ≤ state'.rank ∧
      (state = .cancelling → state' ≠ .accepted ∧ state' ≠ .running) := by
  have hgiven := (owned_inductive fun s _ => s.Lasting).and (recorded_inductive (J := J) fun s _ => s.Lasting)
  have hfresh : (fresh J).Lasting := ⟨fun _ ht => (nomatch ht), fun _ hst => (nomatch hst)⟩
  obtain ⟨hlast, hlasting, hholds⟩ := lasting_run hreach hfresh ⟨_, Discipline.keeps_fresh, founded_fresh⟩
  obtain ⟨locals, hkeeps, hs, hordered, _⟩ := (hgiven.and (ordered_inductive (fresh J).store)).holds hlast
    ⟨_, Discipline.keeps_fresh, ⟨owned_fresh, recorded_fresh⟩, ordered_fresh, Rises.refl _⟩
  obtain ⟨_, _, _, _, hrises⟩ := (hgiven.and (ordered_inductive s.store)).holds (lasting_run hrun hlasting hholds).1
    ⟨locals, hkeeps, hs, hordered, Rises.refl _⟩
  obtain ⟨state', hstate', hle⟩ := hrises key state hstate
  refine ⟨state', hstate', hle, fun hcancelling => ?_⟩
  cases state' <;> simp_all [ExecutionState.rank]

namespace Example

/-- A chunk of output arrives, and the run publishes it. -/
def published : List Action := [.output 0 ⟨false, [104, 105]⟩] ++ runs 2 4

/-- The run ends, but the store does not take its last publication. -/
def unrecorded : List Action := [.hangUp 0, .exit 0 .panicked] ++ runs 2 12 ++ [.task 2 {fault := .early}] ++ runs 2 4

/-- What the node has recorded of the execution. -/
def records (state : ExecutionState) (s : Node Serde.json) : Bool := recordedState s.store (key 1) == some state

/-- The run of the row has been spawned, and no run goes on. -/
def runsOver (s : Node J) (key : RowKey) : Bool :=
  (spawnedKeys s.log).contains key && s.tasks.all fun task =>
    match task.origin with
    | .run _ => task.program.isDone
    | _ => true

theorem settled_of_over {s : Node J} {key : RowKey} (h : runsOver s key = true) : s.Settled key := by
  simp only [runsOver, Bool.and_eq_true, List.contains_iff_mem, List.all_eq_true] at h
  refine ⟨h.1, fun task ht r hr _ _ _ => ?_⟩
  have hdone := h.2 task ht
  rw [hr] at hdone
  cases hp : task.program with
  | done value => trivial
  | _ =>
    rw [hp] at hdone
    cases hdone

instance (s : Node J) : (a : Action) → Decidable (CancelsIn (fun key => runsOver s key = true) s a)
  | .task t _ => inferInstanceAs (Decidable (∀ o ∈ s.nextOp t, ∀ key ∈ o.cancels, runsOver s key = true))
  | .job i _ => inferInstanceAs (Decidable (∀ o ∈ s.jobs[i]?, ∀ key ∈ o.cancels, runsOver s key = true))
  | .request _ | .drop _ | .output .. | .hangUp _ | .exit .. | .clock .. | .setMarker _ | .setDraining _
  | .setWorkspaces _ | .crash | .start _ => isTrue trivial

theorem last_of_over {s : Node J} {a : Action} (h : CancelsIn (fun key => runsOver s key = true) s a) : CancelsLast s a := by
  cases a with
  | task t choice | job i fails => exact fun o ho key hkey => settled_of_over (h o ho key hkey)
  | _ => trivial

end Example

open Example in
theorem lifecycle_rises_cancelling : ∃ s s' : Node Serde.json, Steps (step config) CancelsLast (fresh Serde.json) s ∧
      Steps (step config) CancelsLast s s' ∧ recordedState s.store (key 1) = some .cancelling ∧
      recordedState s'.store (key 1) = some .interrupted ∧
      ∃ state', recordedState s'.store (key 1) = some state' ∧ ExecutionState.cancelling.rank ≤ state'.rank ∧
        (ExecutionState.cancelling = .cancelling → state' ≠ .accepted ∧ state' ≠ .running) := by
  have hfollow : (follow (step config) (fun s => CancelsIn (fun key => runsOver s key = true) s) (fresh Serde.json)
      (admitted ++ running ++ unrecorded ++ cancelled)).any (fun s => records .cancelling s &&
        (follow (step config) (fun s => CancelsIn (fun key => runsOver s key = true) s) s [.crash, .start .none]).any
          (records .interrupted)) = true := by
    decide
  obtain ⟨s, hreach, hs⟩ := follow_reaches hfollow
  obtain ⟨hcancelling, hnext⟩ := Bool.and_eq_true_iff.mp hs
  obtain ⟨s', hrun, hinterrupted⟩ := follow_reaches hnext
  have hreach := hreach.weaken last_of_over
  have hrun := hrun.weaken last_of_over
  exact ⟨s, s', hreach, hrun, beq_iff_eq.mp hcancelling, beq_iff_eq.mp hinterrupted,
    lifecycle_rises hreach hrun (beq_iff_eq.mp hcancelling)⟩

open Example in
/-- A cancellation is recorded, and `Running` over it. -/
theorem cancelling_overwritten : ∃ s s' : Node Serde.json, Steps (step config) Free (fresh Serde.json) s ∧
      Steps (step config) Free s s' ∧ recordedState s.store (key 1) = some .cancelling ∧
      recordedState s'.store (key 1) = some .running := by
  have hfollow : (follow (step config) Free (fresh Serde.json) (admitted ++ running ++ cancelled)).any (fun s =>
      records .cancelling s && (follow (step config) Free s Example.published).any (records .running)) = true := by
    decide
  obtain ⟨s, hreach, hs⟩ := follow_reaches hfollow
  obtain ⟨hcancelling, hnext⟩ := Bool.and_eq_true_iff.mp hs
  obtain ⟨s', hrun, hrunning⟩ := follow_reaches hnext
  exact ⟨s, s', hreach, hrun, beq_iff_eq.mp hcancelling, beq_iff_eq.mp hrunning⟩

end Eggwork.Server
