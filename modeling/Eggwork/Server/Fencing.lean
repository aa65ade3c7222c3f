import Eggwork.Server.Records

/-! A control request stays with the generation it names.

`control` checks the durable row of the generation it names, and that it is the
latest; then, awaits later, it fetches whatever record the map has for the
execution by then, and compares only the lease hash. A later generation submitted
under the same lease in between is cancelled in place of the one that was named
(`cancelled_next_generation`). Where the record fetched is of the named generation,
or fails the lease test, or the request is a renewal of a generation that is over,
a control request touches no other generation (`control_fenced`). -/
namespace Eggwork.Server
open Lib Store Runner Option List Local View
open Function (update update_self update_of_ne)

variable {J : Serde}
variable {t : TaskId}

/-! ### The protocol of a control request -/

/-- What a control request names. -/
structure Target where
  id : ExecutionId
  generation : ExecutionGeneration
  renew : Bool
deriving DecidableEq

def Target.key (target : Target) : RowKey := (target.id, target.generation.asI64)

def Target.origin (target : Target) : Origin := .control target.id target.generation target.renew

/-- How far a control request is. -/
inductive Stage where
  | unknown
  | known (leaseHash : String)
  | fetched (leaseHash : String) (record : RecordId)
  | granted (record : RecordId)
  | renewed (record : RecordId)
deriving DecidableEq

/-- The local state of a task: over, none of our business, or a control request. -/
inductive Control where
  | gone
  | free
  | on (target : Target) (stage : Stage)
deriving DecidableEq

/-- The operations of a control request that are about the row or the record it names. -/
def Op.binds : Op → Bool
  | .lookup .. | .executionsGet _ | .recordLeaseHash _ | .updateLease .. | .extendLease .. | .cancel _
  | .lockCommit _ | .commitEvent .. => true
  | _ => false

variable {o : Op} {answer : o.Answer}

def Stage.advance (target : Target) (stage : Stage) : (o : Op) → o.Answer → Option Stage
  | .lookup id generation, answer =>
    if stage = .unknown ∧ id = target.id ∧ generation = target.generation then
      match answer with
      | .ok (some existing) => some (.known existing.leaseTokenHash)
      | _ => some stage
    else none
  | .executionsGet id, answer =>
    match stage with
    | .known hash =>
      if id = target.id then
        match answer with
        | some r => some (.fetched hash r)
        | none => some stage
      else none
    | _ => none
  | .recordLeaseHash r, answer =>
    match stage with
    | .fetched hash r' => if r' = r then some (if answer = hash then .granted r else .unknown) else none
    | _ => none
  | .updateLease id generation .., answer =>
    match stage with
    | .granted r =>
      if target.renew = true ∧ id = target.id ∧ generation = target.generation then
        match answer with
        | .ok (some _) => some (.renewed r)
        | _ => some stage
      else none
    | _ => none
  | .extendLease r _, _ => if stage = .renewed r then some stage else none
  | .cancel r, _ => if stage = .granted r ∧ target.renew = false then some stage else none
  | .lockCommit r, _ => if stage = .granted r ∧ target.renew = false then some stage else none
  | .commitEvent .., _ =>
    match stage with
    | .granted _ => if target.renew = false then some stage else none
    | _ => none
  | _, _ => some stage

variable {stage stage' : Stage}

def Control.advance : Control → (o : Op) → o.Answer → Option Control
  | .gone, _, _ => none
  | .free, _, _ => some .free
  | .on target stage, o, answer => (stage.advance target o answer).map (.on target)

abbrev fencing : Protocol effects Control where
  advance := Control.advance
  enter l g :=
    match g with
    | .gone => False
    | .free => True
    | .on .. => ∃ stream, l = Loop.events stream

def Control.birth : Origin → Control
  | .control id generation renew => .on ⟨id, generation, renew⟩ .unknown
  | _ => .free

variable {locals : TaskId → Local × Control}

/-! ### Conformance -/

theorem Stage.advance_harmless (h : o.binds = false) (tgt : Target) (stage : Stage) (answer : o.Answer) :
    stage.advance tgt o answer = some stage := by
  cases o <;> first
    | rfl
    | exact absurd h Bool.noConfusion

/-- The operation does not move a request at this stage. -/
def Holds (target : Target) (stage : Stage) (o : Op) : Prop :=
  ∀ answer, Control.advance (.on target stage) o answer = some (.on target stage)

theorem Holds.harmless (h : o.binds = false) (tgt : Target) (stage : Stage) : Holds tgt stage o := by
  intro answer
  rw [Control.advance, Stage.advance_harmless h]
  rfl

/-- A program whose operations do not move a request at this stage. -/
abbrev Rests {α : Type} (target : Target) (stage : Stage) (p : Async α) : Prop :=
  p.Uses (Holds target stage) fun l : Loop => ∃ stream, l = .events stream

theorem Rests.conforms {α : Type} {tgt : Target} {p : Async α} (h : Rests tgt stage p) :
    fencing.Conforms (fun _ g => g = .on tgt stage) (.on tgt stage) p :=
  .of_uses (fun (_ : Op) ho => ho) (fun _ hl => hl) h

/-- The end of a control handler, wherever it stopped. -/
abbrev Handles {α : Type} (target : Target) (stage : Stage) (p : Async α) : Prop :=
  fencing.Conforms (fun _ g => ∃ stage, g = .on target stage) (.on target stage) p

/-- A first operation that does not move the request. -/
theorem Handles.skip {α : Type} {tgt : Target} {f : o.Answer → Async α} (h : Holds tgt stage o)
    (hf : ∀ answer, Handles tgt stage (f answer)) :
    Handles tgt stage (Program.op (E := effects) o >>= f) := .stay h hf

theorem Handles.move {α : Type} {tgt : Target} {f : o.Answer → Async α}
    (h : ∀ answer, ∃ stage', stage.advance tgt o answer = some stage' ∧ Handles tgt stage' (f answer)) :
    Handles tgt stage (Program.op (E := effects) o >>= f) := by
  intro answer
  obtain ⟨stage', hm, hn⟩ := h answer
  exact ⟨.on tgt stage', congrArg (Option.map (Control.on tgt)) hm, hn⟩

theorem Rests.handles {α : Type} {tgt : Target} {p : Async α} (h : Rests tgt stage p) :
    Handles tgt stage p := h.conforms.mono fun _ _ he => ⟨stage, he⟩

theorem Holds.granted {tgt : Target} (hr : tgt.renew = false) (r : RecordId) :
    Holds tgt (.granted r) (.lockCommit r) ∧ Holds tgt (.granted r) (.cancel r) ∧
      ∀ snap kind, Holds tgt (.granted r) (.commitEvent snap kind) := by
  refine ⟨fun _ => ?_, fun _ => ?_, fun _ _ _ => ?_⟩ <;> simp [Control.advance, Stage.advance, hr]

theorem publish_rests {tgt : Target} (hr : tgt.renew = false) (r : RecordId) (state : ExecutionState)
    (res : Option ExecutionResult) (kind : ExecutionEventKind) : Rests tgt (.granted r) (publish r state res kind) := by
  obtain ⟨hl, hc, hcommit⟩ := Holds.granted hr r
  have hu : Rests tgt (.granted r) (sync (.unlockCommit r)) := ⟨.harmless rfl _ _, fun _ => trivial⟩
  refine .op hl fun _ => .op (.harmless rfl _ _) fun base => ?_
  split
  · exact hu
  refine .op (hcommit _ _) fun answer => ?_
  split
  · exact .op (.harmless rfl _ _) fun _ => .op (.harmless rfl _ _) fun _ => hu
  · exact hu
  · exact .op (.harmless rfl _ _) fun _ => .op hc fun _ => hu

theorem leaseLapsed_rests (tgt : Target) (stage : Stage) (r : RecordId) : Rests tgt stage (leaseLapsed r) := by
  refine .op (.harmless rfl _ _) fun lease => ?_
  split
  · trivial
  · exact .op (.harmless rfl _ _) fun _ => trivial

theorem cancel_rests {tgt : Target} (hr : tgt.renew = false) (r : RecordId) (snap : ExecutionSnapshot) :
    Rests tgt (.granted r) (cancel r snap) := by
  have hread : Rests tgt (.granted r) (do pure (.snapshot 202 (← await (.readSnapshot r))) : Async Response) :=
    .op (.harmless rfl _ _) fun _ => trivial
  have hc : Rests tgt (.granted r)
      (do sync (.cancel r); pure (.snapshot 202 (← await (.readSnapshot r))) : Async Response) :=
    .op (Holds.granted hr r).2.1 fun _ => hread
  unfold cancel
  split
  · refine .op (.harmless rfl _ _) fun _ => (leaseLapsed_rests tgt _ r).bind fun lapsed => ?_
    split
    · trivial
    refine .op (.harmless rfl _ _) fun _ => (publish_rests hr ..).bind fun _ => .op (.harmless rfl _ _) fun current => ?_
    split
    · exact hc
    · exact hread
  · split
    · exact hc
    · exact hread

theorem renew_handles {tgt : Target} (hr : tgt.renew = true) (cfg : NodeConfig) (r : RecordId)
    {req : ControlRequest} (hid : req.handle.executionId = tgt.id)
    (hgeneration : req.handle.generation = tgt.generation) (leaseHash : String) (snap : ExecutionSnapshot) :
    Handles tgt (.granted r) (renew cfg r req leaseHash snap) := by
  have hstop : ∀ stage, Handles tgt stage (pure leaseExpired : Async Response) := fun stage => ⟨stage, rfl⟩
  unfold renew
  split
  · exact ⟨_, rfl⟩
  split
  · exact ⟨_, rfl⟩
  split
  · exact ⟨_, rfl⟩
  refine .skip (.harmless rfl _ _) fun _ => (leaseLapsed_rests tgt _ r).conforms.bind ?_
  intro lapsed g hg
  subst hg
  split
  · exact hstop _
  have hguard : tgt.renew = true ∧ req.handle.executionId = tgt.id ∧
      req.handle.generation = tgt.generation := ⟨hr, hid, hgeneration⟩
  refine Handles.skip (.harmless rfl _ _) fun now => .move fun answer => ?_
  cases answer with
  | error e => exact ⟨_, if_pos hguard, hstop _⟩
  | ok exp =>
    cases exp with
    | none => exact ⟨_, if_pos hguard, hstop _⟩
    | some exp =>
      refine ⟨.renewed r, if_pos hguard, ?_⟩
      refine .skip (.harmless rfl _ _) fun _ => .skip (.harmless rfl _ _) fun _ => ?_
      refine .skip (fun _ => ?_) fun _ => ⟨.renewed r, rfl⟩
      simp [Control.advance, Stage.advance]

theorem fetchRecord_conforms_known {tgt : Target} (hash : String) {f : Option RecordId → Async Response}
    (hf : ∀ r, Handles tgt (.fetched hash r) (f (some r))) (hn : Handles tgt (.known hash) (f none)) :
    Handles tgt (.known hash) (fetchRecord tgt.id >>= f) := by
  refine .skip (.harmless rfl _ _) fun _ => .move fun found => ?_
  cases found with
  | none => exact ⟨.known hash, if_pos rfl, .skip (.harmless rfl _ _) fun _ => hn⟩
  | some r => exact ⟨.fetched hash r, if_pos rfl, .skip (.harmless rfl _ _) fun _ => hf r⟩

theorem control_handles (cfg : NodeConfig) (principal : PrincipalId) (tgt : Target) {req : ControlRequest}
    (hgeneration : req.handle.generation = tgt.generation) :
    Handles tgt .unknown (control cfg tgt.id principal tgt.renew (.parsed req)) := by
  have hstop : ∀ stage resp, Handles tgt stage (pure resp : Async Response) := fun stage _ => ⟨stage, rfl⟩
  rw [control]
  split
  · exact hstop _ _
  rename_i hn
  have hid : req.handle.executionId = tgt.id := by
    by_contra hid
    exact hn (.inr hid)
  refine .move fun found => ?_
  have hg : Stage.unknown = .unknown ∧ tgt.id = tgt.id ∧ req.handle.generation = tgt.generation :=
    ⟨rfl, rfl, hgeneration⟩
  cases found with
  | error e => exact ⟨.unknown, if_pos hg, hstop _ _⟩
  | ok found =>
    cases found with
    | none => exact ⟨.unknown, if_pos hg, hstop _ _⟩
    | some old =>
      refine ⟨.known old.leaseTokenHash, if_pos hg, ?_⟩
      dsimp only
      split
      · exact hstop _ _
      split
      · exact hstop _ _
      refine .skip (.harmless rfl _ _) fun latest => ?_
      split
      · exact hstop _ _
      · exact hstop _ _
      split
      · exact hstop _ _
      unfold controlRecord
      rw [hid]
      refine fetchRecord_conforms_known _ (fun r => .move fun hash => ?_) (hstop _ _)
      refine ⟨if hash = old.leaseTokenHash then .granted r else .unknown, if_pos rfl, ?_⟩
      by_cases heq : hash = old.leaseTokenHash
      · rw [if_pos heq, if_neg (not_not_intro heq)]
        refine .skip (.harmless rfl _ _) fun snap => ?_
        split
        · rename_i hr
          exact renew_handles hr cfg r hid hgeneration _ snap
        · rename_i hr
          exact (cancel_rests (Bool.not_eq_true _ ▸ hr) r snap).handles
      · rw [if_neg heq, if_pos heq]
        exact hstop _ _

/-- A task with which control requests have nothing to do may do anything. -/
theorem free_conforms {α : Type} (p : Async α) : fencing.Conforms (fun _ _ => True) .free p := by
  induction p with
  | done value => trivial
  | perform o next ih => exact fun answer => ⟨.free, rfl, ih answer⟩
  | loop l => trivial

theorem nextEvent_rests (tgt : Target) (stage : Stage) (stream : EventStream) : Rests tgt stage (nextEvent stream) := by
  refine Program.Uses.mono (fun o ho => .harmless ?_ _ _) (fun l hl => ?_) (nextEvent_within stream)
  · cases o <;> first
      | rfl
      | cases ho
  · cases l <;> first
      | exact ⟨_, rfl⟩
      | cases hl

/-- All tasks of the node keep to the protocol of control requests. -/
def fencingDiscipline : Discipline Control where
  protocol := fencing
  idle := .gone
  birth := Control.birth
  final _ := True
  final_idle := trivial
  requests {config request task} h := by
    unfold Request.task at h
    split at h
    · cases h
      exact free_conforms _
    · rename_i id principal renew request
      cases h
      refine (@control_handles config principal ⟨id, request.handle.generation, renew⟩ request rfl).bind ?_
      intro response g hg
      obtain ⟨stage, rfl⟩ := hg
      have hrespond : Holds ⟨id, request.handle.generation, renew⟩ stage (.respond response) := .harmless rfl _ _
      refine .stay hrespond fun _ => ?_
      split
      · exact ⟨_, rfl⟩
      · trivial
    · obtain ⟨named, _, he⟩ := Option.map_eq_some_iff.mp h
      cases he
      exact free_conforms _
    · cases h
  loops {l g} h := by
    cases g with
    | gone => exact h.elim
    | free => exact free_conforms _
    | on target stage =>
      obtain ⟨stream, rfl⟩ := h
      exact (nextEvent_rests target stage stream).conforms.mono fun _ _ _ => trivial
  spawns h := by
    rcases spawns_cases h with ⟨r, rfl, rfl⟩ | ⟨request, rfl, rfl⟩ <;> trivial
  fits face g :=
    match g with
    | .gone => True
    | .free => ∀ target : Target, face.origin ≠ target.origin
    | .on target _ => face.origin = target.origin
  fits_idle _ := trivial
  fits_birth origin := by
    cases origin with
    | control id generation renew => rfl
    | _ => exact fun target h => by cases h
  fits_advance {face g o answer g'} hfits hmove := by
    rw [o.shows_origin]
    cases g with
    | gone => cases hmove
    | free =>
      cases hmove
      exact hfits
    | on target stage =>
      obtain ⟨stage', _, rfl⟩ := Option.map_eq_some_iff.mp hmove
      exact hfits

/-! ### The rule -/

def Origin.target : Origin → Option Target
  | .control id generation renew => some ⟨id, generation, renew⟩
  | _ => none

/-- The record a control request is about to fetch, with what the request names. -/
def Node.fetches (s : Node J) (t : TaskId) : Option (Target × ExecutionRecord) := do
  let task ← s.tasks[t]?
  let target ← task.origin.target
  match s.nextOp t with
  | some (.executionsGet id) => do
    let r ← s.executions.get? id
    let record ← s.records[r]?
    pure (target, record)
  | _ => none

/-- When a control request fetches a record, it is of the generation it names; or
it fails the lease test; or a generation that is over is to be renewed. -/
def FetchesOwn (s : Node J) : Action → Prop
  | .task t _ => ∀ fetched ∈ s.fetches t, fetched.2.key = fetched.1.key ∨
      ∀ row ∈ s.store.executions.get? fetched.1.key, fetched.2.leaseHash ≠ row.leaseTokenHash ∨
        (fetched.1.renew = true ∧ isTerminalName row.state = true)
  | _ => True

instance (s : Node J) : (a : Action) → Decidable (FetchesOwn s a)
  | .task t _ => inferInstanceAs (Decidable (∀ fetched ∈ s.fetches t, fetched.2.key = fetched.1.key ∨
      ∀ row ∈ s.store.executions.get? fetched.1.key, fetched.2.leaseHash ≠ row.leaseTokenHash ∨
        (fetched.1.renew = true ∧ isTerminalName row.state = true)))
  | .request _ | .drop _ | .job .. | .output .. | .hangUp _ | .exit .. | .clock .. | .setMarker _ | .setDraining _
  | .setWorkspaces _ | .crash | .start _ => isTrue trivial

theorem fetches_eq {s : Node J} {task : Task} {tgt : Target} {id : ExecutionId} {next : Option RecordId → Async Unit}
    (ht : s.tasks[t]? = some task) (horigin : task.origin = tgt.origin)
    (hp : task.program = .perform (.executionsGet id) next) {r : RecordId} {rec : ExecutionRecord}
    (hr : s.executions.get? id = some r) (hrecord : s.records[r]? = some rec) : s.fetches t = some (tgt, rec) := by
  have hn := nextOp_eq ht hp
  simp only [Node.fetches, ht, hn, hr, bind_eq_bind, bind_some, horigin, hrecord]
  rfl

/-! ### What a control request rests on -/

/-- The row was created under this lease. -/
def Leased (st : ExecutionStore J) (key : RowKey) (hash : String) : Prop :=
  ∃ row, st.executions.get? key = some row ∧ row.leaseTokenHash = hash

def Over (st : ExecutionStore J) (key : RowKey) : Prop :=
  ∃ row, st.executions.get? key = some row ∧ isTerminalName row.state = true

/-- What no step undoes: the lease of a row and of a record, the key of a record,
the end of a row. -/
structure View.Firm (v v' : View J) : Prop where
  leased : ∀ key hash, Leased v.store key hash → Leased v'.store key hash
  terminal : ∀ key, Over v.store key → Over v'.store key
  records : ∀ (r : RecordId) (record : RecordView), v.records[r]? = some record →
    ∃ record' : RecordView, v'.records[r]? = some record' ∧ record'.key = record.key ∧
      record'.leaseHash = record.leaseHash

variable {v v' : View J}

theorem View.Firm.same (hs : v'.store = v.store) (hrs : v'.records = v.records) : v.Firm v' :=
  ⟨fun _ _ => hs ▸ id, fun _ => hs ▸ id, fun _ rec hr => ⟨rec, hrs ▸ hr, rfl, rfl⟩⟩

theorem Leased.exec {st : ExecutionStore J} (hc : Coherent st) (call : Call) {key : RowKey} {hash : String}
    (h : Leased st key hash) : Leased (call.exec st) key hash := by
  refine (exec_changes hc call).invariant (fun st => Leased st key hash) (fun hchange hl => ?_) h
  obtain ⟨row, hr, rfl⟩ := hl
  obtain ⟨row', hrow', he⟩ := hchange.identity_kept hr
  exact ⟨row', hrow', congrArg (fun columns => columns.2.2.2) he⟩

theorem Over.exec {st : ExecutionStore J} (hc : Coherent st) (call : Call) {key : RowKey} (h : Over st key) :
    Over (call.exec st) key := by
  refine (exec_changes hc call).invariant (fun st => Over st key) (fun hchange hover => ?_) h
  obtain ⟨row, hr, hterm⟩ := hover
  exact ⟨row, hchange.terminal_row hr hterm, hterm⟩

theorem View.Firm.transact (hs : v.Sound) (call : Call) : v.Firm (v.transact call) :=
  ⟨fun _ _ h => h.exec hs.reachable.coherent call, fun _ h => h.exec hs.reachable.coherent call,
    fun _ rec hr => ⟨rec, hr, rfl, rfl⟩⟩

theorem View.Firm.release (v : View J) (t : TaskId) : v.Firm (v.release t) := by
  refine ⟨fun _ _ => id, fun _ => id, fun r rec hr => ⟨releaseLock t rec, ?_, rfl, rfl⟩⟩
  show (v.records.map (releaseLock t))[r]? = _
  rw [getElem?_map, hr]
  rfl

theorem Effect.firm {origin : Origin} (h : Effect t origin v o answer v') (hs : v.Sound) : v.Firm v' := by
  have hc := hs.reachable.coherent
  have hstored : (∀ key hash, Leased v.store key hash → Leased v'.store key hash) ∧
      ∀ key, Over v.store key → Over v'.store key := by
    rcases h.store_cases with he | ⟨now, call, _, he⟩ <;> rw [he]
    · exact ⟨fun _ _ => id, fun _ => id⟩
    · exact ⟨fun _ _ hl => hl.exec hc call, fun _ hover => hover.exec hc call⟩
  refine ⟨hstored.1, hstored.2, fun r rec hr => ?_⟩
  obtain ⟨rec', hr', hk⟩ := (h.keeps hs).2.2 r rec hr
  rcases h.record_before hr' with ⟨old, hold, _, hlease, _⟩ | ⟨_, _, _, hnew, _⟩
  · rw [hr, Option.some.injEq] at hold
    exact ⟨rec', hr', hk, hold ▸ hlease⟩
  · exact absurd (List.getElem?_eq_some_iff.mp hr).1 (by omega)

/-- What a stage says of the store and the records. -/
def Grounded (v : View J) (target : Target) : Stage → Prop
  | .unknown => True
  | .known hash => Leased v.store target.key hash
  | .fetched hash r => ∃ record : RecordView, v.records[r]? = some record ∧
      (record.key = target.key ∨ record.leaseHash ≠ hash ∨ (target.renew = true ∧ Over v.store target.key))
  | .granted r => ∃ record : RecordView, v.records[r]? = some record ∧
      (record.key = target.key ∨ (target.renew = true ∧ Over v.store target.key))
  | .renewed r => ∃ record : RecordView, v.records[r]? = some record ∧ record.key = target.key

theorem Grounded.mono (hfirm : v.Firm v') {tgt : Target} (h : Grounded v tgt stage) : Grounded v' tgt stage := by
  cases stage with
  | unknown => trivial
  | known hash => exact hfirm.leased _ _ h
  | fetched hash r =>
    obtain ⟨rec, hr, hc⟩ := h
    obtain ⟨rec', hr', hk, hl⟩ := hfirm.records r rec hr
    refine ⟨rec', hr', ?_⟩
    rw [hk, hl]
    exact hc.imp id (Or.imp id (And.imp id (hfirm.terminal _)))
  | granted r =>
    obtain ⟨rec, hr, hc⟩ := h
    obtain ⟨rec', hr', hk, _⟩ := hfirm.records r rec hr
    refine ⟨rec', hr', ?_⟩
    rw [hk]
    exact hc.imp id (And.imp id (hfirm.terminal _))
  | renewed r =>
    obtain ⟨rec, hr, hown⟩ := h
    obtain ⟨rec', hr', hk, _⟩ := hfirm.records r rec hr
    exact ⟨rec', hr', hk.trans hown⟩

/-- A request moves on along what the store and the records are. -/
theorem Grounded.advance {origin : Origin} (he : Effect t origin v o answer v') {tgt : Target}
    (hm : stage.advance tgt o answer = some stage')
    (hf : ∀ (r : RecordId) (hash : String), o = .executionsGet tgt.id → v.executions.get? tgt.id = some r →
      Leased v.store tgt.key hash → Grounded v tgt (.fetched hash r)) (h : Grounded v tgt stage) :
    Grounded v tgt stage' := by
  by_cases hb : o.binds = false
  · rw [Stage.advance_harmless hb, some.injEq] at hm
    exact hm ▸ h
  cases o <;> first
    | exact absurd rfl hb
    | skip
  case lookup id gen =>
    obtain ⟨⟨_, rfl, rfl⟩, hm⟩ := ite_none_right_eq_some.mp hm
    split at hm <;> cases hm
    · rename_i old
      generalize ha : Except.ok (some old) = found at he
      cases he with
      | quiet hq => cases hq
      | failedLookup => cases ha
      | lookup =>
        obtain ⟨row, hrow, _, _, _, hl⟩ := lookup_row ha.symm
        exact ⟨row, hrow, hl.symm⟩
    · exact h
  case executionsGet id =>
    simp only [Stage.advance] at hm
    split at hm
    · rename_i hash
      obtain ⟨rfl, hm⟩ := ite_none_right_eq_some.mp hm
      split at hm <;> cases hm
      · rename_i r
        generalize ha : some r = found at he
        cases he with
        | quiet hq => cases hq
        | executionsGet => exact hf r hash rfl ha.symm h
      · exact h
    · cases hm
  case recordLeaseHash r =>
    simp only [Stage.advance] at hm
    split at hm
    · rename_i hash r'
      split at hm <;> cases hm
      rename_i hr
      subst hr
      split
      · rename_i hsame
        obtain ⟨rec, hrecord, hc⟩ := h
        cases he with
        | quiet hq => cases hq
        | recordLeaseHash hread =>
          rw [hrecord, some.injEq] at hread
          subst hread
          refine ⟨rec, hrecord, ?_⟩
          rcases hc with hown | hl | hover
          · exact .inl hown
          · exact absurd hsame hl
          · exact .inr hover
      · trivial
    · cases hm
  case updateLease id gen hash renewal exp =>
    simp only [Stage.advance] at hm
    split at hm
    · rename_i r
      obtain ⟨⟨_, rfl, rfl⟩, hm⟩ := ite_none_right_eq_some.mp hm
      split at hm <;> cases hm
      · rename_i granted
        generalize ha : Except.ok (some granted) = renewed at he
        obtain ⟨rec, hrecord, hown | ⟨_, row, hrow, hterm⟩⟩ := h
        · exact ⟨rec, hrecord, hown⟩
        -- a terminal row is not renewed
        cases he with
        | quiet hq => cases hq
        | failedUpdateLease => cases ha
        | updateLease _ _ _ _ _ now =>
          obtain ⟨st', hst'⟩ := answered_ok ha.symm
          rw [updateLease_live hst' hrow] at hterm
          cases hterm
      · exact h
    · cases hm
  case extendLease | cancel | lockCommit =>
    obtain ⟨_, ⟨⟩⟩ := ite_none_right_eq_some.mp hm
    exact h
  case commitEvent =>
    simp only [Stage.advance] at hm
    split at hm
    · split at hm <;> cases hm
      exact h
    · cases hm

/-! ### The invariant -/

structure Fenced (locals : TaskId → Local × Control) (v : View J) : Prop where
  grounded : ∀ t target stage, (locals t).2 = .on target stage → Grounded v target stage
  publishing : ∀ t target stage r, (locals t).2 = .on target stage → (locals t).1.publishing.record? = some r →
    stage = .granted r ∧ target.renew = false
  acted : ∀ (target : Target) act key, .acted target.origin act key ∈ v.log → key = target.key

theorem Target.origin_inj {tgt target' : Target} (h : tgt.origin = target'.origin) : tgt = target' := by
  cases tgt
  cases target'
  cases h
  rfl

theorem Control.advance_on {g : Control} {tgt : Target} (h : g.advance o answer = some (.on tgt stage')) :
    ∃ stage, g = .on tgt stage ∧ stage.advance tgt o answer = some stage' := by
  cases g with
  | gone | free => cases h
  | on target' stage =>
    obtain ⟨stage'', hm, he⟩ := map_eq_some_iff.mp h
    cases he
    exact ⟨stage, rfl, hm⟩

/-- Who has acted: the operation, and the record or row it was on. -/
theorem Effect.acted_before {origin : Origin} (h : Effect t origin v o answer v') {by_ : Origin} {act : Act}
    {key : RowKey} (hact : .acted by_ act key ∈ v'.log) : .acted by_ act key ∈ v.log ∨ (by_ = origin ∧
      ((∃ (r : RecordId) (rec : RecordView), v.records[r]? = some rec ∧ rec.key = key ∧
          (o = .cancel r ∨ ∃ expiresAt, o = .extendLease r expiresAt)) ∨
        ∃ snap kind, o = .commitEvent snap kind ∧ rowKey snap = key)) := by
  have hlast : ∀ {observed : Observation}, .acted by_ act key ∈ v.log ++ [observed] →
      .acted by_ act key ∈ v.log ∨ observed = .acted by_ act key := fun hm =>
    (mem_append.mp hm).imp id fun hm => (mem_singleton.mp hm).symm
  cases h with
  | commitEvent | cancel | extendLease | spawnRun =>
    rcases hlast hact with hold | he
    · exact .inl hold
    cases he
    all_goals first
      | exact .inr ⟨rfl, .inr ⟨_, _, rfl, rfl⟩⟩
      | exact .inr ⟨rfl, .inl ⟨_, _, ‹_›, rfl, .inl rfl⟩⟩
      | exact .inr ⟨rfl, .inl ⟨_, _, ‹_›, rfl, .inr ⟨_, rfl⟩⟩⟩
  | _ => exact .inl hact

/-- Both protocols at once. -/
abbrev fencedDiscipline : Discipline (Local × Control) := admissionDiscipline.prod fencingDiscipline

theorem births_on {n i : TaskId} {tgt : Target} (h : (fencedDiscipline.births locals n o i).2 = .on tgt stage) :
    fencedDiscipline.births locals n o i = locals i := by
  unfold Discipline.births at h ⊢
  cases hs : o.spawns with
  | none => rfl
  | some spawned =>
    obtain ⟨origin, l⟩ := spawned
    simp only [hs] at h ⊢
    by_cases hi : i = n
    · subst hi
      rw [update_self] at h
      rcases spawns_cases hs with ⟨r, rfl, rfl⟩ | ⟨req, rfl, rfl⟩ <;> cases h
    · rw [update_of_ne hi]

theorem Fenced.replace (h : Fenced locals v) (t : TaskId) {g : Local × Control}
    (hon : ∀ tgt stage, g.2 = .on tgt stage → stage = .unknown) (hidle : g.1.publishing = .idle) :
    Fenced (update locals t g) v := by
  refine ⟨fun i tgt stage hi => ?_, fun i tgt stage r hi hr => ?_, h.acted⟩
  · by_cases hit : i = t
    · subst hit
      rw [update_self] at hi
      rw [hon tgt stage hi]
      trivial
    · rw [update_of_ne hit] at hi
      exact h.grounded i tgt stage hi
  · by_cases hit : i = t
    · subst hit
      rw [update_self, hidle] at hr
      cases hr
    · rw [update_of_ne hit] at hi hr
      exact h.publishing i tgt stage r hi hr

theorem Fenced.mono (h : Fenced locals v) (hfirm : v.Firm v') (hlog : v'.log = v.log) : Fenced locals v' :=
  ⟨fun t tgt stage ht => (h.grounded t tgt stage ht).mono hfirm, h.publishing, fun tgt act key => hlog ▸ h.acted tgt act key⟩

/-- No task is on a control request. -/
theorem Fenced.idle (h : ∀ (tgt : Target) act key, .acted tgt.origin act key ∈ v.log → key = tgt.key) :
    Fenced (fun _ => fencedDiscipline.idle) v := by
  refine ⟨fun t tgt stage ht => ?_, fun t tgt stage r ht => ?_, h⟩
  · cases ht
  · cases ht

theorem Stage.advance_granted {tgt : Target} (hr : tgt.renew = false) {r : RecordId}
    (h : Stage.advance tgt (.granted r) o answer = some stage') : stage' = .granted r := by
  by_cases hb : o.binds = false
  · rw [Stage.advance_harmless hb] at h
    exact (some.inj h).symm
  cases o <;> first
    | exact absurd rfl hb
    | simp_all [Stage.advance]

/-- What a control request does is done to the record it was granted. -/
theorem Fenced.acts_own (h : Fenced locals v) (hrecord : Recorded (fun t => (locals t).1) v) {tgt : Target}
    {g : Local} {key : RowKey} (hb : (locals t).2 = .on tgt stage)
    (hstage : stage.advance tgt o answer = some stage') (hl : (locals t).1.advance o answer = some g)
    (hact : (∃ (r : RecordId) (rec : RecordView), v.records[r]? = some rec ∧ rec.key = key ∧
        (o = .cancel r ∨ ∃ expiresAt, o = .extendLease r expiresAt)) ∨
      ∃ snap kind, o = .commitEvent snap kind ∧ rowKey snap = key) : key = tgt.key := by
  have hgrow := h.grounded t tgt stage hb
  have hg : ∀ {r : RecordId} {rec : RecordView}, v.records[r]? = some rec → stage = .granted r →
      tgt.renew = false → rec.key = tgt.key := by
    intro r rec hr hg hrenew
    subst hg
    obtain ⟨rec', hr', hown | ⟨htrue, _⟩⟩ := hgrow
    · rw [hr, some.injEq] at hr'
      exact hr' ▸ hown
    · rw [hrenew] at htrue
      cases htrue
  rcases hact with ⟨r, rec, hr, rfl, rfl | ⟨expiresAt, rfl⟩⟩ | ⟨snap, kind, rfl, rfl⟩
  · obtain ⟨hguard, hstage⟩ := ite_none_right_eq_some.mp hstage
    exact hg hr hguard.1 hguard.2
  · obtain ⟨rfl, hstage⟩ := ite_none_right_eq_some.mp hstage
    obtain ⟨rec', hr', hown⟩ := hgrow
    rw [hr, some.injEq] at hr'
    exact hr' ▸ hown
  · obtain ⟨r, base, hbase, hmay, _⟩ := advance_commitEvent hl
    obtain ⟨hstage, hrenew⟩ := h.publishing t tgt stage r hb (by rw [hbase]; rfl)
    obtain ⟨rec, hr, hk⟩ := hrecord.proposed t r base (by rw [hbase]; rfl)
    rw [(commits_of_mayCommit hmay).row, ← hk]
    exact hg hr hstage hrenew

theorem Fenced.performs {s : Node J} {n : TaskId} {task : Task} {c : Choice} {next : o.Answer → Async Unit}
    {g : Local × Control} (hrule : FetchesOwn s (.task t c)) (ht : s.tasks[t]? = some task)
    (hprogram : task.program = .perform o next) (hfits : fencedDiscipline.fits task.face (locals t))
    (he : Effect t task.origin s.view o answer v) (hm : fencedDiscipline.protocol.advance (locals t) o answer = some g)
    (howned : Owned (claimsOf fun t => (locals t).1) s.view) (hrecorded : Recorded (fun t => (locals t).1) s.view)
    (h : Fenced locals s.view) : Fenced (update (fencedDiscipline.births locals n o) t g) v := by
  obtain ⟨hl, hc⟩ := Protocol.prod_advance.mp hm
  have hfirm := he.firm howned.sound
  refine ⟨fun i target stage hi => ?_, fun i target stage r hi hr => ?_, fun target act key ha => ?_⟩
  · refine Grounded.mono hfirm ?_
    by_cases hit : i = t
    · subst hit
      rw [update_self] at hi
      obtain ⟨before, hb, hs⟩ := Control.advance_on (hi ▸ hc)
      refine (h.grounded i target before hb).advance he hs fun r hash ho hr hlease => ?_
      subst ho
      -- the rule speaks of the rec the map has now
      obtain ⟨rec, hrecord, _⟩ := hrecorded.mapped _ r hr
      rw [view_getElem?] at hrecord
      obtain ⟨fetched, hf, rfl⟩ := map_eq_some_iff.mp hrecord
      have horigin : task.origin = target.origin := by
        have hfits := hfits.2
        rw [hb] at hfits
        exact hfits
      refine ⟨fetched.view, view_record hf, ?_⟩
      rcases hrule (target, fetched) (fetches_eq ht horigin hprogram hr hf) with hown | hrow
      · exact .inl hown
      · obtain ⟨row, hget, rfl⟩ := hlease
        exact .inr ((hrow row hget).imp id fun hover => ⟨hover.1, row, hget, hover.2⟩)
    · rw [update_of_ne hit] at hi
      exact h.grounded i target stage (births_on hi ▸ hi)
  · by_cases hit : i = t
    · subst hit
      rw [update_self] at hi hr
      obtain ⟨before, hb, hs⟩ := Control.advance_on (hi ▸ hc)
      rcases advance_record? hl with hsame | ⟨r', rfl, _, hlock⟩ | ⟨_, _, _, hnone⟩
      · obtain ⟨rfl, hrenew⟩ := h.publishing i target before r hb (hsame ▸ hr)
        exact ⟨Stage.advance_granted hrenew hs, hrenew⟩
      · rw [hr, some.injEq] at hlock
        subst hlock
        obtain ⟨_, ⟨⟩⟩ := ite_none_right_eq_some.mp hs
        assumption
      · rw [hr] at hnone
        cases hnone
    · rw [update_of_ne hit] at hi hr
      have hsame := births_on hi
      exact h.publishing i target stage r (hsame ▸ hi) (hsame ▸ hr)
  · rcases he.acted_before ha with hold | ⟨horigin, hact⟩
    · exact h.acted target act key hold
    -- a task acts for the control request it is
    obtain ⟨stage, stage', hb, hs⟩ : ∃ stage stage', (locals t).2 = .on target stage ∧
        stage.advance target o answer = some stage' := by
      have hfits := hfits.2
      cases hst : (locals t).2 with
      | gone =>
        rw [hst] at hc
        cases hc
      | free =>
        rw [hst] at hfits
        exact absurd horigin.symm (hfits target)
      | on target' stage =>
        rw [hst] at hfits hc
        have htarget : target' = target := Target.origin_inj (hfits.symm.trans horigin.symm)
        subst htarget
        obtain ⟨stage', hs, _⟩ := map_eq_some_iff.mp hc
        exact ⟨stage, stage', rfl, hs⟩
    exact h.acts_own hrecorded hb hs hl hact

/-! ### Every run -/

theorem fenced_inductive : fencedDiscipline.Inductive (J := J) FetchesOwn
    (fun locals v => Owned (claimsOf fun t => (locals t).1) v ∧ Recorded (fun t => (locals t).1) v) Fenced where
  performs hrule ht hp _ hfits heffect hm _ _ _ hg h :=
    h.performs hrule ht hp hfits heffect hm hg.1 hg.2
  releases _ _ h := h.mono (.release _ _) rfl
  arrives origin _ _ _ _ h := by
    refine h.replace _ (fun tgt stage he => ?_) (birth_publishing origin)
    cases origin with
    | control id gen renew =>
      cases he
      rfl
    | _ => cases he
  drops {s t task locals} _ _ _ _ _ _ h := by
    have hjobs : Fenced locals {s.view with jobs := s.view.jobs ++ detached task.program} := h.mono (.same rfl rfl) rfl
    refine (hjobs.mono (.release _ t) rfl).replace t (fun tgt stage he => ?_) rfl
    cases he
  jobs {s i fails o now call locals} _ _ _ hg h := by
    have hjobs : Fenced locals {s.view with jobs := s.view.jobs.eraseIdx i} := h.mono (.same rfl rfl) rfl
    cases fails
    · have hs : View.Sound {s.view with jobs := s.view.jobs.eraseIdx i} := hg.1.sound
      exact hjobs.mono (.transact hs call) rfl
    · exact hjobs
  crashes _ h := Fenced.idle h.acted
  recovers {locals v} now _ hidle _ _ h := by
    rw [funext hidle] at h ⊢
    exact Fenced.idle h.acted
  starts {locals v interrupted snapshots} now _ hidle _ _ _ _ h := by
    rw [funext hidle] at h ⊢
    refine Fenced.idle fun tgt act key hact => h.acted tgt act key ?_
    rwa [Discipline.foldl_load_frame log fun _ _ => rfl] at hact

/-- **A control request stays with the generation it names.** In every run in which
each control request that fetches a record fetches one of the generation it names
(or one that fails the lease test, or is to renew a generation that is over), what
a cancel or renew request of generation `g` publishes, cancels or extends the lease
of is generation `g`. The log has what requests do themselves: a commit that a dropped
one has left to the blocking pool is not in it. -/
theorem control_fenced {config : NodeConfig} {s : Node J} (hrun : Steps (step config) FetchesOwn (fresh J) s)
    {id : ExecutionId} {generation : ExecutionGeneration} {renew : Bool} {act : Act} {key : RowKey}
    (hacted : .acted (.control id generation renew) act key ∈ s.log) : key = (id, generation.asI64) := by
  have hgiven : fencedDiscipline.Inductive (J := J) FetchesOwn Nothing _ :=
    ((owned_inductive FetchesOwn).and (recorded_inductive FetchesOwn)).left
  obtain ⟨locals, _, _, hfenced⟩ := (hgiven.and fenced_inductive).holds hrun
    ⟨_, Discipline.keeps_fresh, ⟨owned_fresh, recorded_fresh⟩, Fenced.idle fun _ _ _ hacted => (nomatch hacted)⟩
  exact hfenced.acted ⟨id, generation, renew⟩ act key hacted

namespace Example

/-- A cancel request of generation 1 has checked the row and the latest generation;
then the run ends, generation 2 is admitted under the same lease, and the request
goes on. -/
def overtaken : List Action :=
  admitted ++ running ++ [cancel 1] ++ runs 3 2 ++ ended ++ [execute 2] ++ runs 4 23 ++ runs 3 17

/-- Who cancels generation 1. -/
def canceller : Origin := .control (handle 1).executionId (handle 1).generation false

end Example

open Example

theorem control_fenced_cancelled : ∃ s : Node Serde.json, Steps (step config) FetchesOwn (fresh Serde.json) s ∧
      .acted canceller .cancelled (key 1) ∈ s.log ∧
      key 1 = ((handle 1).executionId, (handle 1).generation.asI64) := by
  have hfollow : (follow (step config) FetchesOwn (fresh Serde.json)
      (admitted ++ running ++ cancelled)).any
        (fun s => s.log.contains (.acted canceller .cancelled (key 1))) = true := by
    decide
  obtain ⟨s, hrun, hacted⟩ := follow_reaches hfollow
  rw [List.contains_iff_mem] at hacted
  exact ⟨s, hrun, hacted, control_fenced hrun hacted⟩

/-- A cancel request of generation 1 publishes on generation 2 and cancels its token. -/
theorem cancelled_next_generation : ∃ s : Node Serde.json, Steps (step config) Free (fresh Serde.json) s ∧
      .acted canceller .published (key 2) ∈ s.log ∧ .acted canceller .cancelled (key 2) ∈ s.log ∧ key 2 ≠ key 1 := by
  have hfollow : (follow (step config) Free (fresh Serde.json) overtaken).any (fun s =>
      s.log.contains (.acted canceller .published (key 2)) &&
        s.log.contains (.acted canceller .cancelled (key 2))) = true := by
    decide
  obtain ⟨s, hrun, hacted⟩ := follow_reaches hfollow
  rw [Bool.and_eq_true, List.contains_iff_mem, List.contains_iff_mem] at hacted
  exact ⟨s, hrun, hacted.1, hacted.2, by decide⟩

end Eggwork.Server
