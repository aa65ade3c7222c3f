import Eggwork.Server.System

/-! Which operations a handler is made of.

The operations fall into areas, one for each part of the node they are about. For
each handler and each loop the areas it keeps to are stated once (`Within`), over
all its paths: a protocol about one area is then trivial for every handler that
keeps out of it. A handler creates rows and records only with a first snapshot. -/
namespace Eggwork.Server
open Lib Store Runner

inductive Area where
  | map | reading | identity | feed | admission | workspace | publication | lease | expiry | stream | answer | runner
deriving DecidableEq

def Op.area : Op → Area
  | .lockExecutions | .unlockExecutions | .executionsGet _ | .executionsLen | .executionsIter
  | .executionsRemove _ | .executionsInsert .. => .map
  | .lookup .. | .loadSnapshot .. => .identity
  | .subscribe _ | .loadPage .. => .feed
  | .reserve .. | .newRecord .. | .tryAcquirePermit | .dropPermit | .spawnMonitor _ | .spawnRun _ => .admission
  | .commitEvent .. | .writeSnapshot .. | .lockCommit _ | .unlockCommit _ | .send .. | .storeDraining
  | .cancel _ => .publication
  | .updateLease .. | .lockLease _ | .unlockLease _ | .readLease _ | .extendLease .. => .lease
  | .expireLease _ | .waitLease .. => .expiry
  | .recv .. | .yield _ => .stream
  | .respond _ => .answer
  | .markActive _ | .markTerminal _ => .workspace
  | .startRunner _ | .select .. | .isDrained _ | .tryRecv _ | .captureDeclared | .panicked | .finish _ => .runner
  | _ => .reading

def isInitial (snapshot : ExecutionSnapshot) : Bool :=
  snapshot.schemaVersion == apiSchemaVersion && snapshot.state == .accepted && snapshot.result == none

/-- What is created is created with a first snapshot. -/
def Op.initial : Op → Bool
  | .reserve snapshot .. | .newRecord snapshot _ => isInitial snapshot
  | _ => true

def Op.within (areas : List Area) (o : Op) : Bool := areas.contains o.area && o.initial

/-- A program that keeps to some areas and enters no loop. -/
abbrev Within (areas : List Area) {α : Type} (p : Async α) : Prop :=
  p.Uses (fun o : Op => o.within areas = true) fun _ => False

theorem Op.within_mono {areas areas' : List Area} (h : areas ⊆ areas') {o : Op} (ho : o.within areas = true) :
    o.within areas' = true := by
  simp only [Op.within, Bool.and_eq_true, List.contains_iff_mem] at ho ⊢
  exact ⟨h ho.1, ho.2⟩

theorem Within.mono {areas areas' : List Area} (h : areas ⊆ areas') {α : Type} {p : Async α} (hp : Within areas p) :
    Within areas' p := Program.Uses.mono (fun _ ho => Op.within_mono h ho) (fun _ => id) hp

theorem Op.area_of_within {areas : List Area} {bad : Area → Bool} (ha : areas.any bad = false) {o : Op}
    (ho : o.within areas = true) : bad o.area = false := by
  have harea := List.contains_iff_mem.mp (Bool.and_eq_true_iff.mp ho).1
  exact Bool.not_eq_true _ ▸ (List.any_eq_false.mp ha o.area harea)

/-! ### What handlers have in common -/

/-- An answer that refuses. -/
def Response.isError : Response → Bool
  | .error .. | .internal _ => true
  | _ => false

/-- An answer that opens a stream. -/
def Response.isStream : Response → Bool
  | .events _ => true
  | _ => false

theorem Response.isStream_of_isError {resp : Response} (h : resp.isError = true) : resp.isStream = false := by
  cases resp <;> first
    | rfl
    | cases h

/-- A property of handlers to which the operations of some areas, and a refusal, make no difference. -/
structure Indifferent (areas : List Area) (Q : Async Response → Prop) : Prop where
  refused : ∀ {response : Response}, response.isError = true → Q (pure response)
  op : ∀ {o : Op} {f : o.Answer → Async Response}, o.within areas = true → (∀ answer, Q (f answer)) →
    Q (Program.op (E := effects) o >>= f)

theorem within_indifferent (areas : List Area) : Indifferent areas (Within areas) := ⟨fun _ => trivial, fun ho hf => .op ho hf⟩

section Rules
variable {areas : List Area} {Q : Async Response → Prop}

theorem Indifferent.mono {areas' : List Area} (h : areas ⊆ areas') (hQ : Indifferent areas' Q) : Indifferent areas Q :=
  ⟨hQ.refused, fun ho => hQ.op (Op.within_mono h ho)⟩

theorem Indifferent.bind (hQ : Indifferent areas Q) {α : Type} {p : Async α} (hp : Within areas p)
    {f : α → Async Response} (hf : ∀ v, Q (f v)) : Q (p >>= f) := by
  induction p with
  | done v => exact hf v
  | perform o next ih => exact hQ.op hp.1 fun a => ih a (hp.2 a)
  | loop l => exact hp.elim

end Rules

/-! ### Shared parts -/

theorem refuse_within (metric : String) (status : Nat) (code message : String) :
    Within [.reading] (refuse metric status code message) := .op rfl fun _ => trivial

theorem isDraining_within : Within [.reading] isDraining := by
  refine .op rfl fun draining => ?_
  cases draining
  · exact .op rfl fun _ => trivial
  · trivial

theorem publish_within (r : RecordId) (state : ExecutionState) (res : Option ExecutionResult)
    (kind : ExecutionEventKind) : Within [.reading, .publication] (publish r state res kind) := by
  have hu : Within [.reading, .publication] (sync (.unlockCommit r)) := ⟨rfl, fun _ => trivial⟩
  refine .op rfl fun _ => .op rfl fun base => ?_
  split
  · exact hu
  refine .op rfl fun a => ?_
  split
  · exact .op rfl fun _ => .op rfl fun _ => hu
  · exact hu
  · exact .op rfl fun _ => .op rfl fun _ => hu

theorem eventResponse_within (id : ExecutionId) (gen : ExecutionGeneration) (after : Nat) (rec : Attached) :
    Within [.reading, .feed] (eventResponse id gen after rec) := by
  have hs : Within [.reading, .feed] (subscribe rec) := by
    cases rec with
    | live r => exact .op rfl fun _ => trivial
    | recovered snap => trivial
  have hsnap : Within [.reading, .feed] (attachedSnapshot rec) := by
    cases rec with
    | live r => exact ⟨rfl, fun _ => trivial⟩
    | recovered snap => trivial
  refine hs.bind fun receiver => .op rfl fun page => ?_
  split
  · trivial
  · trivial
  split
  · exact (refuse_within ..).mono (by decide)
  · trivial
  · exact hsnap.bind fun _ => trivial

theorem fetchRecord_within (id : ExecutionId) : Within [.map] (fetchRecord id) :=
  .op rfl fun _ => .op rfl fun _ => .op rfl fun _ => trivial

theorem leaseLapsed_within (r : RecordId) : Within [.reading, .lease] (leaseLapsed r) := by
  refine .op rfl fun lease => ?_
  split
  · trivial
  · exact .op rfl fun _ => trivial

theorem retire_within (w : Option WorkspaceId) : Within [.workspace] (retire w) := by
  cases w with
  | none => trivial
  | some w => exact .op rfl fun _ => trivial

theorem activate_within (w : Option WorkspaceId) : Within [.workspace] (activate w) := by
  cases w with
  | none => trivial
  | some w => exact ⟨rfl, fun _ => trivial⟩

/-! ### Handlers -/

theorem findTerminal_within (len : Nat) (es : List (ExecutionId × RecordId)) (terminal : List ExecutionId) :
    Within [.reading] (findTerminal len es terminal) := by
  induction es generalizing terminal with
  | nil => trivial
  | cons e rest ih =>
    refine .op rfl fun snap => ?_
    dsimp only
    generalize (if isTerminal snap.state then terminal ++ [e.1] else terminal) = found
    split
    · trivial
    · exact ih found

theorem removeAll_within (ids : List ExecutionId) : Within [.map] (removeAll ids) := by
  induction ids with
  | nil => trivial
  | cons id rest ih => exact .op rfl fun _ => ih

theorem evict_within : Within [.map, .reading] evict := by
  refine .op rfl fun len => ?_
  split
  · refine .op rfl fun es => ((findTerminal_within ..).mono (by decide)).bind fun terminal => ?_
    exact (removeAll_within _).mono (by decide)
  · trivial

/-- The areas of an `execute` request. -/
abbrev Area.ofExecute : List Area := [.map, .reading, .identity, .feed, .admission, .workspace, .publication]

theorem launch_within (wire : ExecuteRequest) (i : Identity) : Within Area.ofExecute (launch wire i) := by
  refine .op rfl fun r => .op rfl fun _ => .op rfl fun _ => ((publish_within ..).mono (by decide)).bind fun _ => ?_
  exact .op rfl fun _ => .op rfl fun _ => (eventResponse_within ..).mono (by decide)

theorem reserveExecution_within (wire : ExecuteRequest) (i : Identity) (exp : Int) :
    Within Area.ofExecute (reserveExecution wire i exp) := by
  have hr : ∀ resp : Response, Within Area.ofExecute (do retire wire.workspaceId; pure resp : Async Response) :=
    fun resp => ((retire_within _).mono (by decide)).bind fun _ => trivial
  refine .op rfl fun a => ?_
  split
  · exact hr _
  · exact .op rfl fun _ => launch_within wire i
  · refine .op rfl fun _ => ?_
    have hrest : ∀ snap, Within Area.ofExecute (do
        sync .unlockExecutions
        eventResponse i.handle.executionId i.handle.generation 0 (.recovered snap)) :=
      fun snap => .op rfl fun _ => (eventResponse_within ..).mono (by decide)
    split
    · exact ((retire_within _).mono (by decide)).bind fun _ => hrest _
    · exact hrest _
  · exact hr _
  · exact hr _
  · exact .op rfl fun _ => hr _

theorem admitNew_within (wire : ExecuteRequest) (i : Identity) (exp : Int) :
    Within Area.ofExecute (admitNew wire i exp) := by
  have hr : ∀ {metric status code message}, Within Area.ofExecute (refuse metric status code message) :=
    (refuse_within ..).mono (by decide)
  refine (isDraining_within.mono (by decide)).bind fun draining => ?_
  split
  · exact hr
  refine .op rfl fun permit => ?_
  split
  · exact hr
  refine (evict_within.mono (by decide)).bind fun _ => .op rfl fun len => ?_
  split
  · exact hr
  refine ((activate_within _).mono (by decide)).bind fun active => ?_
  split
  · exact .op rfl fun _ => .op rfl fun _ => hr
  · exact reserveExecution_within wire i exp

theorem resubmitted_within (i : Identity) (old : ExistingExecution) :
    Within [.map, .reading, .feed] (resubmitted i old) := by
  have ha : Within [.map, .reading, .feed] (attach i old) := by
    refine .op rfl fun found => ?_
    split
    · exact .op rfl fun _ => trivial
    · trivial
  unfold resubmitted
  split
  · trivial
  split
  · trivial
  split
  · trivial
  · exact ha.bind fun rec => .op rfl fun _ => (eventResponse_within ..).mono (by decide)

/-- An `execute` request reads, and is refused, until it is identified. -/
theorem execute_rule {Q : Async Response → Prop} (hQ : Indifferent [.reading] Q) {cfg : NodeConfig}
    (principal : PrincipalId) {wire : ExecuteRequest}
    (hi : ∀ i : Identity, i.handle = wire.handle → Q (identify cfg wire i)) :
    Q (execute cfg principal (.parsed wire)) := by
  have hr : ∀ {metric status code message}, Q (refuse metric status code message) :=
    hQ.op rfl fun _ => hQ.refused rfl
  have hroot : Within [.reading] (resolveRoot wire principal) := by
    unfold resolveRoot
    split
    · trivial
    · exact .op rfl fun _ => trivial
  have hg : Q (passGates cfg principal wire) := by
    refine hQ.bind isDraining_within fun draining => ?_
    split
    · exact hr
    split
    · exact hr
    split
    · exact hr
    split
    · exact hr
    split
    · exact hr
    refine hQ.bind hroot fun root => ?_
    split
    · exact hr
    · exact hi _ rfl
  rw [execute]
  split
  · exact hQ.refused rfl
  split
  · exact hQ.refused rfl
  split
  · exact hQ.refused rfl
  split
  · exact hr
  split
  · exact hr
  split
  · exact hr
  · exact hg

theorem execute_within (cfg : NodeConfig) (principal : PrincipalId) (wire : ExecuteRequest) :
    Within Area.ofExecute (execute cfg principal (.parsed wire)) := by
  refine execute_rule ((within_indifferent _).mono (by decide)) principal fun i _ => ?_
  refine .op rfl fun now => .op rfl fun _ => .op rfl fun found => ?_
  split
  · trivial
  · exact (resubmitted_within i _).mono (by decide)
  · exact admitNew_within wire i _

/-- The areas of a `control` request. -/
abbrev Area.ofControl : List Area := [.map, .reading, .identity, .publication, .lease]

section Rules
variable {Q : Async Response → Prop} {cfg : NodeConfig}

theorem renew_rule (hQ : Indifferent [.reading, .lease] Q) (ha : ∀ snap, Q (pure (.snapshot 200 snap)))
    (r : RecordId) (req : ControlRequest) (leaseHash : String) (snap : ExecutionSnapshot) :
    Q (renew cfg r req leaseHash snap) := by
  unfold renew
  split
  · exact hQ.refused rfl
  split
  · exact hQ.refused rfl
  split
  · exact hQ.refused rfl
  refine hQ.op rfl fun _ => hQ.bind (leaseLapsed_within r) fun lapsed => ?_
  split
  · exact hQ.refused rfl
  refine hQ.op rfl fun now => hQ.op rfl fun a => ?_
  split
  · exact hQ.refused rfl
  · exact hQ.refused rfl
  · exact hQ.op rfl fun _ => hQ.op rfl fun _ => hQ.op rfl fun _ => ha _

theorem cancel_rule (hQ : Indifferent [.reading, .publication, .lease] Q)
    (ha : ∀ snap, Q (pure (.snapshot 202 snap))) (r : RecordId) (snap : ExecutionSnapshot) : Q (cancel r snap) := by
  have hread : Q (do pure (.snapshot 202 (← await (.readSnapshot r)))) := hQ.op rfl ha
  unfold cancel
  split
  · refine hQ.op rfl fun _ => hQ.bind ((leaseLapsed_within r).mono (by decide)) fun lapsed => ?_
    split
    · exact hQ.refused rfl
    refine hQ.op rfl fun _ => hQ.bind ((publish_within ..).mono (by decide)) fun _ => hQ.op rfl fun current => ?_
    split
    · exact hQ.op rfl fun _ => hread
    · exact hread
  · split
    · exact hQ.op rfl fun _ => hread
    · exact hread

/-- A `control` request is refused, or comes to the record of its execution. -/
theorem control_rule (hQ : Indifferent [.identity] Q) {id : ExecutionId} {principal : PrincipalId} {isRenew : Bool}
    (hr : ∀ req old, Q (controlRecord cfg req isRenew old)) (req : Body ControlRequest) :
    Q (control cfg id principal isRenew req) := by
  cases req with
  | tooLarge | invalid => exact hQ.refused rfl
  | parsed req =>
    rw [control]
    split
    · exact hQ.refused rfl
    refine hQ.op rfl fun found => ?_
    split
    · exact hQ.refused rfl
    · exact hQ.refused rfl
    split
    · exact hQ.refused rfl
    split
    · exact hQ.refused rfl
    refine hQ.op rfl fun latest => ?_
    split
    · exact hQ.refused rfl
    · exact hQ.refused rfl
    split
    · exact hQ.refused rfl
    · exact hr _ _

theorem control_answers (hQ : Indifferent Area.ofControl Q)
    (ha : ∀ status snap, Q (pure (.snapshot status snap))) (id : ExecutionId) (principal : PrincipalId)
    (isRenew : Bool) (req : Body ControlRequest) : Q (control cfg id principal isRenew req) := by
  refine control_rule (hQ.mono (by decide)) (fun req old => ?_) req
  refine hQ.bind ((fetchRecord_within _).mono (by decide)) fun rec => ?_
  split
  · exact hQ.refused rfl
  refine hQ.op rfl fun hash => ?_
  split
  · exact hQ.refused rfl
  refine hQ.op rfl fun snap => ?_
  split
  · exact renew_rule (hQ.mono (by decide)) (ha 200) _ _ _ snap
  · exact cancel_rule (hQ.mono (by decide)) (ha 202) _ snap

/-- An `events` request is refused, or comes to the record of its execution. -/
theorem eventsRoute_rule (hQ : Indifferent [.identity] Q) {id : ExecutionId} {principal : PrincipalId}
    (hf : ∀ gen after, Q (fetchRecord id >>= eventsRoute.follow id gen after)) (query : EventsQuery) :
    Q (eventsRoute cfg id principal query) := by
  unfold eventsRoute
  split
  · exact hQ.refused rfl
  · exact hQ.refused rfl
  split
  · exact hQ.refused rfl
  · exact hQ.refused rfl
  split
  · exact hQ.refused rfl
  split
  · exact hQ.refused rfl
  · exact hQ.refused rfl
  refine hQ.op rfl fun found => ?_
  split
  · exact hQ.refused rfl
  · exact hQ.refused rfl
  split
  · exact hQ.refused rfl
  · exact hf _ _

end Rules

theorem control_within (cfg : NodeConfig) (id : ExecutionId) (principal : PrincipalId) (isRenew : Bool)
    (req : Body ControlRequest) : Within Area.ofControl (control cfg id principal isRenew req) :=
  control_answers (within_indifferent _) (fun _ _ => trivial) id principal isRenew req

/-- The areas of an `events` request. -/
abbrev Area.ofEvents : List Area := [.map, .reading, .identity, .feed]

theorem eventsRoute_within (cfg : NodeConfig) (id : ExecutionId) (principal : PrincipalId) (query : EventsQuery) :
    Within Area.ofEvents (eventsRoute cfg id principal query) := by
  have hr : ∀ gen after, Within Area.ofEvents (eventsRoute.recovered id gen after) := by
    intro gen after
    refine .op rfl fun found => ?_
    split
    · trivial
    · trivial
    · exact (eventResponse_within ..).mono (by decide)
  refine eventsRoute_rule ((within_indifferent _).mono (by decide)) (fun gen after => ?_) query
  refine ((fetchRecord_within _).mono (by decide)).bind fun rec => ?_
  unfold eventsRoute.follow
  split
  · refine .op rfl fun snap => ?_
    split
    · exact (eventResponse_within ..).mono (by decide)
    · exact hr _ _
  · exact hr _ _

/-! ### Tasks -/

/-- The areas of a request, before it answers. -/
def Origin.areas : Origin → List Area
  | .execute _ => Area.ofExecute
  | .control .. => Area.ofControl
  | _ => Area.ofEvents

/-- Every request is a handler that keeps to the areas of its route. -/
theorem request_within {cfg : NodeConfig} {req : Request} {task : Task} (h : req.task cfg = some task) :
    ∃ handler, task.program = serve handler ∧ Within task.origin.areas handler := by
  unfold Request.task at h
  split at h
  · cases h
    exact ⟨_, rfl, execute_within cfg _ _⟩
  · cases h
    exact ⟨_, rfl, control_within cfg ..⟩
  · obtain ⟨named, _, he⟩ := Option.map_eq_some_iff.mp h
    cases he
    exact ⟨_, rfl, eventsRoute_within cfg ..⟩
  · cases h

def Loop.isStream : Loop → Prop
  | .events _ => True
  | _ => False

/-- A handler's answer adds only the answer, and at most a stream follows. -/
theorem Within.serve {areas : List Area} {handler : Async Response} (h : Within areas handler) :
    (serve handler).Uses (fun o : Op => o.within (.answer :: areas) = true) Loop.isStream := by
  have hh : handler.Uses (fun o : Op => o.within (.answer :: areas) = true) Loop.isStream :=
    Program.Uses.mono (fun o ho => Op.within_mono (List.subset_cons_self _ _) ho) (fun _ hl => hl.elim) h
  refine hh.bind fun resp => .op rfl fun _ => ?_
  split <;> trivial

theorem monitorLease_within (r : RecordId) :
    (monitorLease r).Uses (fun o : Op => o.within [.reading, .publication, .lease, .expiry] = true)
      fun l => l = Loop.monitorLease r := by
  refine .op rfl fun snap => ?_
  split
  · trivial
  refine .op rfl fun _ => .op rfl fun lease => .op rfl fun _ => .op rfl fun wake => ?_
  split
  · trivial
  · rfl
  refine .op rfl fun _ => .op rfl fun now => .op rfl fun lease => ?_
  split
  · exact .op rfl fun _ => .op rfl fun _ => ⟨rfl, fun _ => trivial⟩
  · exact .op rfl fun _ => rfl

theorem finalize_within (run : Run) (res : ExecutionResult) :
    Within [.reading, .runner, .workspace] (finalize run res) := by
  have hr : ∀ (w : WorkspaceId) (v : ExecutionResult), Within [.reading, .runner, .workspace] (do
      if ← sync (.markTerminal w) then pure v
      else pure {v with finalizationFailure := some .retention} : Async ExecutionResult) := by
    intro w v
    refine .op rfl fun retained => ?_
    split <;> trivial
  unfold finalize
  split
  · trivial
  split
  · refine .op rfl fun _ => .op rfl fun captured => ?_
    split <;> exact hr _ _
  · exact hr _ _

theorem nextEvent_within (stream : EventStream) :
    (nextEvent stream).Uses (fun o : Op => o.within [.stream] = true) Loop.isStream := by
  have hd : ∀ stream ev, (deliver stream ev).Uses (fun o : Op => o.within [.stream] = true) Loop.isStream := by
    intro stream ev
    unfold deliver
    split
    · trivial
    · exact .op rfl fun _ => trivial
  unfold nextEvent
  split
  · trivial
  split
  · exact hd _ _
  split
  · trivial
  refine .op rfl fun received => ?_
  split
  · exact hd _ _
  · exact .op rfl fun _ => trivial
  · trivial

end Eggwork.Server
