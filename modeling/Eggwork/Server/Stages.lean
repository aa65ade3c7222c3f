import Eggwork.Server.Conformance

/-! The stages of a run.

`run_execution` publishes `Running`, starts the runner, polls its output channel
and its end in one loop, empties the channel in another and publishes the terminal
event. A `RunStage` says where it is and what it has taken from the channel but not
yet published. Every run keeps to these stages, and no other task touches a
runner (`stageDiscipline`). A record found terminal before its run has published
the terminal event (`barred`) and a poll with both branches disabled (`stuck`)
are stages of their own: what rules them out is not the run's own program. -/
namespace Eggwork.Server
open Lib Store Runner

variable {o : Op} {r : RecordId} {l : Loop}

inductive RunStage where
  | other
  | opening (r : RecordId)
  | opened (r : RecordId)
  | polling (r : RecordId) (drain : Drain)
  | holding (r : RecordId) (drain : Drain) (chunk : OutputChunk)
  | joined (r : RecordId) (drain : Drain)
  | flushing (r : RecordId) (drain : Drain)
  | spilling (r : RecordId) (drain : Drain) (chunk : OutputChunk)
  | closing (r : RecordId)
  | closed (r : RecordId)
  | barred (r : RecordId)
  | stuck (r : RecordId)
deriving DecidableEq

variable {g g' : RunStage}

namespace RunStage

def record? : RunStage → Option RecordId
  | .other => none
  | .opening r | .opened r | .polling r _ | .holding r .. | .joined r _ | .flushing r _ | .spilling r .. | .closing r
  | .closed r | .barred r | .stuck r => some r

/-- The record whose terminal event is still to be published. -/
def open? : RunStage → Option RecordId
  | .opening r | .opened r | .polling r _ | .holding r .. | .joined r _ | .flushing r _ | .spilling r ..
  | .closing r => some r
  | _ => none

theorem record?_of_open? (h : g.open? = some r) : g.record? = some r := by
  cases g <;> first
    | exact h
    | cases h

def read (g : RunStage) (i : RecordId) (snapshot : ExecutionSnapshot) : RunStage :=
  if g.open? = some i ∧ isTerminal snapshot.state = true then .barred i else g

/-- An event is committed. -/
def commit (state : ExecutionState) (kind : ExecutionEventKind) : RunStage → Option RunStage
  | .other => some .other
  | .opening r => if state = .running ∧ kind = .state .running then some (.opened r) else none
  | .holding r drain chunk => if state = .running ∧ kind = chunk.kind then some (.polling r drain) else none
  | .spilling r drain chunk => if state = .running ∧ kind = chunk.kind then some (.flushing r drain) else none
  | .closing r => if isTerminal state = true ∧ kind = .state state then some (.closed r) else none
  | .barred r => some (.barred r)
  | _ => none

def start (i : RecordId) : RunStage → Option RunStage
  | .opened r => if r = i then some (.polling r Drain.start) else none
  | .barred r => some (.barred r)
  | _ => none

/-- Where a completed poll of the drain loop leads. -/
def polled (r : RecordId) (drain : Drain) : Polled → RunStage
  | .output chunk => .holding r drain chunk
  | .closed => if drain.result.isSome then .flushing r drain.close else .polling r drain.close
  | .joined how => .joined r (drain.join how)
  | .disabled => .stuck r

def poll (i : RecordId) (outputClosed pending : Bool) (answer : Polled) : RunStage → Option RunStage
  | .polling r drain =>
    if r = i ∧ drain.outputClosed = outputClosed ∧ drain.pending = pending then some (polled r drain answer) else none
  | .barred r => some (.barred r)
  | _ => none

def check (i : RecordId) (drained : Bool) : RunStage → Option RunStage
  | .joined r drain => if r = i then some (if drained then .flushing r drain else .polling r drain) else none
  | .barred r => some (.barred r)
  | _ => none

def receive (i : RecordId) (received : Option OutputChunk) : RunStage → Option RunStage
  | .flushing r drain => if r = i then some (received.elim (.closing r) (.spilling r drain)) else none
  | .barred r => some (.barred r)
  | _ => none

def finish (i : RecordId) : RunStage → Option RunStage
  | .closed r => if r = i then some (.closed r) else none
  | .barred r => some (.barred r)
  | _ => none

/-- How an operation moves the stage; `none` where it is not allowed. What is
created is created with a first snapshot. -/
def advance (g : RunStage) : (o : Op) → o.Answer → Option RunStage
  | .reserve snapshot .., _ | .newRecord snapshot _, _ => if isInitial snapshot then some g else none
  | .readSnapshot i, snapshot => some (g.read i snapshot)
  | .commitEvent proposed kind, _ => g.commit proposed.state kind
  | .startRunner i, _ => g.start i
  | .select i outputClosed pending, answer => g.poll i outputClosed pending answer
  | .isDrained i, drained => g.check i drained
  | .tryRecv i, received => g.receive i received
  | .finish i, _ => g.finish i
  | .captureDeclared, _ => if g = .other then none else some g
  | .panicked, _ => if g = .other then none else some g
  | _, _ => some g

/-- A run ends with its terminal event published; what bars it is ruled out elsewhere. -/
def final : RunStage → Prop
  | .other | .closed _ | .barred _ | .stuck _ => True
  | _ => False

def enter : Loop → RunStage → Prop
  | .runExecution request, g => g = .opening request.record ∨ g = .barred request.record
  | .drain run, g => g = .polling run.request.record run.drain ∨ g = .barred run.request.record
  | .flush run, g => g = .flushing run.request.record run.drain ∨ g = .barred run.request.record
  | .monitorLease _, g | .events _, g => g = .other

def birth : Origin → RunStage
  | .run r => .opening r
  | _ => .other

end RunStage

abbrev stages : Protocol effects RunStage where
  advance := RunStage.advance
  enter := RunStage.enter

/-! ### Programs that are no run -/

theorem RunStage.advance_other (h : (o.area == .runner) = false) (hinit : o.initial = true) (a : o.Answer) :
    RunStage.other.advance o a = some .other := by
  cases o <;> first
    | rfl
    | exact if_pos hinit
    | cases h

/-- What is created is created with a first snapshot. -/
theorem RunStage.advance_initial {a : o.Answer} (h : g.advance o a = some g') : o.initial = true := by
  cases o <;> first
    | rfl
    | skip
  case reserve | newRecord =>
    obtain ⟨_, h⟩ := Option.ite_none_right_eq_some.mp h
    assumption

theorem RunStage.advance_within {areas : List Area} (ha : areas.contains Area.runner = false)
    (ho : o.within areas = true) (a : o.Answer) : RunStage.other.advance o a = some .other := by
  obtain ⟨harea, hinit⟩ := Bool.and_eq_true_iff.mp ho
  refine RunStage.advance_other ?_ hinit a
  by_contra hrun
  rw [Bool.not_eq_false, beq_iff_eq] at hrun
  rw [hrun, ha] at harea
  cases harea

theorem request_stages {cfg : NodeConfig} {req : Request} {task : Task} (h : req.task cfg = some task) :
    stages.Conforms (fun _ => RunStage.final) (RunStage.birth task.origin) task.program := by
  obtain ⟨handler, hp, hw⟩ := request_within h
  have hne : RunStage.birth task.origin = .other := by
    have hr := (Discipline.isRequest_of_task h).1
    cases horigin : task.origin <;> first
      | rfl
      | (rw [horigin] at hr; cases hr)
  have harea : (Area.answer :: task.origin.areas).contains .runner = false := by
    cases task.origin <;> rfl
  rw [hp, hne]
  refine (Protocol.Conforms.of_uses (fun o ho a => RunStage.advance_within harea ho a) (fun l hl => ?_)
    hw.serve).mono fun _ g hg => ?_
  · cases l <;> first
      | rfl
      | cases hl
  · rw [hg]
    trivial

/-! ### Runs -/

theorem RunStage.advance_barred (r : RecordId) (hinit : o.initial = true) (a : o.Answer) :
    (RunStage.barred r).advance o a = some (.barred r) := by
  cases o <;> first
    | rfl
    | exact if_pos hinit

abbrev Area.ofRun : List Area := [.reading, .publication, .lease, .runner, .workspace]

theorem run_loops (h : l.record? = some r) :
    (body l).Uses (fun o : Op => o.within Area.ofRun = true) fun l' : Loop => l'.record? = some r := by
  have hany : ∀ {α : Type} {areas : List Area} {p : Async α}, areas ⊆ Area.ofRun → Within areas p →
      p.Uses (fun o : Op => o.within Area.ofRun = true) fun l' : Loop => l'.record? = some r :=
    fun ha hp => Program.Uses.mono (fun _ ho => Op.within_mono ha ho) (fun _ hl => hl.elim) hp
  have hpublish : ∀ {i state res kind}, (publish i state res kind).Uses (fun o : Op => o.within Area.ofRun = true)
      fun l' : Loop => l'.record? = some r := hany (by decide) (publish_within ..)
  cases l with
  | monitorLease i | events stream => cases h
  | runExecution req => exact hpublish.bind fun _ => .op rfl fun _ => h
  | drain run =>
    refine .op rfl fun polled => ?_
    split
    · exact hpublish.bind fun _ => h
    · show Loop.record? (if _ then _ else _) = _
      split <;> exact h
    · refine .op rfl fun drained => ?_
      split <;> exact h
    · exact ⟨rfl, fun _ => trivial⟩
  | flush run =>
    refine .op rfl fun received => ?_
    split
    · exact hpublish.bind fun _ => h
    refine .op rfl fun _ => .op rfl fun lease => .op rfl fun _ => ?_
    refine (hany (by decide) (finalize_within run _)).bind fun res => ?_
    exact .op rfl fun _ => hpublish.bind fun _ => ⟨rfl, fun _ => trivial⟩

/-- A run whose record was found terminal goes on as it likes. -/
theorem barred_conforms (h : l.record? = some r) : stages.Conforms (fun _ => RunStage.final) (.barred r) (body l) := by
  refine (Protocol.Conforms.of_uses (fun o ho a => RunStage.advance_barred r (Bool.and_eq_true_iff.mp ho).2 a)
    (fun l' hl => ?_) (run_loops h)).mono fun _ g hg => ?_
  · cases l' <;> cases hl <;> exact .inr rfl
  · rw [hg]
    trivial

/-- A publication: the record is found terminal, or the event is committed. -/
theorem publish_stages (hopen : g.open? = some r) {state : ExecutionState} (res : Option ExecutionResult)
    {kind : ExecutionEventKind} (hc : g.commit state kind = some g') :
    stages.Conforms (fun _ g'' => g'' = .barred r ∨ g'' = g') g (publish r state res kind) := by
  have hu : ∀ g'', g'' = .barred r ∨ g'' = g' →
      stages.Conforms (fun _ g'' => g'' = .barred r ∨ g'' = g') g'' (sync (.unlockCommit r)) :=
    fun g'' hg => .last fun _ => ⟨g'', rfl, hg⟩
  refine .stay (fun _ => rfl) fun _ => .op fun base => ?_
  by_cases hterm : isTerminal base.state = true
  · have hread : g.read r base = .barred r := if_pos ⟨hopen, hterm⟩
    refine ⟨.barred r, congrArg some hread, ?_⟩
    rw [if_pos hterm]
    exact hu _ (.inl rfl)
  have hread : g.read r base = g := if_neg fun h => hterm h.2
  refine ⟨g, congrArg some hread, ?_⟩
  rw [if_neg hterm]
  refine .op fun a => ⟨g', hc, ?_⟩
  split
  · exact .stay (fun _ => rfl) fun _ => .stay (fun _ => rfl) fun _ => hu _ (.inr rfl)
  · exact hu _ (.inr rfl)
  · exact .stay (fun _ => rfl) fun _ => .stay (fun _ => rfl) fun _ => hu _ (.inr rfl)

/-- The terminal publication, whatever finalizing the run finds. -/
theorem finishRun_stages (run : Run) :
    stages.Conforms (fun _ => RunStage.final) (.closing run.request.record) (finishRun run) := by
  -- reading the record on the way may already bar the run
  have hf : ∀ g, g = .barred run.request.record ∨ g = .closed run.request.record →
      stages.Conforms (fun _ => RunStage.final) g (sync (.finish run.request.record)) := by
    rintro g (rfl | rfl)
    · exact .last fun _ => ⟨_, rfl, trivial⟩
    · exact .last fun _ => ⟨.closed run.request.record, if_pos rfl, trivial⟩
  have hfinal : ∀ res, stages.Conforms
      (fun v g => (g = .barred run.request.record ∨ g = .closing run.request.record) ∧ v.state = res.state)
      (.closing run.request.record) (finalize run res) := by
    intro res
    have hr : ∀ (w : WorkspaceId) (v : ExecutionResult) (g : RunStage), v.state = res.state →
        (g = .barred run.request.record ∨ g = .closing run.request.record) → stages.Conforms
          (fun v g => (g = .barred run.request.record ∨ g = .closing run.request.record) ∧ v.state = res.state)
          g (do
            if ← sync (.markTerminal w) then pure v
            else pure {v with finalizationFailure := some .retention}) := by
      intro w v g hv hg
      refine .stay (fun _ => rfl) fun retained => ?_
      split <;> exact ⟨hg, hv⟩
    unfold finalize
    split
    · exact ⟨.inr rfl, rfl⟩
    rename_i w _
    split
    · refine .op fun snap => ⟨_, rfl, ?_⟩
      have hg : RunStage.read (.closing run.request.record) run.request.record snap = .barred run.request.record ∨
          RunStage.read (.closing run.request.record) run.request.record snap = .closing run.request.record := by
        unfold RunStage.read
        split
        · exact .inl rfl
        · exact .inr rfl
      generalize RunStage.read (.closing run.request.record) run.request.record snap = g at hg ⊢
      have hne : g ≠ .other := by
        rcases hg with rfl | rfl <;> exact RunStage.noConfusion
      refine .op fun captured => ⟨g, if_neg hne, ?_⟩
      split
      · exact hr w.id {res with artifactCount := _} g rfl hg
      · exact hr w.id {res with finalizationFailure := _} g rfl hg
    · exact hr w.id res _ rfl (.inr rfl)
  refine .stay (fun _ => rfl) fun _ => .stay (fun _ => rfl) fun lease => .stay (fun _ => rfl) fun _ => ?_
  refine (hfinal _).bind ?_
  rintro res g ⟨hg, hst⟩
  have hterm : isTerminal res.state = true := by
    rw [hst]
    exact Drain.executionResult_terminal ..
  refine .stay (fun _ => rfl) fun _ => ?_
  rcases hg with rfl | rfl
  · refine (Protocol.Conforms.of_uses (fun o ho a => RunStage.advance_barred _ (Bool.and_eq_true_iff.mp ho).2 a)
      (fun _ hl => hl.elim) (publish_within ..)).thence fun _ => ?_
    exact hf _ (.inl rfl)
  · have hc : RunStage.commit res.state (.state res.state) (.closing run.request.record) =
        some (.closed run.request.record) := if_pos ⟨hterm, rfl⟩
    exact (publish_stages rfl (some res) hc).bind fun _ g hg => hf g hg

theorem body_stages (h : RunStage.enter l g) : stages.Conforms (fun _ => RunStage.final) g (body l) := by
  have hne : ∀ {areas : List Area} {enters : Loop → Prop} {p : Async Unit},
      p.Uses (fun o : Op => o.within areas = true) enters → areas.contains Area.runner = false →
      (∀ l, enters l → RunStage.enter l .other) → stages.Conforms (fun _ => RunStage.final) .other p := by
    intro areas enters p hp ha he
    exact (Protocol.Conforms.of_uses (fun (o : Op) ho a => RunStage.advance_within ha ho a) he hp).mono
      fun _ g hg => hg ▸ trivial
  cases l with
  | monitorLease r =>
    cases h
    exact hne (monitorLease_within r) rfl fun l hl => hl ▸ rfl
  | events stream =>
    cases h
    refine hne (nextEvent_within stream) rfl fun l hl => ?_
    cases l <;> first
      | rfl
      | cases hl
  | runExecution req =>
    rcases h with rfl | rfl
    · have hc : RunStage.commit .running (.state .running) (.opening req.record) = some (.opened req.record) := rfl
      refine (publish_stages rfl none hc).bind ?_
      rintro _ g (rfl | rfl)
      · exact .stay (fun _ => rfl) fun _ => .inr rfl
      · exact .op fun _ => ⟨.polling req.record Drain.start, if_pos rfl, .inl rfl⟩
    · exact barred_conforms rfl
  | drain run =>
    rcases h with rfl | rfl
    · refine .op fun a => ⟨RunStage.polled run.request.record run.drain a, if_pos ⟨rfl, rfl, rfl⟩, ?_⟩
      cases a with
      | output chunk =>
        have hc : RunStage.commit .running chunk.kind (.holding run.request.record run.drain chunk) =
            some (.polling run.request.record run.drain) := if_pos ⟨rfl, rfl⟩
        exact (publish_stages rfl none hc).bind fun _ g hg => hg.symm
      | closed =>
        show RunStage.enter (if run.drain.result.isSome = true then _ else _) (if run.drain.result.isSome = true then _ else _)
        by_cases hr : run.drain.result.isSome = true
        · rw [if_pos hr, if_pos hr]
          exact .inl rfl
        · rw [if_neg hr, if_neg hr]
          exact .inl rfl
      | joined how =>
        refine .op fun drained => ⟨_, if_pos rfl, ?_⟩
        split
        · exact .inl rfl
        · exact .inl rfl
      | disabled => exact .last fun _ => ⟨.stuck run.request.record, rfl, trivial⟩
    · exact barred_conforms rfl
  | flush run =>
    rcases h with rfl | rfl
    · refine .op fun received => ⟨_, if_pos rfl, ?_⟩
      cases received with
      | some chunk =>
        have hc : RunStage.commit .running chunk.kind (.spilling run.request.record run.drain chunk) =
            some (.flushing run.request.record run.drain) := if_pos ⟨rfl, rfl⟩
        exact (publish_stages rfl none hc).bind fun _ g hg => hg.symm
      | none => exact finishRun_stages run
    · exact barred_conforms rfl

namespace RunStage

theorem advance_record? {a : o.Answer} (h : g.advance o a = some g') : g'.record? = g.record? := by
  cases o <;> first
    | (cases h; rfl)
    | skip
  case reserve | newRecord | captureDeclared | panicked =>
    simp only [advance] at h
    split at h <;> cases h
    rfl
  case readSnapshot i =>
    cases h
    unfold read
    split
    · rename_i hopen
      exact (record?_of_open? hopen.1).symm
    · rfl
  case commitEvent proposed kind =>
    cases g <;> simp only [advance, commit] at h <;> first
      | (cases h; rfl)
      | (split at h <;> cases h; rfl)
      | cases h
  case startRunner | finish =>
    cases g <;> simp only [advance, start, finish] at h <;> first
      | (cases h; rfl)
      | (split at h <;> cases h; rfl)
      | cases h
  case select i closed pending =>
    cases g with
    | polling r drain =>
      simp only [advance, poll] at h
      split at h <;> cases h
      cases a with
      | closed =>
        simp only [polled]
        split <;> rfl
      | _ => rfl
    | barred r =>
      cases h
      rfl
    | _ => cases h
  case isDrained i =>
    cases g <;> simp only [advance, check] at h <;> first
      | (cases h; rfl)
      | (split at h <;> cases h; split <;> rfl)
      | cases h
  case tryRecv i =>
    cases g <;> simp only [advance, receive] at h <;> first
      | (cases h; rfl)
      | (split at h <;> cases h; cases a <;> rfl)
      | cases h

end RunStage

/-- All tasks of the node keep to the stages of a run. -/
def stageDiscipline : Discipline RunStage where
  protocol := stages
  idle := .other
  birth := RunStage.birth
  final := RunStage.final
  final_idle := trivial
  requests := request_stages
  loops := body_stages
  spawns := by
    intro o origin l h
    rcases spawns_cases h with ⟨r, rfl, rfl⟩ | ⟨request, rfl, rfl⟩
    · rfl
    · exact .inl rfl
  fits face g := ∀ r, g.record? = some r → face.origin = .run r
  fits_idle _ _ h := by cases h
  fits_birth origin r h := by
    cases origin <;> cases h
    rfl
  fits_advance {face g o answer g'} hfits hmove r hr := by
    rw [o.shows_origin]
    exact hfits r ((RunStage.advance_record? hmove).symm.trans hr)

end Eggwork.Server
