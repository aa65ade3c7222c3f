import Eggwork.Runner.Drain
import Eggwork.Server.Moves
import Eggwork.Server.Runs

/-! The drain loop of a run, on the node.

A watched run of the node notes, for each record, the output its channel took, the
events its run tried to commit, and the polls made once the channel is closed and
the runner done. If an error of the runner is only ever taken with the channel
closed and empty (`punctual`), the loop never polls with both branches disabled,
ends, and publishes every chunk before its one terminal event. If one overtakes a
channel that is still open, the run panics (`overtaken_output_panics`). -/
namespace Eggwork.Server
open Lib Store Runner Function List Option Bool Discipline Nat Local RunStage

variable {J : Serde}
variable {r i : RecordId} {p : Pipe} {t : TaskId} {c : Choice} {held : List OutputChunk}
variable {p' : Pipe} {rec : ExecutionRecord} {outputClosed : Bool} {task : Task}

/-! ### What is noted -/

/-- The output channel a record's run has opened. -/
def Node.pipe? (s : Node J) (r : RecordId) : Option Pipe := (s.records[r]?).bind (·.pipe)

/-- The record a task is the run of, and its next operation. -/
def Node.runOp (s : Node J) (t : TaskId) : Option (RecordId × Op) :=
  (s.tasks[t]?).bind fun task =>
    match task.origin, task.program with
    | .run r, .perform o _ => some (r, o)
    | _, _ => none

variable {s s' : Node J}

/-- What an observer of one process notes of each record. -/
structure Watch where
  accepted : RecordId → List OutputChunk
  attempted : RecordId → List ExecutionEventKind
  polls : RecordId → Nat

def Watch.blank : Watch := ⟨fun _ => [], fun _ => [], fun _ => 0⟩

/-- What an operation of a record's run adds. -/
def Watch.noteOp (s : Node J) (w : Watch) (r : RecordId) : Op → Watch
  | .commitEvent _ kind => {w with attempted := update w.attempted r (w.attempted r ++ [kind])}
  | .select .. =>
    if (s.pipe? r).any Pipe.done then {w with polls := update w.polls r (w.polls r + 1)} else w
  | _ => w

def Watch.note (s : Node J) (a : Action) (w : Watch) : Watch :=
  match a with
  | .output r chunk =>
    if (s.pipe? r).any fun pipe => pipe.queue.length < runnerChannelCapacity then
      {w with accepted := update w.accepted r (w.accepted r ++ [chunk])}
    else w
  | .task t _ =>
    match s.runOp t with
    | some (r, o) => w.noteOp s r o
    | none => w
  | .crash => .blank
  | _ => w

/-- An error of the runner is taken only with the channel closed and empty: at the
check that follows, the channel is drained. -/
def punctual (s : Node J) : Action → Bool
  | .task t _ =>
    match s.nextOp t with
    | some (.isDrained r) => (s.pipe? r).all fun pipe => !pipe.joined.any Joined.failed || pipe.drained
    | _ => true
  | _ => true

abbrev Punctual (s : Node J) (a : Action) : Prop := punctual s a = true

/-! ### Channels across a step -/

/-- The record whose channel an operation moves. -/
def Op.pipe? : Op → Option RecordId
  | .startRunner i | .select i .. | .tryRecv i => some i
  | _ => none

variable {o : Op} {answer : o.Answer}

theorem pipe?_perform {config : NodeConfig} (h : perform config s t c o = some (answer, s'))
    (hr : o.pipe? ≠ some r) : s'.pipe? r = s.pipe? r := by
  have ht : ∀ rec : ExecutionRecord, (o.touch t r rec).pipe = rec.pipe := by
    intro rec
    cases o <;> simp only [Op.touch] <;> first
      | rfl
      | (split <;> first | rfl | skip)
    all_goals
      rename_i hi
      subst hi
      exact absurd rfl hr
  unfold Node.pipe?
  rw [perform_record h r]
  cases hrecord : s.records[r]? with
  | some rec =>
    simp only [map_some, some_or, bind_some]
    exact ht rec
  | none =>
    simp only [map_none, none_or, bind_none]
    split
    · cases o <;> rfl
    · rfl

theorem pipe?_resume (s : Node J) (t : TaskId) (prog : Async Unit) (r : RecordId) :
    (s.resume t prog).pipe? r = s.pipe? r := by
  unfold Node.pipe?
  rw [records_resume]
  cases s.records[r]? with
  | none => rfl
  | some rec =>
    simp only [map_some, bind_some]
    split <;> rfl

/-! ### What a stage says -/

/-- What the channel took is published, is held by the run, or is still queued. -/
structure Watch.Tally (w : Watch) (r : RecordId) (p : Pipe) (held : List OutputChunk) : Prop where
  published : ∃ taken, w.accepted r = taken ++ held ++ p.queue ∧
    w.attempted r = .state .running :: taken.map OutputChunk.kind
  room : p.queue.length ≤ runnerChannelCapacity

/-- What the stage of a run says of its channel and of what was noted. -/
def RunStage.Fits (s : Node J) (w : Watch) : RunStage → Prop
  | .other => True
  | .opening r => s.pipe? r = none ∧ w.accepted r = [] ∧ w.attempted r = [] ∧ w.polls r = 0
  | .opened r => s.pipe? r = none ∧ w.accepted r = [] ∧ w.attempted r = [.state .running] ∧ w.polls r = 0
  | .polling r d => ∃ p, s.pipe? r = some p ∧ w.Tally r p [] ∧ d.Sound p ∧ d.Bounded p (w.polls r)
  | .holding r d chunk => ∃ p, s.pipe? r = some p ∧ w.Tally r p [chunk] ∧ d.Sound p ∧ d.Bounded p (w.polls r)
  | .joined r d => ∃ p, s.pipe? r = some p ∧ w.Tally r p [] ∧ (d.outputClosed = true → p.drained = true) ∧
      (d.result.isSome = true ∨ p.joined.any Joined.failed = true) ∧ d.Bounded p (w.polls r)
  | .flushing r _ | .closing r => ∃ p, s.pipe? r = some p ∧ w.Tally r p [] ∧ p.drained = true ∧
      w.polls r ≤ runnerChannelCapacity + 2
  | .closed r => ∃ p state, s.pipe? r = some p ∧ p.drained = true ∧ isTerminal state = true ∧
      w.attempted r = .state .running :: (w.accepted r).map OutputChunk.kind ++ [.state state] ∧
      w.polls r ≤ runnerChannelCapacity + 2
  | .spilling .. | .barred _ | .stuck _ => False

variable {g g' : RunStage}

/-- Nothing noted of the record has changed. -/
structure Watch.Agrees (w w' : Watch) (r : RecordId) : Prop where
  accepted : w'.accepted r = w.accepted r
  attempted : w'.attempted r = w.attempted r
  polls : w'.polls r = w.polls r

theorem Watch.Agrees.refl (w : Watch) (r : RecordId) : w.Agrees w r := ⟨rfl, rfl, rfl⟩

theorem Watch.Agrees.tally {w w' : Watch} (he : w.Agrees w' r) (h : w.Tally r p held) : w'.Tally r p held := by
  refine ⟨?_, h.room⟩
  rw [he.accepted, he.attempted]
  exact h.published

theorem RunStage.Fits.frame {w w' : Watch} (hframe : ∀ r, g.record? = some r → s'.pipe? r = s.pipe? r ∧ w.Agrees w' r)
    (h : g.Fits s w) : g.Fits s' w' := by
  cases g with
  | other => trivial
  | opening r | opened r =>
    obtain ⟨hpipe, he⟩ := hframe r rfl
    simp only [Fits, hpipe, he.accepted, he.attempted, he.polls]
    exact h
  | polling r | holding r | joined r | flushing r | closing r =>
    obtain ⟨hpipe, he⟩ := hframe r rfl
    obtain ⟨p, hp, htally, hrest⟩ := h
    exact ⟨p, hpipe.trans hp, he.tally htally, he.polls ▸ hrest⟩
  | closed r =>
    obtain ⟨hpipe, he⟩ := hframe r rfl
    obtain ⟨p, state, hp, hrest⟩ := h
    refine ⟨p, state, hpipe.trans hp, ?_⟩
    rw [he.accepted, he.attempted, he.polls]
    exact hrest
  | spilling | barred | stuck => exact h

/-! ### What the runner does -/

theorem Watch.Tally.later {w : Watch} (h : w.Tally r p held) (hp : p.Later p') :
    w.Tally r p' held := ⟨hp.queue ▸ h.published, hp.queue ▸ h.room⟩

theorem RunStage.Fits.turns {w w' : Watch} (hr : g.record? = some r) (hp : s.pipe? r = some p)
    (hp' : s'.pipe? r = some p') (htally : ∀ {held}, w.Tally r p held → w'.Tally r p' held)
    (hsound : ∀ {d : Drain}, d.Sound p → d.Sound p')
    (hbounded : ∀ {d : Drain}, p.queue.length ≤ runnerChannelCapacity → d.Bounded p (w.polls r) → d.Bounded p' (w'.polls r))
    (hdrain : p.drained = true → p'.drained = true ∧ w.Agrees w' r)
    (hfailed : p.joined.any Joined.failed = true → p'.joined.any Joined.failed = true) (h : g.Fits s w) : g.Fits s' w' := by
  have hsame : ∀ {q}, s.pipe? r = some q → q = p := fun hq => (some.inj (hp.symm.trans hq)).symm
  cases g with
  | other => cases hr
  | opening i | opened i =>
    cases hr
    have hn : s.pipe? r = none := h.1
    rw [hp] at hn
    cases hn
  | polling i | holding i =>
    cases hr
    obtain ⟨q, hq, ht, hs, hb⟩ := h
    obtain rfl := hsame hq
    exact ⟨p', hp', htally ht, hsound hs, hbounded ht.room hb⟩
  | joined i d =>
    cases hr
    obtain ⟨q, hq, ht, hclose, hresult, hb⟩ := h
    obtain rfl := hsame hq
    exact ⟨p', hp', htally ht, fun hc => (hdrain (hclose hc)).1, hresult.imp_right hfailed, hbounded ht.room hb⟩
  | flushing i d | closing i =>
    cases hr
    obtain ⟨q, hq, ht, hd, hpolls⟩ := h
    obtain rfl := hsame hq
    obtain ⟨hd', he⟩ := hdrain hd
    exact ⟨p', hp', htally ht, hd', he.polls ▸ hpolls⟩
  | closed i =>
    cases hr
    obtain ⟨q, state, hq, hd, hrest⟩ := h
    obtain rfl := hsame hq
    obtain ⟨hd', he⟩ := hdrain hd
    refine ⟨p', state, hp', hd', ?_⟩
    rw [he.accepted, he.attempted, he.polls]
    exact hrest
  | spilling | barred | stuck => exact h

/-- The runner hangs up, or finishes. -/
theorem RunStage.Fits.later {w : Watch} (hr : g.record? = some r) (hp : s.pipe? r = some p) (hp' : s'.pipe? r = some p')
    (hl : p.Later p') (h : g.Fits s w) : g.Fits s' w := by
  refine h.turns hr hp hp' (·.later hl) hl.sound hl.bounded (fun hd => ⟨hl.drained hd, .refl w r⟩) fun hfailed => ?_
  obtain ⟨how, hj, hf⟩ := (any_eq_true _ _).mp hfailed
  rw [hl.joined how hj]
  exact hf

/-- The runner writes output, which a full channel refuses. -/
theorem RunStage.Fits.sends {w : Watch} {chunk : OutputChunk} (hr : g.record? = some r) (hp : s.pipe? r = some p)
    (hopen : p.closed = false) (hp' : s'.pipe? r = some (p.send chunk)) (h : g.Fits s w) :
    g.Fits s' (w.note s (.output r chunk)) := by
  have hnote : w.note s (.output r chunk) = if p.queue.length < runnerChannelCapacity then
        {w with accepted := update w.accepted r (w.accepted r ++ [chunk])} else w := by
    simp only [Watch.note, hp, any_some, decide_eq_true_eq]
  have hu : p.drained = false := by
    rw [Pipe.drained, hopen]
    rfl
  have hundo : (p.send chunk).done = false := by
    unfold Pipe.send Pipe.done
    split <;> rw [hopen] <;> rfl
  have hpolled : (w.note s (.output r chunk)).polls = w.polls := by
    rw [hnote]
    split <;> rfl
  refine h.turns hr hp hp' ?_ (fun {d} hd => ⟨fun hc => ?_, hd.joined⟩) (fun {d} _ hd => ?_) (fun hdrain => ?_) fun hf => ?_
  · rintro held ⟨⟨taken, ha, ht⟩, hroom⟩
    rw [hnote]
    unfold Pipe.send
    split
    · rename_i hs
      refine ⟨⟨taken, ?_, ht⟩, ?_⟩
      · simp only [update_self, ha, append_assoc]
      · simp only [length_append, length_singleton]
        omega
    · exact ⟨⟨taken, ha, ht⟩, hroom⟩
  · rw [(hd.closed hc).1] at hu
    cases hu
  · rw [hpolled]
    unfold Drain.Bounded at hd ⊢
    rw [if_neg (by rw [Pipe.done, hopen]; exact Bool.false_ne_true)] at hd
    rw [hundo, if_neg Bool.false_ne_true]
    exact hd
  · rw [hdrain] at hu
    cases hu
  · unfold Pipe.send
    split <;> exact hf

/-! ### What the run does -/

section Performs
variable {config : NodeConfig} {s s' : Node J} {w : Watch} {t : TaskId} {c : Choice} {r : RecordId}

/-- The channel of an existing record, after an operation on it. -/
theorem pipe?_touch (h : perform config s t c o = some (answer, s')) (hr : s.records[r]? = some rec) :
    s'.pipe? r = (o.touch t r rec).pipe := by
  unfold Node.pipe?
  rw [perform_record h r, hr]
  rfl

theorem RunStage.Fits.commits {proposed : ExecutionSnapshot} {kind : ExecutionEventKind}
    {answer : Except StoreError (Option ExecutionEvent)} (hr : g.record? = some r)
    (hperform : perform config s t c (.commitEvent proposed kind) = some (answer, s'))
    (hstage : g.commit proposed.state kind = some g') (h : g.Fits s w) :
    g'.Fits s' (w.noteOp s r (.commitEvent proposed kind)) := by
  have hpipe : s'.pipe? r = s.pipe? r := pipe?_perform hperform fun hn => by cases hn
  have hattempted : (w.noteOp s r (.commitEvent proposed kind)).attempted r = w.attempted r ++ [kind] :=
    update_self ..
  cases g <;> simp only [commit] at hstage
  case other => cases hr
  case opening i =>
    cases hr
    split at hstage <;> cases hstage
    rename_i hkind
    obtain ⟨hnone, ha, he, hpolls⟩ := h
    exact ⟨hpipe.trans hnone, ha, by rw [hattempted, he, hkind.2]; rfl, hpolls⟩
  case holding i d chunk =>
    cases hr
    split at hstage <;> cases hstage
    rename_i hkind
    obtain ⟨p, hp, ⟨⟨taken, ha, htaken⟩, hroom⟩, hs, hbounded⟩ := h
    refine ⟨p, hpipe.trans hp, ⟨⟨taken ++ [chunk], ?_, ?_⟩, hroom⟩, hs, hbounded⟩
    · rw [append_nil]
      exact ha
    · rw [hattempted, htaken, hkind.2, map_append, cons_append]
      rfl
  case closing i =>
    cases hr
    split at hstage <;> cases hstage
    rename_i hkind
    obtain ⟨p, hp, ⟨⟨taken, ha, htaken⟩, _⟩, hdrain, hpolls⟩ := h
    rw [Pipe.drained_queue hdrain, append_nil, append_nil] at ha
    refine ⟨p, proposed.state, hpipe.trans hp, hdrain, hkind.1, ?_, hpolls⟩
    rw [hattempted, htaken, hkind.2]
    show _ = .state .running :: (w.accepted r).map OutputChunk.kind ++ _
    rw [ha]
  case spilling | barred => exact h.elim
  all_goals cases hstage

theorem RunStage.Fits.polls {pending : Bool} {answer : Polled} (hr : g.record? = some r)
    (hperform : perform config s t c (.select i outputClosed pending) = some (answer, s'))
    (hstage : g.poll i outputClosed pending answer = some g') (h : g.Fits s w) :
    g'.Fits s' (w.noteOp s r (.select i outputClosed pending)) := by
  cases g <;> simp only [poll] at hstage
  case polling r' d =>
    cases hr
    split at hstage <;> cases hstage
    rename_i hg
    obtain ⟨rfl, rfl, rfl⟩ := hg
    obtain ⟨p, hp, ht, hs, hb⟩ := h
    obtain ⟨rec, hrecord, hrecorded⟩ := bind_eq_some_iff.mp hp
    have hselect : ∃ p', p.select d.outputClosed d.pending = some (answer, p') ∧ s'.pipe? r = some p' := by
      have hpipe := pipe?_touch hperform hrecord
      simp only [perform, hrecord, bind_some, hrecorded] at hperform
      obtain ⟨⟨polled, p'⟩, hpolled, he⟩ := map_eq_some_iff.mp hperform
      cases he
      refine ⟨p', hpolled, hpipe.trans ?_⟩
      simp only [Op.touch, if_true, hrecorded, map_some, hpolled, elim_some]
    obtain ⟨p', hpolled, hp'⟩ := hselect
    have hnote : w.noteOp s r (.select r d.outputClosed d.pending) =
        if p.done then {w with polls := update w.polls r (w.polls r + 1)} else w := by
      simp only [Watch.noteOp, hp, any_some]
    have hcount : (w.noteOp s r (.select r d.outputClosed d.pending)).polls r =
        if p.done then w.polls r + 1 else w.polls r := by
      rw [hnote]
      split
      · exact update_self ..
      · rfl
    have hkept : ∀ {q held}, w.Tally r q held → (w.noteOp s r (.select r d.outputClosed d.pending)).Tally r q held := by
      intro q held hq
      rw [hnote]
      split <;> exact ⟨hq.published, hq.room⟩
    rcases Pipe.select_cases hpolled with ⟨chunk, rfl, hopen, hqueue, he⟩ | ⟨rfl, rfl, hopen, hd⟩ |
      ⟨rfl, how, rfl, hpending, hj⟩ | ⟨_, _, hdistinct⟩
    · obtain ⟨⟨taken, ha, htaken⟩, hroom⟩ := ht
      have hdone : p'.done = p.done := by rw [he]; rfl
      refine ⟨p', hp', hkept ⟨⟨taken, ?_, htaken⟩, ?_⟩, ⟨fun hc => ?_, hs.joined⟩,
        hcount ▸ hb.poll hdone (Drain.rounds_output hqueue)⟩
      · rw [ha, hqueue]
        simp
      · rw [hqueue, length_cons] at hroom
        omega
      · rw [hopen] at hc
        cases hc
    · have hpoll := hb.poll rfl (Drain.rounds_close hopen)
      rw [← hcount] at hpoll
      simp only [polled]
      split
      · exact ⟨p', hp', hkept ht, hd, hpoll.le⟩
      · rename_i hresult
        exact ⟨p', hp', hkept ht, hs.close hd (not_eq_true _ ▸ hresult), hpoll⟩
    · have hpoll := hb.poll rfl (Drain.rounds_join how hpending)
      rw [← hcount] at hpoll
      refine ⟨p', hp', hkept ht, fun hc => ?_, (d.join_result how).imp_right fun hf => ?_, hpoll⟩
      · rw [Drain.join_outputClosed] at hc
        exact (hs.closed hc).1
      · rw [hj]
        exact hf
    · exact absurd hdistinct hs.enabled
  case barred => exact h.elim
  all_goals cases hstage

/-- The run checks whether the channel is drained, with what its runner came to. -/
theorem RunStage.Fits.checks {answer : Bool} (hr : g.record? = some r)
    (hperform : perform config s t c (.isDrained i) = some (answer, s')) (hstage : g.check i answer = some g')
    (hpunctual : ∀ p, s.pipe? i = some p → p.joined.any Joined.failed = true → p.drained = true) (h : g.Fits s w) :
    g'.Fits s' w := by
  cases g <;> simp only [check] at hstage
  case joined r' d =>
    cases hr
    split at hstage <;> cases hstage
    rename_i hri
    subst hri
    obtain ⟨p, hp, ht, hc, hresult, hb⟩ := h
    obtain ⟨q, hq, he⟩ := map_eq_some_iff.mp hperform
    cases he
    obtain rfl := some.inj (hp.symm.trans hq)
    split
    · rename_i hd
      exact ⟨p, hp, ht, hd, hb.le⟩
    rename_i hd
    refine ⟨p, hp, ht, .joined_open hc (not_eq_true _ ▸ hd) ?_, hb⟩
    -- the loop goes on: the runner has given a result, since an error would have been punctual
    exact hresult.resolve_right fun hf => hd (hpunctual p hp hf)
  case barred => exact h.elim
  all_goals cases hstage

theorem RunStage.Fits.receives {answer : Option OutputChunk} (hr : g.record? = some r)
    (hperform : perform config s t c (.tryRecv i) = some (answer, s')) (hstage : g.receive i answer = some g')
    (h : g.Fits s w) : g'.Fits s' w := by
  cases g <;> simp only [receive] at hstage
  case flushing r' d =>
    cases hr
    split at hstage <;> cases hstage
    rename_i hri
    subst hri
    obtain ⟨p, hp, ht, hd, hpolled⟩ := h
    obtain ⟨rec, hrecord, hrecorded⟩ := bind_eq_some_iff.mp hp
    have hempty : p.tryRecv = (none, p) := by rw [Pipe.tryRecv, Pipe.drained_queue hd]
    have hpipe := pipe?_touch hperform hrecord
    simp only [Op.touch, if_true, hrecorded, map_some, hempty] at hpipe
    obtain ⟨q, hq, he⟩ := map_eq_some_iff.mp hperform
    obtain rfl := some.inj (hp.symm.trans hq)
    rw [hempty] at he
    cases he
    exact ⟨p, hpipe, ht, hd, hpolled⟩
  case barred => exact h.elim
  all_goals cases hstage

theorem RunStage.Fits.starts {answer : Unit} (hr : g.record? = some r)
    (hp : perform config s t c (.startRunner i) = some (answer, s')) (hstage : g.start i = some g')
    (hrecord : s.records[r]? = some rec) (h : g.Fits s w) : g'.Fits s' w := by
  cases g <;> simp only [start] at hstage
  case opened r' =>
    cases hr
    split at hstage <;> cases hstage
    rename_i hri
    subst hri
    obtain ⟨_, haccept, ha, hpolled⟩ := h
    have hpipe := pipe?_touch hp hrecord
    simp only [Op.touch, if_true] at hpipe
    refine ⟨Pipe.channel, hpipe, ⟨⟨[], haccept, ha⟩, zero_le _⟩, .start, ?_⟩
    rw [hpolled]
    exact .of_queue (zero_le _)
  case barred => exact h.elim
  all_goals cases hstage

/-- What is noted when a task in a stage makes an operation. -/
def Watch.noteBy (s : Node J) (w : Watch) (g : RunStage) (o : Op) : Watch := g.record?.elim w fun r => w.noteOp s r o

theorem RunStage.Fits.performs (hp : perform config s t c o = some (answer, s'))
    (hstage : g.advance o answer = some g') (hrecorded : ∀ r, g.record? = some r → ∃ rec, s.records[r]? = some rec)
    (hu : ∀ r, g' ≠ .barred r)
    (hpunctual : ∀ i p, o = .isDrained i → s.pipe? i = some p → p.joined.any Joined.failed = true → p.drained = true)
    (h : g.Fits s w) : g'.Fits s' (w.noteBy s g o) := by
  cases hr : g.record? with
  | none =>
    have hne : g' = .other := by
      have hn := (advance_record? hstage).trans hr
      cases g' <;> first
        | rfl
        | cases hn
    rw [hne]
    trivial
  | some r =>
    have hnote : w.noteBy s g o = w.noteOp s r o := by rw [Watch.noteBy, hr]; rfl
    rw [hnote]
    have hsame : o.pipe? = none → g' = g → (∀ w : Watch, w.noteOp s r o = w) → g'.Fits s' (w.noteOp s r o) := by
      rintro hpipe rfl hw
      rw [hw]
      exact h.frame fun i _ => ⟨pipe?_perform hp (by rw [hpipe]; exact nofun), .refl w i⟩
    cases o <;> first
      | (cases hstage; exact hsame rfl rfl fun _ => rfl)
      | skip
    case reserve | newRecord | captureDeclared | panicked =>
      simp only [advance] at hstage
      split at hstage <;> cases hstage
      exact hsame rfl rfl fun _ => rfl
    case finish i =>
      refine hsame rfl ?_ fun _ => rfl
      cases g <;> simp only [advance, finish] at hstage
      case closed => split at hstage <;> cases hstage; rfl
      case barred => exact (some.inj hstage).symm
      all_goals cases hstage
    case readSnapshot i =>
      refine hsame rfl ?_ fun _ => rfl
      simp only [advance, some.injEq] at hstage
      unfold read at hstage
      split at hstage
      · exact absurd hstage.symm (hu i)
      · exact hstage.symm
    case commitEvent => exact h.commits hr hp hstage
    case select => exact h.polls hr hp hstage
    case isDrained i => exact h.checks hr hp hstage fun p => hpunctual i p rfl
    case tryRecv => exact h.receives hr hp hstage
    case startRunner =>
      obtain ⟨rec, hrecord⟩ := hrecorded r hr
      exact h.starts hr hp hstage hrecord

end Performs

/-! ### The invariant -/

/-- No run of the record has been spawned. -/
def Unstarted (v : View J) (r : RecordId) : Prop :=
  ∀ record : RecordView, v.records[r]? = some record → record.key ∉ spawnedKeys v.log

/-- The channel of every run, and what was noted of it, are as its stage says. -/
structure Drained (locals : TaskId → Local × RunStage) (s : Node J) (w : Watch) : Prop where
  stages : ∀ t, (locals t).2.Fits s w
  unspawned : ∀ r, Unstarted s.view r → (RunStage.opening r).Fits s w
  origins : ∀ {t face program}, s.threads[t]? = some (face, program) →
    ∀ r, face.origin = .run r → (locals t).2.record? = some r

theorem Watch.noteOp_agrees (s : Node J) (w : Watch) (hne : i ≠ r) (o : Op) : w.Agrees (w.noteOp s r o) i := by
  cases o <;> first
    | exact .refl w i
    | skip
  case commitEvent => exact ⟨rfl, update_of_ne hne _ _, rfl⟩
  case select =>
    simp only [Watch.noteOp]
    split
    · exact ⟨rfl, rfl, update_of_ne hne _ _⟩
    · exact .refl w i

theorem Watch.noteBy_agrees (s : Node J) (w : Watch) (hne : g.record? ≠ some i) (o : Op) :
    w.Agrees (w.noteBy s g o) i := by
  unfold Watch.noteBy
  cases hr : g.record? with
  | none => exact .refl w i
  | some r =>
    refine w.noteOp_agrees s (fun he => hne ?_) o
    rw [hr, he]

theorem RunStage.advance_pipe? (h : g.advance o answer = some g') (hu : ∀ r, g ≠ .barred r)
    (hi : o.pipe? = some i) : g.record? = some i := by
  cases o <;> cases hi
  all_goals
    cases g <;> first
      | exact absurd rfl (hu _)
      | cases h
      | skip
  all_goals
    obtain ⟨hr, ⟨⟩⟩ := ite_none_right_eq_some.mp h
    first
      | exact congrArg some hr
      | exact congrArg some hr.1

theorem Drained.note_task {locals : TaskId → Local × RunStage} {w : Watch} (h : Drained locals s w)
    (hk : runDiscipline.Keeps locals s) {next : o.Answer → Async Unit} (ht : s.tasks[t]? = some task)
    (hprogram : task.program = .perform o next) : w.note s (.task t c) = w.noteBy s (locals t).2 o := by
  have hfits := (hk.fits (threads_getElem? ht)).2
  have horigin := h.origins (threads_getElem? ht)
  unfold Watch.note Watch.noteBy Node.runOp
  simp only [ht, bind_some, hprogram]
  cases hr : (locals t).2.record? with
  | some r =>
    have hrun : task.origin = .run r := hfits r hr
    rw [hrun]
    rfl
  | none =>
    split
    · rename_i r o' heq
      split at heq
      · rename_i i _ _ hrun hp
        rw [horigin i hrun] at hr
        cases hr
      · cases heq
    · rfl

section Moves
variable {config : NodeConfig} {locals : TaskId → Local × RunStage} {s s' : Node J} {w : Watch}

theorem Unstarted.before {v v' : View J} (hlog : spawnedKeys v.log ⊆ spawnedKeys v'.log)
    (hrs : ∀ (r : RecordId) (rec : RecordView), v.records[r]? = some rec →
      ∃ rec' : RecordView, v'.records[r]? = some rec' ∧ rec'.key = rec.key) (h : Unstarted v' r) : Unstarted v r := by
  intro rec hr hs
  obtain ⟨rec', hr', hk⟩ := hrs r rec hr
  exact h rec' hr' (hk ▸ hlog hs)

/-- Going on moves no channel. -/
theorem RunStage.Fits.resume (h : g.Fits s w) (t : TaskId) (prog : Async Unit) :
    g.Fits (s.resume t prog) w := h.frame fun r _ => ⟨pipe?_resume s t prog r, .refl w r⟩

theorem Unstarted.of_resume {prog : Async Unit} (h : Unstarted (s.resume t prog).view r) : Unstarted s.view r := by
  rcases view_resume s t prog with he | ⟨_, he⟩ <;> rw [he] at h
  · exact h
  · have hextends := View.Extends.release s.view t
    exact h.before (fun _ hk => hextends.spawned ▸ hk) hextends.records

/-- A task makes an operation: the stages of the others, and a run that is just spawned. -/
theorem Drained.performs (hkeeps : runDiscipline.Keeps locals s) (hs : Staged locals s.view)
    {next : o.Answer → Async Unit} {g : Local × RunStage} (hrule : Punctual s (.task t c))
    (htask : s.tasks[t]? = some task) (hprogram : task.program = .perform o next)
    (hperform : perform config s t c o = some (answer, s'))
    (hm : runDiscipline.protocol.advance (locals t) o answer = some g) (h : Drained locals s w) :
    (∀ i, (update (runDiscipline.births locals s.threads.length o) t g i).2.Fits s' (w.note s (.task t c))) ∧
      ∀ r, Unstarted s'.view r → (RunStage.opening r).Fits s' (w.note s (.task t c)) := by
  obtain ⟨hl, hstage⟩ := Protocol.prod_advance.mp hm
  obtain ⟨⟨⟨ho, _⟩, _⟩, hruns⟩ := hs
  have heffect := perform_effect htask hperform
  obtain ⟨_, hspared, hrs⟩ := heffect.keeps ho.sound
  have hn : locals s.threads.length = (Local.idle, RunStage.other) := hkeeps.unborn (Nat.le_refl _)
  rw [h.note_task hkeeps htask hprogram]
  -- the channels of other runs
  have hf : ∀ (stage : RunStage), (∀ r, stage.record? = some r → (locals t).2.record? ≠ some r) → stage.Fits s w →
      stage.Fits s' (w.noteBy s (locals t).2 o) := by
    intro stage hne hfits
    refine hfits.frame fun r hr => ⟨pipe?_perform hperform fun hpipe => ?_, w.noteBy_agrees s (hne r hr) o⟩
    exact hne r hr (RunStage.advance_pipe? hstage (hruns.unbarred t) hpipe)
  have hu : ∀ r, Unstarted s.view r → (RunStage.opening r).Fits s' (w.noteBy s (locals t).2 o) := by
    intro r hr
    refine hf _ (fun i hi ht => ?_) (h.unspawned r hr)
    cases hi
    obtain ⟨rec, hrecord, hk⟩ := hruns.spawned t r ht
    exact hr rec hrecord hk
  refine ⟨fun i => ?_, fun r hr => hu r (hr.before hspared hrs)⟩
  by_cases hit : i = t
  · subst hit
    rw [update_self]
    refine (h.stages i).performs hperform hstage (fun r hr => ?_) (hruns.unbarred_performs heffect hstage) ?_
    · obtain ⟨rec, hrecord, _⟩ := hruns.spawned i r hr
      obtain ⟨rec', hr', _⟩ := map_eq_some_iff.mp (List.getElem?_map ▸ hrecord)
      exact ⟨rec', hr'⟩
    rintro j p rfl hp hfailed
    have hpunctual := hrule
    simp only [Punctual, punctual, nextOp_eq htask hprogram, hp, all_some, hfailed, Bool.not_true,
      Bool.false_or] at hpunctual
    exact hpunctual
  · rw [update_of_ne hit]
    rcases runDiscipline_births hn o i with he | ⟨req, rfl, hin, he⟩
    · rw [he]
      refine hf _ (fun r hr ht => ?_) (h.stages i)
      exact hit (hruns.single i t r hr ht)
    rw [he]
    have hspawned : (locals t).1.advance (.spawnRun req) () = some g.1 := hl
    obtain ⟨key, hrole, _⟩ := Local.advance_spawnRun hspawned
    have hc := Local.claimed_of_role hrole Claim.noConfusion
    obtain ⟨rec, hrecord, hk⟩ := ho.recorded t key _ req.record hc rfl
    refine hu req.record fun rec' hr' hspawn => ?_
    rw [hrecord, Option.some.injEq] at hr'
    exact (ho.claimed t key _ hc).2 (hk ▸ hr' ▸ hspawn)

/-- The runner moves a channel: the stage of its run fits if what it says is kept. -/
theorem Drained.channel {f : Pipe → Option Pipe} {w' : Watch} (hpipe : modifyPipe s r f = some s')
    (hagree : ∀ i, i ≠ r → w.Agrees w' i)
    (hfits : ∀ {g : RunStage} {p p'}, g.record? = some r → s.pipe? r = some p → f p = some p' → s'.pipe? r = some p' →
      g.Fits s w → g.Fits s' w') (h : Drained locals s w) : Drained locals s' w' := by
  obtain ⟨hthreads, hview⟩ := modifyPipe_hidden hpipe
  obtain ⟨rec, p, p', hrecord, hp, hf, rfl⟩ := modifyPipe_eq hpipe
  have hb : s.pipe? r = some p := by
    unfold Node.pipe?
    rw [hrecord]
    exact hp
  have ha : ∀ i, (s.modifyRecord r fun rec => {rec with pipe := some p'}).pipe? i =
      if r = i then some p' else s.pipe? i := by
    intro i
    unfold Node.pipe?
    rw [records_modify]
    split
    · rename_i hri
      subst hri
      rw [hrecord]
      rfl
    · rw [Option.map_id']
  have hself := (ha r).trans (if_pos rfl)
  have hframe : ∀ g : RunStage, g.Fits s w → g.Fits (s.modifyRecord r fun rec => {rec with pipe := some p'}) w' := by
    intro g hg
    by_cases hr : g.record? = some r
    · exact hfits hr hb hf hself hg
    refine hg.frame fun i hi => ?_
    have hne : i ≠ r := fun he => hr (he ▸ hi)
    exact ⟨(ha i).trans (if_neg hne.symm), hagree i hne⟩
  refine ⟨fun t => hframe _ (h.stages t), fun i hi => hframe _ (h.unspawned i (hview ▸ hi)), fun ht => ?_⟩
  exact h.origins (hthreads ▸ ht)

/-- A step that moves no channel. -/
theorem Drained.same (h : Drained locals s w) (hthreads : s'.threads = s.threads) (hview : s'.view = s.view)
    (hrs : s'.records = s.records) : Drained locals s' w := by
  have hf : ∀ g : RunStage, g.Fits s w → g.Fits s' w := fun g hg =>
    hg.frame fun r _ => ⟨congrArg (fun recs : List ExecutionRecord => recs[r]?.bind (·.pipe)) hrs, .refl w r⟩
  exact ⟨fun t => hf _ (h.stages t), fun r hr => hf _ (h.unspawned r (hview ▸ hr)),
    fun ht => h.origins (hthreads ▸ ht)⟩

/-- Without a process there are no channels, and loading opens none. -/
theorem Drained.start (hk : runDiscipline.Keeps locals s) (hdown : s.up = false)
    (hidle : ∀ t, locals t = (Local.idle, RunStage.other)) (fault : Fault) (h : Drained locals s w) :
    Drained locals (Server.start config s fault) w := by
  obtain ⟨hthreads, hstop⟩ := hk.down hdown
  have hrs : s.records = [] := map_eq_nil_iff.mp (congrArg View.records hstop)
  rcases start_cases config s fault with he | he | ⟨cut, snaps, _, _, he⟩
  · rw [he]
    exact h
  · rw [he]
    exact ⟨h.stages, fun r hr => h.unspawned r hr, h.origins⟩
  have hp : ∀ r, (Server.start config s fault).pipe? r = none := by
    intro r
    unfold Node.pipe?
    rw [he, (foldl_insertLoaded snaps _).1]
    show ((s.records ++ _)[r]?).bind _ = none
    rw [hrs, nil_append, List.getElem?_map]
    cases snaps[r]? <;> rfl
  refine ⟨fun t => ?_, fun r _ => ?_, fun ht => ?_⟩
  · rw [hidle t]
    trivial
  · have hb : Unstarted s.view r := by
      intro rec hrecord
      have hn : s.view.records = [] := congrArg (List.map ExecutionRecord.view) hrs
      rw [hn] at hrecord
      cases hrecord
    exact ⟨hp r, (h.unspawned r hb).2⟩
  · rw [he, (view_foldl_load snaps _).2] at ht
    exact h.origins ht

theorem Drained.idle (hthreads : s.threads = []) (hrs : s.records = []) :
    Drained (fun _ => (idle, other)) s .blank := by
  refine ⟨fun _ => trivial, fun r _ => ⟨?_, rfl, rfl, rfl⟩, fun ht => ?_⟩
  · unfold Node.pipe?
    rw [hrs]
    rfl
  · rw [hthreads] at ht
    cases ht

theorem Drained.moves {a : Action} {ls' : TaskId → Local × RunStage} (hrule : Punctual s a)
    (hk : runDiscipline.Keeps locals s) (hs : Staged locals s.view)
    (hmoves : runDiscipline.Moves config locals s a ls' s') (h : Drained locals s w) : Drained ls' s' (w.note s a) := by
  have ho : ∀ {t face prog}, s'.threads[t]? = some (face, prog) →
      ∀ r, face.origin = .run r → (ls' t).2.record? = some r := by
    refine hmoves.tasks (P := fun origin g _ => ∀ r, origin = .run r → g.2.record? = some r) ?_ ?_ ?_ id ?_ h.origins
    · rintro _ _ _ _ _ _ _ _ _ _ r rfl
      rfl
    · rintro _ _ _ _ r rfl
      rfl
    · intro origin g o next answer g' hg hm r hr
      exact (RunStage.advance_record? (Protocol.prod_advance.mp hm).2).trans (hg r hr)
    · rintro origin _ _ hrequest _ r rfl
      cases hrequest
  cases hmoves with
  | performs ht hprogram hperform hm hn =>
    obtain ⟨hstag, hu⟩ := Drained.performs hk hs hrule ht hprogram hperform hm h
    exact ⟨fun i => (hstag i).resume _ _, fun r hr => (hu r hr.of_resume).resume _ _, ho⟩
  | @rounds t task c l ht hprogram hbody =>
    have hnote : w.note s (.task t c) = w := by
      simp only [Watch.note, Node.runOp, ht, bind_some, hprogram]
      cases task.origin <;> rfl
    rw [hnote]
    exact ⟨fun i => (h.stages i).resume _ _, fun r hr => (h.unspawned r hr.of_resume).resume _ _, ho⟩
  | @arrives request task hup ht =>
    refine ⟨fun i => ?_, h.unspawned, ho⟩
    by_cases hi : i = s.threads.length
    · have hne : RunStage.birth task.origin = .other := by
        have hrequest := (isRequest_of_task ht).1
        cases horigin : task.origin <;> first
          | rfl
          | (rw [horigin] at hrequest; cases hrequest)
      rw [hi, update_self]
      show (RunStage.birth task.origin).Fits _ _
      rw [hne]
      trivial
    · rw [update_of_ne hi]
      exact h.stages i
  | @drops t task ht hrequest hall =>
    have hjobs : Drained locals {s with jobs := s.jobs ++ detached task.program} w := ⟨h.stages, h.unspawned, h.origins⟩
    refine ⟨fun i => ?_, fun r hr => (hjobs.unspawned r hr.of_resume).resume _ _, ho⟩
    by_cases hi : i = t
    · rw [hi, update_self]
      trivial
    · rw [update_of_ne hi]
      exact (hjobs.stages i).resume _ _
  | @finishes i fails o call hjob hcall => cases fails <;> exact ⟨h.stages, h.unspawned, h.origins⟩
  | @writes r chunk s' hpipe =>
    refine h.channel hpipe (fun i hi => ?_) fun {g p p'} hr hp hf hp' hfits => ?_
    · simp only [Watch.note]
      split
      · exact ⟨update_of_ne hi _ _, rfl, rfl⟩
      · exact .refl w i
    · split at hf <;> cases hf
      rename_i hopen
      exact hfits.sends hr hp (not_eq_true _ ▸ hopen) hp'
  | closes hpipe =>
    refine h.channel hpipe (fun i _ => .refl w i) fun {g p p'} hr hp hf hp' hfits => ?_
    cases hf
    exact hfits.later hr hp hp' ⟨rfl, fun _ => rfl, fun _ hj => hj⟩
  | exits hpipe =>
    refine h.channel hpipe (fun i _ => .refl w i) fun {g p p'} hr hp hf hp' hfits => ?_
    split at hf <;> cases hf
    rename_i hnone
    refine hfits.later hr hp hp' ⟨rfl, id, fun how hj => ?_⟩
    rw [hj] at hnone
    cases hnone
  | answers => exact h
  | ticks | marks | drains | furnishes => exact h.same rfl rfl rfl
  | crashes => exact .idle rfl rfl
  | starts hdown hidle => exact h.start hk hdown hidle _

end Moves

/-- Along a watched run in which no error overtakes the output. -/
theorem drained_holds {config : NodeConfig} {w : Watch}
    (hr : Steps (watched (step config) Watch.note) (fun p => Punctual p.1) (fresh J, .blank) (s, w)) :
    ∃ locals, runDiscipline.Keeps locals s ∧ Staged locals s.view ∧ Drained locals s w := by
  refine hr.watched_invariant (fun s w => ∃ locals, runDiscipline.Keeps locals s ∧ Staged locals s.view ∧ Drained locals s w)
    (fun {s a s' w} hrule hstep h => ?_) ⟨_, keeps_fresh, staged_fresh, .idle rfl rfl⟩
  obtain ⟨locals, hk, hs, hd⟩ := h
  obtain ⟨ls', hk', hm⟩ := hk.moves hstep
  exact ⟨ls', hk', (staged_inductive Free).moves trivial hk hm hs, hd.moves hrule hk hs hm⟩

/-! ### What a run publishes -/

/-- The run has published all output its channel took, and then a terminal event. -/
def Watch.Complete (w : Watch) (r : RecordId) : Prop :=
  ∃ state, isTerminal state = true ∧
    w.attempted r = .state .running :: (w.accepted r).map OutputChunk.kind ++ [.state state]

section Published
variable {s : Node J} {w : Watch} {r : RecordId}

theorem Watch.Tally.published_part (h : w.Tally r p held) :
    w.attempted r <+: .state .running :: (w.accepted r).map OutputChunk.kind := by
  obtain ⟨taken, ha, ht⟩ := h.published
  refine ⟨(held ++ p.queue).map OutputChunk.kind, ?_⟩
  rw [ht, ha, append_assoc, map_append, cons_append, map_append, map_append]

theorem RunStage.Fits.noted (hr : g.record? = some r) (h : g.Fits s w) : w.polls r ≤ runnerChannelCapacity + 2 ∧
    (w.attempted r <+: .state .running :: (w.accepted r).map OutputChunk.kind ∨
      (s.pipe? r).any Pipe.drained = true ∧ w.Complete r) ∧ (g.final → w.Complete r) := by
  cases g with
  | other => cases hr
  | opening i | opened i =>
    cases hr
    obtain ⟨_, ha, hattempted, hpolls⟩ := h
    refine ⟨hpolls ▸ zero_le _, .inl ?_, False.elim⟩
    rw [ha, hattempted]
    simp
  | polling i | holding i =>
    cases hr
    obtain ⟨p, _, htally, _, hbounded⟩ := h
    exact ⟨hbounded.le, .inl htally.published_part, False.elim⟩
  | joined i =>
    cases hr
    obtain ⟨p, _, htally, _, _, hbounded⟩ := h
    exact ⟨hbounded.le, .inl htally.published_part, False.elim⟩
  | flushing i | closing i =>
    cases hr
    obtain ⟨p, _, htally, _, hpolls⟩ := h
    exact ⟨hpolls, .inl htally.published_part, False.elim⟩
  | closed i =>
    cases hr
    obtain ⟨p, state, hp, hdrain, hterm, hattempted, hpolls⟩ := h
    have hcomplete : w.Complete r := ⟨state, hterm, hattempted⟩
    exact ⟨hpolls, .inr ⟨by rw [hp]; exact hdrain, hcomplete⟩, fun _ => hcomplete⟩
  | spilling | barred | stuck => exact h.elim

/-- A run polls in no other stage than `polling`. -/
theorem RunStage.poll_inv {pending : Bool} {answer : Polled} (hr : g.record? = some r)
    (hstage : g.poll i outputClosed pending answer = some g') (h : g.Fits s w) :
    i = r ∧ ∃ (d : Drain) (p : Pipe), d.outputClosed = outputClosed ∧ d.pending = pending ∧ s.pipe? r = some p ∧ d.Sound p := by
  cases g <;> simp only [poll] at hstage
  case polling r' d =>
    cases hr
    split at hstage <;> cases hstage
    rename_i hg
    obtain ⟨rfl, hc, hpending⟩ := hg
    obtain ⟨p, hp, _, hs, _⟩ := h
    exact ⟨rfl, d, p, hc, hpending, hp, hs⟩
  case barred => exact h.elim
  all_goals cases hstage

end Published

/-- The drain loop of a run never polls with both branches disabled, polls at most
`runnerChannelCapacity + 2` times once the channel is closed and the runner is done,
never waiting, and publishes all the output the channel took and then one terminal event. -/
theorem drain_loop_total {config : NodeConfig} {s : Node J} {w : Watch}
    (hrun : Steps (watched (step config) Watch.note) (fun p => Punctual p.1) (fresh J, .blank) (s, w)) {t : TaskId}
    {task : Task} {r : RecordId} (htask : s.tasks[t]? = some task) (horigin : task.origin = .run r) :
    (∀ i outputClosed pending, s.nextOp t = some (.select i outputClosed pending) →
        i = r ∧ (outputClosed = false ∨ pending = true) ∧
          ((s.pipe? r).any Pipe.done = true → ∀ choice, (step config s (.task t choice)).isSome = true)) ∧
      w.polls r ≤ runnerChannelCapacity + 2 ∧
      (w.attempted r <+: .state .running :: (w.accepted r).map OutputChunk.kind ∨
        (s.pipe? r).any Pipe.drained = true ∧ w.Complete r) ∧ (task.program.isDone = true → w.Complete r) := by
  obtain ⟨locals, hkeeps, hstaged, hdrained⟩ := drained_holds hrun
  have hr := hdrained.origins (threads_getElem? htask) r horigin
  have hfits := hdrained.stages t
  have hconforms : stageDiscipline.Allows (locals t).2 task.program := (hkeeps.conforms (threads_getElem? htask)).snd
  obtain ⟨hpolls, hpublished, hfinal⟩ := hfits.noted hr
  refine ⟨fun i outputClosed pending hnext => ?_, hpolls, hpublished, fun hdone => ?_⟩
  · obtain ⟨task', next, htask', hprogram⟩ := nextOp_inv hnext
    obtain rfl := Option.some.inj (htask.symm.trans htask')
    rw [hprogram] at hconforms
    obtain ⟨g, hmove, _⟩ := hconforms .disabled
    obtain ⟨rfl, d, p, rfl, rfl, hp, hsound⟩ := RunStage.poll_inv hr hmove hfits
    refine ⟨rfl, ?_, fun hdone choice => ?_⟩
    · cases hclosed : d.outputClosed with
      | false => exact .inl rfl
      | true => exact .inr (hsound.closed hclosed).2
    rw [hp] at hdone
    have hp' : (s.records[i]?).bind (·.pipe) = some p := hp
    show (stepTask config s t choice).isSome = true
    simp only [stepTask, htask, hprogram, perform, hp', isSome_map]
    exact Drain.select_completes hdone hsound
  · cases hprogram : task.program with
    | done value =>
      rw [hprogram] at hconforms
      exact hfinal hconforms
    | perform | loop =>
      rw [hprogram] at hdone
      cases hdone

namespace Example

/-- A runner that writes once, hangs up and finishes. -/
def written : List Action := [.output 0 ⟨false, [1]⟩] ++ runs 2 8 ++ [.hangUp 0, .exit 0 .panicked] ++ runs 2 17

/-- The runner fails while its channel is still open, and the loop goes on without it. -/
def failedEarly : List Action := [.exit 0 (.error (.io "wait failed"))] ++ runs 2 3 ++ [.hangUp 0] ++ runs 2 2

end Example

open Example

theorem drain_loop_total_written : ∃ (s : Node Serde.json) (w : Watch) (task : Task),
      Steps (watched (step config) Watch.note) (fun p => Punctual p.1) (fresh Serde.json, .blank) (s, w) ∧
        s.tasks[2]? = some task ∧ task.origin = .run 0 ∧ w.accepted 0 = [⟨false, [1]⟩] ∧ w.Complete 0 := by
  have hfollow : (follow (watched (step config) Watch.note) (fun p => Punctual p.1) (fresh Serde.json, .blank)
      (admitted ++ running ++ written)).any (fun p =>
        decide (p.2.accepted 0 = [⟨false, [1]⟩]) &&
          (p.1.tasks[2]?).any fun task => decide (task.origin = .run 0) && task.program.isDone) = true := by
    decide
  obtain ⟨⟨s, w⟩, hrun, hp⟩ := follow_reaches hfollow
  simp only [and_eq_true, Option.any_eq_true, decide_eq_true_eq] at hp
  obtain ⟨haccepted, task, htask, horigin, hdone⟩ := hp
  exact ⟨s, w, task, hrun, htask, horigin, haccepted, (drain_loop_total hrun htask horigin).2.2.2 hdone⟩

/-- A runner error that overtakes the open channel: the loop polls with both
branches disabled, and its run ends without a terminal event. -/
theorem overtaken_output_panics : ∃ (s s' : Node Serde.json) (w w' : Watch),
      Steps (watched (step config) Watch.note) (fun p => Free p.1) (fresh Serde.json, .blank) (s, w) ∧
        s.nextOp 2 = some (.select 0 true false) ∧
        Steps (watched (step config) Watch.note) (fun p => Free p.1) (s, w) (s', w') ∧
        (s'.tasks[2]?).any (fun task => task.program.isDone) = true ∧ w'.attempted 0 = [.state .running] := by
  have hfollow : (follow (watched (step config) Watch.note) (fun p => Free p.1) (fresh Serde.json, .blank)
      (admitted ++ running ++ failedEarly)).any (fun p =>
        decide (p.1.nextOp 2 = some (.select 0 true false)) &&
          (follow (watched (step config) Watch.note) (fun p => Free p.1) p (runs 2 2)).any (fun p =>
            (p.1.tasks[2]?).any (fun task => task.program.isDone) && decide (p.2.attempted 0 = [.state .running]))) =
        true := by
    decide
  obtain ⟨⟨s, w⟩, hrun, hp⟩ := follow_reaches hfollow
  rw [and_eq_true, decide_eq_true_eq] at hp
  obtain ⟨hnext, hp⟩ := hp
  obtain ⟨⟨s', w'⟩, hrun', hp'⟩ := follow_reaches hp
  rw [and_eq_true, decide_eq_true_eq] at hp'
  exact ⟨s, s', w, w', hrun, hnext, hrun', hp'.1, hp'.2⟩

end Eggwork.Server
