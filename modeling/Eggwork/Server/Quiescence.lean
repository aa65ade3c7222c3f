import Eggwork.Server.Gate
import Eggwork.Server.Moves

/-! Draining for an update.

An update process sets the drain marker on disk, then polls the database until no
row is active. The node looks for the marker with the map of recent executions
locked and reserves its row later, under the same lock, which the other process
knows nothing of: a request let through just before the marker was set reserves
after the poll that found the node quiescent (`reserved_after_quiescence`). If every
poll is made with the map unlocked and no reservation of a dropped request in
flight, no row is active once a poll has found none (`quiescence_stable`). -/
namespace Eggwork.Server
open Lib Store Runner Discipline List Option Bool

variable {J : Serde}

/-! ### The update process -/

def usizeMax : Nat := 2 ^ 64 - 1

/-- `SELECT COUNT(*) FROM executions WHERE state IN (...)`. -/
def countActiveExecutions (st : ExecutionStore J) : Nat := st.executions.rows.countP fun row => isLiveName row.2.state

/-- An error counts as activity. -/
def activeExecutionCount (st : ExecutionStore J) (fails : Bool) : Nat :=
  if fails then usizeMax else countActiveExecutions st

structure UpdatePolicy where
  drainTimeout : Nat
  force : Bool

/-- Where `orchestrate_update` stands. In `waiting` the next step is a poll, in
`polled` the look at the clock after one that found active rows. -/
inductive UpdatePhase where
  | idle
  | marked
  | waiting (start : Nat)
  | polled (start : Nat)
  | quiescent
  | refused
deriving DecidableEq

def UpdatePhase.isWaiting : UpdatePhase → Bool
  | .waiting _ => true
  | _ => false

/-- Its next access to the machine. -/
def UpdatePhase.step (policy : UpdatePolicy) (s : Node J) (fails : Bool) : UpdatePhase → Option (Node J × UpdatePhase)
  | .idle => some ({s with marker := true}, .marked)
  | .marked => some (s, if policy.force then .quiescent else .waiting s.instant)
  | .waiting start => some (s, if activeExecutionCount s.store fails = 0 then .quiescent else .polled start)
  | .polled start => some (s, if s.instant - start ≥ policy.drainTimeout then .refused else .waiting start)
  | .quiescent | .refused => none

/-- A node and the process that updates it. -/
structure Updating (J : Serde) where
  node : Node J
  update : UpdatePhase

inductive UpdateTurn where
  | node (a : Action)
  | update (fails : Bool)

namespace Updating

def step (config : NodeConfig) (policy : UpdatePolicy) (s : Updating J) : UpdateTurn → Option (Updating J)
  | .node a => (Server.step config s.node a).map fun node => {s with node}
  | .update fails => (s.update.step policy s.node fails).map fun after => ⟨after.1, after.2⟩

def fresh (J : Serde) : Updating J := ⟨Server.fresh J, .idle⟩

/-- The marker stays set once the update has set it. -/
def marked (s : Updating J) : UpdateTurn → Bool
  | .node (.setMarker false) => s.update == .idle
  | _ => true

/-- A poll is made with the map unlocked and no reservation of a dropped request in flight. -/
def settled (s : Updating J) : UpdateTurn → Bool
  | .update _ => !s.update.isWaiting || s.node.executionsLock.isNone && s.node.jobs.all fun o => !o.reserves
  | _ => true

abbrev Marked (s : Updating J) (turn : UpdateTurn) : Prop := s.marked turn = true

abbrev Settled (s : Updating J) (turn : UpdateTurn) : Prop := (s.marked turn && s.settled turn) = true

end Updating

/-! ### Live rows across a step -/

section Step
variable {config : NodeConfig} {locals ls' : TaskId → (Local × RunStage) × Gate} {s s' : Node J} {a : Action}

theorem not_live_of_count {v : View J} (hs : v.Sound) (h : countActiveExecutions v.store = 0) (key : RowKey) :
    ¬ v.Live key := by
  rintro ⟨row, hr, hopen⟩
  have hc := countP_eq_zero.mp h (key, row) (Table.mem_rows.mpr hr)
  obtain ⟨stored, _, _, hst⟩ := hs.reachable.coherent key row hr
  rw [hst, isTerminalName_stateName] at hopen
  rw [hst, isLiveName_stateName, hopen] at hc
  exact hc rfl

theorem View.live_of_recover {v : View J} (hs : v.Sound) {now : Int} {key : RowKey}
    (h : (v.transact (.recover now)).Live key) : v.Live key := by
  cases hrecord : v.store.recover now with
  | error e =>
    have hstored : (v.transact (.recover now)).store = v.store := by
      show committed v.store (v.store.recover now) = _
      rw [hrecord]
      rfl
    obtain ⟨row, hr, hopen⟩ := h
    exact ⟨row, hstored ▸ hr, hopen⟩
  | ok cut => exact absurd h (not_live_of_starts hs hrecord [] key)

/-- A row comes to life by a reservation of a task, or of one that was dropped. -/
theorem live_before (h : gatedDiscipline.Moves config locals s a ls' s') (hs : s.view.Sound) {key : RowKey}
    (hl : s'.view.Live key) : s.view.Live key ∨ (∃ t o, s.nextOp t = some o ∧ o.reserves = true) ∨
      ∃ o ∈ s.jobs, o.reserves = true := by
  have hresult : ∀ {s : Node J} {t : TaskId} {prog : Async Unit}, (s.resume t prog).view.Live key → s.view.Live key := by
    rintro s t prog ⟨row, hr, hopen⟩
    refine ⟨row, ?_, hopen⟩
    rcases view_resume s t prog with he | ⟨_, he⟩
    · rwa [he] at hr
    · rw [he] at hr
      exact hr
  cases h with
  | @performs t task choice o next answer s₁ g ht hprogram hp =>
    rcases (perform_effect ht hp).live_before hs (hresult hl) with hold | ⟨snap, hc, _⟩
    · exact .inl hold
    refine .inr (.inl ⟨t, o, nextOp_eq ht hprogram, ?_⟩)
    cases o <;> first
      | rfl
      | cases hc
  | rounds | drops =>
    have hl := hresult hl
    exact .inl hl
  | @finishes i fails o call hjob hcall =>
    cases fails
    · by_cases ho : o.reserves = true
      · exact .inr (.inr ⟨o, mem_of_getElem? hjob, ho⟩)
      · exact .inl (View.live_of_transact hs hcall (not_eq_true _ ▸ ho) hl)
    · exact .inl hl
  | writes hpipe | closes hpipe | exits hpipe => exact .inl ((modifyPipe_hidden hpipe).2 ▸ hl)
  | arrives | answers | ticks | marks | drains | furnishes | crashes => exact .inl hl
  | @starts fault =>
    rcases start_cases config s fault with he | he | ⟨cut, snaps, hrecord, _, he⟩
    · exact .inl (he ▸ hl)
    · rw [he] at hl
      exact .inl (View.live_of_recover hs hl)
    · rw [he, (view_foldl_load snaps _).1] at hl
      exact absurd hl (not_live_of_starts hs hrecord snaps key)

/-- What is in flight was so before, or was the next operation of a task. -/
theorem job_before (h : gatedDiscipline.Moves config locals s a ls' s') {o : Op} (ho : o ∈ s'.jobs) :
    o ∈ s.jobs ∨ ∃ t, s.nextOp t = some o := by
  cases h with
  | performs ht hprogram hp =>
    rw [(resume_up _ _ _).2] at ho
    have hjobs : _ = s.jobs := (perform_effect ht hp).jobs
    exact .inl (hjobs ▸ ho)
  | rounds =>
    rw [(resume_up _ _ _).2] at ho
    exact .inl ho
  | @drops t task ht =>
    rw [(resume_up _ _ _).2] at ho
    rcases mem_append.mp ho with ho | ho
    · exact .inl ho
    unfold detached at ho
    split at ho
    · rename_i o' next hprogram
      split at ho
      · obtain rfl := mem_singleton.mp ho
        exact .inr ⟨t, nextOp_eq ht hprogram⟩
      · cases ho
    · cases ho
  | @finishes i fails => cases fails <;> exact .inl (mem_of_mem_eraseIdx ho)
  | writes hpipe | closes hpipe | exits hpipe =>
    obtain ⟨_, _, _, _, _, _, rfl⟩ := modifyPipe_eq hpipe
    exact .inl ho
  | arrives | answers | ticks | marks | drains | furnishes => exact .inl ho
  | crashes => cases ho
  | @starts fault =>
    rcases start_cases config s fault with he | he | ⟨cut, snaps, _, _, he⟩
    · exact .inl (he ▸ ho)
    · rw [he] at ho
      exact .inl ho
    · rw [he, foldl_insertLoaded_frame Node.jobs fun _ _ => rfl] at ho
      exact .inl ho

theorem marker_stays (h : gatedDiscipline.Moves config locals s a ls' s') (ha : a ≠ .setMarker false)
    (hm : s.marker = true) : s'.marker = true := by
  cases h with
  | performs ht hprogram hp =>
    rw [(steady_resume _ _ _).marker, (perform_steady hp).marker, hm]
  | rounds | drops =>
    rw [(steady_resume _ _ _).marker]
    exact hm
  | @finishes i fails => cases fails <;> exact hm
  | writes hpipe | closes hpipe | exits hpipe =>
    obtain ⟨_, _, _, _, _, _, rfl⟩ := modifyPipe_eq hpipe
    exact hm
  | @marks marker =>
    cases marker
    · exact absurd rfl ha
    · rfl
  | arrives | answers | ticks | drains | furnishes | crashes => exact hm
  | @starts fault =>
    rcases start_cases config s fault with he | he | ⟨cut, snaps, _, _, he⟩
    · rw [he, hm]
    · rw [he]
      exact hm
    · rw [he, foldl_insertLoaded_frame Node.marker fun _ _ => rfl]
      exact hm

/-- With the marker set nobody is let through. -/
theorem uncleared_performs {t : TaskId} {c : Choice} {o : Op} {ans : o.Answer} {g g' : Gate}
    (hp : perform config s t c o = some (ans, s')) (hmarker : s.marker = true)
    (hm : g.advance o ans = some g') (h : (g == .cleared) = false) : (g' == .cleared) = false := by
  cases o <;> first
    | (cases hm; exact h)
    | skip
  case isPersistentlyDraining =>
    cases hp
    cases hm
    rw [hmarker]
    cases g <;> first
      | rfl
      | cases h
  case lockExecutions | unlockExecutions | respond =>
    cases hm
    cases g <;> rfl
  case loadDraining =>
    cases hm
    cases g <;> first
      | rfl
      | (cases ans <;> rfl)
      | cases h
  case reserve | executionsInsert =>
    simp only [Gate.advance] at hm
    split at hm <;> cases hm
    exact h

end Step

/-! ### The invariant -/

abbrev Guarded (locals : TaskId → (Local × RunStage) × Gate) (v : View J) : Prop :=
  Founded (fun t => (locals t).1.1) v ∧ Gated locals v

theorem guarded_inductive (Rule : Node J → Action → Prop) : gatedDiscipline.Inductive Rule Nothing Guarded :=
  (founded_inductive Rule).left.left.and ((gated_inductive Rule).given fun _ => trivial)

/-- Once the update is under way the marker is set; once it has found the node
quiescent, nobody is let through, nothing is reserved, and no row is live. -/
structure Updating.Sound (locals : TaskId → (Local × RunStage) × Gate) (s : Updating J) : Prop where
  marked : s.update ≠ .idle → s.node.marker = true
  uncleared : s.update = .quiescent → ∀ t, ((locals t).2 == .cleared) = false
  jobs : s.update = .quiescent → ∀ o ∈ s.node.jobs, o.reserves = false
  quiet : s.update = .quiescent → ∀ key, ¬ s.node.view.Live key

namespace Updating
variable {config : NodeConfig} {policy : UpdatePolicy} {s : Updating J} {locals ls' : TaskId → (Local × RunStage) × Gate}

theorem Sound.acts {a : Action} {node : Node J} (h : s.Sound locals) (hrule : s.Marked (.node a))
    (hk : gatedDiscipline.Keeps locals s.node) (hs : s.node.view.Sound)
    (hm : gatedDiscipline.Moves config locals s.node a ls' node) : Sound ls' {s with node := node} := by
  have hact : s.update = .quiescent → s.update ≠ .idle := by
    intro he
    rw [he]
    exact UpdatePhase.noConfusion
  -- nobody is about to reserve
  have hn : s.update = .quiescent → ∀ t o, s.node.nextOp t = some o → o.reserves = false := by
    intro he t o hn
    by_contra ho
    have hg : o.gated = true := by
      cases o <;> first
        | rfl
        | exact absurd rfl ho
    have hu := h.uncleared he t
    rw [cleared_of_gated hk hg hn] at hu
    cases hu
  refine ⟨fun hidle => ?_, fun he t => ?_, fun he o ho => ?_, fun he key hl => ?_⟩
  · refine marker_stays hm ?_ (h.marked hidle)
    rintro rfl
    exact hidle (beq_iff_eq.mp hrule)
  · exact unreached_moves rfl rfl (fun hp => uncleared_performs hp (h.marked (hact he))) hm
      (h.uncleared he) t
  · rcases job_before hm ho with hold | ⟨t, ht⟩
    · exact h.jobs he o hold
    · exact hn he t o ht
  rcases live_before hm hs hl with hold | ⟨t, o, ht, ho⟩ | ⟨o, hjob, ho⟩
  · exact h.quiet he key hold
  · rw [hn he t o ht] at ho
    cases ho
  · rw [h.jobs he o hjob] at ho
    cases ho

theorem Sound.updates {fails : Bool} {after : Node J × UpdatePhase} (h : s.Sound locals) (hforall : policy.force = false)
    (hrule : s.settled (.update fails) = true) (hinv : Guarded locals s.node.view)
    (hstep : s.update.step policy s.node fails = some after) :
    (after.1.threads = s.node.threads ∧ after.1.view = s.node.view) ∧ Sound locals ⟨after.1, after.2⟩ := by
  obtain ⟨node, update⟩ := s
  have hne : ∀ {phase : UpdatePhase}, update ≠ .idle → phase ≠ .quiescent → Sound locals (⟨node, phase⟩ : Updating J) :=
    fun hact hphase => ⟨fun _ => h.marked hact, fun he => absurd he hphase, fun he => absurd he hphase,
      fun he => absurd he hphase⟩
  cases update with
  | idle =>
    cases hstep
    exact ⟨⟨rfl, rfl⟩, fun _ => rfl, fun he => (nomatch he), fun he => (nomatch he), fun he => (nomatch he)⟩
  | marked =>
    cases hstep
    rw [hforall]
    exact ⟨⟨rfl, rfl⟩, hne UpdatePhase.noConfusion UpdatePhase.noConfusion⟩
  | waiting start =>
    cases hstep
    refine ⟨⟨rfl, rfl⟩, ?_⟩
    split
    · rename_i hzero
      obtain ⟨hf, hjobs⟩ := and_eq_true_iff.mp hrule
      have hc : countActiveExecutions node.store = 0 := by
        unfold activeExecutionCount at hzero
        split at hzero
        · cases hzero
        · exact hzero
      refine ⟨fun _ => h.marked UpdatePhase.noConfusion, fun _ t => ?_, fun _ o ho => ?_, fun _ =>
        not_live_of_count hinv.1.1.1.sound hc⟩
      · have hw := hinv.2.empty hinv.1 (isNone_iff_eq_none.mp hf) t
        revert hw
        cases (locals t).2 <;> simp [Gate.within]
      · simpa using all_eq_true.mp hjobs o ho
    · exact hne UpdatePhase.noConfusion UpdatePhase.noConfusion
  | polled start =>
    cases hstep
    refine ⟨⟨rfl, rfl⟩, hne UpdatePhase.noConfusion ?_⟩
    split <;> exact UpdatePhase.noConfusion
  | quiescent | refused => cases hstep

/-- The invariant, with the local states it is about. -/
def Holds (s : Updating J) : Prop :=
  ∃ locals, gatedDiscipline.Keeps locals s.node ∧ Guarded locals s.node.view ∧ s.Sound locals

theorem Holds.step {s' : Updating J} {turn : UpdateTurn} (h : s.Holds) (hf : policy.force = false)
    (hrule : s.Settled turn) (hstep : Updating.step config policy s turn = some s') : s'.Holds := by
  obtain ⟨locals, hk, hinv, hs⟩ := h
  obtain ⟨hmarker, hset⟩ := and_eq_true_iff.mp hrule
  cases turn with
  | node a =>
    obtain ⟨node, hnode, rfl⟩ := map_eq_some_iff.mp hstep
    obtain ⟨ls', hk', hm⟩ := hk.moves hnode
    exact ⟨ls', hk', (guarded_inductive Free).moves trivial hk hm hinv, hs.acts hmarker hk hinv.1.1.1.sound hm⟩
  | update fails =>
    obtain ⟨after, ha, rfl⟩ := map_eq_some_iff.mp hstep
    obtain ⟨⟨ht, hview⟩, hs'⟩ := hs.updates hf hset hinv ha
    exact ⟨locals, hk.same ht hview, hview ▸ hinv, hs'⟩

theorem holds_fresh : (fresh J).Holds :=
  ⟨_, keeps_fresh, ⟨founded_fresh, fun _ ht => (nomatch ht)⟩, fun hact => absurd rfl hact,
    fun he => (nomatch he), fun he => (nomatch he), fun he => (nomatch he)⟩

end Updating

/-- **Drained and quiescent is stable.** In every run of a node beside an update
without force in which the marker stays set, and each poll is made with the map
unlocked and no reservation of a dropped request in flight: from the poll that found
no active row on, every row is terminal. -/
theorem quiescence_stable {config : NodeConfig} {policy : UpdatePolicy} (hforce : policy.force = false) {s : Updating J}
    (hrun : Steps (Updating.step config policy) Updating.Settled (Updating.fresh J) s) (hquiescent : s.update = .quiescent)
    {key : RowKey} {row : ExecutionRow J} (hrow : s.node.store.executions.get? key = some row) :
    isTerminalName row.state = true := by
  obtain ⟨locals, _, _, hsound⟩ :=
    hrun.invariant Updating.Holds (fun hrule hstep h => h.step hforce hrule hstep) Updating.holds_fresh
  by_contra hopen
  exact hsound.quiet hquiescent key ⟨row, hrow, Bool.not_eq_true _ ▸ hopen⟩

namespace Example

def updatePolicy : UpdatePolicy := ⟨30000, false⟩

/-- The update sets the marker, starts to wait and polls once. -/
def updates : List UpdateTurn := List.replicate 3 (.update false)

/-- A request is let through, and then the update finds the node quiescent. -/
def letThrough : List UpdateTurn := ([.start .none, execute 1] ++ runs 0 7).map UpdateTurn.node ++ updates

/-- An execution has ended, the update finds the node quiescent, and another request is refused. -/
def refusedAfter : List UpdateTurn :=
  (admitted ++ running ++ ended).map UpdateTurn.node ++ updates ++ (execute 2 :: runs 3 4).map UpdateTurn.node

end Example

open Example

theorem quiescence_stable_refused : ∃ s : Updating Serde.json, Steps (Updating.step config updatePolicy) Updating.Settled
        (Updating.fresh Serde.json) s ∧ s.update = .quiescent ∧
      ∃ row, s.node.store.executions.get? (key 1) = some row ∧ isTerminalName row.state = true := by
  have hfollow : (follow (Updating.step config updatePolicy) Updating.Settled (Updating.fresh Serde.json)
      refusedAfter).any (fun s => decide (s.update = .quiescent) &&
        (s.node.store.executions.get? (key 1)).isSome) = true := by
    decide
  obtain ⟨s, hrun, hstate⟩ := follow_reaches hfollow
  obtain ⟨hquiescent, hsome⟩ := Bool.and_eq_true_iff.mp hstate
  obtain ⟨row, hrow⟩ := Option.isSome_iff_exists.mp hsome
  have hquiescent := of_decide_eq_true hquiescent
  exact ⟨s, hrun, hquiescent, row, hrow, quiescence_stable rfl hrun hquiescent hrow⟩

/-- A request has looked for the marker and not found it; the update sets the marker
and finds no active row; the request then reserves its row. -/
theorem reserved_after_quiescence :
    ∃ s s' : Updating Serde.json, Steps (Updating.step config updatePolicy) Updating.Marked
        (Updating.fresh Serde.json) s ∧ (s.update = .quiescent ∧ countActiveExecutions s.node.store = 0) ∧
      Steps (Updating.step config updatePolicy) Updating.Marked s s' ∧ s'.node.marker = true ∧
      ∃ row, s'.node.store.executions.get? (key 1) = some row ∧ isTerminalName row.state = false := by
  have hfirst : (follow (Updating.step config updatePolicy) Updating.Marked (Updating.fresh Serde.json)
      letThrough).any (fun s => decide (s.update = .quiescent ∧ countActiveExecutions s.node.store = 0) &&
        (follow (Updating.step config updatePolicy) Updating.Marked s
          ((runs 0 4).map UpdateTurn.node)).any fun s' => s'.node.marker && live s'.node) = true := by
    decide
  obtain ⟨s, hrun, hstate⟩ := follow_reaches hfirst
  obtain ⟨hquiescent, hsecond⟩ := Bool.and_eq_true_iff.mp hstate
  obtain ⟨s', hrun', hstate'⟩ := follow_reaches hsecond
  obtain ⟨hmarker, hlive⟩ := Bool.and_eq_true_iff.mp hstate'
  exact ⟨s, s', hrun, of_decide_eq_true hquiescent, hrun', hmarker, (live_row hlive).2⟩

end Eggwork.Server
