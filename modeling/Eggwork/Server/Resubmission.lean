import Eggwork.Server.Attachment

/-! A request submitted again attaches to the execution it names.

The gates of admission stand before the identity is looked up, so a draining node
refuses also what it has long accepted (`refused_while_draining`). Past the gates, a
request that stands for the identity on record answers with the event stream of that
execution, or says that its history has expired; refused or not, it creates no row,
takes no permit and spawns nothing (`resubmission_attaches`). -/
namespace Eggwork.Server
open Lib Store Runner Option Nat Bool View Attach

variable {J : Serde}
variable {o : Op} {t : TaskId} {answer : o.Answer} {c : Choice} {face : Face}
variable {t' : TaskId} {origin : Origin} {task : Task} {program : Async Unit} {locals : TaskId → Local}

/-! ### One task among others -/

/-- What the others leave of the view to a task. -/
structure View.Spares (t : TaskId) (v v' : View J) : Prop where
  store : v'.store = v.store ∨ ∃ call : Call, v'.store = call.exec v.store
  records : v.records.length ≤ v'.records.length
  lock : v'.executionsLock = some t → v.executionsLock = some t

variable {v v' : View J}

namespace View.Spares

theorem same (hs : v'.store = v.store) (hrs : v'.records = v.records)
    (hl : v'.executionsLock = v.executionsLock) : v.Spares t v' :=
  ⟨.inl hs, le_of_eq (congrArg List.length hrs.symm), fun h => hl ▸ h⟩

theorem release (h : v.Spares t v') (t' : TaskId) : v.Spares t (v'.release t') := by
  refine ⟨h.store, ?_, fun hl => h.lock ((executionsLock_release v' t' t).mp hl).2⟩
  show _ ≤ (v'.records.map _).length
  rw [List.length_map]
  exact h.records

end View.Spares

theorem Effect.spares (h : Effect t' origin v o answer v') (hne : t' ≠ t) : v.Spares t v' := by
  have hm : ∀ (r : RecordId) (f : RecordView → RecordView), v.Spares t (v.modifyRecord r f) := fun r f =>
    ⟨.inl rfl, le_of_eq (List.length_modify ..).symm, id⟩
  have hcall : ∀ call : Call, v.Spares t (v.transact call) := fun call => ⟨.inr ⟨call, rfl⟩, le_refl _, id⟩
  cases h with
  | lockExecutions => exact ⟨.inl rfl, le_refl _, fun hl => absurd (Option.some.inj hl) hne⟩
  | unlockExecutions => exact ⟨.inl rfl, le_refl _, fun hl => nomatch hl⟩
  | reserve | refusedCommit | updateLease => exact hcall _
  | commitEvent now => exact ⟨(hcall (.commitEvent _ _ now)).store, le_refl _, id⟩
  | newRecord =>
    refine ⟨.inl rfl, ?_, id⟩
    rw [List.length_append]
    exact le_add_right _ _
  | writeSnapshot | lockCommit | unlockCommit | finish | send => exact hm _ _
  | respond => exact (View.Spares.same rfl rfl rfl).release t'
  | _ => exact .same rfl rfl rfl

/-- The task an action is of. -/
def Action.task? : Action → Option TaskId
  | .task t _ | .drop t => some t
  | _ => none

variable {a : Action}

theorem threads_resume_other {s : Node J} (hne : t' ≠ t) (prog : Async Unit) :
    (s.resume t' prog).threads[t]? = s.threads[t]? := by
  rw [threads_resume, List.getElem?_modify_ne _ _ hne]

theorem resume_spares {s : Node J} (h : v.Spares t s.view) (t' : TaskId) (prog : Async Unit) :
    v.Spares t (s.resume t' prog).view := by
  rcases view_resume s t' prog with he | ⟨_, he⟩ <;> rw [he]
  · exact h
  · exact h.release t'

/-- A step of another task, or of the world, in a process that lives on. -/
theorem Discipline.Moves.spares {G : Type} {D : Discipline G} {config : NodeConfig} {locals ls' : TaskId → G} {s s' : Node J}
    {t : Nat} (hm : D.Moves config locals s a ls' s') (hup : s.up = true) (ht : t < s.threads.length)
    (ho : a.task? ≠ some t) (hc : a ≠ .crash) : s'.threads[t]? = s.threads[t]? ∧ s.view.Spares t s'.view := by
  have hsame : s.view.Spares t s.view := .same rfl rfl rfl
  cases hm with
  | performs htask _ hp =>
    have hne : _ ≠ t := fun he => ho (congrArg some he)
    refine ⟨(threads_resume_other hne _).trans ?_, resume_spares ((perform_effect htask hp).spares hne) _ _⟩
    rw [perform_threads hp, List.getElem?_append_left (by rw [List.length_modify]; exact ht),
      List.getElem?_modify_ne _ _ hne]
  | rounds | drops =>
    refine ⟨threads_resume_other (fun he => ho (congrArg some he)) _, ?_⟩
    apply resume_spares
    exact .same rfl rfl rfl
  | arrives =>
    refine ⟨?_, hsame⟩
    show (List.map _ (s.tasks ++ [_]))[t]? = _
    rw [List.map_append]
    exact List.getElem?_append_left ht
  | @finishes _ fails =>
    cases fails
    · exact ⟨rfl, .inr ⟨_, rfl⟩, le_refl _, id⟩
    · exact ⟨rfl, .same rfl rfl rfl⟩
  | writes hpipe | closes hpipe | exits hpipe =>
    obtain ⟨hthreads, hview⟩ := modifyPipe_hidden hpipe
    exact ⟨by rw [hthreads], hview ▸ hsame⟩
  | answers | ticks | marks | drains | furnishes => exact ⟨rfl, hsame⟩
  | crashes => exact absurd rfl hc
  | starts hdown => cases hup.symm.trans hdown

/-! ### A resubmission through a run -/

/-- The response of a task, once it has answered. -/
def Node.response (s : Node J) (t : TaskId) : Option Response := (s.tasks[t]?).bind Task.response

/-- Nothing is shown before the request has answered; then its answer. -/
def Attach.shown (i : Identity) (response : Option Response) : Attach → Prop
  | .lost => False
  | .going .. | .barred _ | .refused _ => response = none
  | .attached => ∃ answer, response = some answer ∧ attaches i answer = true
  | .turned refusal => response = some refusal.response

/-- No gate but the capabilities it lacks, if any, turns the request away. -/
def Attach.clear (bar : Option Refusal) : Attach → Prop
  | .going .. | .attached => bar = none
  | .barred refusal | .turned refusal => bar = some refusal
  | _ => False

/-- Nothing but this refusal will be answered. -/
def Attach.doomed (refusal : Refusal) : Attach → Prop
  | .refused first | .turned first => first = refusal
  | _ => False

/-- The process lives on. -/
def Uninterrupted : Node J → Action → Prop
  | _, .crash => False
  | _, _ => True

/-- What turns the task away at a step: the drain flag, the marker and the workspace
where it checks them, and a read that fails. -/
def Node.hindrance (config : NodeConfig) (t : TaskId) (s : Node J) : Action → Option Refusal
  | .task t' choice =>
    if t' = t then
      match s.nextOp t with
      | some .loadDraining => Refusal.draining.when s.draining
      | some .isPersistentlyDraining => Refusal.draining.when s.marker
      | some (.resolve workspace id generation principal) =>
        Refusal.workspace.when (resolve config s workspace id generation principal).isNone
      | some (.lookup ..) | some (.loadPage ..) => Refusal.store.when (choice.fault != .none)
      | _ => none
    else none
  | _ => none

/-- The process lives on, and the task is not turned away at this step. -/
def Unhindered (config : NodeConfig) (t : TaskId) (s : Node J) (a : Action) : Prop :=
  Uninterrupted s a ∧ s.hindrance config t a = none

instance (s : Node J) (a : Action) : Decidable (Uninterrupted s a) := by
  cases a <;> first
    | exact isTrue trivial
    | exact isFalse id

/-- Only this task moves, and no call of it fails. -/
def Alone (t : TaskId) : Node J → Action → Prop := fun _ a => a = .task t {}

/-- Task `t` is the resubmission, at a local state. A dropped one is done. -/
structure Trails (i : Identity) (t : TaskId) (g : Attach) (s : Node J) : Prop where
  thread : ∃ face program, s.threads[t]? = some (face, program) ∧
    (program = .done () ∨ (attaching i).Conforms (fun _ => Attach.final) g program) ∧ g.shown i face.response
  view : g.At t s.view
  known : i.Known s.store

section Trails
variable {i : Identity} {t : TaskId} {g g' : Attach} {s s' : Node J} {config : NodeConfig}

theorem Attach.At.found (h : g.At t v) : g ≠ .lost := by
  rintro rfl
  exact h

theorem Attach.At.release (h : g.At t v) (t' : TaskId) : g.At t (v.release t') := by
  cases g with
  | going locked known =>
    refine ⟨?_, fun hlocal hl => h.2 hlocal ((executionsLock_release v t' t).mp hl).2⟩
    show _ ≤ (v.records.map _).length
    rw [List.length_map]
    exact h.1
  | _ => exact h

theorem Attach.At.spares (h : g.At t v) (hs : v.Spares t v') : g.At t v' := by
  cases g with
  | going locked known =>
    exact ⟨le_trans h.1 hs.records, fun hlocal hl => h.2 hlocal (hs.lock hl)⟩
  | _ => exact h

theorem Attach.At.resume (h : g.At t s.view) (prog : Async Unit) : g.At t (s.resume t prog).view := by
  rcases view_resume s t prog with he | ⟨_, he⟩ <;> rw [he]
  · exact h
  · exact h.release t

theorem store_resume (s : Node J) (t : TaskId) (prog : Async Unit) : (s.resume t prog).store = s.store := by
  show (s.resume t prog).view.store = s.view.store
  rcases view_resume s t prog with he | ⟨_, he⟩ <;> rw [he]
  rfl

theorem Attach.pass_shown {response : Option Response} {refusal : Option Refusal} (hs : g.shown i response)
    (hpass : g.pass refusal = some g') : g'.shown i response := by
  cases g with
  | going locked known | barred bar => cases refusal <;> cases hpass <;> exact hs
  | refused first =>
    cases hpass
    exact hs
  | _ => cases hpass

/-- What the request shows is its answer. -/
theorem Attach.moves_shown (hg : g'.At t s.view) (hs : g.shown i face.response)
    (hm : g.moves i o answer = some g') : g'.shown i (o.shows face).response := by
  have ht : ∀ {r}, g.touch r = some g' → g'.shown i face.response := by
    intro r ht
    unfold touch at ht
    split at ht
    · split at ht <;> cases ht
      exact hs
    · cases ht
  have ha := moves_attaches hm
  cases o <;> first
    | exact absurd ha false_ne_true
    | exact pass_shown hs hm
    | exact ht hm
    | skip
  case lockExecutions | executionsGet =>
    simp only [moves] at hm
    split at hm <;> cases hm
    exact hs
  case lookup | loadPage =>
    obtain ⟨_, hm⟩ := ite_none_right_eq_some.mp hm
    split at hm
    · split at hm
      all_goals first
        | exact pass_shown hs hm
        | (cases hm; exact hg.elim)
    · cases hm
      exact hg.elim
    · exact pass_shown hs hm
  case respond resp =>
    simp only [moves] at hm
    split at hm
    · split at hm <;> cases hm
      exact ⟨resp, rfl, ‹_›⟩
    · split at hm <;> cases hm
      exact congrArg some ‹_›
    · split at hm <;> cases hm
      exact congrArg some ‹_›
    · cases hm
  case recv | yield =>
    obtain ⟨_, ⟨⟩⟩ := ite_none_right_eq_some.mp hm
    exact hs

/-- A step of the request that meets a hindrance, or none. -/
structure Attach.Follows (g : Attach) (hindrance : Option Refusal) (g' : Attach) : Prop where
  clear : ∀ bar, hindrance = none → g.clear bar → g'.clear bar
  barred : ∀ bar refusal, hindrance = some refusal → g.clear bar → g'.doomed refusal
  doomed : ∀ refusal, g.doomed refusal → g'.doomed refusal

theorem Attach.Follows.unhindered (hclear : ∀ bar, g.clear bar → g'.clear bar)
    (hdoomed : ∀ refusal, g.doomed refusal → g'.doomed refusal) : g.Follows none g' :=
  ⟨fun bar _ => hclear bar, fun _ _ h => (nomatch h), hdoomed⟩

theorem Attach.Follows.refl (g : Attach) : g.Follows none g := .unhindered (fun _ h => h) fun _ h => h

theorem Attach.pass_follows {refusal : Option Refusal} (h : g.pass refusal = some g') : g.Follows refusal g' := by
  cases g with
  | going locked known | barred bar =>
    cases refusal <;> cases h
    · exact .refl _
    · exact ⟨fun _ h => (nomatch h), fun _ _ h _ => Option.some.inj h, fun _ h => h.elim⟩
  | refused first =>
    cases h
    exact ⟨fun _ _ h => h, fun _ _ _ h => h.elim, fun _ h => h⟩
  | _ => cases h

/-- Each operation meets the hindrance of its step. -/
theorem Attach.moves_follows {next : o.Answer → Async Unit} (ht : s.tasks[t]? = some task)
    (hprogram : task.program = .perform o next) (hp : perform config s t c o = some (answer, s'))
    (hk : i.Known s.store) (hs : s.view.Sound) (hm : g.moves i o answer = some g') :
    g.Follows (s.hindrance config t (.task t c)) g' := by
  rw [Node.hindrance, if_pos rfl, nextOp_eq ht hprogram]
  have htouch : ∀ {r}, g.touch r = some g' → g.Follows none g' := by
    intro r htouch
    unfold touch at htouch
    split at htouch
    · split at htouch <;> cases htouch
      exact .refl _
    · cases htouch
  have ha := moves_attaches hm
  cases o <;> first
    | exact absurd ha false_ne_true
    | (cases hp; exact pass_follows hm)
    | exact pass_follows hm
    | exact htouch hm
    | skip
  case lockExecutions | executionsGet =>
    simp only [moves] at hm
    split at hm <;> cases hm
    exact .unhindered (fun _ h => h) fun _ h => h
  case lookup id generation =>
    obtain ⟨⟨rfl, rfl⟩, hm⟩ := ite_none_right_eq_some.mp hm
    obtain ⟨old, hl, hmatch⟩ := hk.lookup hs.reachable.coherent
    simp only [perform, hl] at hp
    split at hp <;> cases hp
    · simp only [hmatch, if_true] at hm
      simpa [Refusal.when, *] using pass_follows hm
    · simpa [Refusal.when, *] using pass_follows hm
  case loadPage id generation after =>
    obtain ⟨⟨rfl, rfl, rfl⟩, hm⟩ := ite_none_right_eq_some.mp hm
    obtain ⟨page, hpage, hn⟩ := hk.loadPage hs
    have hpage' : s.store.loadPage i.handle.executionId i.handle.generation 0 = .ok (some page) := hpage
    simp only [perform, hpage'] at hp
    split at hp <;> cases hp
    · simp only [hn, if_false] at hm
      simpa [Refusal.when, *] using pass_follows hm
    · simpa [Refusal.when, *] using pass_follows hm
  case respond response =>
    simp only [moves] at hm
    split at hm
    · split at hm <;> cases hm
      exact .unhindered (fun _ h => h) fun _ h => h.elim
    · split at hm <;> cases hm
      exact .unhindered (fun _ h => h) fun _ h => h.elim
    · split at hm <;> cases hm
      exact .unhindered (fun _ h => h.elim) fun _ h => h
    · cases hm
  case recv | yield =>
    obtain ⟨_, ⟨⟩⟩ := ite_none_right_eq_some.mp hm
    exact .refl _

/-- The request makes an operation and goes on. -/
theorem Trails.performs (hf : Founded locals s.view) (h : Trails i t g s) {next : o.Answer → Async Unit}
    (ht : s.tasks[t]? = some task) (hp : perform config s t c o = some (answer, s')) (hm : g.moves i o answer = some g')
    (hn : (attaching i).Conforms (fun _ => final) g' (next answer)) : Trails i t g' (s'.resume t (next answer)) := by
  have heffect := perform_effect ht hp
  have hview := h.view.moves heffect h.known hf.1.1.sound hf.1.2.mapped hm
  obtain ⟨face, prog, hthreads, _, hs⟩ := h.thread
  rw [threads_getElem? ht] at hthreads
  cases hthreads
  refine ⟨⟨o.shows task.face, next answer, ?_, .inr hn, moves_shown hview hs hm⟩, hview.resume _, ?_⟩
  · have hborn := Discipline.born ht
    have hborn' : t < (s.threads.modify t fun thread => (o.shows thread.1, thread.2)).length := by
      rw [List.length_modify]
      exact hborn
    rw [threads_resume, perform_threads hp, List.getElem?_modify_eq, List.getElem?_append_left hborn',
      List.getElem?_modify_eq, threads_getElem? ht]
    rfl
  · rw [store_resume]
    rcases heffect.store_cases with he | ⟨now, call, _, he⟩
    · rw [show s'.store = s.store from he]
      exact h.known
    · rw [show s'.store = call.exec s.store from he]
      exact h.known.exec hf.1.1.sound.reachable.coherent call

/-- Its own step, also when it is dropped. -/
theorem Trails.moves {ls' : TaskId → Local} (hf : Founded locals s.view) (h : Trails i t g s)
    (hown : a.task? = some t) (hmoves : admissionDiscipline.Moves config locals s a ls' s') :
    ∃ g', Trails i t g' s' ∧ g.Follows (s.hindrance config t a) g' := by
  obtain ⟨face, program, hthreads, hconforms, hs⟩ := h.thread
  obtain ⟨task, ht, rfl, rfl⟩ := task_of_thread hthreads
  cases hmoves with
  | performs htask' hprogram hp =>
    cases hown
    cases htask'.symm.trans ht
    rw [hprogram] at hconforms
    obtain ⟨g', hm, hn⟩ := hconforms.resolve_left (by intro hdone; cases hdone) _
    rw [attaching_advance h.view.found] at hm
    exact ⟨g', h.performs hf ht hp hm hn, moves_follows ht hprogram hp h.known hf.1.1.sound hm⟩
  | rounds htask' hprogram =>
    cases hown
    cases htask'.symm.trans ht
    rw [hprogram] at hconforms
    rcases hconforms.resolve_left (by intro hdone; cases hdone) with hlost | ⟨ha, stream, rfl⟩
    · exact absurd hlost h.view.found
    refine ⟨g, ⟨⟨task.face, nextEvent stream, ?_, .inr (ha ▸ nextEvent_attached stream), hs⟩,
      h.view.resume _, by rw [store_resume]; exact h.known⟩, ?_⟩
    · rw [threads_resume, List.getElem?_modify_eq, hthreads]
      rfl
    · rw [Node.hindrance, if_pos rfl, Node.nextOp, ht, bind_some, hprogram]
      exact .refl g
  | drops =>
    cases hown
    have hview : ∀ jobs, g.At t {s with jobs}.view := by
      intro jobs
      cases g <;> exact h.view
    refine ⟨g, ⟨⟨task.face, .done (), ?_, .inl rfl, hs⟩, (hview _).resume _, by rw [store_resume]; exact h.known⟩,
      .refl g⟩
    rw [threads_resume, List.getElem?_modify_eq]
    show Option.map _ s.threads[t]? = _
    rw [hthreads]
    rfl
  | _ => cases hown

/-- Every step of a process that lives on. -/
theorem Trails.advance (hf : admissionDiscipline.Holds Founded s) (h : Trails i t g s)
    (hc : Uninterrupted s a) (hstep : step config s a = some s') :
    ∃ g', Trails i t g' s' ∧ g.Follows (s.hindrance config t a) g' := by
  obtain ⟨locals, hk, hf⟩ := hf
  obtain ⟨_, _, hm⟩ := hk.moves hstep
  by_cases hown : a.task? = some t
  · exact h.moves hf hown hm
  obtain ⟨face, program, hthreads, hrest⟩ := h.thread
  obtain ⟨task, ht, _⟩ := task_of_thread hthreads
  obtain ⟨hsame, hs⟩ := hm.spares (hk.up ht) (Discipline.born ht) hown (by rintro rfl; exact hc)
  refine ⟨g, ⟨⟨face, program, hsame.trans hthreads, hrest⟩, h.view.spares hs, ?_⟩, ?_⟩
  case refine_2 =>
    cases a with
    | task t' choice =>
      rw [Node.hindrance, if_neg fun he => hown (congrArg some he)]
      exact .refl g
    | _ => exact .refl g
  rcases hs.store with he | ⟨call, he⟩
  · rw [show s'.store = s.store from he]
    exact h.known
  · rw [show s'.store = call.exec s.store from he]
    exact h.known.exec hf.1.1.sound.reachable.coherent call

/-! #### Its end -/

/-- Before it has answered a resubmission waits for nothing but the map. -/
theorem Attach.At.enabled (config : NodeConfig) (hg : g.At t s.view) (hp : g ≠ .attached)
    (hl : ∀ t', s.executionsLock = some t' → t' = t) (hm : ∀ answer, ∃ g', g.moves i o answer = some g') :
    ∃ answer s', perform config s t {} o = some (answer, s') := by
  obtain ⟨answer⟩ := o.answer_nonempty
  obtain ⟨g', hm⟩ := hm answer
  have ht : ∀ {r}, g.touch r = some g' → ∃ record, s.records[r]? = some record := by
    intro r ht
    have hlt := (hg.touch ht).2
    rw [show s.view.records.length = s.records.length from List.length_map _] at hlt
    exact ⟨_, List.getElem?_eq_getElem hlt⟩
  have ha := Attach.moves_attaches hm
  cases o <;> first
    | exact absurd ha Bool.false_ne_true
    | exact ⟨_, _, rfl⟩
    | skip
  case lockExecutions =>
    simp only [Attach.moves] at hm
    split at hm <;> cases hm
    have hf : s.executionsLock = none := by
      cases hheld : s.executionsLock with
      | none => rfl
      | some t' =>
        have hown : s.view.executionsLock = some t := hheld.trans (congrArg some (hl t' hheld))
        exact absurd hown (hg.2 rfl)
    exact ⟨_, _, by simp only [perform, hf, isNone_none, if_true]; rfl⟩
  case readSnapshot | subscribe =>
    obtain ⟨record, hr⟩ := ht hm
    exact ⟨_, _, by simp only [perform, hr, map_some]; rfl⟩
  case recv =>
    obtain ⟨_, ⟨⟩⟩ := ite_none_right_eq_some.mp hm
    exact absurd ‹_› hp

theorem Trails.answered (h : Trails i t g s) (hg : g.pending = false) : ∃ response, s.response t = some response := by
  obtain ⟨face, program, hthreads, _, hs⟩ := h.thread
  obtain ⟨task, ht, rfl, _⟩ := task_of_thread hthreads
  have ha : ∀ {response}, task.face.response = some response → s.response t = some response := by
    intro response hresponse
    rw [Node.response, ht]
    exact hresponse
  cases g with
  | lost => exact h.view.elim
  | going | barred | refused => cases hg
  | attached =>
    obtain ⟨response, hresponse, _⟩ := hs
    exact ⟨response, ha hresponse⟩
  | turned refusal => exact ⟨_, ha hs⟩

/-- Only its holder gives the map up. -/
theorem Effect.own_lock (h : Effect t origin v o answer v') (hl : ∀ t', v.executionsLock = some t' → t' = t) :
    ∀ t', v'.executionsLock = some t' → t' = t := by
  cases h with
  | lockExecutions => exact fun t' he => (Option.some.inj he).symm
  | unlockExecutions => exact fun t' he => nomatch he
  | respond => exact fun t' he => hl t' ((executionsLock_release v t t').mp he).2
  | _ => exact hl

/-- Left to itself, a resubmission answers. The induction is on what remains of its
program: it neither ends nor loops before that. -/
theorem Trails.answers (hfound : admissionDiscipline.Holds Founded s) (h : Trails i t g s)
    (hthreads : s.threads[t]? = some (face, program)) (hconforms : (attaching i).Conforms (fun _ => final) g program)
    (hl : ∀ t', s.executionsLock = some t' → t' = t) :
    ∃ s' response, Steps (step config) (Alone t) s s' ∧ s'.response t = some response := by
  induction program generalizing s g face with
  | done value =>
    obtain ⟨response, hresponse⟩ := h.answered hconforms
    exact ⟨s, response, .refl s, hresponse⟩
  | loop l =>
    have ha : g.pending = false := by
      rcases hconforms with hlost | ⟨hattach, _⟩
      · exact absurd hlost h.view.found
      · rw [hattach]
        rfl
    obtain ⟨response, hresponse⟩ := h.answered ha
    exact ⟨s, response, .refl s, hresponse⟩
  | perform o next ih =>
    by_cases hg : g.pending = false
    · obtain ⟨response, hresponse⟩ := h.answered hg
      exact ⟨s, response, .refl s, hresponse⟩
    have hpending : g ≠ .attached := by
      rintro rfl
      exact hg rfl
    have hmoves : ∀ answer, ∃ g', g.moves i o answer = some g' := by
      intro answer
      obtain ⟨g', hm, _⟩ := hconforms answer
      exact ⟨g', attaching_advance h.view.found o answer ▸ hm⟩
    obtain ⟨answer, s₁, hp⟩ := h.view.enabled config hpending hl hmoves
    obtain ⟨g', hm, hn⟩ := hconforms answer
    rw [attaching_advance h.view.found] at hm
    obtain ⟨task, ht, _, hprogram⟩ := task_of_thread hthreads
    have hstep : step config s (.task t {}) = some (s₁.resume t (next answer)) := by
      simp only [step, stepTask, ht, hprogram, hp, map_some]
    have hf' := (founded_inductive Free).step trivial hstep hfound
    obtain ⟨locals, _, hview⟩ := hfound
    have htrace := h.performs hview ht hp hm hn
    have hlock' : ∀ t', (s₁.resume t (next answer)).executionsLock = some t' → t' = t := by
      have hown := (perform_effect ht hp).own_lock hl
      intro t' he
      have he : (s₁.resume t (next answer)).view.executionsLock = some t' := he
      rcases view_resume s₁ t (next answer) with hsame | ⟨_, hr⟩
      · rw [hsame] at he
        exact hown t' he
      · rw [hr] at he
        exact hown t' ((executionsLock_release _ t t').mp he).2
    obtain ⟨face', program', ht', _⟩ := htrace.thread
    have hp' : program' = next answer := by
      rw [threads_resume, List.getElem?_modify_eq] at ht'
      obtain ⟨thread, _, he⟩ := map_eq_some_iff.mp ht'
      cases he
      rfl
    subst hp'
    obtain ⟨s', response, hrest, hresponse⟩ := ih answer hf' htrace ht' hn hlock'
    have hf : Steps (step config) (Alone t) s (s₁.resume t (next answer)) := .tail (.refl s) rfl hstep
    exact ⟨s', response, hf.trans hrest, hresponse⟩

/-! #### What it leaves -/

/-- No row, permit, task, process or store call more. -/
structure Node.AddsNothing (s s' : Node J) : Prop where
  store : s'.store = s.store
  permits : s.permits ≤ s'.permits
  tasks : s'.tasks.length = s.tasks.length
  pipes : s'.records.map ExecutionRecord.pipe = s.records.map ExecutionRecord.pipe
  jobs : s'.jobs = s.jobs

theorem Node.AddsNothing.refl (s : Node J) : s.AddsNothing s := ⟨rfl, le_refl _, rfl, rfl, rfl⟩

theorem Node.AddsNothing.trans {s₁ : Node J} (h : s.AddsNothing s₁) (h' : s₁.AddsNothing s') : s.AddsNothing s' :=
  ⟨h'.store.trans h.store, le_trans h.permits h'.permits, h'.tasks.trans h.tasks, h'.pipes.trans h.pipes,
    h'.jobs.trans h.jobs⟩

end Trails

/-! ### Every run -/

theorem Trails.arrives {config : NodeConfig} {principal : PrincipalId} {wire : ExecuteRequest} {i : Identity}
    {s s' : Node J} (hf : admissionDiscipline.Holds Founded s) (hknown : i.Known s.store)
    (hv : wellFormed config principal wire = true) (hi : identityOf config principal wire = some i)
    (hstep : step config s (.request (.execute principal (.parsed wire))) = some s') :
    Trails i s.tasks.length (.start (unsupported config wire)) s' := by
  obtain ⟨locals, hk, hf⟩ := hf
  have hlen : s.threads.length = s.tasks.length := List.length_map _
  obtain ⟨_, ⟨⟩⟩ := ite_none_right_eq_some.mp hstep
  refine ⟨⟨.blank (.execute wire.handle), _, ?_, .inr (serve_attaches hv hi), ?_⟩, ?_, hknown⟩
  · show (List.map _ (s.tasks ++ [_]))[s.tasks.length]? = _
    rw [List.map_append, ← hlen]
    exact List.getElem?_concat_length
  · cases unsupported config wire <;> rfl
  cases unsupported config wire with
  | none =>
    refine ⟨zero_le _, fun _ hl => ?_⟩
    -- a task that was not there holds no lock
    have hidle : locals s.tasks.length = Local.idle := hk.unborn (le_of_eq hlen)
    have hh := (hf.2.map s.tasks.length).mpr hl
    rw [hidle] at hh
    cases hh
  | some refusal => trivial

section Runs
variable {i : Identity} {t : TaskId} {s s' : Node J} {config : NodeConfig}

/-- The request is under way, in a local state with the property. -/
def Underway (i : Identity) (t : TaskId) (P : Attach → Prop) (s : Node J) : Prop :=
  admissionDiscipline.Holds Founded s ∧ ∃ g, Trails i t g s ∧ P g

theorem Underway.step {P Q : Attach → Prop} (h : Underway i t P s) (hc : Uninterrupted s a)
    (hstep : step config s a = some s') (hpq : ∀ g g', g.Follows (s.hindrance config t a) g' → P g → Q g') :
    Underway i t Q s' := by
  obtain ⟨hf, g, ht, hp⟩ := h
  obtain ⟨g', ht', hfollows⟩ := ht.advance hf hc hstep
  exact ⟨(founded_inductive Free).step trivial hstep hf, g', ht', hpq g g' hfollows hp⟩

theorem Underway.run {P : Attach → Prop} {Rule : Node J → Action → Prop} (h : Underway i t P s)
    (hrun : Steps (Server.step config) Rule s s') (hc : ∀ {s a}, Rule s a → Uninterrupted s a)
    (hp : ∀ {s a}, Rule s a → ∀ g g', g.Follows (s.hindrance config t a) g' → P g → P g') : Underway i t P s' :=
  hrun.invariant (Underway i t P) (fun hrule hstep h => h.step (hc hrule) hstep (hp hrule)) h

theorem Underway.unhindered {bar : Option Refusal} (h : Underway i t (clear bar) s)
    (hrun : Steps (Server.step config) (Unhindered config t) s s') : Underway i t (clear bar) s' :=
  h.run hrun (fun hrule => hrule.1) fun hrule _ _ hfollows => hfollows.clear bar hrule.2

/-- What an answer that is shown tells of the local state. -/
theorem Underway.response {P : Attach → Prop} {response : Response} (h : Underway i t P s)
    (hr : s.response t = some response) :
    (P .attached ∧ attaches i response = true) ∨ ∃ refusal, P (.turned refusal) ∧ response = refusal.response := by
  obtain ⟨_, g, htrails, hp⟩ := h
  obtain ⟨face, program, hthread, _, hs⟩ := htrails.thread
  obtain ⟨task, ht, rfl, _⟩ := task_of_thread hthread
  rw [Node.response, ht] at hr
  have hr : task.face.response = some response := hr
  rw [hr] at hs
  cases g with
  | lost => exact hs.elim
  | going | barred | refused => cases hs
  | attached =>
    obtain ⟨_, ⟨⟩, hattaches⟩ := hs
    exact .inl ⟨hp, hattaches⟩
  | turned refusal => exact .inr ⟨refusal, hp, Option.some.inj hs⟩

end Runs

namespace Example

/-- What `execute 1` stands for. -/
def identity : Identity := ⟨handle 1, 2, "make", "client", "lease"⟩

def wire : ExecuteRequest := ⟨apiSchemaVersion, handle 1, none, spec⟩

end Example

instance (config : NodeConfig) (t : TaskId) (s : Node J) (a : Action) : Decidable (Unhindered config t s a) :=
  inferInstanceAs (Decidable (_ ∧ _))

end Eggwork.Server
