import Mathlib.Logic.Function.Basic
import Eggwork.Server.Threads

/-! Invariants of every run, from a protocol its tasks keep to.

A `Discipline` is a protocol every handler and every loop of the node conforms
to, with the local state each task starts in. Along a run each task then has a
local state that its remaining program conforms to (`Keeps`), so an invariant may
relate the view to the local states of all tasks. `Inductive` lists what such an
invariant has to survive; `Inductive.holds` is the induction over runs. -/
namespace Eggwork.Server
open Lib Store Runner Function List Option Bool Nat Prod View

variable {J : Serde} {G : Type}
variable {t : TaskId} {program : Async Unit} {Rule : Node J → Action → Prop} {Given Inv : (TaskId → G) → View J → Prop}
variable {origin : Origin} {o : Op} {g : G}

/-- A protocol all programs of the node conform to. -/
structure Discipline (G : Type) where
  protocol : Protocol effects G
  /-- The local state of a task that was never started. -/
  idle : G
  /-- The local state a task starts in. -/
  birth : Origin → G
  /-- The local states a task may end in. -/
  final : G → Prop
  final_idle : final idle
  requests : ∀ {config request task}, Request.task config request = some task →
    protocol.Conforms (fun _ => final) (birth task.origin) task.program
  loops : ∀ {l g}, protocol.enter l g → protocol.Conforms (fun _ => final) g (body l)
  spawns : ∀ {o origin l}, Op.spawns o = some (origin, l) → protocol.enter l (birth origin)
  /-- What the local state of a task says of what is seen of it. -/
  fits : Face → G → Prop
  fits_idle : ∀ face, fits face idle
  fits_birth : ∀ origin, fits (.blank origin) (birth origin)
  fits_advance : ∀ {face g o answer g'}, fits face g → protocol.advance g o answer = some g' → fits (o.shows face) g'

namespace Discipline
variable (D : Discipline G)

/-- A task in a local state may go on with a program. -/
abbrev Allows (g : G) (program : Async Unit) : Prop := D.protocol.Conforms (fun _ => D.final) g program

/-- Every thread's program conforms from its local state. -/
structure Threaded (locals : TaskId → G) (threads : List (Face × Async Unit)) : Prop where
  conforms : ∀ {t face program}, threads[t]? = some (face, program) → D.Allows (locals t) program
  fits : ∀ {t face program}, threads[t]? = some (face, program) → D.fits face (locals t)
  unborn : ∀ {t}, threads.length ≤ t → locals t = D.idle

structure Keeps (locals : TaskId → G) (s : Node J) : Prop extends Threaded D locals s.threads where
  down : s.up = false → s.threads = [] ∧ s.view = s.view.stopped
  detached : ∀ o ∈ s.jobs, (o.call 0).isSome = true

/-- The local states once an operation has spawned what it spawns. -/
def births (locals : TaskId → G) (n : TaskId) (o : Op) : TaskId → G :=
  match o.spawns with
  | some (origin, _) => update locals n (D.birth origin)
  | none => locals

end Discipline

/-- The operation in flight when a future is dropped, if it runs on. -/
def detached : Async Unit → List Op
  | .perform o _ => if (o.call 0).isSome then [o] else []
  | _ => []

/-- What an invariant of the view and the local states has to survive, in states
where another one is `Given`. -/
structure Discipline.Inductive (D : Discipline G) (Rule : Node J → Action → Prop)
    (Given Inv : (TaskId → G) → View J → Prop) : Prop where
  performs : ∀ {s : Node J} {t task choice o next answer v locals g n}, Rule s (.task t choice) →
    s.tasks[t]? = some task → task.program = .perform o next → s.up = true → D.fits task.face (locals t) →
    Effect t task.origin s.view o answer v → D.protocol.advance (locals t) o answer = some g →
    D.Allows g (next answer) → locals n = D.idle → n ≠ t → Given locals s.view → Inv locals s.view →
    Inv (update (D.births locals n o) t g) v
  releases : ∀ {locals v t}, D.final (locals t) → Given locals v → Inv locals v → Inv locals (v.release t)
  arrives : ∀ {locals v n} (origin : Origin), origin.isRequest = true → v.up = true → locals n = D.idle →
    Given locals v → Inv locals v → Inv (update locals n (D.birth origin)) v
  drops : ∀ {s : Node J} {t task locals}, Rule s (.drop t) → s.tasks[t]? = some task → task.origin.isRequest = true →
    D.fits task.face (locals t) → D.Allows (locals t) task.program → Given locals s.view → Inv locals s.view →
    Inv (update locals t D.idle) ({s.view with jobs := s.view.jobs ++ detached task.program}.release t)
  jobs : ∀ {s : Node J} {i fails o now call locals}, Rule s (.job i fails) → s.jobs[i]? = some o →
    o.call now = some call → Given locals s.view → Inv locals s.view →
    Inv locals (if fails then {s.view with jobs := s.view.jobs.eraseIdx i}
      else {s.view with jobs := s.view.jobs.eraseIdx i}.transact call)
  crashes : ∀ {locals v}, Given locals v → Inv locals v → Inv (fun _ => D.idle) v.stopped
  recovers : ∀ {locals v} (now : Int), v.up = false → (∀ t, locals t = D.idle) → v = v.stopped → Given locals v →
    Inv locals v → Inv locals (v.transact (.recover now))
  starts : ∀ {locals v interrupted snapshots} (now : Int), v.up = false → (∀ t, locals t = D.idle) → v = v.stopped →
    v.store.recover now = .ok interrupted → (v.transact (.recover now)).store.loadAll = .ok snapshots →
    Given locals v → Inv locals v →
    Inv locals (snapshots.foldl View.load {v.transact (.recover now) with up := true})

abbrev Nothing : (TaskId → G) → View J → Prop := fun _ _ => True

/-- An invariant on top of another. -/
theorem Discipline.Inductive.and {D : Discipline G} (hg : D.Inductive Rule Nothing Given)
    (hinv : D.Inductive Rule Given Inv) : D.Inductive Rule Nothing fun ls v => Given ls v ∧ Inv ls v where
  performs hrule ht hp hup hfits he hm hnext hn hne _ h :=
    ⟨hg.performs hrule ht hp hup hfits he hm hnext hn hne trivial h.1,
      hinv.performs hrule ht hp hup hfits he hm hnext hn hne h.1 h.2⟩
  releases hf _ h := ⟨hg.releases hf trivial h.1, hinv.releases hf h.1 h.2⟩
  arrives origin hr hup hn _ h :=
    ⟨hg.arrives origin hr hup hn trivial h.1, hinv.arrives origin hr hup hn h.1 h.2⟩
  drops hrule ht hr hfits hall _ h :=
    ⟨hg.drops hrule ht hr hfits hall trivial h.1,
      hinv.drops hrule ht hr hfits hall h.1 h.2⟩
  jobs hrule hjob hcall _ h := ⟨hg.jobs hrule hjob hcall trivial h.1, hinv.jobs hrule hjob hcall h.1 h.2⟩
  crashes _ h := ⟨hg.crashes trivial h.1, hinv.crashes h.1 h.2⟩
  recovers now hdown hidle hstop _ h :=
    ⟨hg.recovers now hdown hidle hstop trivial h.1, hinv.recovers now hdown hidle hstop h.1 h.2⟩
  starts now hdown hidle hstop hrecord hload _ h :=
    ⟨hg.starts now hdown hidle hstop hrecord hload trivial h.1,
      hinv.starts now hdown hidle hstop hrecord hload h.1 h.2⟩

theorem Discipline.Inductive.given {D : Discipline G} {Given' : (TaskId → G) → View J → Prop}
    (hgiven : ∀ {ls v}, Given' ls v → Given ls v) (h : D.Inductive Rule Given Inv) : D.Inductive Rule Given' Inv where
  performs hrule ht hp hup hfits he hm hnext hn hne hg :=
    h.performs hrule ht hp hup hfits he hm hnext hn hne (hgiven hg)
  releases hf hg := h.releases hf (hgiven hg)
  arrives origin hr hup hn hg := h.arrives origin hr hup hn (hgiven hg)
  drops hrule ht hr hfits hall hg := h.drops hrule ht hr hfits hall (hgiven hg)
  jobs hrule hjob hcall hg := h.jobs hrule hjob hcall (hgiven hg)
  crashes hg := h.crashes (hgiven hg)
  recovers now hdown hidle hstop hg := h.recovers now hdown hidle hstop (hgiven hg)
  starts now hdown hidle hstop hrecord hload hg := h.starts now hdown hidle hstop hrecord hload (hgiven hg)

/-- An invariant together with the local states it is about. -/
def Discipline.Holds (D : Discipline G) (Inv : (TaskId → G) → View J → Prop) (s : Node J) : Prop :=
  ∃ locals, D.Keeps locals s ∧ Inv locals s.view

/-! ### One step -/

theorem Effect.up {v v' : View J} {a : o.Answer} (h : Effect t origin v o a v') : v'.up = v.up := by
  cases h <;> rfl

theorem Effect.jobs {v v' : View J} {a : o.Answer} (h : Effect t origin v o a v') : v'.jobs = v.jobs := by
  cases h <;> rfl

theorem call_isSome (o : Op) (now : Int) : (o.call now).isSome = (o.call 0).isSome := by
  cases o <;> rfl

namespace Discipline
variable {D : Discipline G} {ls : TaskId → G} {s s' : Node J}

/-! #### Threads -/

section Threads
variable {threads : List (Face × Async Unit)}

theorem Threaded.append (h : D.Threaded ls threads) (hp : D.Allows (D.birth origin) program) :
    D.Threaded (update ls threads.length (D.birth origin)) (threads ++ [(.blank origin, program)]) := by
  have ht : ∀ {i : Nat} {face p}, (threads ++ [(.blank origin, program)])[i]? = some (face, p) →
      (i = threads.length ∧ face = .blank origin ∧ p = program) ∨ (i ≠ threads.length ∧ threads[i]? = some (face, p)) := by
    intro i face p hi
    by_cases hlast : i = threads.length
    · subst hlast
      rw [getElem?_concat_length] at hi
      cases hi
      exact .inl ⟨rfl, rfl, rfl⟩
    rw [getElem?_append] at hi
    split at hi
    · exact .inr ⟨hlast, hi⟩
    have hpast : i - threads.length ≠ 0 := by omega
    rw [getElem?_singleton, if_neg hpast] at hi
    cases hi
  refine ⟨fun {i : Nat} {face p} hi => ?_, fun {i : Nat} {face p} hi => ?_, fun {i : Nat} hi => ?_⟩
  · rcases ht hi with ⟨rfl, rfl, rfl⟩ | ⟨hne, hi⟩
    · rw [update_self]
      exact hp
    · rw [update_of_ne hne]
      exact h.conforms hi
  · rcases ht hi with ⟨rfl, rfl, rfl⟩ | ⟨hne, hi⟩
    · rw [update_self]
      exact D.fits_birth _
    · rw [update_of_ne hne]
      exact h.fits hi
  · rw [length_append, length_singleton] at hi
    have hpast : i ≠ threads.length := by omega
    rw [update_of_ne hpast]
    exact h.unborn (by omega)

theorem Threaded.spawn (h : D.Threaded ls threads) (o : Op) :
    D.Threaded (D.births ls threads.length o) (threads ++ o.spawned) := by
  unfold births Op.spawned
  cases hs : o.spawns with
  | none =>
    rw [append_nil]
    exact h
  | some spawned =>
    have hloop : D.Allows (D.birth spawned.1) (.loop spawned.2) := D.spawns hs
    exact h.append hloop

theorem Threaded.replace (h : D.Threaded ls threads) {t : Nat} (ht : t < threads.length)
    {f : Face × Async Unit → Face × Async Unit} {face : Face}
    (hf : ∀ old, threads[t]? = some old → f old = (face, program)) (hp : D.Allows g program)
    (hfits : D.fits face g) : D.Threaded (update ls t g) (threads.modify t f) := by
  have hthreads : ∀ {i : Nat} {face' p}, (threads.modify t f)[i]? = some (face', p) →
      (i = t ∧ face' = face ∧ p = program) ∨ (i ≠ t ∧ threads[i]? = some (face', p)) := by
    intro i face' p hi
    rw [List.getElem?_modify] at hi
    by_cases hit : i = t
    · subst hit
      have hold := List.getElem?_eq_getElem ht
      simp only [hold, if_true, Option.map_eq_map, Option.map_some, hf _ hold, Option.some.injEq,
        Prod.mk.injEq] at hi
      exact .inl ⟨rfl, hi.1.symm, hi.2.symm⟩
    · exact .inr ⟨hit, by simpa [Ne.symm hit] using hi⟩
  refine ⟨fun {i : Nat} {face p} hi => ?_, fun {i : Nat} {face p} hi => ?_, fun {i : Nat} hi => ?_⟩
  · rcases hthreads hi with ⟨rfl, rfl, rfl⟩ | ⟨hne, hi⟩
    · rw [update_self]
      exact hp
    · rw [update_of_ne hne]
      exact h.conforms hi
  · rcases hthreads hi with ⟨rfl, rfl, rfl⟩ | ⟨hne, hi⟩
    · rw [update_self]
      exact hfits
    · rw [update_of_ne hne]
      exact h.fits hi
  · rw [length_modify] at hi
    have hne : i ≠ t := by omega
    rw [update_of_ne hne]
    exact h.unborn hi

end Threads

/-! #### Nodes -/

theorem Keeps.same (h : D.Keeps ls s) (ht : s'.threads = s.threads) (hview : s'.view = s.view) : D.Keeps ls s' := by
  have hup : s'.up = s.up := congrArg up hview
  have hjobs : s'.jobs = s.jobs := congrArg jobs hview
  refine ⟨ht ▸ h.toThreaded, fun hdown => ?_, fun o ho => ?_⟩
  · rw [ht, hview]
    exact h.down (hup ▸ hdown)
  · exact h.detached o (hjobs ▸ ho)

theorem Keeps.up (h : D.Keeps ls s) {task : Task} (ht : s.tasks[t]? = some task) : s.up = true := by
  by_contra hdown
  have he := (h.down (not_eq_true _ ▸ hdown)).1
  have hthreads := threads_getElem? ht
  rw [he] at hthreads
  cases hthreads

theorem born {t : Nat} {task : Task} (ht : s.tasks[t]? = some task) : t < s.threads.length :=
  (List.getElem?_eq_some_iff.mp (threads_getElem? ht)).1

/-- A step of a running node. -/
theorem Threaded.alive (h : D.Threaded ls s.threads) (hup : s.up = true)
    (hjobs : ∀ o ∈ s.jobs, (o.call 0).isSome = true) : D.Keeps ls s := by
  refine ⟨h, fun hdown => ?_, hjobs⟩
  rw [hup] at hdown
  cases hdown

theorem resume_up (s : Node J) (t : TaskId) (program : Async Unit) :
    (s.resume t program).up = s.up ∧ (s.resume t program).jobs = s.jobs := by
  show (s.resume t program).view.up = s.view.up ∧ (s.resume t program).view.jobs = s.view.jobs
  rcases view_resume s t program with he | ⟨_, he⟩ <;> rw [he] <;> exact ⟨rfl, rfl⟩

theorem Keeps.resume (h : D.Keeps ls s) {task : Task} (ht : s.tasks[t]? = some task)
    (hp : D.Allows g program) (hfits : D.fits task.face g) : D.Keeps (update ls t g) (s.resume t program) := by
  obtain ⟨hup, hjobs⟩ := resume_up s t program
  refine Threaded.alive ?_ (hup.trans (h.up ht)) fun o ho => h.detached o (hjobs ▸ ho)
  rw [threads_resume]
  refine h.toThreaded.replace (born ht) (fun old hold => ?_) hp hfits
  rw [threads_getElem? ht] at hold
  cases hold
  rfl

theorem Keeps.perform (h : D.Keeps ls s) {task : Task} (ht : s.tasks[t]? = some task)
    (hthreads : s'.threads = (s.threads.modify t fun thread => (o.shows thread.1, thread.2)) ++ o.spawned)
    (hup : s'.up = s.up) (hjobs : s'.jobs = s.jobs) (hp : D.Allows g program) (hfits : D.fits (o.shows task.face) g) :
    D.Keeps (update (D.births ls s.threads.length o) t g) (s'.resume t program) := by
  have hborn := born ht
  obtain ⟨hup', hjobs'⟩ := resume_up s' t program
  refine Threaded.alive ?_ (hup'.trans (hup.trans (h.up ht))) fun o ho => h.detached o (hjobs ▸ hjobs' ▸ ho)
  have hm : (s'.resume t program).threads =
      (s.threads ++ o.spawned).modify t fun thread => (o.shows thread.1, program) := by
    apply ext_getElem?
    intro i
    rw [threads_resume, hthreads]
    simp only [List.getElem?_modify, List.getElem?_append, length_modify]
    by_cases hi : t = i
    · subst hi
      simp [hborn]
    · simp [hi]
  have hlast : t < (s.threads ++ o.spawned).length := by
    rw [length_append]
    exact Nat.lt_add_right _ hborn
  rw [hm]
  refine (h.toThreaded.spawn o).replace hlast (fun old hold => ?_) hp hfits
  rw [List.getElem?_append_left hborn, threads_getElem? ht] at hold
  cases hold
  rfl

theorem isRequest_of_task {cfg : NodeConfig} {req : Request} {task : Task}
    (h : req.task cfg = some task) : task.origin.isRequest = true ∧ task.face = .blank task.origin := by
  unfold Request.task at h
  split at h
  · cases h
    exact ⟨rfl, rfl⟩
  · cases h
    exact ⟨rfl, rfl⟩
  · obtain ⟨_, _, he⟩ := map_eq_some_iff.mp h
    cases he
    exact ⟨rfl, rfl⟩
  · cases h

section Step
variable {cfg : NodeConfig} {Rule : Node J → Action → Prop} {Inv : (TaskId → G) → View J → Prop}

/-- What an action does to a node whose tasks keep to the protocol, and to their local states. -/
inductive Moves (D : Discipline G) (config : NodeConfig) (locals : TaskId → G) (s : Node J) :
    Action → (TaskId → G) → Node J → Prop
  | performs {t : TaskId} {task : Task} {choice : Choice} {o : Op} {next : o.Answer → Async Unit} {answer : o.Answer}
      {s₁ : Node J} {g : G} (htask : s.tasks[t]? = some task) (hprogram : task.program = .perform o next)
      (hperform : perform config s t choice o = some (answer, s₁))
      (hmove : D.protocol.advance (locals t) o answer = some g) (hnext : D.Allows g (next answer)) :
      Moves D config locals s (.task t choice) (update (D.births locals s.threads.length o) t g)
        (s₁.resume t (next answer))
  | rounds {t : TaskId} {task : Task} {choice : Choice} {l : Loop} (htask : s.tasks[t]? = some task)
      (hprogram : task.program = .loop l) (hbody : D.Allows (locals t) (body l)) :
      Moves D config locals s (.task t choice) locals (s.resume t (body l))
  | arrives {request : Request} {task : Task} (hup : s.up = true) (htask : request.task config = some task) :
      Moves D config locals s (.request request) (update locals s.threads.length (D.birth task.origin))
        {s with tasks := s.tasks ++ [task]}
  | answers {request : Request} : Moves D config locals s (.request request) locals s
  | drops {t : TaskId} {task : Task} (htask : s.tasks[t]? = some task) (hrequest : task.origin.isRequest = true)
      (hallows : D.Allows (locals t) task.program) :
      Moves D config locals s (.drop t) (update locals t D.idle)
        ({s with jobs := s.jobs ++ detached task.program}.resume t (.done ()))
  | finishes {i : Nat} {fails : Bool} {o : Op} {call : Call} (hjob : s.jobs[i]? = some o)
      (hcall : o.call s.unixMillis = some call) :
      Moves D config locals s (.job i fails) locals
        (if fails then {s with jobs := s.jobs.eraseIdx i} else {s with jobs := s.jobs.eraseIdx i}.transact call)
  | writes {r : RecordId} {chunk : OutputChunk} {s' : Node J}
      (hpipe : modifyPipe s r (fun pipe => if pipe.closed then none else some (pipe.send chunk)) = some s') :
      Moves D config locals s (.output r chunk) locals s'
  | closes {r : RecordId} {s' : Node J}
      (hpipe : modifyPipe s r (fun pipe => some {pipe with closed := true}) = some s') :
      Moves D config locals s (.hangUp r) locals s'
  | exits {r : RecordId} {how : Joined} {s' : Node J}
      (hpipe : modifyPipe s r (fun pipe =>
        if pipe.joined.isNone then some {pipe with joined := some how} else none) = some s') :
      Moves D config locals s (.exit r how) locals s'
  | ticks {unixMillis elapsed : Nat} :
      Moves D config locals s (.clock unixMillis elapsed) locals {s with unixMillis, instant := s.instant + elapsed}
  | marks {marker : Bool} : Moves D config locals s (.setMarker marker) locals {s with marker}
  | drains {draining : Bool} : Moves D config locals s (.setDraining draining) locals {s with draining}
  | furnishes {workspaces : Table WorkspaceId WorkspaceRecord} :
      Moves D config locals s (.setWorkspaces workspaces) locals {s with workspaces}
  | crashes : Moves D config locals s .crash (fun _ => D.idle) s.stopped
  | starts {fault : Fault} (hdown : s.up = false) (hidle : ∀ t, locals t = D.idle) :
      Moves D config locals s (.start fault) locals (start config s fault)

theorem Keeps.task (h : D.Keeps ls s) {c : Choice} (hstep : stepTask cfg s t c = some s') :
    ∃ ls', D.Keeps ls' s' ∧ D.Moves cfg ls s (.task t c) ls' s' := by
  unfold stepTask at hstep
  split at hstep
  · cases hstep
  rename_i task ht
  have hconforms := h.conforms (threads_getElem? ht)
  have hfits := h.fits (threads_getElem? ht)
  split at hstep
  · cases hstep
  · rename_i l hprogram
    cases hstep
    rw [hprogram] at hconforms
    have hbody := D.loops hconforms
    have hsame := h.resume ht hbody hfits
    rw [update_eq_self] at hsame
    exact ⟨ls, hsame, .rounds ht hprogram hbody⟩
  · rename_i o next hprogram
    obtain ⟨⟨a, s₁⟩, hp, rfl⟩ := map_eq_some_iff.mp hstep
    rw [hprogram] at hconforms
    obtain ⟨g, hm, hn⟩ := hconforms a
    have he := perform_effect ht hp
    have hfits' := D.fits_advance hfits hm
    exact ⟨_, h.perform ht (perform_threads hp) he.up he.jobs hn hfits',
      .performs ht hprogram hp hm hn⟩

theorem Keeps.drop (h : D.Keeps ls s) (hstep : dropTask s t = some s') :
    ∃ ls', D.Keeps ls' s' ∧ D.Moves cfg ls s (.drop t) ls' s' := by
  unfold dropTask at hstep
  split at hstep
  · cases hstep
  rename_i task ht
  obtain ⟨hr, hstep⟩ := ite_none_right_eq_some.mp hstep
  -- the store call in flight goes on as a job
  have hjobs : ∀ o ∈ s.jobs ++ Server.detached task.program, (o.call 0).isSome = true := by
    intro o ho
    rcases mem_append.mp ho with ho | ho
    · exact h.detached o ho
    unfold Server.detached at ho
    split at ho
    · split at ho
      · rename_i hcall
        exact mem_singleton.mp ho ▸ hcall
      · cases ho
    · cases ho
  have hkept : D.Keeps ls {s with jobs := s.jobs ++ Server.detached task.program} :=
    Threaded.alive h.toThreaded (h.up ht) hjobs
  have hdone : D.Allows D.idle (.done ()) := D.final_idle
  have hd := hkept.resume ht hdone (D.fits_idle _)
  have hs' : s' = {s with jobs := s.jobs ++ Server.detached task.program}.resume t (.done ()) := by
    split at hstep
    · rename_i o next hp
      obtain ⟨_, ⟨⟩⟩ := ite_none_right_eq_some.mp hstep
      simp only [hp, Server.detached]
      congr 2
      split <;> simp
    · rename_i l hp
      cases hstep
      simp only [hp, Server.detached, append_nil]
    · cases hstep
  rw [hs']
  exact ⟨_, hd, .drops ht hr (h.conforms (threads_getElem? ht))⟩

theorem Keeps.job (h : D.Keeps ls s) {i : Nat} {fails : Bool} (hstep : runJob s i fails = some s') :
    D.Keeps ls s' ∧ D.Moves cfg ls s (.job i fails) ls s' := by
  unfold runJob at hstep
  split at hstep
  · cases hstep
  rename_i o hjob
  have hup : s.up = true := by
    by_contra hdown
    have hjobs := congrArg jobs (h.down (not_eq_true _ ▸ hdown)).2
    rw [show s.jobs = [] from hjobs] at hjob
    cases hjob
  have hcall := call_isSome o s.unixMillis ▸ h.detached o (mem_of_getElem? hjob)
  obtain ⟨call, hcall⟩ := isSome_iff_exists.mp hcall
  simp only [hcall, some.injEq] at hstep
  have hjobs : ∀ o ∈ s.jobs.eraseIdx i, (o.call 0).isSome = true :=
    fun o ho => h.detached o (mem_of_mem_eraseIdx ho)
  subst hstep
  refine ⟨?_, .finishes hjob hcall⟩
  cases fails <;> exact Threaded.alive h.toThreaded hup hjobs

theorem view_foldl_load (snapshots : List ExecutionSnapshot) (s : Node J) :
    (snapshots.foldl insertLoaded s).view = snapshots.foldl load s.view ∧
      (snapshots.foldl insertLoaded s).threads = s.threads := by
  induction snapshots generalizing s with
  | nil => exact ⟨rfl, rfl⟩
  | cons snapshot rest ih =>
    have hload : (insertLoaded s snapshot).view = s.view.load snapshot := by
      simp only [Node.view, insertLoaded, load, map_append, length_map]
      rfl
    rw [foldl_cons, foldl_cons, ← hload]
    exact ih (insertLoaded s snapshot)

theorem foldl_load_frame {α : Type} (f : View J → α) (hf : ∀ v snap, f (v.load snap) = f v)
    (snaps : List ExecutionSnapshot) (v : View J) : f (snaps.foldl load v) = f v := by
  induction snaps generalizing v with
  | nil => rfl
  | cons snap rest ih => exact (ih (v.load snap)).trans (hf v snap)

theorem foldl_load_up (snaps : List ExecutionSnapshot) (v : View J) :
    (snaps.foldl load v).up = v.up ∧ (snaps.foldl load v).jobs = v.jobs :=
  ⟨foldl_load_frame up (fun _ _ => rfl) snaps v, foldl_load_frame jobs (fun _ _ => rfl) snaps v⟩

theorem foldl_load_store (snaps : List ExecutionSnapshot) (v : View J) :
    (snaps.foldl load v).store = v.store := foldl_load_frame store (fun _ _ => rfl) snaps v

theorem start_cases (cfg : NodeConfig) (s : Node J) (fault : Fault) :
    start cfg s fault = s ∨ start cfg s fault = s.transact (.recover s.unixMillis) ∨
      ∃ cut snaps, s.store.recover s.unixMillis = .ok cut ∧
        (s.transact (.recover s.unixMillis)).store.loadAll = .ok snaps ∧
        start cfg s fault = snaps.foldl insertLoaded {s.transact (.recover s.unixMillis) with
          up := true
          permits := cfg.maxActiveExecutions
          draining := s.marker} := by
  unfold Server.start
  split
  · exact .inl rfl
  dsimp only
  split
  · rename_i cut snaps hr hload
    split
    · exact .inr (.inl rfl)
    · exact .inr (.inr ⟨cut, snaps, hr, hload, rfl⟩)
  · exact .inr (.inl rfl)

theorem Keeps.start (h : D.Keeps ls s) (hdown : s.up = false) (fault : Fault) :
    D.Keeps ls (Server.start cfg s fault) := by
  obtain ⟨ht, hstop⟩ := h.down hdown
  rcases start_cases cfg s fault with he | he | ⟨cut, snaps, _, _, he⟩
  · rw [he]
    exact h
  · rw [he]
    exact ⟨h.toThreaded, fun _ => ⟨ht, congrArg (View.transact · (.recover s.unixMillis)) hstop⟩, h.detached⟩
  rw [he]
  obtain ⟨hview, hsame⟩ := view_foldl_load snaps
    {s.transact (.recover s.unixMillis) with
      up := true
      permits := cfg.maxActiveExecutions
      draining := s.marker}
  obtain ⟨hup, hjobs⟩ := foldl_load_up snaps
    {s.view.transact (.recover s.unixMillis) with up := true}
  have hjobs' := (congrArg View.jobs hview).trans hjobs
  refine Threaded.alive (hsame ▸ h.toThreaded) ((congrArg View.up hview).trans hup) fun o ho => ?_
  exact h.detached o (by rwa [show Node.jobs _ = s.jobs from hjobs'] at ho)

/-- What a runner does to its output channel moves neither the tasks nor the view. -/
theorem modifyPipe_hidden {r : RecordId} {f : Pipe → Option Pipe} (h : modifyPipe s r f = some s') :
    s'.threads = s.threads ∧ s'.view = s.view := by
  unfold modifyPipe at h
  split at h
  · obtain ⟨pipe, _, rfl⟩ := map_eq_some_iff.mp h
    exact ⟨rfl, view_modifyRecord_hidden s r (fun rec => {rec with pipe := some pipe}) fun _ => rfl⟩
  · cases h

theorem Keeps.moves (h : D.Keeps ls s) {a : Action} (hstep : step cfg s a = some s') :
    ∃ ls', D.Keeps ls' s' ∧ D.Moves cfg ls s a ls' s' := by
  have hpipe : ∀ {r f}, modifyPipe s r f = some s' → D.Keeps ls s' := by
    intro r f hpipe
    obtain ⟨hthreads, hview⟩ := modifyPipe_hidden hpipe
    exact h.same hthreads hview
  cases a with
  | request request =>
    obtain ⟨hup, hstep⟩ := ite_none_right_eq_some.mp hstep
    split at hstep
    · rename_i task htask
      cases hstep
      obtain ⟨_, hblank⟩ := isRequest_of_task htask
      have hthreads : Node.threads {s with tasks := s.tasks ++ [task]} =
          s.threads ++ [(.blank task.origin, task.program)] := by
        rw [← hblank]
        exact map_append
      exact ⟨_, Threaded.alive (hthreads ▸ h.toThreaded.append (D.requests htask)) hup h.detached, .arrives hup htask⟩
    · cases hstep
      exact ⟨ls, h, .answers⟩
  | task t c => exact h.task hstep
  | drop t => exact h.drop hstep
  | job i fails => exact ⟨ls, h.job hstep⟩
  | output r chunk => exact ⟨ls, hpipe hstep, .writes hstep⟩
  | hangUp r => exact ⟨ls, hpipe hstep, .closes hstep⟩
  | exit r how => exact ⟨ls, hpipe hstep, .exits hstep⟩
  | clock unixMillis elapsed =>
    cases hstep
    exact ⟨ls, h.same rfl rfl, .ticks⟩
  | setMarker marker =>
    cases hstep
    exact ⟨ls, h.same rfl rfl, .marks⟩
  | setDraining draining =>
    simp only [Server.step] at hstep
    split at hstep <;> cases hstep
    exact ⟨ls, h.same rfl rfl, .drains⟩
  | setWorkspaces workspaces =>
    cases hstep
    exact ⟨ls, h.same rfl rfl, .furnishes⟩
  | crash =>
    simp only [Server.step] at hstep
    split at hstep <;> cases hstep
    refine ⟨fun _ => D.idle, ⟨⟨fun ht => ?_, fun ht => ?_, fun _ => rfl⟩, fun _ => ⟨rfl, rfl⟩, fun o ho => ?_⟩, .crashes⟩
    · cases ht
    · cases ht
    · cases ho
  | start fault =>
    simp only [Server.step] at hstep
    split at hstep <;> cases hstep
    rename_i hup
    have hdown : s.up = false := not_eq_true _ ▸ hup
    have hidle : ∀ t, ls t = D.idle := fun t => h.unborn (by rw [(h.down hdown).1]; exact zero_le t)
    exact ⟨ls, h.start hdown fault, .starts hdown hidle⟩

/-! #### Invariants -/

/-- Going on at the end of a step: the guards of a finished task are dropped. -/
theorem Inductive.resume (hi : D.Inductive Rule Nothing Inv) (hp : D.Allows (ls t) program)
    (h : Inv ls s.view) : Inv ls (s.resume t program).view := by
  rcases view_resume s t program with he | ⟨⟨v, rfl⟩, he⟩
  · exact he ▸ h
  · exact he ▸ hi.releases hp trivial h

theorem Inductive.moves (hi : D.Inductive Rule Nothing Inv) {a : Action} {ls' : TaskId → G} (hrule : Rule s a)
    (hk : D.Keeps ls s) (hmoves : D.Moves cfg ls s a ls' s') (h : Inv ls s.view) : Inv ls' s'.view := by
  cases hmoves with
  | performs ht hprogram hp hm hn =>
    have hfits := hk.fits (threads_getElem? ht)
    refine hi.resume ?_ ?_
    · rw [update_self]
      exact hn
    · exact hi.performs hrule ht hprogram (hk.up ht) hfits (perform_effect ht hp) hm hn
        (hk.unborn (le_refl _)) (ne_of_gt (born ht)) trivial h
  | rounds ht hprogram hbody => exact hi.resume hbody h
  | arrives hup ht =>
    exact hi.arrives _ (isRequest_of_task ht).1 hup (hk.unborn (le_refl _)) trivial h
  | drops ht hr hall =>
    have hinv := hi.drops hrule ht hr (hk.fits (threads_getElem? ht)) hall trivial h
    exact (view_release _ _).symm ▸ hinv
  | finishes hjob hcall =>
    have hinv := hi.jobs hrule hjob hcall trivial h
    rename_i fails _ _
    cases fails <;> exact hinv
  | writes hpipe | closes hpipe | exits hpipe => exact (modifyPipe_hidden hpipe).2.symm ▸ h
  | answers | ticks | marks | drains | furnishes => exact h
  | crashes => exact hi.crashes trivial h
  | starts hdown hidle =>
    rename_i fault
    obtain ⟨_, hstop⟩ := hk.down hdown
    rcases start_cases cfg s fault with he | he | ⟨cut, snaps, hrecord, hload, he⟩
    · rw [he]
      exact h
    · rw [he]
      exact hi.recovers _ hdown hidle hstop trivial h
    · rw [he, (view_foldl_load snaps _).1]
      exact hi.starts _ hdown hidle hstop hrecord hload trivial h

theorem Inductive.step (hi : D.Inductive Rule Nothing Inv) {action : Action} (hrule : Rule s action)
    (hstep : step cfg s action = some s') (h : D.Holds Inv s) : D.Holds Inv s' := by
  obtain ⟨ls, hk, hinv⟩ := h
  obtain ⟨ls', hk', hm⟩ := hk.moves hstep
  exact ⟨ls', hk', hi.moves hrule hk hm hinv⟩

theorem Inductive.holds (hi : D.Inductive Rule Nothing Inv) (hr : Steps (Server.step cfg) Rule s s')
    (h : D.Holds Inv s) : D.Holds Inv s' :=
  hr.invariant (D.Holds Inv) (fun hrule hstep => hi.step hrule hstep) h

theorem keeps_fresh : D.Keeps (fun _ => D.idle) (fresh J) := by
  refine ⟨⟨fun ht => ?_, fun ht => ?_, fun _ => rfl⟩, fun _ => ⟨rfl, rfl⟩, fun o ho => ?_⟩
  · cases ht
  · cases ht
  · cases ho

end Step

/-! ### Two disciplines at once -/

section Prod
variable {H : Type}

def prod (D : Discipline G) (D' : Discipline H) : Discipline (G × H) where
  protocol := D.protocol.prod D'.protocol
  idle := (D.idle, D'.idle)
  birth origin := (D.birth origin, D'.birth origin)
  final gh := D.final gh.1 ∧ D'.final gh.2
  final_idle := ⟨D.final_idle, D'.final_idle⟩
  requests h := (D.requests h).prod (D'.requests h)
  loops h := (D.loops h.1).prod (D'.loops h.2)
  spawns h := ⟨D.spawns h, D'.spawns h⟩
  fits face gh := D.fits face gh.1 ∧ D'.fits face gh.2
  fits_idle face := ⟨D.fits_idle face, D'.fits_idle face⟩
  fits_birth origin := ⟨D.fits_birth origin, D'.fits_birth origin⟩
  fits_advance hfits hmove :=
    ⟨D.fits_advance hfits.1 (Protocol.prod_advance.mp hmove).1, D'.fits_advance hfits.2 (Protocol.prod_advance.mp hmove).2⟩

theorem fst_update (ls : TaskId → G × H) (t : TaskId) (gh : G × H) :
    (fun i => (update ls t gh i).1) = update (fun i => (ls i).1) t gh.1 :=
  comp_update fst ls t gh

theorem fst_births {D' : Discipline H} (ls : TaskId → G × H) (n : TaskId) (o : Op) :
    (fun i => ((D.prod D').births ls n o i).1) = D.births (fun i => (ls i).1) n o := by
  unfold births
  cases o.spawns with
  | none => rfl
  | some spawned => exact fst_update ls n _

theorem Inductive.left {D' : Discipline H} (h : D.Inductive Rule Given Inv) :
    (D.prod D').Inductive Rule (fun ls => Given fun t => (ls t).1) fun ls => Inv fun t => (ls t).1 where
  performs hrule ht hp hup hfits he hm hnext hn hne hg hinv := by
    have hinv' := h.performs hrule ht hp hup hfits.1 he (Protocol.prod_advance.mp hm).1 hnext.fst
      (congrArg fst hn) hne hg hinv
    rw [fst_update, fst_births]
    exact hinv'
  releases hf hg hinv := h.releases hf.1 hg hinv
  arrives origin hr hup hn hg hinv := by
    rw [fst_update]
    exact h.arrives origin hr hup (congrArg fst hn) hg hinv
  drops hrule ht hr hfits hall hg hinv := by
    rw [fst_update]
    exact h.drops hrule ht hr hfits.1 hall.fst hg hinv
  jobs hrule hjob hcall hg hinv := h.jobs hrule hjob hcall hg hinv
  crashes hg hinv := h.crashes hg hinv
  recovers now hdown hidle hstop hg hinv :=
    h.recovers now hdown (fun t => congrArg fst (hidle t)) hstop hg hinv
  starts now hdown hidle hstop hrecord hload hg hinv :=
    h.starts now hdown (fun t => congrArg fst (hidle t)) hstop hrecord hload hg hinv

end Prod
end Discipline
end Eggwork.Server
