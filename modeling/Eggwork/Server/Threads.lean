import Eggwork.Server.Shared

/-! The tasks of a node as threads.

A thread is what is seen of a task (`Face`) with its remaining program: what the
proofs about tasks are about. An operation shows something, spawns what it spawns
and touches no other thread (`perform_threads`). -/
namespace Eggwork.Server
open Lib Store Runner Option List

variable {J : Serde}
variable {t : TaskId}

/-- What is seen of a task: what it was started for, its response, and what it has streamed. -/
structure Face where
  origin : Origin
  response : Option Response
  output : List StreamItem

def Task.face (task : Task) : Face := ⟨task.origin, task.response, task.output⟩

variable {task : Task}

/-- A task that has shown nothing yet. -/
abbrev Face.blank (origin : Origin) : Face := ⟨origin, none, []⟩

/-- The tasks, by what is seen of them and their remaining program. -/
def Node.threads (s : Node J) : List (Face × Async Unit) := s.tasks.map fun task => (task.face, task.program)

/-- What an operation makes a task show. -/
def Op.shows : Op → Face → Face
  | .respond response, face => {face with response := some response}
  | .yield item, face => {face with output := face.output ++ [item]}
  | _, face => face

theorem Op.shows_origin (o : Op) (face : Face) : (o.shows face).origin = face.origin := by
  cases o <;> rfl

/-- The task an operation spawns. -/
def Op.spawns : Op → Option (Origin × Loop)
  | .spawnMonitor r => some (.monitor r, .monitorLease r)
  | .spawnRun request => some (.run request.record, .runExecution request)
  | _ => none

theorem spawns_cases {o : Op} {origin : Origin} {l : Loop} (h : o.spawns = some (origin, l)) :
    (∃ r, origin = .monitor r ∧ l = .monitorLease r) ∨
      ∃ request, origin = .run request.record ∧ l = .runExecution request := by
  unfold Op.spawns at h
  split at h
  · cases h
    exact .inl ⟨_, rfl, rfl⟩
  · cases h
    exact .inr ⟨_, rfl, rfl⟩
  · cases h

/-- The thread an operation adds. -/
def Op.spawned (o : Op) : List (Face × Async Unit) :=
  match o.spawns with
  | some (origin, l) => [(.blank origin, .loop l)]
  | none => []

variable {o : Op}

theorem threads_getElem? {s : Node J} (h : s.tasks[t]? = some task) : s.threads[t]? = some (task.face, task.program) := by
  rw [Node.threads, List.getElem?_map, h]
  rfl

theorem task_of_thread {s : Node J} {face : Face} {program : Async Unit} (h : s.threads[t]? = some (face, program)) :
    ∃ task, s.tasks[t]? = some task ∧ task.face = face ∧ task.program = program := by
  rw [Node.threads, List.getElem?_map] at h
  obtain ⟨task, ht, he⟩ := Option.map_eq_some_iff.mp h
  cases he
  exact ⟨task, ht, rfl, rfl⟩

theorem threads_modify (s : Node J) (t : TaskId) (f : Task → Task) (f' : Face × Async Unit → Face × Async Unit)
    (h : ∀ task, ((f task).face, (f task).program) = f' (task.face, task.program)) :
    (s.modifyTask t f).threads = s.threads.modify t f' := by
  apply ext_getElem?
  intro i
  simp only [Node.threads, Node.modifyTask, List.getElem?_map, List.getElem?_modify]
  cases s.tasks[i]? with
  | none => rfl
  | some task => by_cases hi : t = i <;> simp [hi, h]

theorem threads_modifyTask (s : Node J) (t : TaskId) (f : Task → Task)
    (h : ∀ task, ((f task).face, (f task).program) = (task.face, task.program)) :
    (s.modifyTask t f).threads = s.threads := by
  rw [threads_modify s t f id h, modify_id]

theorem threads_releasePermit (s : Node J) (t : TaskId) : (s.releasePermit t).threads = s.threads := by
  unfold Node.releasePermit
  split
  · split
    · exact threads_modifyTask s t _ fun _ => rfl
    · rfl
  · rfl

theorem threads_release (s : Node J) (t : TaskId) : (s.release t).threads = s.threads := threads_releasePermit s t

theorem threads_act (s : Node J) (t : TaskId) (a : Act) (key : RowKey) : (s.act t a key).threads = s.threads := by
  unfold Node.act
  split <;> rfl

theorem perform_threads {cfg : NodeConfig} {s s' : Node J} {c : Choice} {a : o.Answer}
    (h : perform cfg s t c o = some (a, s')) :
    s'.threads = (s.threads.modify t fun thread => (o.shows thread.1, thread.2)) ++ o.spawned := by
  have hsame : ∀ l : List (Face × Async Unit), (l.modify t fun thread => (thread.1, thread.2)) = l :=
    fun l => modify_id t l
  have hn : ∀ {l : List (Face × Async Unit)}, l = s.threads →
      l = (s.threads.modify t fun thread => (thread.1, thread.2)) ++ [] := by
    intro l he
    rw [hsame, append_nil, he]
  cases o <;> first
    | (cases h; exact hn rfl)
    | skip
  case lockExecutions =>
    simp only [perform] at h
    split at h <;> cases h
    exact hn rfl
  case executionsIter =>
    simp only [perform] at h
    split at h <;> cases h
    exact hn rfl
  case lookup | reserve | updateLease | loadPage | loadSnapshot =>
    simp only [perform] at h
    split at h <;> cases h <;> exact hn rfl
  case commitEvent snapshot kind =>
    simp only [perform] at h
    split at h <;> cases h
    · apply hn
      split
      · exact threads_act _ t _ _
      · rfl
    · exact hn rfl
  case readSnapshot | recordLeaseHash | readLease | subscribe =>
    obtain ⟨rec, _, he⟩ := map_eq_some_iff.mp h
    cases he
    exact hn rfl
  case lockCommit | lockLease =>
    simp only [perform] at h
    split at h
    · split at h <;> cases h
      exact hn rfl
    · cases h
  case cancel | extendLease =>
    obtain ⟨rec, _, he⟩ := map_eq_some_iff.mp h
    cases he
    exact hn (threads_act _ t _ _)
  case waitLease =>
    simp only [perform] at h
    split at h
    · split at h
      · split at h <;> cases h
        exact hn rfl
      · cases h
        exact hn rfl
      · split at h <;> cases h
        exact hn rfl
    · cases h
  case recv =>
    simp only [perform] at h
    split at h
    · split at h
      · cases h
        exact hn rfl
      · cases h
        exact hn rfl
      · split at h <;> cases h
        exact hn rfl
    · cases h
  case tryAcquirePermit =>
    simp only [perform] at h
    split at h <;> cases h
    · exact hn rfl
    · exact hn (threads_modifyTask s t _ fun _ => rfl)
  case dropPermit =>
    cases h
    exact hn (threads_releasePermit s t)
  case markActive =>
    simp only [perform, markActive] at h
    split at h
    · cases h
      exact hn rfl
    · split at h <;> cases h <;> exact hn rfl
  case markTerminal =>
    simp only [perform, markTerminal] at h
    split at h <;> cases h <;> exact hn rfl
  case spawnMonitor r =>
    cases h
    exact map_append.trans (congrArg (· ++ _) (hsame s.threads).symm)
  case spawnRun request =>
    simp only [perform] at h
    split at h <;> cases h
    have hkept := threads_modifyTask s t (fun task => {task with permit := false}) fun _ => rfl
    show ((s.modifyTask t fun task => {task with permit := false}).tasks ++ [_]).map _ = _
    rw [map_append]
    exact congrArg (· ++ _) (hkept.trans (hsame s.threads).symm)
  case respond resp =>
    cases h
    have hs := threads_modify (s.release t) t (fun task => {task with response := some resp})
      (fun thread => ((Op.respond resp).shows thread.1, thread.2)) fun _ => rfl
    rw [threads_release] at hs
    exact hs.trans (append_nil _).symm
  case yield item =>
    cases h
    have hs := threads_modify s t (fun task => {task with output := task.output ++ [item]})
      (fun thread => ((Op.yield item).shows thread.1, thread.2)) fun _ => rfl
    exact hs.trans (append_nil _).symm
  case select r closed pending =>
    simp only [perform] at h
    split at h
    · obtain ⟨polled, _, he⟩ := map_eq_some_iff.mp h
      cases he
      exact hn rfl
    · cases h
  case isDrained | tryRecv =>
    obtain ⟨pipe, _, he⟩ := map_eq_some_iff.mp h
    cases he
    exact hn rfl

theorem threads_resume (s : Node J) (t : TaskId) (program : Async Unit) :
    (s.resume t program).threads = s.threads.modify t fun thread => (thread.1, program) := by
  have hset : (s.modifyTask t fun task => {task with program}).threads =
      s.threads.modify t fun thread => (thread.1, program) := threads_modify s t _ _ fun _ => rfl
  cases program with
  | done v => exact (threads_release _ t).trans hset
  | perform o next | loop l => exact hset

theorem view_resume (s : Node J) (t : TaskId) (prog : Async Unit) : (s.resume t prog).view = s.view ∨
      ((∃ v, prog = .done v) ∧ (s.resume t prog).view = s.view.release t) := by
  cases prog with
  | done v => exact .inr ⟨⟨v, rfl⟩, view_release _ t⟩
  | perform o next | loop l => exact .inl rfl

/-- The next operation of a task. -/
def Node.nextOp (s : Node J) (t : TaskId) : Option Op :=
  (s.tasks[t]?).bind fun task =>
    match task.program with
    | .perform o _ => some o
    | _ => none

variable {s : Node J}

theorem nextOp_eq {next : o.Answer → Async Unit} (ht : s.tasks[t]? = some task) (hp : task.program = .perform o next) :
    s.nextOp t = some o := by
  simp only [Node.nextOp, ht, bind_some, hp]

theorem nextOp_inv (h : s.nextOp t = some o) : ∃ task next, s.tasks[t]? = some task ∧ task.program = .perform o next := by
  obtain ⟨task, ht, hn⟩ := bind_eq_some_iff.mp h
  cases hp : task.program with
  | perform o' next =>
    simp only [hp, Option.some.injEq] at hn
    subst hn
    exact ⟨task, next, ht, hp⟩
  | done v =>
    simp only [hp] at hn
    cases hn
  | loop l =>
    simp only [hp] at hn
    cases hn

end Eggwork.Server
