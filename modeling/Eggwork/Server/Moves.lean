import Eggwork.Server.Discipline

/-! What a step does to a record, field by field.

The view leaves out what most invariants do not need: the lease of a record and
its lock, the output channel of its run, permits. `Op.touch` is what an operation
does to one record, all of it, and `perform_record` says that nothing else
happens to any record. -/
namespace Eggwork.Server
open Lib Store Runner Function Option

variable {J : Serde}
variable {t : TaskId} {c : Choice} {a : Action} {face : Face}
variable {cfg : NodeConfig} {i : RecordId} {prog p : Async Unit}

/-- What an operation of task `t` does to record `r`. -/
def Op.touch (t : TaskId) : Op → RecordId → ExecutionRecord → ExecutionRecord
  | .writeSnapshot i snapshot, r, record => if i = r then {record with snapshot} else record
  | .lockCommit i, r, record => if i = r then {record with commitLock := some t} else record
  | .unlockCommit i, r, record => if i = r then {record with commitLock := none} else record
  | .cancel i, r, record => if i = r then {record with cancelled := true} else record
  | .finish i, r, record => if i = r then {record with finished := true} else record
  | .lockLease i, r, record => if i = r then {record with leaseLock := some t} else record
  | .unlockLease i, r, record => if i = r then {record with leaseLock := none} else record
  | .extendLease i expiresAt, r, record =>
    if i = r then {record with lease := {record.lease with expiresAt}} else record
  | .expireLease i, r, record => if i = r then {record with lease := {record.lease with expired := true}} else record
  | .send i event, r, record => if i = r then {record with events := record.events.send event} else record
  | .startRunner i, r, record => if i = r then {record with pipe := some Pipe.channel} else record
  | .select i closed pending, r, record =>
    if i = r then {record with pipe := record.pipe.map fun pipe => (pipe.select closed pending).elim pipe (·.2)}
    else record
  | .tryRecv i, r, record => if i = r then {record with pipe := record.pipe.map (·.tryRecv.2)} else record
  | .respond _, _, record => Node.releaseLocks t record
  | _, _, record => record

def Op.makes (config : NodeConfig) (s : Node J) : Op → Option ExecutionRecord
  | .newRecord snapshot hash => some (Server.newRecord config s snapshot hash)
  | _ => none

theorem records_modify (s : Node J) (i r : RecordId) (f : ExecutionRecord → ExecutionRecord) :
    (s.modifyRecord i f).records[r]? = s.records[r]?.map fun record => if i = r then f record else record := by
  show (s.records.modify i f)[r]? = _
  rw [List.getElem?_modify]
  split <;> rfl

theorem records_act (s : Node J) (t : TaskId) (a : Act) (key : RowKey) : (s.act t a key).records = s.records := by
  unfold Node.act
  split <;> rfl

theorem records_releasePermit (s : Node J) (t : TaskId) : (s.releasePermit t).records = s.records := by
  unfold Node.releasePermit
  split
  · split <;> rfl
  · rfl

/-- The output channel of a record that has one is replaced. -/
theorem records_modify_pipe {s : Node J} {pipe : Pipe} (hpipe : (s.records[i]?).bind (·.pipe) = some pipe)
    (f : Pipe → Pipe) (r : RecordId) : (s.modifyRecord i fun record => {record with pipe := some (f pipe)}).records[r]? =
      s.records[r]?.map fun record => if i = r then {record with pipe := record.pipe.map f} else record := by
  rw [records_modify]
  cases hr : s.records[r]? with
  | none => rfl
  | some record =>
    simp only [map_some]
    split
    · rename_i hir
      subst hir
      rw [hr, bind_some] at hpipe
      rw [hpipe]
      rfl
    · rfl

/-- Nothing but its `touch` happens to a record, and only a new one is added. -/
theorem perform_record {s s' : Node J} {o : Op} {answer : o.Answer} (h : perform cfg s t c o = some (answer, s'))
    (r : Nat) :
    s'.records[r]? = (s.records[r]?.map (o.touch t r)).or (if r = s.records.length then o.makes cfg s else none) := by
  have hkept : ∀ {l : List ExecutionRecord} {made : Option ExecutionRecord} {f : ExecutionRecord → ExecutionRecord},
      made = none → l[r]? = s.records[r]?.map f →
      l[r]? = (s.records[r]?.map f).or (if r = s.records.length then made else none) := by
    rintro l made f rfl hl
    rw [ite_self, or_none, hl]
  have hsame : ∀ {l : List ExecutionRecord} {made : Option ExecutionRecord}, made = none → l = s.records →
      l[r]? = (s.records[r]?.map fun record => record).or (if r = s.records.length then made else none) := by
    rintro l made hmade rfl
    exact hkept hmade map_id'.symm
  cases o <;> first
    | (cases h; exact hsame rfl rfl)
    | (cases h; exact hkept rfl (records_modify s _ r _))
    | skip
  case lockExecutions | executionsIter | lookup | reserve | updateLease | loadPage | loadSnapshot | tryAcquirePermit =>
    simp only [perform] at h
    split at h <;> cases h <;> exact hsame rfl rfl
  case commitEvent snapshot kind =>
    simp only [perform] at h
    split at h <;> cases h
    · apply hsame rfl
      split
      · exact records_act _ t _ _
      · rfl
    · exact hsame rfl rfl
  case newRecord snapshot hash =>
    cases h
    show (s.records ++ [newRecord cfg s snapshot hash])[r]? =
      (s.records[r]?.map fun record => record).or (if r = s.records.length then some (newRecord cfg s snapshot hash) else none)
    rw [List.getElem?_append, map_id']
    split
    · rename_i hr
      rw [List.getElem?_eq_getElem hr]
      rfl
    rename_i hr
    rw [List.getElem?_eq_none (Nat.le_of_not_lt hr), none_or, List.getElem?_singleton]
    split <;> split <;> first
      | rfl
      | omega
  case readSnapshot | recordLeaseHash | readLease | subscribe =>
    obtain ⟨record, _, he⟩ := map_eq_some_iff.mp h
    cases he
    exact hsame rfl rfl
  case lockCommit i | lockLease i =>
    simp only [perform] at h
    split at h
    · split at h <;> cases h
      exact hkept rfl (records_modify s i r _)
    · cases h
  case cancel i | extendLease i _ =>
    obtain ⟨record, _, he⟩ := map_eq_some_iff.mp h
    cases he
    refine hkept rfl ?_
    rw [records_act]
    exact records_modify s i r _
  case waitLease | recv =>
    simp only [perform] at h
    split at h
    · split at h
      all_goals first
        | (split at h <;> cases h; exact hsame rfl rfl)
        | (cases h; exact hsame rfl rfl)
    · cases h
  case dropPermit =>
    cases h
    exact hsame rfl (records_releasePermit s t)
  case markActive =>
    simp only [perform, markActive] at h
    split at h
    · cases h
      exact hsame rfl rfl
    · split at h <;> cases h <;> exact hsame rfl rfl
  case markTerminal =>
    simp only [perform, markTerminal] at h
    split at h <;> cases h <;> exact hsame rfl rfl
  case spawnRun =>
    simp only [perform] at h
    split at h <;> cases h
    exact hsame rfl rfl
  case respond response =>
    cases h
    refine hkept rfl ?_
    show (s.records.map (Node.releaseLocks t))[r]? = _
    rw [List.getElem?_map]
    rfl
  case select i closed pending =>
    simp only [perform] at h
    split at h
    · rename_i pipe hpipe
      obtain ⟨polled, hp, he⟩ := map_eq_some_iff.mp h
      cases he
      refine hkept rfl ((records_modify_pipe hpipe (fun _ => polled.2) r).trans ?_)
      cases hrecord : s.records[r]? with
      | none => rfl
      | some record =>
        simp only [map_some, Op.touch]
        split
        · rename_i hir
          subst hir
          rw [hrecord, bind_some] at hpipe
          simp only [hpipe, map_some, hp, elim_some]
        · rfl
    · cases h
  case isDrained =>
    obtain ⟨pipe, _, he⟩ := map_eq_some_iff.mp h
    cases he
    exact hsame rfl rfl
  case tryRecv i =>
    obtain ⟨pipe, hpipe, he⟩ := map_eq_some_iff.mp h
    cases he
    exact hkept rfl (records_modify_pipe hpipe (fun pipe => pipe.tryRecv.2) r)

/-- The operation that sets the draining flag. -/
def Op.drains : Op → Bool
  | .storeDraining => true
  | _ => false

variable {o : Op} {answer : o.Answer}

/-- Two states of a node at one time, under one marker; the flag may have been raised. -/
structure Node.Steady (s s' : Node J) (raised : Bool) : Prop where
  instant : s'.instant = s.instant
  unixMillis : s'.unixMillis = s.unixMillis
  marker : s'.marker = s.marker
  draining : s'.draining = (raised || s.draining)

theorem steady_releasePermit (s : Node J) (t : TaskId) : s.Steady (s.releasePermit t) false := by
  unfold Node.releasePermit
  split
  · split <;> exact ⟨rfl, rfl, rfl, rfl⟩
  · exact ⟨rfl, rfl, rfl, rfl⟩

/-- No operation takes time or touches the marker, and only one sets the flag. -/
theorem perform_steady {s s' : Node J} (h : perform cfg s t c o = some (answer, s')) : s.Steady s' o.drains := by
  have hact : ∀ {s : Node J} {a key}, s.Steady (s.act t a key) false := by
    intro s a key
    unfold Node.act
    split <;> exact ⟨rfl, rfl, rfl, rfl⟩
  cases o <;> first
    | (cases h; exact ⟨rfl, rfl, rfl, rfl⟩)
    | (obtain ⟨rec, _, he⟩ := map_eq_some_iff.mp h
       cases he
       first
         | exact ⟨rfl, rfl, rfl, rfl⟩
         | exact ⟨hact.instant, hact.unixMillis, hact.marker, hact.draining⟩)
    | skip
  case dropPermit | respond =>
    cases h
    have hp := steady_releasePermit s t
    exact ⟨hp.instant, hp.unixMillis, hp.marker, hp.draining⟩
  case commitEvent snapshot kind =>
    simp only [perform] at h
    split at h <;> cases h
    · split
      · exact ⟨hact.instant, hact.unixMillis, hact.marker, hact.draining⟩
      · exact ⟨rfl, rfl, rfl, rfl⟩
    · exact ⟨rfl, rfl, rfl, rfl⟩
  case select =>
    simp only [perform] at h
    split at h
    · obtain ⟨polled, _, he⟩ := map_eq_some_iff.mp h
      cases he
      exact ⟨rfl, rfl, rfl, rfl⟩
    · cases h
  case markActive | markTerminal =>
    simp only [perform, markActive, markTerminal] at h
    repeat' split at h
    all_goals (cases h; exact ⟨rfl, rfl, rfl, rfl⟩)
  all_goals
    simp only [perform] at h
    repeat' split at h
    all_goals first
      | (cases h; exact ⟨rfl, rfl, rfl, rfl⟩)
      | cases h

theorem perform_clock {s s' : Node J} (h : perform cfg s t c o = some (answer, s')) :
    s'.instant = s.instant ∧ s'.unixMillis = s.unixMillis := ⟨(perform_steady h).instant, (perform_steady h).unixMillis⟩

/-! ### The other steps -/

theorem records_resume (s : Node J) (t : TaskId) (program : Async Unit) (r : RecordId) :
    (s.resume t program).records[r]? =
      s.records[r]?.map fun record => if program.isDone then Node.releaseLocks t record else record := by
  cases program with
  | done v =>
    show (s.records.map (Node.releaseLocks t))[r]? = _
    rw [List.getElem?_map]
    rfl
  | perform o next | loop l => exact map_id'.symm

theorem steady_resume (s : Node J) (t : TaskId) (prog : Async Unit) : s.Steady (s.resume t prog) false := by
  cases prog with
  | done v =>
    have hp := steady_releasePermit (s.modifyTask t fun task => {task with program := .done v}) t
    exact ⟨hp.instant, hp.unixMillis, hp.marker, hp.draining⟩
  | _ => exact ⟨rfl, rfl, rfl, rfl⟩

theorem modifyPipe_eq {s s' : Node J} {f : Pipe → Option Pipe} (h : modifyPipe s i f = some s') :
    ∃ rec pipe pipe', s.records[i]? = some rec ∧ rec.pipe = some pipe ∧ f pipe = some pipe' ∧
      s' = s.modifyRecord i fun rec => {rec with pipe := some pipe'} := by
  unfold modifyPipe at h
  split at h
  · rename_i pipe hpipe
    obtain ⟨rec, hr, hpipe⟩ := bind_eq_some_iff.mp hpipe
    obtain ⟨pipe', hf, rfl⟩ := map_eq_some_iff.mp h
    exact ⟨rec, pipe, pipe', hr, hpipe, hf, rfl⟩
  · cases h

theorem foldl_insertLoaded_frame {α : Type} (f : Node J → α) (hf : ∀ s snap, f (insertLoaded s snap) = f s)
    (snaps : List ExecutionSnapshot) (s : Node J) : f (snaps.foldl insertLoaded s) = f s := by
  induction snaps generalizing s with
  | nil => rfl
  | cons snap rest ih => exact (ih (insertLoaded s snap)).trans (hf s snap)

/-- Loading adds a record for each snapshot and moves nothing else but the map. -/
theorem foldl_insertLoaded (snaps : List ExecutionSnapshot) (s : Node J) :
    (snaps.foldl insertLoaded s).records = s.records ++ snaps.map (loadedRecord s) ∧
      (snaps.foldl insertLoaded s).tasks = s.tasks ∧ (snaps.foldl insertLoaded s).permits = s.permits := by
  induction snaps generalizing s with
  | nil => exact ⟨(List.append_nil _).symm, rfl, rfl⟩
  | cons snap rest ih =>
    obtain ⟨hrs, ht, hp⟩ := ih (insertLoaded s snap)
    refine ⟨?_, ht, hp⟩
    rw [List.foldl_cons, hrs, List.map_cons]
    show s.records ++ [loadedRecord s snap] ++ rest.map (loadedRecord s) = _
    rw [List.append_assoc]
    rfl

/-! ### Records only go on -/

/-- A record as it may be found later: of the same row, and cancelled or finished if it was. -/
structure ExecutionRecord.Later (record record' : ExecutionRecord) : Prop where
  key : record'.key = record.key
  cancelled : record.cancelled = true → record'.cancelled = true
  finished : record.finished = true → record'.finished = true

theorem Op.touch_later (t : TaskId) (o : Op) (r : RecordId) (rec : ExecutionRecord) : rec.Later (o.touch t r rec) := by
  cases o <;> simp only [Op.touch] <;> first
    | exact ⟨rfl, id, id⟩
    | (split <;> first | exact ⟨rfl, id, id⟩ | exact ⟨rfl, fun _ => rfl, id⟩ | exact ⟨rfl, id, fun _ => rfl⟩)

/-- Each record of a node is found again in the next one. -/
def Node.Later (s s' : Node J) : Prop :=
  ∀ (r : RecordId) (record : ExecutionRecord), s.records[r]? = some record →
    ∃ record', s'.records[r]? = some record' ∧ record.Later record'

variable {s s' : Node J}

theorem Node.Later.same (h : s'.records = s.records) : s.Later s' :=
  fun _ rec hr => ⟨rec, h ▸ hr, rfl, id, id⟩

theorem Node.Later.trans {s'' : Node J} (h : s.Later s') (h' : s'.Later s'') : s.Later s'' := by
  intro r rec hr
  obtain ⟨rec', hr', hl⟩ := h r rec hr
  obtain ⟨record'', hrecord'', hl'⟩ := h' r rec' hr'
  exact ⟨record'', hrecord'', hl'.key.trans hl.key, fun hc => hl'.cancelled (hl.cancelled hc),
    fun hf => hl'.finished (hl.finished hf)⟩

theorem later_modifyRecord (s : Node J) (i : RecordId) {f : ExecutionRecord → ExecutionRecord}
    (hf : ∀ rec : ExecutionRecord, rec.Later (f rec)) : s.Later (s.modifyRecord i f) := by
  intro r rec hr
  rw [records_modify, hr]
  refine ⟨_, rfl, ?_⟩
  split
  · exact hf rec
  · exact ⟨rfl, id, id⟩

theorem later_perform (h : perform cfg s t c o = some (answer, s')) : s.Later s' := by
  intro r rec hr
  rw [perform_record h r, hr]
  exact ⟨_, rfl, o.touch_later t r rec⟩

theorem later_resume (s : Node J) (t : TaskId) (prog : Async Unit) : s.Later (s.resume t prog) := by
  intro r rec hr
  rw [records_resume, hr]
  refine ⟨_, rfl, ?_⟩
  split <;> exact ⟨rfl, id, id⟩

theorem executions_resume (s : Node J) (t : TaskId) (prog : Async Unit) :
    (s.resume t prog).executions = s.executions := by
  rcases view_resume s t prog with he | ⟨_, he⟩ <;> exact congrArg View.executions he

/-- What a step leaves of a process that lives: its records go on, the flag stays
raised until it is taken back, and only an operation moves the map. -/
structure Discipline.Lives {G : Type} (D : Discipline G) (config : NodeConfig) (locals : TaskId → G) (s : Node J) (a : Action)
    (s' : Node J) : Prop where
  up : s'.up = true
  later : s.Later s'
  draining : a ≠ .setDraining false → s.draining = true → s'.draining = true
  executions : s'.executions = s.executions ∨ ∃ (t : TaskId) (choice : Choice) (task : Task) (o : Op) (next : o.Answer → Async Unit)
    (answer : o.Answer) (s₁ : Node J) (g : G), a = .task t choice ∧ s.tasks[t]? = some task ∧ task.program = .perform o next ∧
      perform config s t choice o = some (answer, s₁) ∧ D.protocol.advance (locals t) o answer = some g ∧
      s'.executions = s₁.executions

theorem Discipline.Moves.lives {G : Type} {D : Discipline G} {ls ls' : TaskId → G}
    (h : D.Moves cfg ls s a ls' s') (hup : s.up = true) (ha : a ≠ .crash) : D.Lives cfg ls s a s' := by
  have hr : ∀ (s : Node J) t prog, (s.resume t prog).draining = s.draining :=
    fun s t prog => (steady_resume s t prog).draining
  cases h with
  | performs ht hprogram hp hm =>
    refine ⟨?_, (later_perform hp).trans (later_resume _ _ _), fun _ hd => ?_,
      .inr ⟨_, _, _, _, _, _, _, _, rfl, ht, hprogram, hp, hm, executions_resume _ _ _⟩⟩
    · rw [(resume_up _ _ _).1]
      exact (perform_effect ht hp).up.trans hup
    · rw [hr, (perform_steady hp).draining, hd, Bool.or_true]
  | rounds =>
    exact ⟨(resume_up _ _ _).1.trans hup, later_resume _ _ _, fun _ => (hr _ _ _).trans, .inl (executions_resume _ _ _)⟩
  | @drops t task =>
    have hjobs : s.Later {s with jobs := s.jobs ++ Server.detached task.program} := .same rfl
    exact ⟨(resume_up _ _ _).1.trans hup, hjobs.trans (later_resume _ _ _), fun _ hd => (hr _ _ _).trans hd,
      .inl (executions_resume _ _ _)⟩
  | @finishes i fails => cases fails <;> exact ⟨hup, .same rfl, fun _ => id, .inl rfl⟩
  | writes hpipe | closes hpipe | exits hpipe =>
    obtain ⟨_, _, _, _, _, _, rfl⟩ := modifyPipe_eq hpipe
    exact ⟨hup, later_modifyRecord s _ fun _ => ⟨rfl, id, id⟩, fun _ => id, .inl rfl⟩
  | arrives | answers | ticks | marks | furnishes => exact ⟨hup, .same rfl, fun _ => id, .inl rfl⟩
  | @drains draining =>
    refine ⟨hup, .same rfl, fun hu _ => ?_, .inl rfl⟩
    cases draining
    · exact absurd rfl hu
    · rfl
  | crashes => exact absurd rfl ha
  | starts hdown => cases hup.symm.trans hdown

/-! ### Where a task comes from -/

theorem thread_of_resume {i : TaskId} (hi : (s.resume t prog).threads[i]? = some (face, p)) :
    ∃ p', s.threads[i]? = some (face, p') ∧ p = if i = t then prog else p' := by
  rw [threads_resume] at hi
  by_cases ht : t = i
  · subst ht
    rw [List.getElem?_modify_eq] at hi
    obtain ⟨⟨face', p'⟩, hthreads, he⟩ := map_eq_some_iff.mp hi
    cases he
    exact ⟨p', hthreads, (if_pos rfl).symm⟩
  · rw [List.getElem?_modify_ne _ _ ht] at hi
    exact ⟨p, hi, (if_neg (Ne.symm ht)).symm⟩

/-- A thread after an operation was there before, or was spawned by it. -/
theorem thread_before (h : perform cfg s t c o = some (answer, s')) (prog : Async Unit) {i : Nat}
    (hi : (s'.resume t prog).threads[i]? = some (face, p)) :
    (∃ face' p', s.threads[i]? = some (face', p') ∧ face.origin = face'.origin ∧ p = if i = t then prog else p') ∨
      ∃ spawned, o.spawns = some spawned ∧ i = s.threads.length ∧ face.origin = spawned.1 ∧
        p = if i = t then prog else .loop spawned.2 := by
  obtain ⟨p₁, hthreads, hprogram⟩ := thread_of_resume hi
  rw [perform_threads h, List.getElem?_append, List.length_modify] at hthreads
  split at hthreads
  · left
    by_cases ht : t = i
    · subst ht
      rw [List.getElem?_modify_eq] at hthreads
      obtain ⟨⟨face', p'⟩, hold, he⟩ := map_eq_some_iff.mp hthreads
      cases he
      exact ⟨face', p', hold, o.shows_origin face', hprogram⟩
    · rw [List.getElem?_modify_ne _ _ ht] at hthreads
      exact ⟨face, p₁, hthreads, rfl, hprogram⟩
  · right
    unfold Op.spawned at hthreads
    cases hs : o.spawns with
    | none =>
      rw [hs] at hthreads
      cases hthreads
    | some spawned =>
      rw [hs] at hthreads
      obtain ⟨hlast, he⟩ := List.getElem?_eq_some_iff.mp hthreads
      rw [List.length_singleton] at hlast
      rw [List.getElem_singleton] at he
      cases he
      exact ⟨spawned, rfl, by omega, rfl, hprogram⟩

/-- What holds of every task: of where it comes from, its local state and what remains of
its program. -/
theorem Discipline.Moves.tasks {G : Type} {D : Discipline G} {ls ls' : TaskId → G} {P : Origin → G → Async Unit → Prop}
    (hspawns : ∀ {t task o answer g origin l}, s.tasks[t]? = some task → D.protocol.advance (ls t) o answer = some g →
      o.spawns = some (origin, l) → P origin (D.birth origin) (.loop l))
    (harrives : ∀ {origin p}, origin.isRequest = true → s.up = true → P origin (D.birth origin) p)
    (hperforms : ∀ {origin g o next answer g'}, P origin g (.perform o next) →
      D.protocol.advance g o answer = some g' → P origin g' (next answer))
    (hrounds : ∀ {origin g l}, P origin g (.loop l) → P origin g (body l))
    (hdrops : ∀ {origin g p}, origin.isRequest = true → P origin g p → P origin D.idle (.done ()))
    (hmoves : D.Moves cfg ls s a ls' s')
    (h : ∀ {t face prog}, s.threads[t]? = some (face, prog) → P face.origin (ls t) prog)
    (ht : s'.threads[t]? = some (face, prog)) : P face.origin (ls' t) prog := by
  cases hmoves with
  | @performs t' task c o next answer s₁ g htask hprogram hp hm hn =>
    by_cases htt : t = t'
    · subst htt
      rw [update_self]
      rcases thread_before hp _ ht with ⟨face', p', hthreads, horigin, hnext⟩ | ⟨_, _, hlen, _⟩
      · have hold := h hthreads
        rw [threads_getElem? htask] at hthreads
        cases hthreads
        rw [hprogram] at hold
        rw [horigin, hnext, if_pos rfl]
        exact hperforms hold hm
      · exact absurd hlen (Nat.ne_of_lt (born htask))
    rw [update_of_ne htt]
    unfold births
    rcases thread_before hp _ ht with ⟨face', p', hthreads, horigin, hsame⟩ | ⟨⟨origin, l⟩, hs, hlen, horigin, hloop⟩
    · have hlt := (List.getElem?_eq_some_iff.mp hthreads).1
      rw [horigin, hsame, if_neg htt]
      cases o.spawns with
      | none => exact h hthreads
      | some spawned =>
        show P face'.origin (update ls s.threads.length _ t) p'
        rw [update_of_ne (Nat.ne_of_lt hlt)]
        exact h hthreads
    · rw [hloop, if_neg htt]
      simp only [hs, hlen, update_self, horigin]
      exact hspawns htask hm hs
  | @rounds t' task c l htask hprogram hbody =>
    obtain ⟨p', hthreads, hnext⟩ := thread_of_resume ht
    rw [hnext]
    split
    · rename_i htt
      subst htt
      have hold := h hthreads
      rw [threads_getElem? htask] at hthreads
      cases hthreads
      rw [hprogram] at hold
      exact hrounds hold
    · exact h hthreads
  | @arrives request task hup htask =>
    obtain ⟨hrequest, hblank⟩ := isRequest_of_task htask
    have hthrs : Node.threads {s with tasks := s.tasks ++ [task]} = s.threads ++ [(task.face, task.program)] :=
      List.map_append
    rw [hthrs, List.getElem?_append] at ht
    split at ht
    · rename_i hlt
      rw [update_of_ne (Nat.ne_of_lt hlt)]
      exact h ht
    rename_i hlt
    obtain ⟨hlast, he⟩ := List.getElem?_eq_some_iff.mp ht
    have hlen : t = s.threads.length := Nat.le_antisymm (Nat.sub_eq_zero_iff_le.mp (Nat.lt_one_iff.mp hlast)) (Nat.le_of_not_lt hlt)
    rw [List.getElem_singleton] at he
    cases he
    rw [hlen, update_self, hblank]
    exact harrives hrequest hup
  | @drops t' task htask hr hall =>
    obtain ⟨p', hthreads, hdone⟩ := thread_of_resume ht
    have hthreads : s.threads[t]? = some (face, p') := hthreads
    rw [hdone]
    by_cases htt : t = t'
    · subst htt
      have hold := h hthreads
      rw [threads_getElem? htask] at hthreads
      cases hthreads
      rw [update_self, if_pos rfl]
      exact hdrops hr hold
    · rw [update_of_ne htt, if_neg htt]
      exact h hthreads
  | @finishes i fails o call hjob hcall => cases fails <;> exact h ht
  | writes hpipe | closes hpipe | exits hpipe => exact h ((modifyPipe_hidden hpipe).1 ▸ ht)
  | answers | ticks | marks | drains | furnishes => exact h ht
  | crashes => cases ht
  | @starts fault hdown hidle =>
    have hsame : (start cfg s fault).threads = s.threads := by
      rcases start_cases cfg s fault with he | he | ⟨cut, snaps, _, _, he⟩
      · rw [he]
      · rw [he]
        rfl
      · rw [he, (view_foldl_load snaps _).2]
        rfl
    exact h (hsame ▸ ht)

end Eggwork.Server
