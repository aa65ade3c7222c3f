import Eggwork.Server.Gate
import Eggwork.Server.Moves

/-! Shutdown reaches every execution.

`NodeServer::shutdown` stores the draining flag without the lock of the map, then
copies the map under it, then cancels what the copy holds record by record. The
flag is stored before the map is locked, and `execute` tests it with the map
locked: a request that was let through has inserted its record before the copy, or
has given up the map. So the copy misses no execution that is in the map, nothing
enters the map after it, and what had left the map before had ended
(`shutdown_reaches_all`). -/
namespace Eggwork.Server
open Lib Store Runner Function List Option Discipline Bool Table Prod Local Protocol View

variable {J : Serde}
variable {r : RecordId} {id : ExecutionId} {t : TaskId}
variable {c : Choice} {order : List (ExecutionId × RecordId)}

/-! ### What leaves the map has ended -/

/-- What a task may remove from the map, or replace in it, is a record whose row has ended. -/
structure Dispensable (locals : TaskId → Local) (v : View J) : Prop where
  walked : ∀ t id r, (id, r) ∈ (locals t).entries →
    (locals t).holds = true ∧ ∀ r', v.executions.get? id = some r' → r' = r
  seen : ∀ t r, r ∈ (locals t).terminal → ∃ record : RecordView, v.records[r]? = some record ∧ v.Ended record.key
  superseded : ∀ t key, (locals t).pending = some key → (locals t).holds = true ∧
    ∀ (r : RecordId) (record : RecordView), v.executions.get? key.1 = some r → v.records[r]? = some record →
      v.Ended record.key

section Performs
variable {locals : TaskId → Local} {n t : TaskId} {o : Op} {origin : Origin} {answer : o.Answer} {v v' : View J} {g : Local}

/-- A row that was there is not live once another of its execution is created. -/
theorem ended_of_created (heffect : Effect t origin v o answer v') (hm : (locals t).advance o answer = some g)
    (hs : v.Sound) {snap : ExecutionSnapshot} (hc : o.creates answer = some snap)
    {key : RowKey} (hr : (v.store.executions.get? key).isSome) (hid : key.1 = (rowKey snap).1) : v'.Ended key := by
  have hs' : v'.Sound := by
    refine (heffect.extends fun req he => ?_).sound hs
    subst he
    cases hc
  obtain ⟨row', hrow'⟩ := isSome_iff_exists.mp ((heffect.keeps hs).1 key hr)
  by_cases hl : v'.Live key
  · have hnew := heffect.created hs hc
    have hsame := hl.unique hs' (View.Live.created heffect hm hs hc).1 hid
    have ha := hnew.absent
    rw [← hsame, rowOf_none] at ha
    rw [ha] at hr
    cases hr
  · refine ⟨row', hrow', ?_⟩
    by_contra hopen
    exact hl ⟨row', hrow', not_eq_true _ ▸ hopen⟩

theorem Dispensable.superseded_performs (he : Effect t origin v o answer v')
    (hm : (locals t).advance o answer = some g) (hn : locals n = Local.idle) (hf : Founded locals v)
    (h : Dispensable locals v) (i : TaskId) (key : RowKey)
    (hi : (update (admissionDiscipline.births locals n o) t g i).pending = some key) :
    (update (admissionDiscipline.births locals n o) t g i).holds = true ∧
      ∀ (r : RecordId) (rec : RecordView), v'.executions.get? key.1 = some r → v'.records[r]? = some rec →
        v'.Ended rec.key := by
  have hs := hf.1.1.sound
  -- the rec of an entry that was there has the key it had
  have hentry : ∀ {r : RecordId} {rec' : RecordView}, v.executions.get? key.1 = some r → v'.records[r]? = some rec' →
      ∃ rec : RecordView, v.records[r]? = some rec ∧ rec'.key = rec.key ∧ rec.key.1 = key.1 := by
    intro r rec' hr hr'
    obtain ⟨rec, hrecord, hk⟩ := hf.1.2.mapped key.1 r hr
    obtain ⟨kept, hkept, hsame⟩ := (he.keeps hs).2.2 r rec hrecord
    rw [hr', Option.some.injEq] at hkept
    exact ⟨rec, hrecord, hkept ▸ hsame, hk⟩
  have hkept : ∀ {i}, (locals i).pending = some key → ∀ {r : RecordId} {rec : RecordView},
      v.executions.get? key.1 = some r → v'.records[r]? = some rec → v'.Ended rec.key := by
    intro i hp r rec' hr hr'
    obtain ⟨rec, hrecord, hk, _⟩ := hentry hr hr'
    rw [hk]
    exact ((h.superseded i key hp).2 r rec hr hrecord).performs he hs
  by_cases hit : i = t
  · subst hit
    rw [update_self] at hi ⊢
    rcases Local.pending_before hm hi with hp | ⟨snap, hc, rfl⟩
    · refine ⟨Local.holds_of_pending hm hp (h.superseded i key hp).1, fun r rec hr hrecord => ?_⟩
      rcases he.entry_before hr with hold | rfl
      · exact hkept hp hold hrecord
      -- once it is inserted nothing is pending
      obtain ⟨_, _, _, _, rfl⟩ := Local.advance_executionsInsert hm
      cases hi
    · refine ⟨(View.Live.created he hm hs hc).2.1, fun r rec' hr hr' => ?_⟩
      rcases he.entry_before hr with hold | rfl
      · obtain ⟨rec, hrecord, hk, hid⟩ := hentry hold hr'
        rw [hk]
        exact ended_of_created he hm hs hc (hf.1.2.named r rec hrecord).2 hid
      · cases hc
  · rw [update_of_ne hit] at hi ⊢
    rw [(births_filing hn o i).1] at hi
    rw [(births_unlocked hn o i).1]
    have hh := (h.superseded i key hi).1
    refine ⟨hh, fun r rec hr hrecord => hkept hi ?_ hrecord⟩
    by_cases hremoved : o.remaps = true
    · exact absurd (unique_holder hf hh (Local.holds_of_remaps hm hremoved)) hit
    · rwa [← he.executions_same (Bool.not_eq_true _ ▸ hremoved)]

theorem Dispensable.performs (he : Effect t origin v o answer v') (hm : (locals t).advance o answer = some g)
    (hn : locals n = Local.idle) (hf : Founded locals v) (ha : Attested locals v)
    (h : Dispensable locals v) : Dispensable (update (admissionDiscipline.births locals n o) t g) v' where
  walked := walked_performs he hm hn hf h.walked
  seen := seen_performs he hm hn hf ha h.seen
  superseded := h.superseded_performs he hm hn hf

/-- An entry that an operation takes from the map is of a row that has ended. -/
theorem Dispensable.displaced (h : Dispensable locals v) (he : Effect t origin v o answer v')
    (hm : (locals t).advance o answer = some g) {rec : RecordView} (hentry : v.executions.get? id = some r)
    (hr : v.records[r]? = some rec) (hgone : v'.executions.get? id ≠ some r) : v.Ended rec.key := by
  by_cases hremoved : o.remaps = false
  · rw [he.executions_same hremoved] at hgone
    exact absurd hentry hgone
  cases he with
  | executionsRemove id' =>
    rw [get?_delete] at hgone
    split at hgone
    · rename_i hid
      obtain rfl := beq_iff_eq.mp hid
      exact ended_of_removes hm h.walked h.seen hentry hr
    · exact absurd hentry hgone
  | executionsInsert id' r' =>
    rw [get?_put] at hgone
    split at hgone
    · rename_i hid
      obtain ⟨_, key, hk, hrole, _⟩ := advance_executionsInsert hm
      have hp : (locals t).pending = some key := by simp only [pending, hrole]
      exact (h.superseded t key hp).2 r rec (by rw [hk, ← hid]; exact hentry) hr
    · exact absurd hentry hgone
  | quiet hq =>
    cases o <;> first
      | exact absurd rfl hremoved
      | cases hq
  | _ => exact absurd rfl hremoved

end Performs

/-- Tasks have only given up what they had, and no row has come back to life. -/
theorem Dispensable.mono {locals locals' : TaskId → Local} {v v' : View J} (h : Dispensable locals v)
    (hexecutions : v'.executions = v.executions) (hended : ∀ key, v.Ended key → v'.Ended key)
    (hkept : ∀ (r : RecordId) (rec : RecordView), v.records[r]? = some rec →
      ∃ rec' : RecordView, v'.records[r]? = some rec' ∧ rec'.key = rec.key)
    (hb : ∀ (r : RecordId) (rec' : RecordView), v'.records[r]? = some rec' →
      ∃ rec : RecordView, v.records[r]? = some rec ∧ rec'.key = rec.key) (hl : ∀ t, locals' t = locals t ∨
      ((locals' t).pending = none ∧ (locals' t).entries = [] ∧ (locals' t).terminal = [])) : Dispensable locals' v' := by
  refine ⟨fun t id r ht => ?_, fun t r ht => ?_, fun t key ht => ?_⟩
  · rcases hl t with he | ⟨_, hn, _⟩
    · rw [he] at ht ⊢
      rw [hexecutions]
      exact h.walked t id r ht
    · rw [hn] at ht
      cases ht
  · rcases hl t with he | ⟨_, _, hn⟩
    · rw [he] at ht
      obtain ⟨rec, hrecord, hend⟩ := h.seen t r ht
      obtain ⟨rec', hr', hk⟩ := hkept r rec hrecord
      exact ⟨rec', hr', hk ▸ hended _ hend⟩
    · rw [hn] at ht
      cases ht
  · rcases hl t with he | ⟨hn, _⟩
    · rw [he] at ht ⊢
      obtain ⟨hh, hs⟩ := h.superseded t key ht
      refine ⟨hh, fun r rec' hr hr' => ?_⟩
      obtain ⟨rec, hrecord, hk⟩ := hb r rec' hr'
      rw [hk]
      exact hended _ (hs r rec (hexecutions ▸ hr) hrecord)
    · rw [hn] at ht
      cases ht

theorem Dispensable.idle (v : View J) : Dispensable (fun _ => idle) v :=
  ⟨fun _ _ _ ht => (nomatch ht), fun _ _ ht => (nomatch ht), fun _ _ ht => (nomatch ht)⟩

theorem dispensable_inductive (Rule : Node J → Action → Prop) : runDiscipline.Inductive Rule
    (fun locals v => Founded (fun t => (locals t).1) v ∧ Attested (fun t => (locals t).1) v)
    fun locals => Dispensable fun t => (locals t).1 where
  performs _ _ _ _ _ he hm _ hn _ hg h := by
    rw [fst_update, fst_births]
    exact h.performs he (prod_advance.mp hm).1 (congrArg fst hn) hg.1 hg.2
  releases {locals v t} _ _ h :=
    h.mono rfl (fun _ => id) (View.Extends.release v t).records key_of_release fun _ => .inl rfl
  arrives {locals v n} origin _ _ hn _ h := by
    rw [fst_update]
    refine h.mono rfl (fun _ => id) (fun r rec hr => ⟨rec, hr, rfl⟩) (fun r rec hr => ⟨rec, hr, rfl⟩) fun t => ?_
    by_cases ht : t = n
    · subst ht
      rw [update_self]
      right
      cases origin <;> exact ⟨rfl, rfl, rfl⟩
    · exact .inl (update_of_ne ht _ _)
  drops {s t task locals} _ _ _ _ _ _ h := by
    rw [fst_update]
    refine h.mono rfl (fun _ => id) (View.Extends.release _ t).records key_of_release fun i => ?_
    by_cases hi : i = t
    · subst hi
      rw [update_self]
      exact .inr ⟨rfl, rfl, rfl⟩
    · exact .inl (update_of_ne hi _ _)
  jobs {s i fails o now call locals} _ _ _ hg h := by
    have hsame : ∀ (r : RecordId) (rec : RecordView), s.view.records[r]? = some rec →
        ∃ rec' : RecordView, s.view.records[r]? = some rec' ∧ rec'.key = rec.key :=
      fun r rec hr => ⟨rec, hr, rfl⟩
    cases fails
    · exact h.mono rfl (fun _ hend => hend.exec hg.1.1.1.sound (.inr ⟨call, rfl⟩)) hsame
        (fun r rec hr => ⟨rec, hr, rfl⟩) fun _ => .inl rfl
    · exact h.mono rfl (fun _ => id) hsame (fun r rec hr => ⟨rec, hr, rfl⟩) fun _ => .inl rfl
  crashes _ _ := .idle _
  recovers now _ hidle _ _ _ := by
    rw [funext hidle]
    exact .idle _
  starts now _ hidle _ _ _ _ _ := by
    rw [funext hidle]
    exact .idle _

/-! ### The call -/

/-- Where a call of `shutdown` stands. Once the map is copied, `records` is the copy
and `rest` what the loop has still to look at. -/
inductive Shutdown where
  | idle
  | flagged
  | asking (records rest : List RecordId)
  | reading (records : List RecordId) (r : RecordId) (rest : List RecordId)
  | cancelling (records : List RecordId) (r : RecordId) (rest : List RecordId)
deriving DecidableEq

namespace Shutdown

/-- The set it has collected. -/
def records? : Shutdown → Option (List RecordId)
  | .asking records _ | .reading records .. | .cancelling records .. => some records
  | _ => none

/-- What is not yet dealt with. -/
def pending : Shutdown → List RecordId
  | .asking _ rest => rest
  | .reading _ r rest | .cancelling _ r rest => r :: rest
  | _ => []

/-- Its next access to the node. The copy waits for the map; its order is the hash map's. -/
def step (s : Node J) (order : List (ExecutionId × RecordId)) : Shutdown → Option (Node J × Shutdown)
  | .idle => if s.up then some ({s with draining := true}, .flagged) else none
  | .flagged =>
    if s.executionsLock.isNone && order.isPerm s.executions.rows then
      some (s, .asking (order.map Prod.snd) (order.map Prod.snd))
    else none
  | .asking _ [] => none
  | .asking records (r :: rest) => s.records[r]?.map fun record =>
    (s, if record.finished then .asking records rest else .reading records r rest)
  | .reading records r rest => s.records[r]?.map fun record =>
    (s, if isTerminal record.snapshot.state then .asking records rest else .cancelling records r rest)
  | .cancelling records r rest =>
    some (s.modifyRecord r fun record => {record with cancelled := true}, .asking records rest)

end Shutdown

/-! ### A node with a call of `shutdown` -/

def Node.mapped (s : Node J) : List RecordId := s.executions.rows.map Prod.snd

/-- The record's row is stored as terminal. -/
def Node.ended (s : Node J) (r : RecordId) : Bool :=
  (s.records[r]?).any fun record => (s.store.executions.get? record.key).any fun row => isTerminalName row.state

/-- The record is cancelled, or finished, or its row has ended. -/
def Node.reached (s : Node J) (r : RecordId) : Bool :=
  (s.records[r]?).any (fun record => record.cancelled || record.finished) || s.ended r

/-- The records an action puts into the map; a start puts in all it loads. -/
def Node.inserts (s s' : Node J) : Action → List RecordId
  | .task t _ =>
    match s.nextOp t with
    | some (.executionsInsert _ r) => [r]
    | _ => []
  | .start _ => List.range s'.records.length
  | _ => []

variable {s : Node J}

/-- One process and its call of `shutdown`. An observer notes the records ever put
into the map, and those that have left it, with whether their rows had ended. -/
structure Closing (J : Serde) where
  node : Node J
  shutdown : Shutdown
  inserted : List RecordId
  left : List (RecordId × Bool)

inductive Turn where
  | node (a : Action)
  | shutdown (order : List (ExecutionId × RecordId))

namespace Closing

def noted (s : Closing J) (a : Action) (node : Node J) : Closing J where
  node := node
  shutdown := s.shutdown
  inserted := s.inserted ++ s.node.inserts node a
  left := s.left ++ ((s.node.mapped ++ s.node.inserts node a).filter fun r => !node.mapped.contains r).map
    fun r => (r, node.ended r)

def step (config : NodeConfig) (s : Closing J) : Turn → Option (Closing J)
  | .node .crash => (Server.step config s.node .crash).map fun node => ⟨node, .idle, [], []⟩
  | .node a => (Server.step config s.node a).map (s.noted a)
  | .shutdown order => (s.shutdown.step s.node order).map fun after => {s with node := after.1, shutdown := after.2}

def fresh (J : Serde) : Closing J := ⟨Server.fresh J, .idle, [], []⟩

/-- `set_draining(false)` is not called while the node shuts down. -/
def undrained (s : Closing J) : Turn → Bool
  | .node (.setDraining false) => s.shutdown == .idle
  | _ => true

abbrev Undrained (s : Closing J) (turn : Turn) : Prop := s.undrained turn = true

end Closing

/-! ### The map and the records across a step -/

theorem mem_mapped : r ∈ s.mapped ↔ ∃ id, s.executions.get? id = some r := by
  constructor
  · intro h
    obtain ⟨⟨id, r'⟩, hr, rfl⟩ := mem_map.mp h
    exact ⟨id, mem_rows.mp hr⟩
  · rintro ⟨id, hid⟩
    exact mem_map_of_mem (f := snd) (mem_rows.mpr hid)

theorem ended_iff : s.ended r = true ↔ ∃ rec, s.records[r]? = some rec ∧ s.view.Ended rec.key := by
  simp only [Node.ended, Option.any_eq_true]
  rfl

theorem reached_iff : s.reached r = true ↔ ∃ rec, s.records[r]? = some rec ∧
      (rec.cancelled = true ∨ rec.finished = true ∨ s.view.Ended rec.key) := by
  simp only [Node.reached, Bool.or_eq_true, Option.any_eq_true, ended_iff]
  constructor
  · rintro (⟨rec, hr, hst⟩ | ⟨rec, hr, he⟩)
    · exact ⟨rec, hr, hst.imp id .inl⟩
    · exact ⟨rec, hr, .inr (.inr he)⟩
  rintro ⟨rec, hr, hc | hf | he⟩
  · exact .inl ⟨rec, hr, .inl hc⟩
  · exact .inl ⟨rec, hr, .inr hf⟩
  · exact .inr ⟨rec, hr, he⟩

section Step
variable {config : NodeConfig} {locals locals' : TaskId → (Local × RunStage) × Gate} {s s' : Node J} {a : Action}

/-- An entry of the map was there before, or has just been inserted. -/
theorem entry_before (h : gatedDiscipline.Lives config locals s a s') (hentry : s'.executions.get? id = some r) :
    s.executions.get? id = some r ∨ ∃ t c, a = .task t c ∧ s.nextOp t = some (.executionsInsert id r) := by
  rcases h.executions with he | ⟨t, c, task, o, next, answer, s₁, g, rfl, ht, hprogram, hp, _, he⟩
  · exact .inl (he ▸ hentry)
  rw [he] at hentry
  rcases (perform_effect ht hp).entry_before hentry with hold | rfl
  · exact .inl hold
  · exact .inr ⟨t, c, rfl, nextOp_eq ht hprogram⟩

theorem entry_inserted (h : gatedDiscipline.Moves config locals s (.task t c) locals' s')
    (hn : s.nextOp t = some (.executionsInsert id r)) : s'.executions.get? id = some r := by
  obtain ⟨task, next, ht, hprogram⟩ := nextOp_inv hn
  cases h with
  | performs htask' hp' hp =>
    rw [ht, some.injEq] at htask'
    subst htask'
    rw [hprogram] at hp'
    cases hp'
    cases hp
    rw [executions_resume]
    exact (get?_put ..).trans (if_pos rfl)
  | rounds htask' hp' =>
    rw [ht, some.injEq] at htask'
    subst htask'
    rw [hprogram] at hp'
    cases hp'

/-- What leaves the map has ended. -/
theorem displaced (h : gatedDiscipline.Lives config locals s a s')
    (hd : Dispensable (fun t => (locals t).1.1) s.view) {rec : ExecutionRecord}
    (hentry : s.executions.get? id = some r) (hr : s.records[r]? = some rec)
    (hgone : s'.executions.get? id ≠ some r) : s.view.Ended rec.key := by
  rcases h.executions with he | ⟨t, c, task, o, next, answer, s₁, g, rfl, ht, _, hp, hm, he⟩ <;> rw [he] at hgone
  · exact absurd hentry hgone
  have hl := (prod_advance.mp (prod_advance.mp hm).1).1
  exact hd.displaced (perform_effect ht hp) hl hentry (view_record hr) hgone

theorem ended_later (h : gatedDiscipline.Moves config locals s a locals' s') (hs : s.view.Sound) {key : RowKey}
    (he : s.view.Ended key) : s'.view.Ended key := he.exec hs h.store_cases

theorem reached_later (h : gatedDiscipline.Moves config locals s a locals' s') (hup : s.up = true) (ha : a ≠ .crash)
    (hs : s.view.Sound) (hready : s.reached r = true) : s'.reached r = true := by
  obtain ⟨rec, hr, hc⟩ := reached_iff.mp hready
  obtain ⟨rec', hr', hl⟩ := (h.lives hup ha).later r rec hr
  refine reached_iff.mpr ⟨rec', hr', ?_⟩
  rw [hl.key]
  exact hc.imp hl.cancelled (Or.imp hl.finished (ended_later h hs))

/-! ### The gate while the node drains -/

/-- With the flag up nobody is let through. -/
theorem barred_performs {o : Op} {answer : o.Answer} {g g' : Gate} (hp : perform config s t c o = some (answer, s'))
    (hd : s.draining = true) (hm : g.advance o answer = some g') (hbar : g.unbarred = false) : g'.unbarred = false := by
  cases o <;> first
    | (cases hm; exact hbar)
    | skip
  case loadDraining =>
    cases hp
    cases hm
    rw [hd]
    cases g <;> first
      | rfl
      | cases hbar
  case lockExecutions | unlockExecutions | respond | isPersistentlyDraining =>
    cases hm
    cases g <;> first
      | rfl
      | cases hbar
  case reserve | executionsInsert =>
    obtain ⟨_, ⟨⟩⟩ := ite_none_right_eq_some.mp hm
    exact hbar

theorem barred_moves (h : gatedDiscipline.Moves config locals s a locals' s') (hd : s.draining = true)
    (hbar : ∀ t, (locals t).2.unbarred = false) (t : TaskId) : (locals' t).2.unbarred = false :=
  unreached_moves rfl rfl (fun hp => barred_performs hp hd) h hbar t

theorem barred_inserts (hk : gatedDiscipline.Keeps locals s) (hbar : (locals t).2.unbarred = false) :
    s.nextOp t ≠ some (.executionsInsert id r) := by
  intro hn
  rw [cleared_of_gated hk rfl hn] at hbar
  cases hbar

end Step

/-! ### The invariant -/

/-- What the proofs about the gate rest on. -/
abbrev WellGated (locals : TaskId → (Local × RunStage) × Gate) (v : View J) : Prop :=
  ((Founded (fun t => (locals t).1.1) v ∧ Attested (fun t => (locals t).1.1) v) ∧
    Dispensable (fun t => (locals t).1.1) v) ∧ Gated locals v

theorem wellGated_inductive (Rule : Node J → Action → Prop) : gatedDiscipline.Inductive Rule Nothing WellGated :=
  (((founded_inductive Rule).left.and (attested_inductive Rule)).and (dispensable_inductive Rule)).left.and
    ((gated_inductive Rule).given fun _ => trivial)

theorem wellGated_fresh : WellGated (fun _ => gatedDiscipline.idle) (fresh J).view :=
  ⟨⟨⟨founded_fresh, fun _ _ hr => (nomatch hr), fun _ _ _ _ ht => (nomatch ht)⟩, .idle _⟩, fun _ ht => (nomatch ht)⟩

/-- The call and the notes, against the node. -/
structure Closing.Sound (locals : TaskId → (Local × RunStage) × Gate) (s : Closing J) : Prop where
  active : s.shutdown ≠ .idle → s.node.up = true ∧ s.node.draining = true
  barred : s.shutdown.records? ≠ none → ∀ t, (locals t).2.unbarred = false
  accounted : ∀ r ∈ s.inserted, r ∈ s.node.mapped ∨ (r, true) ∈ s.left
  copied : ∀ records, s.shutdown.records? = some records → ∀ r ∈ s.node.mapped, r ∈ records
  made : ∀ r ∈ s.shutdown.pending, (s.node.records[r]?).isSome = true
  handled : ∀ records, s.shutdown.records? = some records →
    ∀ r ∈ records, r ∉ s.shutdown.pending → s.node.reached r = true

namespace Closing
variable {config : NodeConfig} {s : Closing J} {locals locals' : TaskId → (Local × RunStage) × Gate} {node : Node J} {a : Action}

theorem active_of_records (h : s.shutdown.records? ≠ none) : s.shutdown ≠ .idle := by
  intro he
  rw [he] at h
  exact h rfl

theorem Sound.idle (hidle : s.shutdown = .idle) (ha : ∀ r ∈ s.inserted, r ∈ s.node.mapped ∨ (r, true) ∈ s.left) :
    s.Sound locals := by
  refine ⟨?_, ?_, ha, ?_, ?_, ?_⟩ <;> rw [hidle]
  · exact fun hact => absurd rfl hact
  · exact fun hc => absurd rfl hc
  all_goals exact fun _ h => nomatch h

/-- What the map had and the action put into it is in the map, or is noted as having left it. -/
theorem mapped_or_left (hr : r ∈ s.node.mapped ++ s.node.inserts node a)
    (he : r ∉ node.mapped → node.ended r = true) : r ∈ node.mapped ∨ (r, true) ∈ (s.noted a node).left := by
  by_cases hmap : r ∈ node.mapped
  · exact .inl hmap
  right
  have hf : r ∈ (s.node.mapped ++ s.node.inserts node a).filter fun r => !node.mapped.contains r := by
    refine mem_filter.mpr ⟨hr, ?_⟩
    simpa using hmap
  have hpair := mem_map_of_mem (f := fun r => (r, node.ended r)) hf
  rw [he hmap] at hpair
  exact mem_append_right _ hpair

/-- What leaves the map of a live node, or is replaced in it at once, has ended. -/
theorem ended_of_gone (hup : s.node.up = true) (ha : a ≠ .crash) (hinv : WellGated locals s.node.view)
    (hm : gatedDiscipline.Moves config locals s.node a locals' node)
    (hr : r ∈ s.node.mapped ++ s.node.inserts node a) (hgone : r ∉ node.mapped) : node.ended r = true := by
  have hl := hm.lives hup ha
  rcases mem_append.mp hr with hr | hr
  · obtain ⟨id, hid⟩ := mem_mapped.mp hr
    obtain ⟨view, hview, _⟩ := hinv.1.1.1.1.2.mapped id r hid
    rw [view_getElem?] at hview
    obtain ⟨rec, hrecord, _⟩ := map_eq_some_iff.mp hview
    obtain ⟨rec', hr', hlater⟩ := hl.later r rec hrecord
    have he := displaced hl hinv.1.2 hid hrecord fun hkept => hgone (mem_mapped.mpr ⟨id, hkept⟩)
    exact ended_iff.mpr ⟨rec', hr', hlater.key ▸ ended_later hm hinv.1.1.1.1.1.sound he⟩
  · cases a with
    | task t c =>
      simp only [Node.inserts] at hr
      split at hr
      · rename_i id r' hn
        obtain rfl := mem_singleton.mp hr
        exact absurd (mem_mapped.mpr ⟨id, entry_inserted hm hn⟩) hgone
      · cases hr
    | start fault =>
      cases hm with
      | starts hdown =>
        rw [hup] at hdown
        cases hdown
    | _ => cases hr

theorem ended_of_started (hdown : s.node.up = false) (hk : gatedDiscipline.Keeps locals s.node)
    (hinv : WellGated locals s.node.view) (hinv' : WellGated locals' node.view)
    (hm : gatedDiscipline.Moves config locals s.node a locals' node) (hr : r ∈ s.node.inserts node a) :
    node.ended r = true := by
  cases a with
  | task t c =>
    simp only [Node.inserts] at hr
    split at hr
    · rename_i id r' hn
      obtain ⟨task, _, ht, _⟩ := nextOp_inv hn
      rw [hk.up ht] at hdown
      cases hdown
    · cases hr
  | start fault =>
    obtain ⟨record, hrecord⟩ : ∃ record, node.records[r]? = some record :=
      ⟨_, List.getElem?_eq_getElem (mem_range.mp hr)⟩
    obtain ⟨row, hrow⟩ := isSome_iff_exists.mp (hinv'.1.1.1.1.2.named r _ (view_record hrecord)).2
    refine ended_iff.mpr ⟨record, hrecord, row, hrow, ?_⟩
    have hempty : s.node.records = [] := by
      have hstop := congrArg records (hk.down hdown).2
      exact map_eq_nil_iff.mp hstop
    cases hm with
    | starts =>
      rcases start_cases config s.node fault with he | he | ⟨cut, snapshots, hrecorded, _, he⟩
      · rw [he, hempty] at hrecord
        cases hrecord
      · rw [he] at hrecord
        have hrecord : s.node.records[r]? = some record := hrecord
        rw [hempty] at hrecord
        cases hrecord
      · by_contra hopen
        refine not_live_of_starts hinv.1.1.1.1.1.sound hrecorded snapshots record.view.key ⟨row, ?_, not_eq_true _ ▸ hopen⟩
        rw [he, (view_foldl_load snapshots _).1] at hrow
        exact hrow
  | _ => cases hr

theorem Sound.acts (h : s.Sound locals) (ha : a ≠ .crash) (hrule : s.Undrained (.node a))
    (hk : gatedDiscipline.Keeps locals s.node) (hinv : WellGated locals s.node.view)
    (hinv' : WellGated locals' node.view) (hm : gatedDiscipline.Moves config locals s.node a locals' node) :
    (s.noted a node).Sound locals' := by
  by_cases hup : s.node.up = true
  · have hl := hm.lives hup ha
    have hu : s.shutdown ≠ .idle → a ≠ .setDraining false := by
      rintro hact rfl
      exact hact (beq_iff_eq.mp hrule)
    refine ⟨fun hact => ?_, fun hc => ?_, fun r hr => ?_, fun recs hc r hr => ?_, fun r hr => ?_,
      fun recs hc r hr hdone => ?_⟩
    · exact ⟨hl.up, hl.draining (hu hact) (h.active hact).2⟩
    · exact barred_moves hm (h.active (active_of_records hc)).2 (h.barred hc)
    · rcases mem_append.mp hr with hr | hr
      · rcases h.accounted r hr with hmapped | hleft
        · exact mapped_or_left (mem_append_left _ hmapped)
            (ended_of_gone hup ha hinv hm (mem_append_left _ hmapped))
        · exact .inr (mem_append_left _ hleft)
      · exact mapped_or_left (mem_append_right _ hr) (ended_of_gone hup ha hinv hm (mem_append_right _ hr))
    · obtain ⟨id, hid⟩ := mem_mapped.mp hr
      rcases entry_before hl hid with hold | ⟨t, c, rfl, hn⟩
      · exact h.copied recs hc r (mem_mapped.mpr ⟨id, hold⟩)
      · have hbar := h.barred (hc ▸ some_ne_none _) t
        exact absurd hn (barred_inserts hk hbar)
    · obtain ⟨rec, hrecord⟩ := isSome_iff_exists.mp (h.made r hr)
      obtain ⟨rec', hr', _⟩ := hl.later r rec hrecord
      exact isSome_iff_exists.mpr ⟨rec', hr'⟩
    · exact reached_later hm hup ha hinv.1.1.1.1.1.sound (h.handled recs hc r hr hdone)
  · -- a node that is down has no call under way and an empty map
    have hdown : s.node.up = false := not_eq_true _ ▸ hup
    have hidle : s.shutdown = .idle := by
      by_contra hact
      exact hup (h.active hact).1
    have he : s.node.mapped = [] := by
      have hmap : s.node.executions = empty := congrArg executions (hk.down hdown).2
      rw [Node.mapped, hmap]
      rfl
    refine .idle hidle fun r hr => ?_
    rcases mem_append.mp hr with hr | hr
    · rcases h.accounted r hr with hmapped | hleft
      · rw [he] at hmapped
        cases hmapped
      · exact .inr (mem_append_left _ hleft)
    · exact mapped_or_left (mem_append_right _ hr) fun _ => ended_of_started hdown hk hinv hinv' hm hr

theorem Sound.passes (h : s.Sound locals) {recs rest : List RecordId} (hrs : s.shutdown.records? = some recs)
    (hp : s.shutdown.pending = r :: rest) (hl : s.node.Later node) (hview : node.view = s.node.view)
    (hd : node.draining = s.node.draining) (hready : node.reached r = true) :
    Sound locals {s with node := node, shutdown := .asking recs rest} := by
  have he : node.executions = s.node.executions := congrArg executions hview
  have hmap : node.mapped = s.node.mapped := by rw [Node.mapped, he, Node.mapped]
  have hact : s.shutdown ≠ .idle := active_of_records (hrs ▸ some_ne_none _)
  refine ⟨fun _ => ?_, fun _ => h.barred (hrs ▸ some_ne_none _), fun i hi => ?_, fun records' hc i hi => ?_,
    fun i hi => ?_, fun records' hc i hi hdone => ?_⟩
  · exact ⟨(congrArg up hview).trans (h.active hact).1, hd.trans (h.active hact).2⟩
  · show i ∈ node.mapped ∨ _
    rw [hmap]
    exact h.accounted i hi
  · cases hc
    rw [hmap] at hi
    exact h.copied recs hrs i hi
  · obtain ⟨rec, hr⟩ := isSome_iff_exists.mp (h.made i (hp ▸ mem_cons_of_mem r hi))
    obtain ⟨rec', hr', _⟩ := hl i rec hr
    exact isSome_iff_exists.mpr ⟨rec', hr'⟩
  cases hc
  by_cases hir : i = r
  · exact hir ▸ hready
  have hold : i ∉ s.shutdown.pending := by
    rw [hp]
    exact fun hm => (mem_cons.mp hm).elim hir hdone
  obtain ⟨rec, hr, hcase⟩ := reached_iff.mp (h.handled recs hrs i hi hold)
  obtain ⟨rec', hr', hl'⟩ := hl i rec hr
  refine reached_iff.mpr ⟨rec', hr', ?_⟩
  rw [hl'.key, hview]
  exact hcase.imp hl'.cancelled (Or.imp hl'.finished id)

theorem Sound.stays (h : s.Sound locals) {shutdown : Shutdown} (hrs : s.shutdown.records? = shutdown.records?)
    (hsome : s.shutdown.records? ≠ none) (hp : s.shutdown.pending = shutdown.pending) :
    Sound locals {s with shutdown := shutdown} where
  active _ := h.active (active_of_records hsome)
  barred hc := h.barred (hrs ▸ hc)
  accounted := h.accounted
  copied records hc := h.copied records (hrs ▸ hc)
  made r hr := h.made r (hp ▸ hr)
  handled records hc r hr hdone := h.handled records (hrs ▸ hc) r hr (hp ▸ hdone)

/-- The call has copied the map: with the map unlocked, nobody is let through any more. -/
theorem Sound.copies (h : s.Sound locals) (hflag : s.shutdown = .flagged) (hinv : WellGated locals s.node.view)
    (hf : s.node.executionsLock = none) (ho : order.Perm s.node.executions.rows) :
    Sound locals {s with shutdown := .asking (order.map snd) (order.map snd)} := by
  have hact : s.shutdown ≠ .idle := by
    rw [hflag]
    exact Shutdown.noConfusion
  have hcopy : ∀ r, r ∈ order.map snd ↔ r ∈ s.node.mapped := fun r => (ho.map snd).mem_iff
  refine ⟨fun _ => h.active hact, fun _ t => ?_, h.accounted, fun recs hc r hr => ?_, fun r hr => ?_,
    fun recs hc r hr hdone => ?_⟩
  · have hw := hinv.2.empty hinv.1.1.1 hf t
    revert hw
    cases (locals t).2 <;> simp [Gate.within, Gate.unbarred]
  · cases hc
    exact (hcopy r).mpr hr
  · obtain ⟨id, hid⟩ := mem_mapped.mp ((hcopy r).mp hr)
    obtain ⟨view, hview, _⟩ := hinv.1.1.1.1.2.mapped id r hid
    rw [view_getElem?] at hview
    obtain ⟨rec, hrecord, _⟩ := map_eq_some_iff.mp hview
    exact isSome_iff_exists.mpr ⟨rec, hrecord⟩
  · cases hc
    exact absurd hr hdone

theorem Sound.calls (h : s.Sound locals) (hinv : WellGated locals s.node.view) {after : Node J × Shutdown}
    (hstep : s.shutdown.step s.node order = some after) :
    (after.1.threads = s.node.threads ∧ after.1.view = s.node.view) ∧
      Sound locals {s with node := after.1, shutdown := after.2} := by
  obtain ⟨node, shutdown, inserted, left⟩ := s
  have hsame : node.Later node := .same rfl
  cases shutdown with
  | idle =>
    obtain ⟨hup, ⟨⟩⟩ := ite_none_right_eq_some.mp hstep
    exact ⟨⟨rfl, rfl⟩, ⟨fun _ => ⟨hup, rfl⟩, fun hc => absurd rfl hc, h.accounted, fun _ hc => (nomatch hc),
      fun _ hr => (nomatch hr), fun _ hc => (nomatch hc)⟩⟩
  | flagged =>
    obtain ⟨hg, ⟨⟩⟩ := ite_none_right_eq_some.mp hstep
    obtain ⟨hf, ho⟩ := and_eq_true_iff.mp hg
    exact ⟨⟨rfl, rfl⟩, h.copies rfl hinv (isNone_iff_eq_none.mp hf) (isPerm_iff.mp ho)⟩
  | asking recs rest =>
    cases rest with
    | nil => cases hstep
    | cons r rest =>
      obtain ⟨rec, hrecord, rfl⟩ := map_eq_some_iff.mp hstep
      refine ⟨⟨rfl, rfl⟩, ?_⟩
      split
      · rename_i hfinal
        exact h.passes rfl rfl hsame rfl rfl (reached_iff.mpr ⟨rec, hrecord, .inr (.inl hfinal)⟩)
      · exact h.stays rfl (some_ne_none _) rfl
  | reading recs r rest =>
    obtain ⟨rec, hrecord, rfl⟩ := map_eq_some_iff.mp hstep
    refine ⟨⟨rfl, rfl⟩, ?_⟩
    split
    · rename_i hterm
      have he := hinv.1.1.2.written r _ (view_record hrecord) hterm
      exact h.passes rfl rfl hsame rfl rfl (reached_iff.mpr ⟨rec, hrecord, .inr (.inr he)⟩)
    · exact h.stays rfl (some_ne_none _) rfl
  | cancelling recs r rest =>
    cases hstep
    have hview := view_modifyRecord_hidden node r (fun rec => {rec with cancelled := true}) fun _ => rfl
    refine ⟨⟨rfl, hview⟩, ?_⟩
    obtain ⟨rec, hrecord⟩ := isSome_iff_exists.mp (h.made r mem_cons_self)
    refine h.passes rfl rfl (later_modifyRecord node r fun _ => ⟨rfl, fun _ => rfl, id⟩) hview rfl ?_
    refine reached_iff.mpr ⟨{rec with cancelled := true}, ?_, .inl rfl⟩
    rw [records_modify, hrecord]
    exact congrArg some (if_pos rfl)

/-- The invariant, with the local states it is about. -/
def Holds (s : Closing J) : Prop :=
  ∃ locals, gatedDiscipline.Keeps locals s.node ∧ WellGated locals s.node.view ∧ s.Sound locals

theorem Holds.step {s' : Closing J} {turn : Turn} (h : s.Holds) (hrule : s.Undrained turn)
    (hstep : Closing.step config s turn = some s') : s'.Holds := by
  obtain ⟨locals, hk, hinv, hs⟩ := h
  -- a step of the node moves the invariants of the node
  have hacts : ∀ {a node}, Server.step config s.node a = some node → ∃ locals', gatedDiscipline.Keeps locals' node ∧
      WellGated locals' node.view ∧ gatedDiscipline.Moves config locals s.node a locals' node := by
    intro a node hnode
    obtain ⟨locals', hk', hm⟩ := hk.moves hnode
    exact ⟨locals', hk', (wellGated_inductive Free).moves trivial hk hm hinv, hm⟩
  cases turn with
  | shutdown order =>
    obtain ⟨after, hafter, rfl⟩ := map_eq_some_iff.mp hstep
    obtain ⟨⟨ht, hview⟩, hs'⟩ := hs.calls hinv hafter
    exact ⟨locals, hk.same ht hview, hview ▸ hinv, hs'⟩
  | node a =>
    by_cases ha : a = .crash
    · subst ha
      obtain ⟨node, hnode, rfl⟩ := map_eq_some_iff.mp hstep
      obtain ⟨locals', hk', hinv', _⟩ := hacts hnode
      exact ⟨locals', hk', hinv', .idle rfl fun _ hr => (nomatch hr)⟩
    · have hnot : Closing.step config s (.node a) = (Server.step config s.node a).map (s.noted a) := by
        cases a <;> first
          | rfl
          | exact absurd rfl ha
      rw [hnot] at hstep
      obtain ⟨node, hnode, rfl⟩ := map_eq_some_iff.mp hstep
      obtain ⟨locals', hk', hinv', hm⟩ := hacts hnode
      exact ⟨locals', hk', hinv', hs.acts ha hrule hk hinv hinv' hm⟩

theorem holds_fresh : (fresh J).Holds :=
  ⟨_, keeps_fresh, wellGated_fresh, .idle rfl fun _ hr => (nomatch hr)⟩

end Closing

/-- **Shutdown reaches every execution.** In every run of a node with a call of
`shutdown`, under any interleaving with its tasks, in which `set_draining(false)` is
not called meanwhile, once the call has copied the map:
every record ever put into the map is in the copy, or has left the map when its
row had already ended;
once the call is through, each record of the copy is cancelled, or is finished or has ended;
and no step puts a record into the map. -/
theorem shutdown_reaches_all {config : NodeConfig} {s : Closing J}
    (hrun : Steps (Closing.step config) Closing.Undrained (Closing.fresh J) s) {records : List RecordId}
    (hcopied : s.shutdown.records? = some records) : (∀ r ∈ s.inserted, r ∈ records ∨ (r, true) ∈ s.left) ∧
      (s.shutdown.pending = [] → ∀ r ∈ records, ∃ record, s.node.records[r]? = some record ∧
        (record.cancelled = true ∨ record.finished = true ∨ s.node.ended r = true)) ∧
      ∀ a node, step config s.node a = some node → s.node.inserts node a = [] := by
  obtain ⟨locals, hkeeps, hinv, hsound⟩ :=
    hrun.invariant Closing.Holds (fun hrule hstep h => h.step hrule hstep) Closing.holds_fresh
  have hsome : s.shutdown.records? ≠ none := hcopied ▸ some_ne_none _
  refine ⟨fun r hr => ?_, fun hdone r hr => ?_, fun a node hstep => ?_⟩
  · exact (hsound.accounted r hr).imp (hsound.copied records hcopied r) id
  · have hpending : r ∉ s.shutdown.pending := hdone ▸ not_mem_nil
    obtain ⟨record, hrecord, hcases⟩ := reached_iff.mp (hsound.handled records hcopied r hr hpending)
    exact ⟨record, hrecord, hcases.imp id (Or.imp id fun hended => ended_iff.mpr ⟨record, hrecord, hended⟩)⟩
  cases a with
  | task t choice =>
    simp only [Node.inserts]
    split
    · rename_i id r hnext
      exact absurd hnext (barred_inserts hkeeps (hsound.barred hsome t))
    · rfl
  | start fault =>
    have hup := (hsound.active (Closing.active_of_records hsome)).1
    simp only [step, hup, if_true] at hstep
    cases hstep
  | _ => rfl

namespace Example

/-- The flag is stored just after a request was let through; the copy waits for the
request to give up the map, and the record it has inserted is cancelled. -/
def shutDown : List Turn :=
  ([.start .none, execute 1] ++ runs 0 6).map Turn.node ++ [.shutdown []] ++ (runs 0 17).map Turn.node ++
    [.shutdown [((handle 1).executionId, 0)]] ++ List.replicate 3 (.shutdown [])

end Example

theorem shutdown_reaches_all_overtaken :
    ∃ s : Closing Serde.json, Steps (Closing.step Example.config) Closing.Undrained (Closing.fresh Serde.json) s ∧
      s.shutdown = .asking [0] [] ∧ s.inserted = [0] ∧ ((∀ r ∈ s.inserted, r ∈ [0] ∨ (r, true) ∈ s.left) ∧
        (s.shutdown.pending = [] → ∀ r ∈ [0], ∃ record, s.node.records[r]? = some record ∧
          (record.cancelled = true ∨ record.finished = true ∨ s.node.ended r = true)) ∧
        ∀ a node, step Example.config s.node a = some node → s.node.inserts node a = []) := by
  have hfollow : (follow (Closing.step Example.config) Closing.Undrained (Closing.fresh Serde.json) Example.shutDown).any
      (fun s => decide (s.shutdown = .asking [0] [] ∧ s.inserted = [0])) = true := by
    decide
  obtain ⟨s, hrun, hstate⟩ := follow_reaches hfollow
  obtain ⟨hshutdown, hinserted⟩ := of_decide_eq_true hstate
  exact ⟨s, hrun, hshutdown, hinserted, shutdown_reaches_all hrun (by rw [hshutdown]; rfl)⟩

end Eggwork.Server
