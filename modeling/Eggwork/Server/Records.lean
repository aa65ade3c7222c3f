import Eggwork.Server.Ownership

/-! A record is the record of its row.

A record is made for one row and stays with it: its snapshot, and every snapshot
a task has read from it or is about to write to it, is of that row (`Recorded`).
The run of a record is a run that was spawned for its row. None of this depends on
which requests are dropped. -/
namespace Eggwork.Server
open Lib Store Runner Function Option List Local Table View

variable {J : Serde}
variable {t : TaskId} {r : RecordId} {origin : Origin} {record' : RecordView} {snapshot : ExecutionSnapshot}
variable {n : TaskId} {now : Int} {snaps : List ExecutionSnapshot}

/-! ### Records across a step -/

theorem View.record_of_modify {v : View J} {i : RecordId} {f : RecordView → RecordView}
    (h : (v.modifyRecord r f).records[i]? = some record') :
    ∃ rec, v.records[i]? = some rec ∧ ((r ≠ i ∧ record' = rec) ∨ (r = i ∧ record' = f rec)) := by
  have h : (v.records.modify r f)[i]? = some record' := h
  rw [getElem?_modify] at h
  obtain ⟨rec, hr, he⟩ := map_eq_some_iff.mp h
  refine ⟨rec, hr, ?_⟩
  split at he
  · rename_i hi
    exact .inr ⟨hi, he.symm⟩
  · rename_i hi
    exact .inl ⟨hi, he.symm⟩

theorem View.record_of_release {v : View J} (h : (v.release t).records[r]? = some record') :
    ∃ record, v.records[r]? = some record ∧ record' = releaseLock t record := by
  have h : (v.records.map (releaseLock t))[r]? = some record' := h
  rw [getElem?_map] at h
  obtain ⟨record, hr, he⟩ := map_eq_some_iff.mp h
  exact ⟨record, hr, he.symm⟩

/-- A record is an old one, with its key and lease, or the one just made; its
snapshot is the old one or the one just written. -/
theorem Effect.record_before {v v' : View J} {o : Op} {answer : o.Answer} (h : Effect t origin v o answer v') {r : Nat}
    (hr' : v'.records[r]? = some record') :
    (∃ record, v.records[r]? = some record ∧ record'.key = record.key ∧ record'.leaseHash = record.leaseHash ∧
        (record'.snapshot = record.snapshot ∨ o = .writeSnapshot r record'.snapshot)) ∨
      ∃ snapshot hash, o = .newRecord snapshot hash ∧ r = v.records.length ∧
        record' = recordOf snapshot hash false := by
  cases h with
  | newRecord snapshot hash =>
    rw [getElem?_append] at hr'
    split at hr'
    · exact .inl ⟨record', hr', rfl, rfl, .inl rfl⟩
    rw [getElem?_singleton] at hr'
    split at hr' <;> cases hr'
    exact .inr ⟨snapshot, hash, rfl, by omega, rfl⟩
  | writeSnapshot i snapshot =>
    obtain ⟨record, hr, ⟨_, rfl⟩ | ⟨rfl, rfl⟩⟩ := record_of_modify hr'
    · exact .inl ⟨record', hr, rfl, rfl, .inl rfl⟩
    · exact .inl ⟨record, hr, rfl, rfl, .inr rfl⟩
  | lockCommit | unlockCommit | finish | send =>
    obtain ⟨record, hr, ⟨_, rfl⟩ | ⟨rfl, rfl⟩⟩ := record_of_modify hr'
    · exact .inl ⟨record', hr, rfl, rfl, .inl rfl⟩
    · exact .inl ⟨record, hr, rfl, rfl, .inl rfl⟩
  | respond =>
    obtain ⟨record, hr, rfl⟩ := record_of_release hr'
    exact .inl ⟨record, hr, rfl, rfl, .inl rfl⟩
  | _ => exact .inl ⟨record', hr', rfl, rfl, .inl rfl⟩

/-- An entry of the map is an old one or the one just inserted. -/
theorem Effect.entry_before {v v' : View J} {o : Op} {answer : o.Answer} (h : Effect t origin v o answer v')
    {id : ExecutionId} (he : v'.executions.get? id = some r) :
    v.executions.get? id = some r ∨ o = .executionsInsert id r := by
  cases h with
  | executionsRemove id' =>
    rw [get?_delete] at he
    split at he
    · cases he
    · exact .inl he
  | executionsInsert id' r' =>
    rw [get?_put] at he
    split at he
    · rename_i hid
      cases he
      exact .inr (hid ▸ rfl)
    · exact .inl he
  | _ => exact .inl he

/-- Records, rows and spawned runs are kept by every operation. -/
theorem Effect.keeps {v v' : View J} {o : Op} {answer : o.Answer} (h : Effect t origin v o answer v') (hs : v.Sound) :
    (∀ key, (v.store.executions.get? key).isSome → (v'.store.executions.get? key).isSome) ∧
      spawnedKeys v.log ⊆ spawnedKeys v'.log ∧ ∀ (r : RecordId) (rec : RecordView), v.records[r]? = some rec →
        ∃ record' : RecordView, v'.records[r]? = some record' ∧ record'.key = rec.key := by
  by_cases hspared : ∀ req, o ≠ .spawnRun req
  · have he := h.extends hspared
    exact ⟨he.rows hs, he.spawned ▸ List.Subset.refl _, he.records⟩
  cases h with
  | spawnRun hrecord =>
    refine ⟨fun _ => id, ?_, fun r rec hr => ⟨rec, hr, rfl⟩⟩
    rw [spawnedKeys_spawned]
    exact subset_append_left _ _
  | quiet hq =>
    cases o <;> first
      | exact absurd (fun _ => Op.noConfusion) hspared
      | cases hq
  | _ => exact absurd (fun _ => Op.noConfusion) hspared

theorem Effect.store_cases {v v' : View J} {o : Op} {answer : o.Answer} (h : Effect t origin v o answer v') :
    v'.store = v.store ∨ ∃ now call, o.call now = some call ∧ v'.store = call.exec v.store := by
  cases h with
  | reserve => exact .inr ⟨_, _, rfl, rfl⟩
  | refusedCommit now | commitEvent now => exact .inr ⟨now, _, rfl, rfl⟩
  | updateLease => exact .inr ⟨_, _, rfl, rfl⟩
  | _ => exact .inl rfl

/-- So it is after every step. -/
theorem Discipline.Moves.store_cases {G : Type} {D : Discipline G} {cfg : NodeConfig} {locals locals' : TaskId → G}
    {s s' : Node J} {a : Action} (h : D.Moves cfg locals s a locals' s') :
    s'.store = s.store ∨ ∃ call : Call, s'.store = call.exec s.store := by
  have hr : ∀ (s : Node J) (t : TaskId) (prog : Async Unit), (s.resume t prog).store = s.store := by
    intro s t prog
    rcases view_resume s t prog with he | ⟨_, he⟩
    · exact congrArg store he
    · exact congrArg store he
  cases h with
  | performs ht hprogram hp hm hn =>
    rw [hr]
    rcases (perform_effect ht hp).store_cases with he | ⟨_, call, _, he⟩
    · exact .inl he
    · exact .inr ⟨call, he⟩
  | rounds | drops => exact .inl (hr _ _ _)
  | @finishes i fails o call hjob hcall =>
    cases fails
    · exact .inr ⟨call, rfl⟩
    · exact .inl rfl
  | writes hpipe | closes hpipe | exits hpipe => exact .inl (congrArg store (modifyPipe_hidden hpipe).2)
  | arrives | answers | ticks | marks | drains | furnishes | crashes => exact .inl rfl
  | @starts fault hdown hidle =>
    rcases start_cases cfg s fault with he | he | ⟨cut, snaps, _, _, he⟩
    · exact .inl (congrArg Node.store he)
    · exact .inr ⟨.recover s.unixMillis, congrArg Node.store he⟩
    · refine .inr ⟨.recover s.unixMillis, (congrArg Node.store he).trans ?_⟩
      exact (congrArg store (view_foldl_load snaps _).1).trans (foldl_load_store snaps _)

/-! ### Local states across a step -/

/-- The snapshot a task has read from a record in order to publish on it, or has
committed and not yet written to it. -/
def Publishing.snapshot? : Publishing → Option (RecordId × ExecutionSnapshot)
  | .based r base => some (r, base)
  | .wrote r proposed _ => some (r, proposed)
  | _ => none

def Publishing.record? : Publishing → Option RecordId
  | .idle => none
  | .locked r | .based r _ | .wrote r .. | .told r _ => some r

theorem birth_publishing (origin : Origin) : (birth origin).publishing = .idle := by
  cases origin <;> rfl

/-- What an operation spawns is a run, or has nothing to do with the protocol. -/
theorem births_cases {locals : TaskId → Local} (hn : locals n = idle) (o : Op) (i : TaskId) :
    admissionDiscipline.births locals n o i = locals i ∨ ∃ req, o = .spawnRun req ∧ i = n ∧
        admissionDiscipline.births locals n o i = {idle with role := .run req.record} := by
  cases o <;> first
    | exact .inl rfl
    | skip
  case spawnMonitor r =>
    left
    show update locals n idle i = locals i
    rw [← hn, update_eq_self]
  case spawnRun req =>
    by_cases hi : i = n
    · subst hi
      exact .inr ⟨req, rfl, rfl, update_self ..⟩
    · exact .inl (update_of_ne hi _ _)

theorem Local.read_publishing (g : Local) (r : RecordId) (snapshot : ExecutionSnapshot) :
    (g.read r snapshot).publishing = if g.publishing = .locked r then .based r snapshot else g.publishing := by
  unfold read
  split <;> dsimp only <;> split <;> rfl

theorem Local.advance_commitEvent {g g' : Local} {proposed : ExecutionSnapshot} {kind : ExecutionEventKind}
    {answer : Except StoreError (Option ExecutionEvent)} (h : g.advance (.commitEvent proposed kind) answer = some g') :
    ∃ r base, g.publishing = .based r base ∧ g.mayCommit r base proposed kind = true ∧
      ((∃ ev, answer = .ok (some ev) ∧ g' = {g with publishing := .wrote r proposed ev}) ∨
        (published answer = false ∧ g' = {g with publishing := .locked r})) := by
  simp only [advance] at h
  split at h
  · rename_i r base hb
    split at h
    · rename_i hmay
      refine ⟨r, base, hb, hmay, ?_⟩
      split at h
      · rename_i ev
        cases h
        exact .inl ⟨ev, rfl, rfl⟩
      rename_i hne
      cases h
      refine .inr ⟨?_, rfl⟩
      unfold published
      split
      · rename_i ev
        exact absurd rfl (hne ev)
      · rfl
    · cases h
  · cases h

theorem Local.advance_writeSnapshot {g g' : Local} {answer : Unit}
    (h : g.advance (.writeSnapshot r snapshot) answer = some g') :
    ∃ ev, g.publishing = .wrote r snapshot ev ∧ g' = {g with publishing := .told r ev} := by
  simp only [advance] at h
  split at h
  · rename_i r' proposed ev hw
    split at h <;> cases h
    rename_i hg
    obtain ⟨rfl, rfl⟩ := hg
    exact ⟨ev, hw, rfl⟩
  · cases h

/-- The operations a publication is made of, but for the reading. -/
def Op.publication : Op → Bool
  | .lockCommit _ | .commitEvent .. | .writeSnapshot .. | .send .. | .unlockCommit _ => true
  | _ => false

/-- How an operation moves the publication of a task. -/
inductive Local.Publishes (g : Local) : (o : Op) → o.Answer → Publishing → Prop
  | locks {r : RecordId} (hidle : g.publishing = .idle) : Publishes g (.lockCommit r) () (.locked r)
  | reads {r : RecordId} {snapshot : ExecutionSnapshot} (hlocked : g.publishing = .locked r) :
      Publishes g (.readSnapshot r) snapshot (.based r snapshot)
  | commits {r : RecordId} {base proposed : ExecutionSnapshot} {kind : ExecutionEventKind} {event : ExecutionEvent}
      (hbased : g.publishing = .based r base) (hmay : g.mayCommit r base proposed kind = true) :
      Publishes g (.commitEvent proposed kind) (.ok (some event)) (.wrote r proposed event)
  | refused {r : RecordId} {base proposed : ExecutionSnapshot} {kind : ExecutionEventKind}
      {answer : Except StoreError (Option ExecutionEvent)} (hbased : g.publishing = .based r base)
      (hmay : g.mayCommit r base proposed kind = true) (hrefused : published answer = false) :
      Publishes g (.commitEvent proposed kind) answer (.locked r)
  | writes {r : RecordId} {proposed : ExecutionSnapshot} {event : ExecutionEvent}
      (hwrote : g.publishing = .wrote r proposed event) : Publishes g (.writeSnapshot r proposed) () (.told r event)
  | sends {r : RecordId} {event : ExecutionEvent} (htold : g.publishing = .told r event) :
      Publishes g (.send r event) () (.locked r)
  | unlocks {r : RecordId} (hheld : g.publishing = .locked r ∨ ∃ base, g.publishing = .based r base) :
      Publishes g (.unlockCommit r) () .idle
  | other {o : Op} {answer : o.Answer} (ho : o.publication = false)
      (hread : ∀ r, o = .readSnapshot r → g.publishing ≠ .locked r) : Publishes g o answer g.publishing

/-- The operations the protocol follows. -/
def Op.tracked : Op → Bool
  | .lockExecutions | .unlockExecutions | .executionsIter | .executionsRemove _ | .executionsInsert .. | .reserve ..
  | .newRecord .. | .spawnRun _ | .readSnapshot _ | .lockCommit _ | .commitEvent .. | .writeSnapshot .. | .send ..
  | .unlockCommit _ | .finish _ | .respond _ => true
  | _ => false

variable {o : Op} {answer : o.Answer}

/-- What an operation can do to the local state of the task that makes it. -/
inductive Local.Moves (g : Local) : (o : Op) → o.Answer → Local → Prop
  | keeps {o : Op} {answer : o.Answer} (ho : o.tracked = false) : Moves g o answer g
  | locksMap (hfree : g.holds = false) : Moves g .lockExecutions () {g with holds := true}
  | unlocksMap (hholds : g.holds = true) (hpending : g.pending = none) : Moves g .unlockExecutions () g.unlock
  | walks {entries : List (ExecutionId × RecordId)} (hholds : g.holds = true) :
      Moves g .executionsIter entries {g with entries}
  | removes {id : ExecutionId} (hholds : g.holds = true) (hremovable : g.removable id = true) :
      Moves g (.executionsRemove id) () g
  | inserts {key : RowKey} {r : RecordId} (hholds : g.holds = true) (hrole : g.role = .admitting key (.recorded r)) :
      Moves g (.executionsInsert key.1 r) () {g with role := .admitting key (.inserted r), entries := []}
  | creates {snapshot : ExecutionSnapshot} {version : UInt16} {digest principal hash : String} {expires : Int}
      (hrole : g.role = .admitting (rowKey snapshot) .none) (hholds : g.holds = true) (hstate : snapshot.state = .accepted) :
      Moves g (.reserve snapshot version digest principal hash expires) (.ok .created)
        {g with role := .admitting (rowKey snapshot) .created}
  | reserves {snapshot : ExecutionSnapshot} {version : UInt16} {digest principal hash : String} {expires : Int}
      {answer : Except StoreError ReserveResult} (hrole : g.role = .admitting (rowKey snapshot) .none)
      (hother : answer ≠ .ok .created) : Moves g (.reserve snapshot version digest principal hash expires) answer g
  | records {snapshot : ExecutionSnapshot} {hash : String} {r : RecordId}
      (hrole : g.role = .admitting (rowKey snapshot) .created) :
      Moves g (.newRecord snapshot hash) r {g with role := .admitting (rowKey snapshot) (.recorded r)}
  | spawns {key : RowKey} {request : RunRequest} (hrole : g.role = .admitting key (.inserted request.record)) :
      Moves g (.spawnRun request) () {g with role := .admitting key .none}
  | reads {r : RecordId} {snapshot : ExecutionSnapshot} : Moves g (.readSnapshot r) snapshot (g.read r snapshot)
  | publishes {o : Op} {answer : o.Answer} {p : Publishing} (ho : o.publication = true) (h : g.Publishes o answer p) :
      Moves g o answer {g with publishing := p}
  | finishes {r : RecordId} (hrole : g.role = .run r) (hidle : g.publishing = .idle) :
      Moves g (.finish r) () {g with role := .other}
  | responds {response : Response} (hsettled : g.settled) : Moves g (.respond response) () g.unlock

variable {g g' : Local}

theorem Local.advance_moves (h : g.advance o answer = some g') : g.Moves o answer g' := by
  cases o <;> first
    | (cases h; exact .keeps rfl)
    | skip
  case lockExecutions =>
    simp only [advance] at h
    split at h <;> cases h
    rename_i hf
    exact .locksMap (Bool.not_eq_true _ ▸ hf)
  case unlockExecutions =>
    obtain ⟨hg, ⟨⟩⟩ := ite_none_right_eq_some.mp h
    exact .unlocksMap hg.1 hg.2
  case executionsGet =>
    simp only [advance] at h
    split at h <;> cases h
    exact .keeps rfl
  case executionsIter =>
    obtain ⟨hh, ⟨⟩⟩ := ite_none_right_eq_some.mp h
    exact .walks hh
  case executionsRemove =>
    obtain ⟨hg, ⟨⟩⟩ := ite_none_right_eq_some.mp h
    exact .removes hg.1 hg.2
  case executionsInsert =>
    obtain ⟨hh, key, rfl, hrole, rfl⟩ := advance_executionsInsert h
    exact .inserts hh hrole
  case reserve =>
    obtain ⟨hrole, ⟨hh, hst⟩, ⟨rfl, rfl⟩ | ⟨hne, rfl⟩⟩ := advance_reserve h
    · exact .creates hrole hh hst
    · exact .reserves hrole hne
  case newRecord =>
    obtain ⟨hrole, rfl⟩ := advance_newRecord h
    exact .records hrole
  case spawnRun =>
    obtain ⟨key, hrole, rfl⟩ := advance_spawnRun h
    exact .spawns hrole
  case readSnapshot =>
    cases h
    exact .reads
  case lockCommit =>
    obtain ⟨hidle, ⟨⟩⟩ := ite_none_right_eq_some.mp h
    exact .publishes rfl (.locks hidle)
  case commitEvent =>
    obtain ⟨r, base, hb, hmay, ⟨ev, rfl, rfl⟩ | ⟨hrefuse, rfl⟩⟩ := advance_commitEvent h
    · exact .publishes rfl (.commits hb hmay)
    · exact .publishes rfl (.refused hb hmay hrefuse)
  case writeSnapshot =>
    obtain ⟨ev, hw, rfl⟩ := advance_writeSnapshot h
    exact .publishes rfl (.writes hw)
  case send =>
    obtain ⟨htold, ⟨⟩⟩ := ite_none_right_eq_some.mp h
    exact .publishes rfl (.sends htold)
  case unlockCommit =>
    simp only [advance] at h
    split at h
    · rename_i r' hl
      split at h <;> cases h
      rename_i hr
      exact .publishes rfl (.unlocks (.inl (hr ▸ hl)))
    · rename_i r' base hb
      split at h <;> cases h
      rename_i hr
      exact .publishes rfl (.unlocks (.inr ⟨base, hr ▸ hb⟩))
    · cases h
  case finish =>
    obtain ⟨hg, ⟨⟩⟩ := ite_none_right_eq_some.mp h
    exact .finishes hg.1 hg.2
  case respond =>
    obtain ⟨hset, ⟨⟩⟩ := ite_none_right_eq_some.mp h
    exact .responds hset

theorem Local.advance_publishing (h : g.advance o answer = some g') : g.Publishes o answer g'.publishing := by
  cases advance_moves h with
  | keeps ho => exact .other (by cases o <;> first | rfl | cases ho) fun r hr => by rw [hr] at ho; cases ho
  | publishes _ hp => exact hp
  | reads =>
    rw [read_publishing]
    split
    · rename_i hl
      exact .reads hl
    · rename_i hne
      exact .other rfl fun i hi => by cases hi; exact hne
  | _ => exact .other rfl fun _ => Op.noConfusion

theorem Local.advance_snapshot? (h : g.advance o answer = some g') (hread : ∀ r, o ≠ .readSnapshot r)
    (hc : ∀ snapshot kind, o ≠ .commitEvent snapshot kind) {p : RecordId × ExecutionSnapshot}
    (hp : g'.publishing.snapshot? = some p) : g.publishing.snapshot? = some p := by
  have hm := advance_publishing h
  generalize g'.publishing = p' at hm hp
  cases hm with
  | reads => exact absurd rfl (hread _)
  | commits | refused => exact absurd rfl (hc _ _)
  | other => exact hp
  | _ => cases hp

/-- A task publishes on the record it has locked, until it unlocks it. -/
theorem Local.advance_record? (h : g.advance o answer = some g') : g'.publishing.record? = g.publishing.record? ∨
      (∃ r, o = .lockCommit r ∧ g.publishing.record? = none ∧ g'.publishing.record? = some r) ∨
      ∃ r, o = .unlockCommit r ∧ g.publishing.record? = some r ∧ g'.publishing.record? = none := by
  have hm := advance_publishing h
  generalize g'.publishing = p' at hm
  cases hm with
  | locks hidle => exact .inr (.inl ⟨_, rfl, by rw [hidle]; rfl, rfl⟩)
  | reads hb | commits hb | refused hb | writes hb | sends hb => exact .inl (by rw [hb]; rfl)
  | unlocks hheld =>
    refine .inr (.inr ⟨_, rfl, ?_, rfl⟩)
    rcases hheld with hb | ⟨base, hb⟩ <;> rw [hb] <;> rfl
  | other => exact .inl rfl

/-- A snapshot on its way to a record was committed by the task that has it. -/
theorem Local.advance_wrote (h : g.advance o answer = some g') {ev : ExecutionEvent}
    (hw : g'.publishing = .wrote r snapshot ev) : g.publishing = .wrote r snapshot ev ∨
      ∃ kind base, o = .commitEvent snapshot kind ∧ g.mayCommit r base snapshot kind = true := by
  have hm := advance_publishing h
  generalize g'.publishing = p at hm hw
  cases hm with
  | commits _ hmay =>
    cases hw
    exact .inr ⟨_, _, rfl, hmay⟩
  | other => exact .inl hw
  | _ => cases hw

/-! ### The invariant -/

/-- The map holds records of the executions they are filed under. -/
def View.Mapped (v : View J) : Prop :=
  ∀ id r, v.executions.get? id = some r → ∃ record : RecordView, v.records[r]? = some record ∧ record.key.1 = id

variable {v : View J}

structure Recorded (locals : TaskId → Local) (v : View J) : Prop where
  mapped : v.Mapped
  named : ∀ (r : RecordId) (record : RecordView), v.records[r]? = some record →
    rowKey record.snapshot = record.key ∧ (v.store.executions.get? record.key).isSome
  proposed : ∀ t r snapshot, (locals t).publishing.snapshot? = some (r, snapshot) →
    ∃ record : RecordView, v.records[r]? = some record ∧ record.key = rowKey snapshot
  runs : ∀ t r, (locals t).role = .run r →
    ∃ record : RecordView, v.records[r]? = some record ∧ record.key ∈ spawnedKeys v.log

namespace Recorded
variable {locals locals' : TaskId → Local} {v v' : View J}

theorem mono (h : Recorded locals v) (he : v.Extends v') (hs : v.Sound) (hexecutions : v'.executions = v.executions)
    (hrs : ∀ (r : RecordId) (record' : RecordView), v'.records[r]? = some record' →
      ∃ rec : RecordView, v.records[r]? = some rec ∧ record'.key = rec.key ∧ record'.snapshot = rec.snapshot)
    (hp : ∀ t p, (locals' t).publishing.snapshot? = some p → (locals t).publishing.snapshot? = some p)
    (hrole : ∀ t r, (locals' t).role = .run r → (locals t).role = .run r) : Recorded locals' v' := by
  refine ⟨fun id r hid => ?_, fun r record' hr => ?_, fun t r snapshot ht => ?_, fun t r ht => ?_⟩
  · obtain ⟨rec, hrecord, hk⟩ := h.mapped id r (hexecutions ▸ hid)
    obtain ⟨record', hr', hkey'⟩ := he.records r rec hrecord
    exact ⟨record', hr', hkey' ▸ hk⟩
  · obtain ⟨rec, hrecord, hk, hsnap⟩ := hrs r record' hr
    obtain ⟨hname, hrow⟩ := h.named r rec hrecord
    rw [hk, hsnap]
    exact ⟨hname, he.rows hs rec.key hrow⟩
  · obtain ⟨rec, hrecord, hk⟩ := h.proposed t r snapshot (hp t _ ht)
    obtain ⟨record', hr', hkey'⟩ := he.records r rec hrecord
    exact ⟨record', hr', hkey'.trans hk⟩
  · obtain ⟨rec, hrecord, hspared⟩ := h.runs t r (hrole t r ht)
    obtain ⟨record', hr', hkey'⟩ := he.records r rec hrecord
    exact ⟨record', hr', by rw [hkey', he.spawned]; exact hspared⟩

theorem same (h : Recorded locals v) (he : v.Extends v') (hs : v.Sound) (hexecutions : v'.executions = v.executions)
    (hrs : v'.records = v.records) : Recorded locals v' :=
  h.mono he hs hexecutions (fun _ rec hr => ⟨rec, hrs ▸ hr, rfl, rfl⟩) (fun _ _ => id) fun _ _ => id

theorem release (h : Recorded locals v) (hs : v.Sound) (t : TaskId) : Recorded locals (v.release t) := by
  refine h.mono (.release v t) hs rfl (fun r record' hr => ?_) (fun _ _ => id) fun _ _ => id
  obtain ⟨record, hrecord, rfl⟩ := record_of_release hr
  exact ⟨record, hrecord, rfl, rfl⟩

theorem quit (h : Recorded locals v) (t : TaskId) (hidle : g.publishing = .idle) (hr : ∀ r, g.role ≠ .run r) :
    Recorded (update locals t g) v := by
  refine ⟨h.mapped, h.named, fun i r snapshot hi => ?_, fun i r hi => ?_⟩
  · by_cases hit : i = t
    · subst hit
      rw [update_self, hidle] at hi
      cases hi
    · rw [update_of_ne hit] at hi
      exact h.proposed i r snapshot hi
  · by_cases hit : i = t
    · subst hit
      rw [update_self] at hi
      exact absurd hi (hr r)
    · rw [update_of_ne hit] at hi
      exact h.runs i r hi

end Recorded

theorem Recorded.performs {locals : TaskId → Local} {v' : View J} (heffect : Effect t origin v o answer v')
    (hm : (locals t).advance o answer = some g) (hn : locals n = idle) (ho : Owned (claimsOf locals) v)
    (h : Recorded locals v) : Recorded (update (admissionDiscipline.births locals n o) t g) v' := by
  obtain ⟨hrows, hs, hrs⟩ := heffect.keeps ho.sound
  -- what was recorded of a snapshot stays so
  have hkept : ∀ {r : RecordId} {snapshot : ExecutionSnapshot}, (∃ rec : RecordView, v.records[r]? = some rec ∧ rec.key = rowKey snapshot) →
      ∃ rec : RecordView, v'.records[r]? = some rec ∧ rec.key = rowKey snapshot := by
    intro r snapshot hold
    obtain ⟨rec, hrecord, hk⟩ := hold
    obtain ⟨record', hr', hkey'⟩ := hrs r rec hrecord
    exact ⟨record', hr', hkey'.trans hk⟩
  refine ⟨fun id r hid => ?_, fun r record' hr => ?_, fun i r snapshot hi => ?_, fun i r hi => ?_⟩
  · rcases heffect.entry_before hid with hold | rfl
    · obtain ⟨rec, hrecord, hk⟩ := h.mapped id r hold
      obtain ⟨record', hr', hkey'⟩ := hrs r rec hrecord
      exact ⟨record', hr', hkey' ▸ hk⟩
    obtain ⟨_, key, hk, hrole, _⟩ := advance_executionsInsert hm
    have hc : claimsOf locals t = some (key, .recorded r) := claimed_of_role hrole Claim.noConfusion
    obtain ⟨rec, hrecord, rfl⟩ := ho.recorded t key _ r hc rfl
    obtain ⟨record', hr', hkey'⟩ := hrs r rec hrecord
    exact ⟨record', hr', hkey' ▸ hk⟩
  · rcases heffect.record_before hr with ⟨rec, hrecord, hk, _, hsnap⟩ | ⟨snapshot, hash, rfl, _, rfl⟩
    · obtain ⟨hname, hrow⟩ := h.named r rec hrecord
      refine ⟨?_, hk ▸ hrows _ hrow⟩
      rcases hsnap with hsame | rfl
      · rw [hsame, hk, hname]
      obtain ⟨ev, hw, _⟩ := advance_writeSnapshot hm
      obtain ⟨old, hold, holdkey⟩ := h.proposed t r record'.snapshot (by rw [hw]; rfl)
      rw [hrecord, some.injEq] at hold
      rw [hk, hold, holdkey]
    · obtain ⟨hrole, _⟩ := advance_newRecord hm
      have hc : claimsOf locals t = some (rowKey snapshot, .created) := claimed_of_role hrole Claim.noConfusion
      exact ⟨rfl, hrows _ (ho.claimed t _ _ hc).1⟩
  · by_cases hit : i = t
    · subst hit
      rw [update_self] at hi
      by_cases hread : ∀ r, o ≠ .readSnapshot r
      · by_cases hcommit : ∀ snapshot kind, o ≠ .commitEvent snapshot kind
        · exact hkept (h.proposed i r snapshot (advance_snapshot? hm hread hcommit hi))
        -- the proposal is of the row that was read
        simp only [not_forall, Decidable.not_not] at hcommit
        obtain ⟨proposed, kind, rfl⟩ := hcommit
        obtain ⟨r', base, hb, hmay, ⟨ev, _, rfl⟩ | ⟨_, rfl⟩⟩ := advance_commitEvent hm
        · cases hi
          have hold := h.proposed i r base (by rw [hb]; rfl)
          rw [← (commits_of_mayCommit hmay).row] at hold
          exact hkept hold
        · cases hi
      · simp only [not_forall, Decidable.not_not] at hread
        obtain ⟨r', rfl⟩ := hread
        cases hm
        rw [read_publishing] at hi
        split at hi
        · cases hi
          cases heffect with
          | quiet hq => cases hq
          | readSnapshot hrecord => exact ⟨_, hrecord, (h.named r _ hrecord).1.symm⟩
        · exact hkept (h.proposed i r snapshot hi)
    · rw [update_of_ne hit] at hi
      rcases births_cases hn o i with he | ⟨req, _, _, he⟩
      · exact hkept (h.proposed i r snapshot (he ▸ hi))
      · rw [he] at hi
        cases hi
  · have hrun : ∀ i, (locals i).role = .run r → ∃ rec : RecordView, v'.records[r]? = some rec ∧
        rec.key ∈ spawnedKeys v'.log := by
      intro i hi
      obtain ⟨rec, hrecord, hk⟩ := h.runs i r hi
      obtain ⟨record', hr', hkey'⟩ := hrs r rec hrecord
      exact ⟨record', hr', hkey'.symm ▸ hs hk⟩
    by_cases hit : i = t
    · subst hit
      rw [update_self] at hi
      exact hrun i ((role_of_advance hm).2 r hi)
    rw [update_of_ne hit] at hi
    rcases births_cases hn o i with he | ⟨req, rfl, _, he⟩
    · exact hrun i (he ▸ hi)
    rw [he] at hi
    cases hi
    cases heffect with
    | quiet hq => cases hq
    | spawnRun hrecord =>
      rename_i rec
      refine ⟨rec, hrecord, ?_⟩
      rw [spawnedKeys_spawned]
      exact mem_append_right _ mem_cons_self

/-! ### Records of a started node -/

theorem foldl_load_records (snaps : List ExecutionSnapshot) (v : View J) :
    (snaps.foldl load v).records = v.records ++ snaps.map fun snapshot => recordOf snapshot "" true := by
  induction snaps generalizing v with
  | nil => simp
  | cons snapshot rest ih =>
    rw [foldl_cons, ih]
    simp [load]

theorem View.Mapped.foldl_load (snaps : List ExecutionSnapshot) (h : v.Mapped) : (snaps.foldl View.load v).Mapped := by
  induction snaps generalizing v with
  | nil => exact h
  | cons snapshot rest ih =>
    apply ih
    intro id r hid
    have hid : (v.executions.put snapshot.executionId v.records.length).get? id = some r := hid
    rw [Table.get?_put] at hid
    split at hid
    · rename_i hk
      cases hid
      exact ⟨_, List.getElem?_concat_length, hk.symm⟩
    obtain ⟨rec, hr, hk⟩ := h id r hid
    refine ⟨rec, ?_, hk⟩
    show (v.records ++ [_])[r]? = _
    rw [List.getElem?_append_left (List.getElem?_eq_some_iff.mp hr).1, hr]

theorem View.store_recover {cut : List ExecutionSnapshot × ExecutionStore J}
    (h : v.store.recover now = .ok cut) : (v.transact (.recover now)).store = cut.2 := by
  show committed v.store (v.store.recover now) = _
  rw [h]
  rfl

theorem View.records_started (hstop : v = v.stopped) (now : Int) (snaps : List ExecutionSnapshot) :
    (snaps.foldl load {v.transact (.recover now) with up := true}).records =
      snaps.map fun snapshot => recordOf snapshot "" true := by
  have he : records {v.transact (.recover now) with up := true} = [] := congrArg records hstop
  rw [foldl_load_records, he, nil_append]

theorem loadAll_row {st : ExecutionStore J} (hc : Coherent st) (h : st.loadAll = .ok snaps) (hm : snapshot ∈ snaps) :
    ∃ row, st.executions.get? (rowKey snapshot) = some row ∧ row.snapshotJson = J.snapshot.encode snapshot ∧
      row.state = stateName snapshot.state := by
  have hdecode : ∀ (rows : List (RowKey × ExecutionRow J)) (snaps : List ExecutionSnapshot),
      rows.mapM (fun row => J.snapshot.decode row.2.snapshotJson) = some snaps → snapshot ∈ snaps →
      ∃ row ∈ rows, J.snapshot.decode row.2.snapshotJson = some snapshot := by
    intro rows
    induction rows with
    | nil =>
      intro snaps h hm
      cases h
      cases hm
    | cons row rest ih =>
      intro snaps h hm
      rw [mapM_cons] at h
      obtain ⟨first, hf, h⟩ := bind_eq_some_iff.mp h
      obtain ⟨tail, htail, h⟩ := bind_eq_some_iff.mp h
      cases h
      rcases mem_cons.mp hm with rfl | hm
      · exact ⟨row, mem_cons_self, hf⟩
      · obtain ⟨found, hfound, hd⟩ := ih tail htail hm
        exact ⟨found, mem_cons_of_mem row hfound, hd⟩
  unfold ExecutionStore.loadAll at h
  dsimp only at h
  split at h
  · cases h
  rename_i loaded hl
  cases h
  obtain ⟨⟨key, row⟩, hr, hd⟩ := hdecode _ _ hl hm
  rw [mem_insertionSort, mem_rows] at hr
  obtain ⟨stored, he, hk, hst⟩ := hc key row hr
  rw [he, J.snapshot.decode_encode, some.injEq] at hd
  subst hd
  exact ⟨row, hk ▸ hr, he, hst⟩

theorem View.record_of_started (hs : v.Sound) (hstop : v = v.stopped)
    (hload : (v.transact (.recover now)).store.loadAll = .ok snaps) {r : RecordId} {rec : RecordView}
    (hr : (snaps.foldl load {v.transact (.recover now) with up := true}).records[r]? = some rec) :
    ∃ snapshot row, rec = recordOf snapshot "" true ∧
      (v.transact (.recover now)).store.executions.get? (rowKey snapshot) = some row ∧
      row.snapshotJson = J.snapshot.encode snapshot ∧ row.state = stateName snapshot.state := by
  rw [records_started hstop, getElem?_map] at hr
  obtain ⟨snapshot, hsnap, rfl⟩ := map_eq_some_iff.mp hr
  have hsound := (View.Extends.transact v (.recover now)).sound hs
  obtain ⟨row, hrow⟩ := loadAll_row hsound.reachable.coherent hload (mem_of_getElem? hsnap)
  exact ⟨snapshot, row, rfl, hrow⟩

theorem recorded_inductive (Rule : Node J → Action → Prop) :
    admissionDiscipline.Inductive Rule (fun locals v => Owned (claimsOf locals) v) Recorded where
  performs _ _ _ _ _ he hm _ hn _ ho h := h.performs he hm hn ho
  releases _ ho h := h.release ho.sound _
  arrives origin hrequest _ _ _ h := by
    refine h.quit _ (birth_publishing origin) fun r hr => ?_
    cases origin with
    | run r' => cases hrequest
    | _ => cases hr
  drops {s t task locals} _ _ _ _ _ ho h := by
    have hjobs : Recorded locals {s.view with jobs := s.view.jobs ++ detached task.program} :=
      h.same (.same rfl rfl rfl rfl) ho.sound rfl rfl
    exact (hjobs.release ho.sound t).quit t rfl fun r hr => (nomatch hr)
  jobs {s i fails o now call locals} _ _ _ ho h := by
    have hjobs : Recorded locals {s.view with jobs := s.view.jobs.eraseIdx i} :=
      h.same (.same rfl rfl rfl rfl) ho.sound rfl rfl
    cases fails
    · exact hjobs.same (.transact _ _) ho.sound rfl rfl
    · exact hjobs
  crashes _ _ := ⟨fun _ _ hid => (nomatch hid), fun _ _ hr => (nomatch hr), fun _ _ _ ht => (nomatch ht), fun _ _ ht => (nomatch ht)⟩
  recovers now _ _ _ ho h := h.same (.transact _ _) ho.sound rfl rfl
  starts {locals v interrupted snapshots} now _ hidle hstop _ hload ho h := by
    refine ⟨View.Mapped.foldl_load snapshots h.mapped, fun r rec hr => ?_, fun t r snapshot ht => ?_,
      fun t r ht => ?_⟩
    · obtain ⟨snapshot, row, rfl, hrow, _⟩ := record_of_started ho.sound hstop hload hr
      refine ⟨rfl, ?_⟩
      rw [Discipline.foldl_load_store]
      exact isSome_iff_exists.mpr ⟨row, hrow⟩
    · rw [hidle] at ht
      cases ht
    · rw [hidle] at ht
      cases ht

theorem recorded_fresh : Recorded (fun _ => idle) (fresh J).view := by
  refine ⟨fun id r hid => ?_, fun r rec hr => ?_, fun t r snapshot ht => ?_, fun t r ht => ?_⟩
  · cases hid
  · cases hr
  · cases ht
  · cases ht

end Eggwork.Server
