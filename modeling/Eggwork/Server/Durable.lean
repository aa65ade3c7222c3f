import Eggwork.Server.Records
import Eggwork.Store.Journal
import Eggwork.Store.Terminal

/-! What an operation writes to the row and the journal of one execution.

For a given row every operation does one of three things: it leaves the snapshot,
the state and the journal as they are (`View.Same`), it creates the row
(`View.Created`), or it commits a snapshot with the next event (`View.Committed`).
Which one is told by the answer (`Op.creates`, `Op.journals`). -/
namespace Eggwork.Server
open Lib Store Runner View List Option

variable {J : Serde}
variable {t : TaskId} {origin : Origin} {snapshot : ExecutionSnapshot}

/-- What is stored of a row's execution: its snapshot and the name of its state. -/
def View.rowOf (v : View J) (key : RowKey) : Option (J.snapshot.Blob × String) :=
  (v.store.executions.get? key).map fun row => (row.snapshotJson, row.state)

/-- The events committed for a row, by any process so far. -/
def View.journal (v : View J) (key : RowKey) : List ExecutionEvent :=
  eventsOf (journaled (ExecutionStore.empty : ExecutionStore J) v.history) key

theorem View.Sound.journalOf {v : View J} (hs : v.Sound) (key : RowKey) : JournalOf v.store (v.journal key) key := by
  rw [hs]
  exact play_journalOf v.history key

theorem View.journal_transact {v : View J} (hs : v.Sound) (call : Call) (key : RowKey) :
    (v.transact call).journal key = v.journal key ++ eventsOf (call.commits v.store) key := by
  show eventsOf (journaled _ (v.history ++ [(call, true)])) key = _
  rw [journaled_concat, eventsOf_append, ← hs]
  rfl

theorem View.rowOf_some {v : View J} {key : RowKey} {row : ExecutionRow J}
    (h : v.store.executions.get? key = some row) : v.rowOf key = some (row.snapshotJson, row.state) := by
  rw [rowOf, h]
  rfl

theorem View.rowOf_none {v : View J} {key : RowKey} : v.rowOf key = none ↔ v.store.executions.get? key = none :=
  map_eq_none_iff

/-! ### The three cases -/

structure View.Same (v v' : View J) (key : RowKey) : Prop where
  row : v'.rowOf key = v.rowOf key
  journal : v'.journal key = v.journal key

structure View.Created (v v' : View J) (snapshot : ExecutionSnapshot) : Prop where
  absent : v.rowOf (rowKey snapshot) = none
  blank : v.journal (rowKey snapshot) = []
  row : v'.rowOf (rowKey snapshot) = some (J.snapshot.encode snapshot, stateName snapshot.state)
  journal : v'.journal (rowKey snapshot) = []

structure View.Committed (v v' : View J) (snapshot : ExecutionSnapshot) (event : ExecutionEvent) : Prop where
  live : ∃ blob state, v.rowOf (rowKey snapshot) = some (blob, state) ∧ isTerminalName state = false
  row : v'.rowOf (rowKey snapshot) = some (J.snapshot.encode snapshot, stateName snapshot.state)
  journal : v'.journal (rowKey snapshot) = v.journal (rowKey snapshot) ++ [event]

/-- A whole write: a row is created, an event is committed, or nothing is written. -/
inductive View.Writes (v v' : View J) : Option ExecutionSnapshot → Option (ExecutionSnapshot × ExecutionEvent) → Prop
  | nothing (hsame : ∀ key, v.Same v' key) : Writes v v' none none
  | creates {snapshot : ExecutionSnapshot} (hcreated : v.Created v' snapshot)
      (hsame : ∀ key, key ≠ rowKey snapshot → v.Same v' key) : Writes v v' (some snapshot) none
  | commits {snapshot : ExecutionSnapshot} {event : ExecutionEvent} (hcommitted : v.Committed v' snapshot event)
      (hsame : ∀ key, key ≠ rowKey snapshot → v.Same v' key) : Writes v v' none (some (snapshot, event))

/-! ### Operations -/

/-- The row an operation has created. -/
def Op.creates : (o : Op) → o.Answer → Option ExecutionSnapshot
  | .reserve snapshot .., .ok .created => some snapshot
  | _, _ => none

/-- The snapshot and the event an operation has committed. -/
def Op.journals : (o : Op) → o.Answer → Option (ExecutionSnapshot × ExecutionEvent)
  | .commitEvent snapshot _, .ok (some event) => some (snapshot, event)
  | _, _ => none

variable {o : Op} {answer : o.Answer}

/-! ### Calls -/

theorem View.same_of_store {v : View J} (hs : v.Sound) {call : Call} (hstored : call.exec v.store = v.store)
    (hc : call.commits v.store = []) (key : RowKey) : v.Same (v.transact call) key := by
  refine ⟨?_, ?_⟩
  · rw [rowOf, rowOf, show (v.transact call).store = v.store from hstored]
  · rw [journal_transact hs, hc, eventsOf_nil, append_nil]

theorem View.writes_reserve {v : View J} (hs : v.Sound) (snapshot : ExecutionSnapshot) (ver : UInt16)
    (digest principal hash : String) (exp now : Int) :
    v.Writes (v.transact (.reserve snapshot ver digest principal hash exp now))
      (Op.creates (.reserve snapshot ver digest principal hash exp)
        (answered (v.store.reserve snapshot ver digest principal hash exp now))) none := by
  have hj : ∀ key, (v.transact (.reserve snapshot ver digest principal hash exp now)).journal key =
      v.journal key := fun key => (journal_transact hs _ key).trans (append_nil _)
  have hexec : (Call.reserve snapshot ver digest principal hash exp now).exec v.store =
      committed v.store (v.store.reserve snapshot ver digest principal hash exp now) := rfl
  cases hr : v.store.reserve snapshot ver digest principal hash exp now with
  | error e =>
    rw [hr] at hexec
    exact .nothing (same_of_store hs hexec rfl)
  | ok res =>
    obtain ⟨res, st'⟩ := res
    rw [hr, show committed v.store (.ok (res, st')) = st' from rfl] at hexec
    have hstored : (v.transact (.reserve snapshot ver digest principal hash exp now)).store = st' := hexec
    cases res with
    | created =>
      obtain ⟨hn, _, row, hf, _, hi⟩ := reserve_created hr
      have ha : v.journal (rowKey snapshot) = [] := (hs.journalOf _).absent hn
      refine .creates ⟨rowOf_none.mpr hn, ha, ?_, (hj _).trans ha⟩ fun key hk => ⟨?_, hj key⟩
      · rw [rowOf, hstored, Table.get?_insert hi, if_pos rfl, map_some, hf.snapshotJson, hf.state]
      · rw [rowOf, rowOf, hstored, reserve_get?_ne hr hk]
    | _ =>
      rcases reserve_changes hr with rfl | ⟨hnew, _⟩
      · exact .nothing (same_of_store hs hexec rfl)
      · cases hnew

theorem View.writes_commitEvent {v : View J} (hs : v.Sound) (snapshot : ExecutionSnapshot) (kind : ExecutionEventKind)
    (now : Int) : v.Writes (v.transact (.commitEvent snapshot kind now)) none
      (Op.journals (.commitEvent snapshot kind) (answered (v.store.commitEvent snapshot kind now))) := by
  have hj := journal_transact hs (.commitEvent snapshot kind now)
  have hexec : (Call.commitEvent snapshot kind now).exec v.store =
      committed v.store (v.store.commitEvent snapshot kind now) := rfl
  cases hresult : v.store.commitEvent snapshot kind now with
  | error e =>
    rw [hresult] at hexec
    exact .nothing (same_of_store hs hexec (by simp only [Call.commits, hresult]))
  | ok res =>
    obtain ⟨answer, st'⟩ := res
    rw [hresult, show committed v.store (.ok (answer, st')) = st' from rfl] at hexec
    rcases commitEvent_journaled hresult with ⟨rfl, rfl⟩ | ⟨row, rfl, hr, hl, _, hw⟩
    · exact .nothing (same_of_store hs hexec (by simp only [Call.commits, hresult]))
    have hstored : (v.transact (.commitEvent snapshot kind now)).store = st' := hexec
    simp only [Call.commits, hresult, eventsOf_singleton] at hj
    refine .commits ⟨⟨_, _, rowOf_some hr, hl⟩, ?_, by rw [hj, if_pos rfl]⟩ fun key hk => ⟨?_, ?_⟩
    · rw [rowOf, hstored, journal_get? hw hr]
      rfl
    · rw [rowOf, rowOf, hstored, journal_get?_ne hw hk]
    · rw [hj, if_neg (Ne.symm hk), append_nil]

/-- A renewal touches neither snapshot nor journal. -/
theorem View.transact_updateLease {v : View J} (hs : v.Sound) (id : ExecutionId) (gen : ExecutionGeneration)
    (hash renewal : String) (exp now : Int) (key : RowKey) :
    v.Same (v.transact (.updateLease id gen hash renewal exp now)) key := by
  refine ⟨?_, (journal_transact hs _ key).trans (append_nil _)⟩
  have hstored : (v.transact (.updateLease id gen hash renewal exp now)).store =
      committed v.store (v.store.updateLease id gen hash renewal exp now) := rfl
  cases hresult : v.store.updateLease id gen hash renewal exp now with
  | error e => rw [rowOf, rowOf, hstored, hresult]; rfl
  | ok res =>
    obtain ⟨answer, st'⟩ := res
    rw [rowOf, rowOf, hstored, hresult, show committed v.store (.ok (answer, st')) = st' from rfl]
    cases hrow' : st'.executions.get? key with
    | some row' =>
      obtain ⟨row, _, _, _, hr, rfl⟩ := updateLease_row hresult hrow'
      rw [hr]
      rfl
    | none =>
      have hexec : (((Call.updateLease id gen hash renewal exp now).exec v.store).executions.get? key).isSome = _ :=
        exec_isSome (.inr ⟨id, gen, hash, renewal, exp, now, rfl⟩) key
      rw [show (Call.updateLease id gen hash renewal exp now).exec v.store = st' by
        simp only [Call.exec, hresult, committed], hrow'] at hexec
      cases hr : v.store.executions.get? key with
      | none => rfl
      | some row =>
        rw [hr] at hexec
        cases hexec

theorem Effect.writes {v v' : View J} (h : Effect t origin v o answer v') (hs : v.Sound) :
    v.Writes v' (o.creates answer) (o.journals answer) := by
  cases h with
  | quiet hq =>
    cases o <;> first
      | exact .nothing fun _ => ⟨rfl, rfl⟩
      | cases hq
  | reserve snapshot ver digest principal hash exp now =>
    exact writes_reserve hs snapshot ver digest principal hash exp now
  | refusedCommit now ha hr =>
    rename_i snapshot kind _
    subst ha
    exact writes_commitEvent hs snapshot kind now
  | commitEvent now ha =>
    rename_i snapshot kind ev
    have hw := writes_commitEvent hs snapshot kind now
    rw [ha] at hw
    cases hw with
    | commits hc hsame =>
      exact .commits ⟨hc.live, hc.row, hc.journal⟩ fun key hk =>
        ⟨(hsame key hk).row, (hsame key hk).journal⟩
  | updateLease id gen hash renewal exp now =>
    exact .nothing (transact_updateLease hs id gen hash renewal exp now)
  | _ => exact .nothing fun _ => ⟨rfl, rfl⟩

theorem Op.creates_eq (h : o.creates answer = some snapshot) :
    ∃ version digest principal hash expires, o = .reserve snapshot version digest principal hash expires := by
  cases o <;> first
    | cases h
    | skip
  case reserve =>
    rcases answer with e | result
    · cases h
    · cases result <;> cases h
      exact ⟨_, _, _, _, _, rfl⟩

theorem Local.advance_creates {g g' : Local} (h : g.advance o answer = some g')
    (hc : o.creates answer = some snapshot) :
    g.holds = true ∧ snapshot.state = .accepted ∧ g' = {g with role := .admitting (rowKey snapshot) .created} := by
  obtain ⟨version, digest, principal, hash, expires, rfl⟩ := Op.creates_eq hc
  obtain ⟨_, ⟨hh, hst⟩, ⟨_, rfl⟩ | ⟨ho, _⟩⟩ := Local.advance_reserve h
  · exact ⟨hh, hst, rfl⟩
  rcases answer with e | result
  · cases hc
  cases result <;> first
    | exact absurd rfl ho
    | cases hc

theorem Op.journals_eq {ev : ExecutionEvent} (h : o.journals answer = some (snapshot, ev)) :
    ∃ kind, o = .commitEvent snapshot kind := by
  cases o <;> first
    | cases h
    | skip
  case commitEvent proposed kind =>
    rcases answer with e | _ | committed
    · cases h
    · cases h
    · cases h
      exact ⟨kind, rfl⟩

theorem Effect.created {v v' : View J} (h : Effect t origin v o answer v') (hs : v.Sound)
    (hc : o.creates answer = some snapshot) : v.Created v' snapshot := by
  have hw := h.writes hs
  rw [hc] at hw
  generalize o.journals answer = journaled at hw
  cases hw with
  | creates hnew => exact hnew

theorem Effect.committed {v v' : View J} (h : Effect t origin v o answer v') (hs : v.Sound) {event : ExecutionEvent}
    (hjs : o.journals answer = some (snapshot, event)) : v.Committed v' snapshot event := by
  have hw := h.writes hs
  rw [hjs] at hw
  generalize o.creates answer = created at hw
  cases hw with
  | commits hc => exact hc

/-- One row: it is the same, it has just been created, or an event has been committed on it. -/
theorem Effect.durable {v v' : View J} (h : Effect t origin v o answer v') (hs : v.Sound) (key : RowKey) :
    v.Same v' key ∨ (∃ snapshot, o.creates answer = some snapshot ∧ rowKey snapshot = key ∧ v.Created v' snapshot) ∨
      ∃ snapshot event, o.journals answer = some (snapshot, event) ∧ rowKey snapshot = key ∧
        v.Committed v' snapshot event := by
  have hw := h.writes hs
  generalize o.creates answer = created, o.journals answer = journaled at hw
  cases hw with
  | nothing hsame => exact .inl (hsame key)
  | @creates snapshot hnew hsame =>
    by_cases hk : key = rowKey snapshot
    · exact .inr (.inl ⟨snapshot, rfl, hk.symm, hnew⟩)
    · exact .inl (hsame key hk)
  | @commits snapshot event hc hsame =>
    by_cases hk : key = rowKey snapshot
    · exact .inr (.inr ⟨snapshot, event, rfl, hk.symm, hc⟩)
    · exact .inl (hsame key hk)

/-! ### Live rows and rows that have ended -/

def View.Live (v : View J) (key : RowKey) : Prop :=
  ∃ row, v.store.executions.get? key = some row ∧ isTerminalName row.state = false

/-- The row is stored as terminal. -/
def View.Ended (v : View J) (key : RowKey) : Prop :=
  ∃ row, v.store.executions.get? key = some row ∧ isTerminalName row.state = true

variable {v v' : View J}

theorem View.Ended.exec {key : RowKey} (h : v.Ended key) (hs : v.Sound)
    (hstored : v'.store = v.store ∨ ∃ call : Call, v'.store = call.exec v.store) : v'.Ended key := by
  obtain ⟨row, hr, hterm⟩ := h
  rcases hstored with he | ⟨call, he⟩
  · exact ⟨row, he ▸ hr, hterm⟩
  · exact ⟨row, he ▸ ((exec_changes hs.reachable.coherent call).terminal_kept hr hterm).1, hterm⟩

theorem View.Ended.performs {key : RowKey} (h : v.Ended key) (heffect : Effect t origin v o answer v') (hs : v.Sound) :
    v'.Ended key :=
  h.exec hs (heffect.store_cases.imp id fun ⟨_, call, _, he⟩ => ⟨call, he⟩)

theorem View.live_iff {key : RowKey} :
    v.Live key ↔ ∃ blob state, v.rowOf key = some (blob, state) ∧ isTerminalName state = false := by
  constructor
  · rintro ⟨row, hr, hl⟩
    exact ⟨_, _, rowOf_some hr, hl⟩
  rintro ⟨blob, state, hr, hl⟩
  obtain ⟨row, hget, he⟩ := map_eq_some_iff.mp hr
  cases he
  exact ⟨row, hget, hl⟩

theorem View.Live.not_ended {key : RowKey} (h : v.Live key) : ¬ v.Ended key := by
  rintro ⟨row', hrow', hterm⟩
  obtain ⟨row, hr, hl⟩ := h
  rw [hr, some.injEq] at hrow'
  rw [hrow', hterm] at hl
  cases hl

theorem View.Live.unique (hs : v.Sound) {key key' : RowKey} (h : v.Live key) (h' : v.Live key') (hid : key.1 = key'.1) :
    key = key' := by
  obtain ⟨id, g⟩ := key
  obtain ⟨id', g'⟩ := key'
  obtain rfl : id = id' := hid
  obtain ⟨n, hn⟩ := hs.reachable.epochs id
  have hlast : ∀ {g : Int}, v.Live (id, g) → g = n := by
    rintro g ⟨row, hr, hl⟩
    have hst := (hn.stored g).mp (by rw [hr]; rfl)
    by_contra hne
    rw [hn.closed g row hr (by omega)] at hl
    cases hl
  rw [hlast h, hlast h']

theorem Effect.live_before (h : Effect t origin v o answer v') (hs : v.Sound) {key : RowKey} (hl : v'.Live key) :
    v.Live key ∨ ∃ snapshot, o.creates answer = some snapshot ∧ rowKey snapshot = key := by
  rcases h.durable hs key with hsame | ⟨snapshot, hcreated, hk, _⟩ | ⟨snapshot, event, _, rfl, hc⟩
  · obtain ⟨blob, state, hr, hst⟩ := live_iff.mp hl
    exact .inl (live_iff.mpr ⟨blob, state, hsame.row ▸ hr, hst⟩)
  · exact .inr ⟨snapshot, hcreated, hk⟩
  · exact .inl (live_iff.mpr hc.live)

theorem View.ended_of_rowOf {key : RowKey} {blob : J.snapshot.Blob} {state : String}
    (h : v.rowOf key = some (blob, state)) (hterm : isTerminalName state = true) : v.Ended key := by
  obtain ⟨row, hr, he⟩ := map_eq_some_iff.mp h
  cases he
  exact ⟨row, hr, hterm⟩

end Eggwork.Server
