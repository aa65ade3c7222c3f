import Eggwork.Store.Operations

/-! What a call can do to the store.

Every call, whatever its arguments, is a chain of three kinds of change
(`Change`): a row is created, the lease columns of a live row move, or an event
is journaled on a live row. `exec_changes` says so once, with the events the
chain journals (`Call.commits`); the invariants of the store are then proved
change by change (`Changes.invariant`) and never unfold a call again. `recover`
needs the rows to be `Coherent`: it finds the row to write from the decoded
snapshot. -/
namespace Eggwork.Store
open Lib ExecutionStore Option Table Prod

variable {J : Serde}
variable {st st' : ExecutionStore J} {now expires : Int} {snap : ExecutionSnapshot} {hash state ren : String}
variable {id : ExecutionId} {gen : ExecutionGeneration} {log : List (RowKey × ExecutionEvent)} {sequence : Nat}
variable {event : ExecutionEvent} {snaps : List ExecutionSnapshot}

/-! ### State names -/

@[simp] theorem isTerminalName_stateName (s : ExecutionState) : isTerminalName (stateName s) = isTerminal s := by
  cases s <;> decide

@[simp] theorem isLiveName_stateName (s : ExecutionState) : isLiveName (stateName s) = !isTerminal s := by
  cases s <;> decide

/-! ### Calls -/

/-- The calls that may write, with their arguments and the clock they read. -/
inductive Call where
  | reserve (snapshot : ExecutionSnapshot) (canonicalVersion : UInt16)
      (digest principalId leaseTokenHash : String) (leaseExpiresUnixMs now : Int)
  | commitEvent (snapshot : ExecutionSnapshot) (kind : ExecutionEventKind) (now : Int)
  | updateLease (id : ExecutionId) (generation : ExecutionGeneration)
      (leaseTokenHash renewalId : String) (leaseExpiresUnixMs now : Int)
  | recover (now : Int)

/-- The store after an attempted transaction: an error rolls back. -/
def committed {α : Type} (st : ExecutionStore J) : Except StoreError (α × ExecutionStore J) → ExecutionStore J
  | .ok (_, st') => st'
  | .error _ => st

def Call.exec (st : ExecutionStore J) : Call → ExecutionStore J
  | .reserve snapshot version digest principal hash expires now =>
    committed st (st.reserve snapshot version digest principal hash expires now)
  | .commitEvent snapshot kind now => committed st (st.commitEvent snapshot kind now)
  | .updateLease id generation hash renewal expires now =>
    committed st (st.updateLease id generation hash renewal expires now)
  | .recover now => committed st (st.recover now)

/-- The event `recover` journals on a row. -/
def interruption (st : ExecutionStore J) (key : RowKey) : Option (RowKey × ExecutionEvent) :=
  (st.executions.get? key).map fun row => (key, .plain row.nextSequence (.state .interrupted))

/-- The events a call journals, each with the row it belongs to. -/
def Call.commits (st : ExecutionStore J) : Call → List (RowKey × ExecutionEvent)
  | .commitEvent snapshot kind now =>
    match st.commitEvent snapshot kind now with
    | .ok (some event, _) => [(rowKey snapshot, event)]
    | _ => []
  | .recover now =>
    match st.recover now with
    | .ok (snapshots, _) => snapshots.filterMap fun snapshot => interruption st (rowKey snapshot)
    | .error _ => []
  | _ => []

/-- A history: each call with whether it reached its commit. -/
def play (st : ExecutionStore J) : List (Call × Bool) → ExecutionStore J
  | [] => st
  | (call, commits) :: rest => play (if commits then call.exec st else st) rest

/-- Everything a history journals, in commit order. -/
def journaled (st : ExecutionStore J) : List (Call × Bool) → List (RowKey × ExecutionEvent)
  | [] => []
  | (call, commits) :: rest =>
    if commits then call.commits st ++ journaled (call.exec st) rest else journaled st rest

/-! ### Changes -/

/-- A row as `INSERT` writes it for a snapshot. -/
structure Fresh (snapshot : ExecutionSnapshot) (row : ExecutionRow J) : Prop where
  state : row.state = stateName snapshot.state
  nextSequence : row.nextSequence = 1
  snapshotJson : row.snapshotJson = J.snapshot.encode snapshot

inductive Change : ExecutionStore J → List (RowKey × ExecutionEvent) → ExecutionStore J → Prop
  | created {st : ExecutionStore J} {executions : Table RowKey (ExecutionRow J)}
      (snapshot : ExecutionSnapshot) (row : ExecutionRow J) (hfresh : Fresh snapshot row)
      (hnext : mayFollow (st.latest snapshot.executionId) snapshot.generation.asI64 = true)
      (hroom : st.executions.rows.length < maxExecutionIdentities)
      (hinsert : st.executions.insert (rowKey snapshot) row = some executions) :
      Change st [] {st with executions}
  | renewed {st : ExecutionStore J} (key : RowKey) (row : ExecutionRow J) (f : ExecutionRow J → ExecutionRow J)
      (expires : Int) (renewal : Option String) (now : Int) (hrow : st.executions.get? key = some row)
      (hlive : isTerminalName row.state = false)
      (hf : f row = {row with leaseExpiresUnixMs := expires, lastRenewalId := renewal, updatedUnixMs := now}) :
      Change st [] {st with executions := st.executions.update key f}
  | journaled {st st' : ExecutionStore J} (snapshot : ExecutionSnapshot) (row : ExecutionRow J)
      (kind : ExecutionEventKind) (now : Int) (hrow : st.executions.get? (rowKey snapshot) = some row)
      (hlive : isTerminalName row.state = false)
      (hsize : J.event.length (J.event.encode (.plain row.nextSequence kind)) ≤ maxRetainedEventBytes)
      (hjournal : st.journal (rowKey snapshot) (stateName snapshot.state) snapshot row.nextSequence
        (.plain row.nextSequence kind) now = .ok st') :
      Change st [(rowKey snapshot, .plain row.nextSequence kind)] st'

/-- A chain of changes, with everything it journals. -/
inductive Changes : ExecutionStore J → List (RowKey × ExecutionEvent) → ExecutionStore J → Prop
  | refl (st : ExecutionStore J) : Changes st [] st
  | step {a b c : ExecutionStore J} {event log : List (RowKey × ExecutionEvent)}
      (h : Change a event b) (rest : Changes b log c) : Changes a (event ++ log) c

theorem Changes.single {a b : ExecutionStore J} {event : List (RowKey × ExecutionEvent)}
    (h : Change a event b) : Changes a event b := by
  simpa using Changes.step h (.refl b)

theorem Changes.trans {a b c : ExecutionStore J} {log' : List (RowKey × ExecutionEvent)} (h : Changes a log b)
    (h' : Changes b log' c) : Changes a (log ++ log') c := by
  induction h with
  | refl => exact h'
  | step hc _ ih =>
    rw [List.append_assoc]
    exact .step hc (ih h')

/-- A property of the store and the journaled events that every change preserves
holds along a chain of changes. -/
theorem Changes.invariant_log (Inv : ExecutionStore J → List (RowKey × ExecutionEvent) → Prop)
    (hstep : ∀ {a b event past}, Change a event b → Inv a past → Inv b (past ++ event)) (h : Changes st log st')
    (past : List (RowKey × ExecutionEvent)) (hinv : Inv st past) : Inv st' (past ++ log) := by
  induction h generalizing past with
  | refl => simpa using hinv
  | step hc _ ih =>
    rw [← List.append_assoc]
    exact ih _ (hstep hc hinv)

/-- A property every change preserves holds along a chain of changes. -/
theorem Changes.invariant (Inv : ExecutionStore J → Prop) (hstep : ∀ {a b event}, Change a event b → Inv a → Inv b)
    (h : Changes st log st') (hinv : Inv st) : Inv st' :=
  h.invariant_log (fun st _ => Inv st) hstep [] hinv

/-! ### Journaling -/

theorem journal_ok {key : RowKey} (h : st.journal key state snap sequence event now = .ok st') :
    ∃ events, st.executionEvents.insert (key, sequence) (J.event.encode event) = some events ∧
      st' = ⟨st.executions.update key fun row => {row with
          state := state
          nextSequence := sequence + 1
          snapshotJson := J.snapshot.encode snap
          updatedUnixMs := now}, trimEvents events key⟩ := by
  unfold journal at h
  split at h
  · cases h
  · rename_i events hi
    exact ⟨events, hi, (Except.ok.inj h).symm⟩

theorem journal_get?_ne {key : RowKey} (h : st.journal key state snap sequence event now = .ok st') {other : RowKey}
    (hne : other ≠ key) : st'.executions.get? other = st.executions.get? other := by
  obtain ⟨events, _, rfl⟩ := journal_ok h
  rw [get?_update, if_neg hne]

theorem journal_get? {key : RowKey} (h : st.journal key state snap sequence event now = .ok st')
    {row : ExecutionRow J} (hr : st.executions.get? key = some row) : st'.executions.get? key = some {row with
        state := state
        nextSequence := sequence + 1
        snapshotJson := J.snapshot.encode snap
        updatedUnixMs := now} := by
  obtain ⟨events, _, rfl⟩ := journal_ok h
  rw [get?_update, if_pos rfl, hr, map_some]

/-! ### Coherent rows -/

/-- Every row holds the encoding of a snapshot of its own execution and
generation, and its state column is that snapshot's state. -/
def Coherent (st : ExecutionStore J) : Prop :=
  ∀ key row, st.executions.get? key = some row →
    ∃ snapshot, row.snapshotJson = J.snapshot.encode snapshot ∧ rowKey snapshot = key ∧
      row.state = stateName snapshot.state

theorem coherent_empty : Coherent (ExecutionStore.empty : ExecutionStore J) := by
  intro key row hr
  cases hr

theorem Change.coherent {event : List (RowKey × ExecutionEvent)} (h : Change st event st') (hc : Coherent st) :
    Coherent st' := by
  intro key row hr
  cases h with
  | created snap fresh hfree _ _ hi =>
    rw [get?_insert hi] at hr
    split at hr
    · cases hr
      rename_i hk
      exact ⟨snap, hfree.snapshotJson, hk.symm, hfree.state⟩
    · exact hc key row hr
  | renewed at_ old f _ _ _ hold _ hf =>
    rw [get?_update] at hr
    split at hr
    · rename_i hk
      subst hk
      rw [hold, map_some, hf, some.injEq] at hr
      subst hr
      exact hc key old hold
    · exact hc key row hr
  | journaled snap old kind now hold _ _ hj =>
    obtain ⟨events, _, rfl⟩ := journal_ok hj
    rw [get?_update] at hr
    split at hr
    · rename_i hk
      rw [hold, map_some, some.injEq] at hr
      subst hr
      exact ⟨snap, rfl, hk.symm, rfl⟩
    · exact hc key row hr

/-! ### Every call is a chain of changes -/

theorem reserve_changes {ver : UInt16} {digest principal : String} {res : ReserveResult}
    (h : st.reserve snap ver digest principal hash expires now = .ok (res, st')) :
    st' = st ∨ (res = .created ∧ Change st [] st') := by
  unfold reserve at h
  split at h
  · left
    split at h
    · split at h <;> cases h
      rfl
    · cases h
      rfl
  · split at h
    · cases h
      exact .inl rfl
    rename_i hf
    split at h
    · cases h
      exact .inl rfl
    split at h
    · rename_i executions hi
      cases h
      exact .inr ⟨rfl, .created snap _ ⟨rfl, rfl, rfl⟩ (by simpa using hf) (by omega) hi⟩
    · cases h

/-- What a reservation that answers `Created` has done. -/
theorem reserve_created {ver : UInt16} {digest principal : String}
    (h : st.reserve snap ver digest principal hash expires now = .ok (.created, st')) :
    st.executions.get? (rowKey snap) = none ∧ mayFollow (st.latest snap.executionId) snap.generation.asI64 = true ∧
      ∃ row, Fresh snap row ∧ row.leaseTokenHash = hash ∧ st.executions.insert (rowKey snap) row = some st'.executions := by
  unfold reserve at h
  split at h
  · split at h
    · split at h <;> cases h
    · cases h
  rename_i hn
  split at h
  · cases h
  rename_i hf
  split at h
  · cases h
  split at h
  · rename_i executions hi
    cases h
    exact ⟨hn, by simpa using hf, _, ⟨rfl, rfl, rfl⟩, rfl, hi⟩
  · cases h

theorem commitEvent_journaled {kind : ExecutionEventKind} {a : Option ExecutionEvent}
    (h : st.commitEvent snap kind now = .ok (a, st')) : (a = none ∧ st' = st) ∨
      ∃ row, a = some (.plain row.nextSequence kind) ∧ st.executions.get? (rowKey snap) = some row ∧
        isTerminalName row.state = false ∧
        J.event.length (J.event.encode (.plain row.nextSequence kind)) ≤ maxRetainedEventBytes ∧
        st.journal (rowKey snap) (stateName snap.state) snap row.nextSequence
          (.plain row.nextSequence kind) now = .ok st' := by
  unfold commitEvent at h
  split at h
  · cases h
    exact .inl ⟨rfl, rfl⟩
  rename_i row hr
  split at h
  · cases h
    exact .inl ⟨rfl, rfl⟩
  rename_i hl
  dsimp only at h
  split at h
  · cases h
  split at h
  · cases h
  rename_i hsize
  cases hj : st.journal (rowKey snap) (stateName snap.state) snap row.nextSequence
      (.plain row.nextSequence kind) now with
  | error e =>
    rw [hj] at h
    cases h
  | ok st'' =>
    rw [hj] at h
    cases h
    exact .inr ⟨row, rfl, hr, by simpa using hl, Nat.le_of_not_lt hsize, hj⟩

theorem commitEvent_changes {kind : ExecutionEventKind} {a : Option ExecutionEvent}
    (h : st.commitEvent snap kind now = .ok (a, st')) : (a = none ∧ st' = st) ∨
      ∃ event, a = some event ∧ Change st [(rowKey snap, event)] st' := by
  rcases commitEvent_journaled h with hn | ⟨row, rfl, hr, hl, hsize, hj⟩
  · exact .inl hn
  · exact .inr ⟨_, rfl, .journaled snap row kind now hr hl hsize hj⟩

theorem updateLease_changes {a : Option Int}
    (h : st.updateLease id gen hash ren expires now = .ok (a, st')) : st' = st ∨ Change st [] st' := by
  unfold updateLease at h
  split at h
  · cases h
    exact .inl rfl
  rename_i row hr
  split at h
  · cases h
    exact .inl rfl
  rename_i hv
  split at h
  · cases h
    exact .inl rfl
  cases h
  simp only [ne_eq, not_or, Decidable.not_not, Bool.not_eq_true, Int.not_le] at hv
  exact .inr (.renewed _ row _ _ _ _ hr hv.2.1 (by rw [if_pos hv.1]))

theorem updateLease_row {a : Option Int}
    (h : st.updateLease id gen hash ren expires now = .ok (a, st')) {key : RowKey}
    {row' : ExecutionRow J} (hrow' : st'.executions.get? key = some row') :
    ∃ row expires ren now, st.executions.get? key = some row ∧
      row' = {row with leaseExpiresUnixMs := expires, lastRenewalId := ren, updatedUnixMs := now} := by
  have hsame : st' = st → ∃ row expires ren now, st.executions.get? key = some row ∧
      row' = {row with leaseExpiresUnixMs := expires, lastRenewalId := ren, updatedUnixMs := now} :=
    fun he => ⟨row', _, _, _, he ▸ hrow', rfl⟩
  unfold updateLease at h
  split at h
  · cases h
    exact hsame rfl
  rename_i row hr
  split at h
  · cases h
    exact hsame rfl
  split at h
  · cases h
    exact hsame rfl
  cases h
  simp only [get?_update] at hrow'
  split at hrow'
  · rename_i hk
    rw [hr, map_some, some.injEq] at hrow'
    split at hrow' <;> exact ⟨row, _, _, _, hk ▸ hr, hrow'.symm⟩
  · exact ⟨row', _, _, _, hrow', rfl⟩

theorem updateLease_live {granted : Int}
    (h : st.updateLease id gen hash ren expires now = .ok (some granted, st')) {row : ExecutionRow J}
    (hr : st.executions.get? (id, gen.asI64) = some row) : isTerminalName row.state = false := by
  simp only [updateLease, hr] at h
  split at h
  · cases h
  · rename_i hv
    exact Bool.not_eq_true _ ▸ fun hterm => hv (.inr (.inl hterm))

theorem lookup_row {old : ExistingExecution} (h : st.lookup id gen = .ok (some old)) :
    ∃ row, st.executions.get? (id, gen.asI64) = some row ∧
      old.canonicalVersion = UInt16.ofInt row.canonicalVersion ∧ old.digest = row.digest ∧
      old.principalId = row.principalId ∧ old.leaseTokenHash = row.leaseTokenHash := by
  unfold lookup at h
  split at h
  · cases h
  rename_i row hr
  split at h
  · cases h
  · cases h
    exact ⟨row, hr, rfl, rfl, rfl, rfl⟩

/-- The rows `recover` visits, given as their keys and decoded snapshots: each
still live in the store the loop has reached. -/
theorem recoverOne_changes (now : Int) {live : List (RowKey × ExecutionSnapshot)} (hkeys : (live.map fst).Nodup)
    (hown : ∀ p ∈ live, rowKey p.2 = p.1)
    (hl : ∀ p ∈ live, ∃ row, st.executions.get? p.1 = some row ∧ isTerminalName row.state = false)
    (h : (live.map fun p => interrupt p.2).foldlM (recoverOne now) st = .ok st') :
    Changes st (live.filterMap fun p => interruption st p.1) st' := by
  induction live generalizing st with
  | nil =>
    cases h
    exact .refl _
  | cons p rest ih =>
    obtain ⟨row, hr, hopen⟩ := hl p List.mem_cons_self
    have hk : rowKey (interrupt p.2) = p.1 := hown p List.mem_cons_self
    rw [List.map_cons, List.foldlM_cons] at h
    cases hone : recoverOne now st (interrupt p.2) with
    | error e =>
      rw [hone] at h
      cases h
    | ok next =>
      rw [hone] at h
      have hj := hone
      simp only [recoverOne, hk, hr] at hj
      have hc : Change st [(p.1, .plain row.nextSequence (.state .interrupted))] next := by
        have := Change.journaled (interrupt p.2) row (.state .interrupted) now (hk ▸ hr) hopen
          (J.interrupted_length _) (hk ▸ hj)
        rwa [hk] at this
      rw [List.map_cons, List.nodup_cons] at hkeys
      have hsame : ∀ q ∈ rest, next.executions.get? q.1 = st.executions.get? q.1 := fun q hq =>
        journal_get?_ne hj fun he => hkeys.1 (he ▸ List.mem_map_of_mem (f := fst) hq)
      have hrest := ih hkeys.2 (fun q hq => hown q (List.mem_cons_of_mem p hq))
        (fun q hq => hsame q hq ▸ hl q (List.mem_cons_of_mem p hq)) h
      have hlog : (rest.filterMap fun q => interruption next q.1) =
          rest.filterMap fun q => interruption st q.1 := by
        apply List.filterMap_congr
        intro q hq
        rw [interruption, interruption, hsame q hq]
      have hf : ((p :: rest).filterMap fun q => interruption st q.1) =
          [(p.1, .plain row.nextSequence (.state .interrupted))] ++ rest.filterMap fun q => interruption st q.1 := by
        rw [List.filterMap_cons, interruption, hr]
        rfl
      rw [hf, ← hlog]
      exact .step hc hrest

theorem decode_rows {rows : List (RowKey × ExecutionRow J)}
    (hown : ∀ p ∈ rows, ∃ snap, p.2.snapshotJson = J.snapshot.encode snap ∧ rowKey snap = p.1) :
    ∃ live : List (RowKey × ExecutionSnapshot), live.map fst = rows.map fst ∧
      rows.mapM (fun row => J.snapshot.decode row.2.snapshotJson) = some (live.map snd) ∧
      ∀ p ∈ live, rowKey p.2 = p.1 ∧ ∃ row, (p.1, row) ∈ rows ∧ row.snapshotJson = J.snapshot.encode p.2 := by
  induction rows with
  | nil => exact ⟨[], rfl, rfl, fun p hp => by cases hp⟩
  | cons row rest ih =>
    obtain ⟨snap, he, hk⟩ := hown row List.mem_cons_self
    obtain ⟨live, hf, hd, hl⟩ := ih fun p hp => hown p (List.mem_cons_of_mem row hp)
    refine ⟨(row.1, snap) :: live, by simp [hf], ?_, fun p hp => ?_⟩
    · rw [List.mapM_cons, he, J.snapshot.decode_encode, hd]
      rfl
    rcases List.mem_cons.mp hp with rfl | hp
    · exact ⟨hk, row.2, List.mem_cons_self, he⟩
    · obtain ⟨hk, found, hfound, he⟩ := hl p hp
      exact ⟨hk, found, List.mem_cons_of_mem row hfound, he⟩

/-- `recover` is a loop over the live rows, each with a snapshot of its own. -/
theorem recover_eq (hc : Coherent st) (now : Int) :
    ∃ live : List (RowKey × ExecutionSnapshot), (live.map fst).Nodup ∧ (∀ p ∈ live, rowKey p.2 = p.1) ∧
      (∀ p ∈ live, ∃ row, st.executions.get? p.1 = some row ∧ row.snapshotJson = J.snapshot.encode p.2) ∧
      (∀ key, key ∈ live.map fst ↔ ∃ row, st.executions.get? key = some row ∧ isTerminalName row.state = false) ∧
      st.recover now = ((live.map fun p => interrupt p.2).foldlM (recoverOne now) st).map
        (live.map (fun p => interrupt p.2), ·) := by
  have hm : ∀ p, p ∈ st.executions.rows.filter (fun row => isLiveName row.2.state) ↔
      st.executions.get? p.1 = some p.2 ∧ isLiveName p.2.state = true := by
    intro p
    rw [List.mem_filter, ← mem_rows]
  have hname : ∀ key row, st.executions.get? key = some row →
      (isLiveName row.state = true ↔ isTerminalName row.state = false) := by
    intro key row hr
    obtain ⟨snap, _, _, hst⟩ := hc key row hr
    rw [hst]
    simp
  have hs : ∀ p ∈ st.executions.rows.filter (fun row => isLiveName row.2.state),
      ∃ snap, p.2.snapshotJson = J.snapshot.encode snap ∧ rowKey snap = p.1 := by
    intro p hp
    obtain ⟨snap, he, hk, _⟩ := hc p.1 p.2 ((hm p).mp hp).1
    exact ⟨snap, he, hk⟩
  obtain ⟨live, hf, hd, hown⟩ := decode_rows hs
  refine ⟨live, ?_, fun p hp => (hown p hp).1, fun p hp => ?_, fun key => ?_, ?_⟩
  · rw [hf]
    exact (List.filter_sublist.map fst).nodup st.executions.nodup
  · obtain ⟨_, row, hr, he⟩ := hown p hp
    exact ⟨row, ((hm _).mp hr).1, he⟩
  · rw [hf, List.mem_map]
    constructor
    · rintro ⟨p, hp, rfl⟩
      obtain ⟨hr, hl⟩ := (hm p).mp hp
      exact ⟨p.2, hr, (hname p.1 p.2 hr).mp hl⟩
    · rintro ⟨row, hr, hl⟩
      exact ⟨(key, row), (hm (key, row)).mpr ⟨hr, (hname key row hr).mpr hl⟩, rfl⟩
  · unfold recover
    rw [hd]
    dsimp only
    rw [List.map_map]
    rfl

/-- What is known of a successful `recover`. -/
theorem recover_loop (hc : Coherent st) (h : st.recover now = .ok (snaps, st')) :
    ∃ live : List (RowKey × ExecutionSnapshot), (live.map fst).Nodup ∧ (∀ p ∈ live, rowKey p.2 = p.1) ∧
      (∀ key, key ∈ live.map fst ↔ ∃ row, st.executions.get? key = some row ∧ isTerminalName row.state = false) ∧
      snaps = live.map (fun p => interrupt p.2) ∧
      (live.map fun p => interrupt p.2).foldlM (recoverOne now) st = .ok st' := by
  obtain ⟨live, hkeys, hown, _, hl, he⟩ := recover_eq hc now
  rw [he] at h
  cases hfold : (live.map fun p => interrupt p.2).foldlM (recoverOne now) st with
  | error e =>
    rw [hfold] at h
    cases h
  | ok last =>
    rw [hfold] at h
    cases h
    exact ⟨live, hkeys, hown, hl, rfl, hfold⟩

theorem filterMap_interruption (st : ExecutionStore J) {live : List (RowKey × ExecutionSnapshot)}
    (hown : ∀ p ∈ live, rowKey p.2 = p.1) :
    (live.map fun p => interrupt p.2).filterMap (fun snap => interruption st (rowKey snap)) =
      live.filterMap fun p => interruption st p.1 := by
  rw [List.filterMap_map]
  apply List.filterMap_congr
  intro p hp
  show interruption st (rowKey p.2) = _
  rw [hown p hp]

theorem recover_changes (hc : Coherent st) (h : st.recover now = .ok (snaps, st')) :
    Changes st (snaps.filterMap fun snap => interruption st (rowKey snap)) st' := by
  obtain ⟨live, hkeys, hown, hl, rfl, hfold⟩ := recover_loop hc h
  rw [filterMap_interruption st hown]
  exact recoverOne_changes now hkeys hown (fun p hp => (hl p.1).mp (List.mem_map_of_mem hp)) hfold

/-- A row `recover` has interrupted. -/
def interruptedRow (now : Int) (snapshot : ExecutionSnapshot) (row : ExecutionRow J) : ExecutionRow J :=
  {row with
    state := "Interrupted"
    nextSequence := row.nextSequence + 1
    snapshotJson := J.snapshot.encode (interrupt snapshot)
    updatedUnixMs := now}

/-- The loop of `recover` interrupts the rows it visits and no other. -/
theorem recoverOne_rows (now : Int) {live : List (RowKey × ExecutionSnapshot)} (hkeys : (live.map fst).Nodup)
    (hown : ∀ p ∈ live, rowKey p.2 = p.1) (h : (live.map fun p => interrupt p.2).foldlM (recoverOne now) st = .ok st') :
    (∀ key, key ∉ live.map fst → st'.executions.get? key = st.executions.get? key) ∧
      ∀ p ∈ live, ∃ row, st.executions.get? p.1 = some row ∧
        st'.executions.get? p.1 = some (interruptedRow now p.2 row) := by
  induction live generalizing st with
  | nil =>
    cases h
    exact ⟨fun _ _ => rfl, fun _ hp => by cases hp⟩
  | cons p rest ih =>
    have hk : rowKey (interrupt p.2) = p.1 := hown p List.mem_cons_self
    rw [List.map_cons, List.foldlM_cons] at h
    rw [List.map_cons, List.nodup_cons] at hkeys
    cases hone : recoverOne now st (interrupt p.2) with
    | error e =>
      rw [hone] at h
      cases h
    | ok next =>
      rw [hone] at h
      unfold recoverOne at hone
      rw [hk] at hone
      split at hone
      · cases hone
      rename_i old hold
      obtain ⟨houts, hi⟩ := ih hkeys.2 (fun q hq => hown q (List.mem_cons_of_mem p hq)) h
      refine ⟨fun key hout => ?_, fun q hq => ?_⟩
      · rw [List.map_cons, List.mem_cons, not_or] at hout
        rw [houts key hout.2, journal_get?_ne hone hout.1]
      rcases List.mem_cons.mp hq with rfl | hq
      · exact ⟨old, hold, (houts q.1 hkeys.1).trans (journal_get? hone hold)⟩
      obtain ⟨row, hr, hrow'⟩ := hi q hq
      have hne : q.1 ≠ p.1 := fun he => hkeys.1 (he ▸ List.mem_map_of_mem hq)
      exact ⟨row, journal_get?_ne hone hne ▸ hr, hrow'⟩

/-- After a successful `recover` every row is terminal. -/
theorem recover_terminal (hc : Coherent st) (h : st.recover now = .ok (snaps, st')) {key : RowKey}
    {row : ExecutionRow J} (hr : st'.executions.get? key = some row) : isTerminalName row.state = true := by
  obtain ⟨live, hkeys, hown, hl, _, hfold⟩ := recover_loop hc h
  obtain ⟨hout, hi⟩ := recoverOne_rows now hkeys hown hfold
  by_cases hin : key ∈ live.map fst
  · obtain ⟨p, hp, rfl⟩ := List.mem_map.mp hin
    obtain ⟨old, _, hrow'⟩ := hi p hp
    rw [hr, some.injEq] at hrow'
    rw [hrow']
    rfl
  · by_contra hterm
    exact hin ((hl key).mpr ⟨row, hout key hin ▸ hr, Bool.not_eq_true _ ▸ hterm⟩)

theorem exec_changes (hc : Coherent st) (call : Call) : Changes st (call.commits st) (call.exec st) := by
  cases call with
  | reserve snap ver digest principal hash expires now =>
    simp only [Call.exec, Call.commits]
    cases h : st.reserve snap ver digest principal hash expires now with
    | error e => exact .refl st
    | ok a =>
      rcases reserve_changes h with he | ⟨_, hchange⟩
      · exact he ▸ .refl st
      · exact .single hchange
  | commitEvent snap kind now =>
    simp only [Call.exec, Call.commits]
    cases h : st.commitEvent snap kind now with
    | error e => exact .refl st
    | ok a =>
      obtain ⟨a, st'⟩ := a
      rcases commitEvent_changes h with ⟨rfl, rfl⟩ | ⟨event, rfl, hchange⟩
      · exact .refl _
      · exact .single hchange
  | updateLease id gen hash ren expires now =>
    simp only [Call.exec, Call.commits]
    cases h : st.updateLease id gen hash ren expires now with
    | error e => exact .refl st
    | ok a =>
      rcases updateLease_changes h with he | hchange
      · exact he ▸ .refl st
      · exact .single hchange
  | recover now =>
    simp only [Call.exec, Call.commits]
    cases h : st.recover now with
    | error e => exact .refl st
    | ok a => exact recover_changes hc h

theorem play_changes (hc : Coherent st) (history : List (Call × Bool)) :
    Changes st (journaled st history) (play st history) := by
  induction history generalizing st with
  | nil => exact .refl st
  | cons head rest ih =>
    obtain ⟨call, commits⟩ := head
    cases commits
    · exact ih hc
    · have hf := exec_changes hc call
      exact hf.trans (ih (hf.invariant Coherent Change.coherent hc))

theorem play_concat (st : ExecutionStore J) (history : List (Call × Bool)) (call : Call) :
    play st (history ++ [(call, true)]) = call.exec (play st history) := by
  induction history generalizing st with
  | nil => rfl
  | cons head rest ih => exact ih _

theorem journaled_append (st : ExecutionStore J) (history later : List (Call × Bool)) :
    journaled st (history ++ later) = journaled st history ++ journaled (play st history) later := by
  induction history generalizing st with
  | nil => rfl
  | cons head rest ih =>
    obtain ⟨first, commits⟩ := head
    cases commits
    · exact ih st
    show first.commits st ++ journaled (first.exec st) (rest ++ later) = _
    rw [ih, ← List.append_assoc]
    rfl

theorem journaled_concat (st : ExecutionStore J) (history : List (Call × Bool)) (call : Call) :
    journaled st (history ++ [(call, true)]) = journaled st history ++ call.commits (play st history) := by
  rw [journaled_append]
  simp [journaled]

/-- A store some history of calls leads to from the empty one. -/
def Reachable (st : ExecutionStore J) : Prop := ∃ history, st = play ExecutionStore.empty history

theorem Reachable.invariant (Inv : ExecutionStore J → Prop) (hstep : ∀ {a b event}, Change a event b → Inv a → Inv b)
    (he : Inv ExecutionStore.empty) (h : Reachable st) : Inv st := by
  obtain ⟨history, rfl⟩ := h
  exact (play_changes coherent_empty history).invariant Inv hstep he

theorem Reachable.coherent (h : Reachable st) : Coherent st :=
  h.invariant Coherent Change.coherent coherent_empty

end Eggwork.Store
