import Eggwork.Store.Generations

/-! The recorded state of an execution, and how a call moves it.

The state is that of the snapshot the row holds. `exec_moves` says once what a
call can do to it: a reservation gives a new row its first state, a commit
replaces a state that is not terminal, and recovery interrupts. -/
namespace Eggwork

/-- The order of a lifecycle: `Accepted`, `Preparing`, `Running`, `Cancelling`, then
the terminal states. -/
def ExecutionState.rank : ExecutionState → Nat
  | .accepted => 0
  | .preparing => 1
  | .running => 2
  | .cancelling => 3
  | _ => 4

theorem ExecutionState.rank_le (s : ExecutionState) : s.rank ≤ 4 := by
  cases s <;> decide

namespace Store
open Lib ExecutionStore

variable {J : Serde}

/-- The state of the snapshot a row holds. -/
def recordedState (st : ExecutionStore J) (key : RowKey) : Option ExecutionState :=
  (st.executions.get? key).bind fun row => (J.snapshot.decode row.snapshotJson).map fun snapshot => snapshot.state

theorem recordedState_congr {st st' : ExecutionStore J} {key : RowKey}
    (h : st'.executions.get? key = st.executions.get? key) : recordedState st' key = recordedState st key := by
  unfold recordedState
  rw [h]

theorem recordedState_none {st : ExecutionStore J} {key : RowKey} (h : st.executions.get? key = none) :
    recordedState st key = none := by
  unfold recordedState
  rw [h]
  rfl

theorem recordedState_encode {st : ExecutionStore J} {key : RowKey} {row : ExecutionRow J} {snap : ExecutionSnapshot}
    (hr : st.executions.get? key = some row) (he : row.snapshotJson = J.snapshot.encode snap) :
    recordedState st key = some snap.state := by
  unfold recordedState
  rw [hr, Option.bind_some, he, J.snapshot.decode_encode]
  rfl

theorem recordedState_row {st : ExecutionStore J} (hc : Coherent st) {key : RowKey} {row : ExecutionRow J}
    (hr : st.executions.get? key = some row) :
    ∃ state, recordedState st key = some state ∧ row.state = stateName state := by
  obtain ⟨snap, he, _, hst⟩ := hc key row hr
  exact ⟨snap.state, recordedState_encode hr he, hst⟩

inductive StateMove (key : RowKey) : Call → Option ExecutionState → Option ExecutionState → Prop
  | same {call : Call} (state : Option ExecutionState) : StateMove key call state state
  | reserved {snapshot : ExecutionSnapshot} {version : UInt16} {digest principal hash : String} {expires now : Int}
      (hkey : rowKey snapshot = key) :
      StateMove key (.reserve snapshot version digest principal hash expires now) none (some snapshot.state)
  | committed {snapshot : ExecutionSnapshot} {kind : ExecutionEventKind} {now : Int} (hkey : rowKey snapshot = key)
      (old : ExecutionState) (hlive : isTerminal old = false) :
      StateMove key (.commitEvent snapshot kind now) (some old) (some snapshot.state)
  | interrupted {now : Int} (old : ExecutionState) : StateMove key (.recover now) (some old) (some .interrupted)

theorem recover_moves {st st' : ExecutionStore J} {now : Int} {snaps : List ExecutionSnapshot} (hc : Coherent st)
    (h : st.recover now = .ok (snaps, st')) (key : RowKey) :
    StateMove key (.recover now) (recordedState st key) (recordedState st' key) := by
  obtain ⟨live, hkeys, hown, _, _, hfold⟩ := recover_loop hc h
  obtain ⟨hout, hi⟩ := recoverOne_rows now hkeys hown hfold
  by_cases hin : key ∈ live.map Prod.fst
  · obtain ⟨p, hp, rfl⟩ := List.mem_map.mp hin
    obtain ⟨row, hr, hrow'⟩ := hi p hp
    obtain ⟨state, hst, _⟩ := recordedState_row hc hr
    rw [hst, recordedState_encode hrow' rfl]
    exact .interrupted state
  · rw [recordedState_congr (hout key hin)]
    exact .same _

theorem exec_moves {st : ExecutionStore J} (hc : Coherent st) (call : Call) (key : RowKey) :
    StateMove key call (recordedState st key) (recordedState (call.exec st) key) := by
  cases call with
  | reserve snap ver digest principal hash exp now =>
    simp only [Call.exec]
    cases h : st.reserve snap ver digest principal hash exp now with
    | error e => exact .same _
    | ok a =>
      obtain ⟨res, st'⟩ := a
      show StateMove key _ _ (recordedState st' key)
      by_cases hk : key = rowKey snap
      · rcases reserve_changes h with rfl | ⟨rfl, _⟩
        · exact .same _
        obtain ⟨hn, _, row, hf, _, hinside⟩ := reserve_created h
        subst hk
        have hr : st'.executions.get? (rowKey snap) = some row := by rw [Table.get?_insert hinside, if_pos rfl]
        rw [recordedState_none hn, recordedState_encode hr hf.snapshotJson]
        exact .reserved rfl
      · rw [recordedState_congr (reserve_get?_ne h hk)]
        exact .same _
  | commitEvent snap kind now =>
    simp only [Call.exec]
    cases h : st.commitEvent snap kind now with
    | error e => exact .same _
    | ok a =>
      obtain ⟨a, st'⟩ := a
      show StateMove key _ _ (recordedState st' key)
      rcases commitEvent_journaled h with ⟨rfl, rfl⟩ | ⟨row, rfl, hr, hl, _, hj⟩
      · exact .same _
      by_cases hk : key = rowKey snap
      · subst hk
        obtain ⟨old, hold, hname⟩ := recordedState_row hc hr
        rw [hname, isTerminalName_stateName] at hl
        rw [hold, recordedState_encode (journal_get? hj hr) rfl]
        exact .committed rfl old hl
      · rw [recordedState_congr (journal_get?_ne hj hk)]
        exact .same _
  | updateLease id gen hash renewal exp now =>
    simp only [Call.exec]
    cases h : st.updateLease id gen hash renewal exp now with
    | error e => exact .same _
    | ok a =>
      obtain ⟨a, st'⟩ := a
      show StateMove key _ _ (recordedState st' key)
      have hsame : recordedState st' key = recordedState st key := by
        cases hrow' : st'.executions.get? key with
        | none =>
          have hn : st.executions.get? key = none := by
            have hi : ((Call.exec st _).executions.get? key).isSome = _ :=
              exec_isSome (.inr ⟨id, gen, hash, renewal, exp, now, rfl⟩) key
            rw [Call.exec, h, committed, hrow'] at hi
            exact Option.not_isSome_iff_eq_none.mp (by rw [← hi]; exact Bool.false_ne_true)
          exact recordedState_congr (hrow'.trans hn.symm)
        | some row' =>
          obtain ⟨row, _, _, _, hr, rfl⟩ := updateLease_row h hrow'
          unfold recordedState
          rw [hr, hrow']
          rfl
      rw [hsame]
      exact .same _
  | recover now =>
    simp only [Call.exec]
    cases h : st.recover now with
    | error e => exact .same _
    | ok a => exact recover_moves hc h key

/-! ### Stores that only move forward -/

/-- No recorded state is lost or moves backwards. -/
def Rises (st st' : ExecutionStore J) : Prop :=
  ∀ key state, recordedState st key = some state → ∃ state', recordedState st' key = some state' ∧ state.rank ≤ state'.rank

theorem Rises.refl (st : ExecutionStore J) : Rises st st := fun _ state h => ⟨state, h, Nat.le_refl _⟩

theorem Rises.trans {a b c : ExecutionStore J} (h : Rises a b) (h' : Rises b c) : Rises a c := by
  intro key state hst
  obtain ⟨next, hn, hle⟩ := h key state hst
  obtain ⟨last, hlast, hle'⟩ := h' key next hn
  exact ⟨last, hlast, Nat.le_trans hle hle'⟩

/-- A call moves no state backwards, if what it commits does not. -/
theorem Rises.exec {st : ExecutionStore J} (hc : Coherent st) {call : Call}
    (hcommit : ∀ snap kind now old, call = .commitEvent snap kind now →
      recordedState st (rowKey snap) = some old → isTerminal old = false → old.rank ≤ snap.state.rank) :
    Rises st (call.exec st) := by
  intro key state hst
  have hm := exec_moves hc call key
  rw [hst] at hm
  generalize hnew : recordedState (call.exec st) key = new at hm
  cases hm with
  | same => exact ⟨state, rfl, Nat.le_refl _⟩
  | committed hk _ hl =>
    rename_i snap kind now
    exact ⟨snap.state, rfl, hcommit snap kind now state rfl (hk ▸ hst) hl⟩
  | interrupted => exact ⟨.interrupted, rfl, state.rank_le⟩

end Store
end Eggwork
