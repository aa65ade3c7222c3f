import Eggwork.Store.Encoding
import Eggwork.Store.Generations
import Eggwork.Store.Trim

/-! A terminal state is assigned once.

Four writers touch a row and each guards it in its own way: `reserve` by the key,
`commit_event` and `update_lease` by the state column, `recover` by its list of
live names. They agree (`Change.terminal_row`), so a terminal row and its journal
stay what they are (`terminal_row_frozen`). -/
namespace Eggwork.Store
open Lib ExecutionStore

variable {J : Serde}

theorem Change.terminal_retained {st st' : ExecutionStore J} {ev : List (RowKey × ExecutionEvent)}
    (h : Change st ev st') {key : RowKey} {row : ExecutionRow J} (hr : st.executions.get? key = some row)
    (hterm : isTerminalName row.state = true) : retained st'.executionEvents key = retained st.executionEvents key := by
  cases h with
  | created | renewed => rfl
  | journaled snapshot live _ _ hl hopen _ hj =>
    have hne : key ≠ rowKey snapshot := by
      rintro rfl
      rw [hr, Option.some.injEq] at hl
      rw [hl, hopen] at hterm
      cases hterm
    obtain ⟨table, hi, rfl⟩ := journal_ok hj
    rw [retained_trimEvents_ne _ hne, retained_insert hi, if_neg (Ne.symm hne), List.append_nil]

theorem Changes.terminal_kept {st st' : ExecutionStore J} {log : List (RowKey × ExecutionEvent)} (h : Changes st log st')
    {key : RowKey} {row : ExecutionRow J} (hr : st.executions.get? key = some row)
    (hterm : isTerminalName row.state = true) :
    st'.executions.get? key = some row ∧ retained st'.executionEvents key = retained st.executionEvents key := by
  refine h.invariant (fun st' => st'.executions.get? key = some row ∧
    retained st'.executionEvents key = retained st.executionEvents key) ?_ ⟨hr, rfl⟩
  intro a b ev hc ha
  exact ⟨hc.terminal_row ha.1 hterm, (hc.terminal_retained ha.1 hterm).trans ha.2⟩

/-- **Terminal state is single-assignment.** From a reachable store in which a
row is terminal, after any history the row is the same row (state, snapshot, next
sequence number, lease expiry and last renewal) with the same retained events. -/
theorem terminal_row_frozen (st : ExecutionStore J) (hreach : Reachable st) (key : RowKey)
    (row : ExecutionRow J) (hrow : st.executions.get? key = some row) (hterm : isTerminalName row.state = true)
    (history : List (Call × Bool)) : (play st history).executions.get? key = some row ∧
      retained (play st history).executionEvents key = retained st.executionEvents key :=
  (play_changes hreach.coherent history).terminal_kept hrow hterm

/-- A one-generation execution, reserved and run to success. -/
def finishedSnapshot (state : ExecutionState) : ExecutionSnapshot where
  schemaVersion := 1
  executionId := ⟨"job", by decide⟩
  generation := ⟨1⟩
  state := state
  result := none

def finishedHistory : List (Call × Bool) :=
  [(.reserve (finishedSnapshot .accepted) 1 "digest" "alice" "lease" 1000 0, true),
    (.commitEvent (finishedSnapshot .succeeded) (.state .succeeded) 7, true)]

theorem terminal_row_frozen_finished : ((play (play (ExecutionStore.empty : ExecutionStore .json) finishedHistory)
      [(.commitEvent (finishedSnapshot .running) (.state .running) 8, true), (.recover 9, true)]).executions.get?
        (⟨"job", by decide⟩, 1)).map (·.state) = some "Succeeded" := by
  have h := terminal_row_frozen (play (ExecutionStore.empty : ExecutionStore .json) finishedHistory)
    ⟨finishedHistory, rfl⟩ (⟨"job", by decide⟩, 1) _ rfl (by decide)
    [(.commitEvent (finishedSnapshot .running) (.state .running) 8, true), (.recover 9, true)]
  rw [h.1]
  rfl

end Eggwork.Store
