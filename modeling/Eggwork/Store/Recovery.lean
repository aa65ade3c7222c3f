import Eggwork.Store.Journal
import Eggwork.Store.Terminal

/-! Restart recovery.

`recover` finds the row to write from the decoded snapshot, so it rests on the rows
being coherent, and its journal write on the next sequence number being free. Both
hold after every history, so `recover` never fails there; `restart_recovery` says
what it leaves. -/
namespace Eggwork.Store
open Lib ExecutionStore List

variable {J : Serde}
variable {st : ExecutionStore J}

/-- One log describes the journals of all rows. -/
def Journaled (st : ExecutionStore J) : Prop := ∃ log, ∀ key, JournalOf st (eventsOf log key) key

theorem Change.keeps_journaled {st' : ExecutionStore J} {ev : List (RowKey × ExecutionEvent)} (h : Change st ev st')
    (hj : Journaled st) : Journaled st' := by
  obtain ⟨log, hlog⟩ := hj
  exact ⟨log ++ ev, h.journalOf hlog⟩

theorem play_journaled (history : List (Call × Bool)) : Journaled (play (ExecutionStore.empty : ExecutionStore J) history) :=
  ⟨_, play_journalOf history⟩

/-! ### Recovery does not fail -/

theorem Journaled.journal_ok (h : Journaled st) {key : RowKey} {row : ExecutionRow J}
    (hr : st.executions.get? key = some row) (state : String) (snap : ExecutionSnapshot) (ev : ExecutionEvent)
    (now : Int) : ∃ st', st.journal key state snap row.nextSequence ev now = .ok st' := by
  obtain ⟨log, hlog⟩ := h
  have hf : st.executionEvents.get? (key, row.nextSequence) = none := by
    rw [← Option.not_isSome_iff_eq_none, (hlog key).get?_isSome, (hlog key).next row hr]
    omega
  unfold journal
  cases hi : st.executionEvents.insert (key, row.nextSequence) (J.event.encode ev) with
  | some events => exact ⟨_, rfl⟩
  | none =>
    rw [Table.insert, dif_neg (by rw [Table.mem_keys, hf]; exact Bool.false_ne_true)] at hi
    cases hi

theorem recoverOne_total (now : Int) {live : List (RowKey × ExecutionSnapshot)} (hkeys : (live.map Prod.fst).Nodup)
    (hown : ∀ p ∈ live, rowKey p.2 = p.1)
    (hl : ∀ p ∈ live, ∃ row, st.executions.get? p.1 = some row ∧ isTerminalName row.state = false) (hj : Journaled st) :
    ∃ st', (live.map fun p => interrupt p.2).foldlM (recoverOne now) st = .ok st' := by
  induction live generalizing st with
  | nil => exact ⟨st, rfl⟩
  | cons p rest ih =>
    obtain ⟨row, hr, hopen⟩ := hl p mem_cons_self
    have hk : rowKey (interrupt p.2) = p.1 := hown p mem_cons_self
    rw [map_cons, nodup_cons] at hkeys
    have hrow' : st.executions.get? (rowKey (interrupt p.2)) = some row := hk ▸ hr
    obtain ⟨next, hn⟩ := hj.journal_ok hrow' "Interrupted" (interrupt p.2)
      (.plain row.nextSequence (.state .interrupted)) now
    have hone : recoverOne now st (interrupt p.2) = .ok next := by
      simp only [recoverOne, hrow', hn]
    have hc := Change.journaled (interrupt p.2) row (.state .interrupted) now hrow' hopen
      (J.interrupted_length _) hn
    obtain ⟨st', hrest⟩ := ih hkeys.2 (fun q hq => hown q (mem_cons_of_mem p hq))
      (fun q hq => by
        have hne : q.1 ≠ rowKey (interrupt p.2) := fun he => hkeys.1 (hk ▸ he ▸ mem_map_of_mem hq)
        rw [journal_get?_ne hn hne]
        exact hl q (mem_cons_of_mem p hq))
      (hc.keeps_journaled hj)
    refine ⟨st', ?_⟩
    rw [map_cons, foldlM_cons, hone]
    exact hrest

theorem recover_total (hc : Coherent st) (hj : Journaled st) (now : Int) :
    ∃ cut st', st.recover now = .ok (cut, st') := by
  obtain ⟨live, hkeys, hown, _, hl, he⟩ := recover_eq hc now
  obtain ⟨st', hst'⟩ := recoverOne_total now hkeys hown (fun p hp => (hl p.1).mp (mem_map_of_mem hp)) hj
  exact ⟨_, st', by rw [he, hst']; rfl⟩

theorem recover_idle (hc : Coherent st)
    (hterm : ∀ key row, st.executions.get? key = some row → isTerminalName row.state = true) (now : Int) :
    st.recover now = .ok ([], st) := by
  obtain ⟨live, _, _, _, hl, he⟩ := recover_eq hc now
  have hn : live = [] := by
    cases live with
    | nil => rfl
    | cons p rest =>
      obtain ⟨row, hr, hopen⟩ := (hl p.1).mp mem_cons_self
      rw [hterm p.1 row hr] at hopen
      cases hopen
  rw [he, hn]
  rfl

/-! ### What it appends -/

theorem eventsOf_interruptions {live : List (RowKey × ExecutionSnapshot)} (hkeys : (live.map Prod.fst).Nodup)
    {key : RowKey} {row : ExecutionRow J} (hr : st.executions.get? key = some row) :
    eventsOf (live.filterMap fun p => interruption st p.1) key =
      if key ∈ live.map Prod.fst then [.plain row.nextSequence (.state .interrupted)] else [] := by
  induction live with
  | nil => rfl
  | cons p rest ih =>
    rw [map_cons, nodup_cons] at hkeys
    have hrest := ih hkeys.2
    rw [filterMap_cons]
    by_cases hk : key = p.1
    · subst hk
      rw [if_neg hkeys.1] at hrest
      rw [map_cons, if_pos mem_cons_self, interruption, hr, Option.map_some]
      show eventsOf ([(p.1, _)] ++ _) p.1 = _
      rw [eventsOf_append, hrest, eventsOf_singleton, if_pos rfl, append_nil]
    rw [map_cons]
    simp only [mem_cons, hk, false_or]
    rw [← hrest]
    cases hne : interruption st p.1 with
    | none => rfl
    | some e =>
      have he : e.1 = p.1 := by
        obtain ⟨_, _, rfl⟩ := Option.map_eq_some_iff.mp hne
        rfl
      show eventsOf ([e] ++ _) key = _
      rw [eventsOf_append, ← Prod.mk.eta (p := e), eventsOf_singleton, if_neg (by rw [he]; exact Ne.symm hk),
        nil_append]

/-- **Restart recovery.** After any history of calls, each allowed to abort, `recover`
succeeds. It then leaves every row terminal and creates none; a row that was terminal
is unchanged, with its events; a live row becomes an interrupted one whose snapshot is
its own with an interrupted result, and exactly one event was journaled on it, with its
next sequence number, which is in the table. A second `recover` finds nothing and
changes nothing. -/
theorem restart_recovery (history : List (Call × Bool)) (now later : Int) :
    ∃ interrupted st', (play (ExecutionStore.empty : ExecutionStore J) history).recover now = .ok (interrupted, st') ∧
      (∀ key row, st'.executions.get? key = some row → isTerminalName row.state = true) ∧
      (∀ key, (play (ExecutionStore.empty : ExecutionStore J) history).executions.get? key = none →
        st'.executions.get? key = none) ∧
      (∀ key row, (play ExecutionStore.empty history).executions.get? key = some row → isTerminalName row.state = true →
        st'.executions.get? key = some row ∧ retained st'.executionEvents key =
            retained (play (ExecutionStore.empty : ExecutionStore J) history).executionEvents key) ∧
      (∀ key row, (play ExecutionStore.empty history).executions.get? key = some row → isTerminalName row.state = false →
        ∃ snapshot result, row.snapshotJson = J.snapshot.encode snapshot ∧ rowKey snapshot = key ∧
          result.state = .interrupted ∧ st'.executions.get? key = some {row with
            state := "Interrupted"
            nextSequence := row.nextSequence + 1
            snapshotJson := J.snapshot.encode {snapshot with state := .interrupted, result := some result}
            updatedUnixMs := now} ∧
          eventsOf ((Call.recover now).commits (play (ExecutionStore.empty : ExecutionStore J) history)) key =
            [.plain row.nextSequence (.state .interrupted)] ∧
          st'.executionEvents.get? (key, row.nextSequence) =
            some (J.event.encode (.plain row.nextSequence (.state .interrupted)))) ∧
      st'.recover later = .ok ([], st') := by
  have hc : Coherent (play (ExecutionStore.empty : ExecutionStore J) history) := Reachable.coherent ⟨history, rfl⟩
  obtain ⟨interrupted, st', hrecover⟩ := recover_total hc (play_journaled history) now
  have hchanges := recover_changes hc hrecover
  have hterminal : ∀ key row, st'.executions.get? key = some row → isTerminalName row.state = true :=
    fun key row hrow => recover_terminal hc hrecover hrow
  have hexec : st' = play ExecutionStore.empty (history ++ [(.recover now, true)]) := by
    rw [play_concat, Call.exec, hrecover]
    rfl
  obtain ⟨live, hkeys, hown, hdecoded, hlive, he⟩ := recover_eq hc now
  have hfold : (live.map fun p => interrupt p.2).foldlM (recoverOne now) (play ExecutionStore.empty history) = .ok st' ∧
      interrupted = live.map fun p => interrupt p.2 := by
    rw [he] at hrecover
    cases hfold : (live.map fun p => interrupt p.2).foldlM (recoverOne now) (play ExecutionStore.empty history) with
    | error e =>
      rw [hfold] at hrecover
      cases hrecover
    | ok last =>
      rw [hfold] at hrecover
      cases hrecover
      exact ⟨rfl, rfl⟩
  obtain ⟨houtside, hinside⟩ := recoverOne_rows now hkeys hown hfold.1
  refine ⟨interrupted, st', hrecover, hterminal, fun key hnone => ?_, fun key row hrow hterm => hchanges.terminal_kept hrow hterm,
    fun key row hrow hopen => ?_, recover_idle (hchanges.invariant Coherent Change.coherent hc) hterminal later⟩
  · rw [houtside key, hnone]
    intro hin
    obtain ⟨row, hrow, _⟩ := (hlive key).mp hin
    rw [hnone] at hrow
    cases hrow
  have hin := (hlive key).mpr ⟨row, hrow, hopen⟩
  obtain ⟨p, hp, rfl⟩ := mem_map.mp hin
  obtain ⟨row₁, hrow₁, hencoded⟩ := hdecoded p hp
  obtain ⟨row₂, hrow₂, hrow'⟩ := hinside p hp
  rw [hrow, Option.some.injEq] at hrow₁ hrow₂
  subst hrow₁
  subst hrow₂
  have hcommits : eventsOf ((Call.recover now).commits (play (ExecutionStore.empty : ExecutionStore J) history)) p.1 =
      [.plain row.nextSequence (.state .interrupted)] := by
    simp only [Call.commits, hrecover]
    rw [hfold.2, filterMap_interruption _ hown, eventsOf_interruptions hkeys hrow, if_pos hin]
  have hjournal := play_journalOf (J := J) (history ++ [(.recover now, true)]) p.1
  rw [journaled_concat, eventsOf_append, hcommits, ← hexec] at hjournal
  exact ⟨p.2, interruptedResult, hencoded, hown p hp, rfl, hrow', hcommits, hjournal.newest⟩

end Eggwork.Store
