import Eggwork.Lib.Transition
import Eggwork.Server.Handlers
import Eggwork.Store.Journal
import Eggwork.Store.Terminal

/-! Resuming an event stream from a cursor.

`event_response` loads the page after a cursor and refuses it if the history before
it has been trimmed, or if the cursor is ahead of the journal. `cursor_resumption`
says when each of the three answers is given, and that a client that goes on from
the last event it received sees the journal without gap or repetition, whatever is
committed and trimmed between its requests. -/
namespace Eggwork.Server
open Lib Store ExecutionStore List

variable {J : Serde}

/-! ### The three answers -/

/-- What `event_response` makes of the page it loads. -/
def resumeFrom (st : ExecutionStore J) (id : ExecutionId) (generation : ExecutionGeneration) (after : Nat) :
    Except StoreError (Option Resumed) :=
  (st.loadPage id generation after).map (Option.map (checkPage after))

/-- The events a history has committed to a row. -/
def journalAfter (J : Serde) (history : List (Call × Bool)) (key : RowKey) : List ExecutionEvent :=
  eventsOf (journaled (ExecutionStore.empty : ExecutionStore J) history) key

/-- The store a history leaves. -/
abbrev storeAfter (J : Serde) (history : List (Call × Bool)) : ExecutionStore J := play ExecutionStore.empty history

theorem journalAfter_journalOf (history : List (Call × Bool)) (key : RowKey) :
    JournalOf (storeAfter J history) (journalAfter J history key) key := play_journalOf history key

section Answers
variable {history : List (Call × Bool)} {id : ExecutionId} {gen : ExecutionGeneration} {after : Nat}
  {row : ExecutionRow J}

theorem resumeFrom_cases (ha : after < 2 ^ 63) (hr : (storeAfter J history).executions.get? (id, gen.asI64) = some row) :
    ∃ base, base ≤ row.nextSequence ∧
      (∀ n, ((storeAfter J history).executionEvents.get? ((id, gen.asI64), n)).isSome ↔ base ≤ n ∧ n < row.nextSequence) ∧
      resumeFrom (storeAfter J history) id gen after = .ok (some (if after + 1 < base then .expired
        else if after ≥ row.nextSequence then .ahead
        else .page ((journalAfter J history (id, gen.asI64)).drop after))) := by
  have hj := journalAfter_journalOf (J := J) history (id, gen.asI64)
  have hn := hj.next row hr
  obtain ⟨base, ⟨_, hbase⟩, hwin, hpage⟩ := hj.loadPage hr ha
  have hc : saturatingAdd after 1 = after + 1 := by
    unfold saturatingAdd
    omega
  refine ⟨base, by rw [hn]; exact hbase, fun n => by rw [hwin, hn], ?_⟩
  rw [resumeFrom, hpage, hn]
  simp only [Except.map, Option.map_some, checkPage, hc]
  congr 2
  split
  · rfl
  · rfl

/-- An event was committed exactly if its number is below the next one. -/
theorem mem_journalAfter (hr : (storeAfter J history).executions.get? (id, gen.asI64) = some row) (n : Nat) :
    (∃ ev ∈ journalAfter J history (id, gen.asI64), ev.sequence = n) ↔ 1 ≤ n ∧ n < row.nextSequence := by
  have hj := journalAfter_journalOf (J := J) history (id, gen.asI64)
  rw [hj.next row hr, ← mem_map, hj.numbered, mem_range'_1]
  omega

end Answers

/-! ### A client that resumes -/

/-- A client of one execution, and the history of the store it reads. -/
structure Client where
  history : List (Call × Bool)
  cursor : Nat
  received : List ExecutionEvent

inductive ClientAction where
  | call (call : Call) (commits : Bool)
  | fetch

/-- The store moves, or the client asks for what follows the last event it has
received; a cursor no `i64` can hold is refused by the route. -/
def Client.step (J : Serde) (id : ExecutionId) (generation : ExecutionGeneration) (c : Client) :
    ClientAction → Option Client
  | .call call commits => some {c with history := c.history ++ [(call, commits)]}
  | .fetch =>
    if (c.cursor : Int) > i64Max then some c
    else
      match resumeFrom (storeAfter J c.history) id generation c.cursor with
      | .ok (some (.page events)) =>
        some {c with
          cursor := (events.getLast?.map ExecutionEvent.sequence).getD c.cursor
          received := c.received ++ events}
      | _ => some c

/-- The client has received the events after a cursor, up to some point. -/
structure Client.Follows (J : Serde) (key : RowKey) (after : Nat) (c : Client) : Prop where
  received : c.received <+: (journalAfter J c.history key).drop after
  cursor : c.cursor = after + c.received.length

theorem journalAfter_append (history later : List (Call × Bool)) (key : RowKey) :
    journalAfter J history key <+: journalAfter J (history ++ later) key := by
  rw [journalAfter, journalAfter, journaled_append, eventsOf_append]
  exact prefix_append _ _

section Client
variable {id : ExecutionId} {gen : ExecutionGeneration} {after : Nat} {c c' : Client}

theorem Client.Follows.page (h : c.Follows J (id, gen.asI64) after)
    (hc : c.cursor ≤ (journalAfter J c.history (id, gen.asI64)).length) :
    Client.Follows J (id, gen.asI64) after {c with
      cursor := (((journalAfter J c.history (id, gen.asI64)).drop c.cursor).getLast?.map
        ExecutionEvent.sequence).getD c.cursor
      received := c.received ++ (journalAfter J c.history (id, gen.asI64)).drop c.cursor} := by
  obtain ⟨hr, hat⟩ := h
  generalize he : journalAfter J c.history (id, gen.asI64) = events at *
  have hall : c.received ++ events.drop c.cursor = events.drop after := by
    rw [prefix_iff_eq_append.mp hr |>.symm, drop_drop, hat]
  have hlast : ((events.drop c.cursor).getLast?.map ExecutionEvent.sequence).getD c.cursor = events.length := by
    have hn := (journalAfter_journalOf (J := J) c.history (id, gen.asI64)).numbers_after c.cursor
    rw [he] at hn
    rw [← getLast?_map, hn, getLast?_range']
    split
    · simp only [Option.getD_none]
      omega
    · simp only [Option.getD_some]
      omega
  refine ⟨?_, ?_⟩
  · show c.received ++ events.drop c.cursor <+: _
    rw [hall]
    rw [he]
  · show Option.getD _ _ = after + (c.received ++ events.drop c.cursor).length
    rw [hlast, hall, length_drop]
    omega

theorem Client.Follows.step {a : ClientAction} (hstep : c.step J id gen a = some c')
    (h : c.Follows J (id, gen.asI64) after) : c'.Follows J (id, gen.asI64) after := by
  cases a with
  | call call commits =>
    cases hstep
    exact ⟨h.received.trans ((journalAfter_append c.history _ _).drop after), h.cursor⟩
  | fetch =>
    simp only [Client.step] at hstep
    split at hstep
    · cases hstep
      exact h
    rename_i hb
    have hb : c.cursor < 2 ^ 63 := by
      unfold i64Max at hb
      omega
    split at hstep
    · rename_i events hresult
      cases hr : (storeAfter J c.history).executions.get? (id, gen.asI64) with
      | none =>
        simp only [resumeFrom, ExecutionStore.loadPage, hr] at hresult
        cases hresult
      | some row =>
        obtain ⟨base, _, _, hc⟩ := resumeFrom_cases hb hr
        rw [hc] at hresult
        split at hresult
        · cases hresult
        split at hresult
        · cases hresult
        cases hresult
        cases hstep
        have hlen := (journalAfter_journalOf (J := J) c.history (id, gen.asI64)).next row hr
        exact h.page (by omega)
    · cases hstep
      exact h

end Client

/-- **Resuming never skips silently.** For every journal a history leaves and every
cursor below `2 ^ 63` the store answers; it says `expired` exactly if the event after
the cursor was committed and is trimmed, `ahead` exactly if the cursor is not below
the next sequence number, and otherwise gives exactly the events after the cursor, in
order. A client that starts there and always goes on from the last event it received
has, at every point of every interleaving with further calls, received a gap-free
beginning of the events after its cursor, each once. -/
theorem cursor_resumption {history : List (Call × Bool)} {id : ExecutionId} {generation : ExecutionGeneration}
    {after : Nat} {row : ExecutionRow J} (hafter : after < 2 ^ 63)
    (hrow : (storeAfter J history).executions.get? (id, generation.asI64) = some row) :
    (∃ resumed, resumeFrom (storeAfter J history) id generation after = .ok (some resumed)) ∧
      (resumeFrom (storeAfter J history) id generation after = .ok (some .expired) ↔
        (∃ event ∈ journalAfter J history (id, generation.asI64), event.sequence = after + 1) ∧
          (storeAfter J history).executionEvents.get? ((id, generation.asI64), after + 1) = none) ∧
      (resumeFrom (storeAfter J history) id generation after = .ok (some .ahead) ↔ after ≥ row.nextSequence) ∧
      (∀ events, resumeFrom (storeAfter J history) id generation after = .ok (some (.page events)) →
        events = (journalAfter J history (id, generation.asI64)).drop after ∧
          events.map ExecutionEvent.sequence = List.range' (after + 1) (row.nextSequence - 1 - after)) ∧
      ∀ c, Steps (Client.step J id generation) Free ⟨history, after, []⟩ c →
        c.received.map ExecutionEvent.sequence = List.range' (after + 1) c.received.length ∧
          c.received <+: (journalAfter J c.history (id, generation.asI64)).drop after := by
  obtain ⟨base, hbase, hwindow, hcases⟩ := resumeFrom_cases hafter hrow
  have hcommitted := mem_journalAfter hrow (after + 1)
  have htrimmed : (storeAfter J history).executionEvents.get? ((id, generation.asI64), after + 1) = none ↔
      ¬ (base ≤ after + 1 ∧ after + 1 < row.nextSequence) := by
    rw [← hwindow, Option.not_isSome_iff_eq_none]
  refine ⟨⟨_, hcases⟩, ?_, ?_, fun events hevents => ?_, fun c hrun => ?_⟩
  · rw [hcases, hcommitted, htrimmed]
    split
    · exact iff_of_true rfl (by omega)
    split
    · exact iff_of_false (fun he => by cases he) (by omega)
    · exact iff_of_false (fun he => by cases he) (by omega)
  · rw [hcases]
    split
    · exact iff_of_false (fun he => by cases he) (by omega)
    split
    · rename_i hahead
      exact iff_of_true rfl hahead
    · rename_i hbelow
      exact iff_of_false (fun he => by cases he) hbelow
  · rw [hcases] at hevents
    split at hevents
    · cases hevents
    split at hevents
    · cases hevents
    cases hevents
    have hjournal := journalAfter_journalOf (J := J) history (id, generation.asI64)
    rw [hjournal.next row hrow, Nat.add_sub_cancel]
    exact ⟨rfl, hjournal.numbers_after after⟩
  · have hstart : Client.Follows J (id, generation.asI64) after ⟨history, after, []⟩ := ⟨List.nil_prefix, rfl⟩
    obtain ⟨hreceived, _⟩ := hrun.invariant (Client.Follows J (id, generation.asI64) after)
      (fun _ hstep h => h.step hstep) hstart
    exact ⟨numbers_of_beginning ((journalAfter_journalOf c.history (id, generation.asI64)).numbers_after after) hreceived,
      hreceived⟩

namespace Example

/-- Events so long that a journal keeps one of them. -/
def bulky : Serde where
  snapshot := Serde.json.snapshot
  event := {Serde.json.event with length := fun _ => maxEventBytes}
  interrupted_length _ := le_rfl

def job : ExecutionId := (finishedSnapshot .accepted).executionId

/-- Two events, the first of which is trimmed. -/
def trimmed : List (Call × Bool) :=
  [(.reserve (finishedSnapshot .accepted) 1 "digest" "alice" "lease" 1000 0, true),
    (.commitEvent (finishedSnapshot .running) (.state .running) 7, true),
    (.commitEvent (finishedSnapshot .succeeded) (.state .succeeded) 8, true)]

end Example

open Example

/-- Cursors before, at and past what is left of the journal, and a client that fetches twice. -/
theorem cursor_resumption_trimmed : resumeFrom (storeAfter bulky trimmed) job ⟨1⟩ 0 = .ok (some .expired) ∧
      resumeFrom (storeAfter bulky trimmed) job ⟨1⟩ 3 = .ok (some .ahead) ∧
      (∃ events, resumeFrom (storeAfter bulky trimmed) job ⟨1⟩ 1 = .ok (some (.page events)) ∧
        events.map ExecutionEvent.sequence = [2]) ∧
      ∃ c, Steps (Client.step bulky job ⟨1⟩) Free ⟨trimmed, 1, []⟩ c ∧ c.received.map ExecutionEvent.sequence = [2] := by
  have hresumed (after : Nat) (hafter : after < 2 ^ 63) := @cursor_resumption bulky trimmed job ⟨1⟩ after _ hafter rfl
  refine ⟨(hresumed 0 (by decide)).2.1.mpr ⟨⟨.plain 1 (.state .running), by decide, rfl⟩, rfl⟩,
    (hresumed 3 (by decide)).2.2.1.mpr (by decide), ?_, ?_⟩
  · have hpage : resumeFrom (storeAfter bulky trimmed) job ⟨1⟩ 1 = .ok (some (.page _)) := rfl
    exact ⟨_, hpage, ((hresumed 1 (by decide)).2.2.2.1 _ hpage).2⟩
  · have hfollow : (follow (Client.step bulky job ⟨1⟩) Free ⟨trimmed, 1, []⟩ [.fetch, .fetch]).any
        (fun c => c.received.length == 1) = true := by decide
    obtain ⟨c, hrun, hlength⟩ := follow_reaches hfollow
    have hreceived := ((hresumed 1 (by decide)).2.2.2.2 c hrun).1
    rw [beq_iff_eq.mp hlength] at hreceived
    exact ⟨c, hrun, hreceived⟩

end Eggwork.Server
