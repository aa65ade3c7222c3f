import Eggwork.Store.Trim

/-! The journal of an execution and the window of it the store retains.

The events a history commits for a row, in order, are its journal: `eventsOf`.
They are numbered from one, the row's `next_sequence` is the next number, and the
table holds the longest suffix of them within the two budgets (`JournalOf`). The
window facts a reader of the store relies on are consequences of that one
description (`journal_window`). -/
namespace Eggwork.Store
open Lib ExecutionStore List Table

variable {J : Serde}
variable {st st' : ExecutionStore J} {evs : List ExecutionEvent}

/-- The events of one row, in commit order. -/
def eventsOf (log : List (RowKey × ExecutionEvent)) (key : RowKey) : List ExecutionEvent :=
  (log.filter fun entry => entry.1 == key).map Prod.snd

@[simp] theorem eventsOf_nil (key : RowKey) : eventsOf [] key = [] := rfl

theorem eventsOf_append (log log' : List (RowKey × ExecutionEvent)) (key : RowKey) :
    eventsOf (log ++ log') key = eventsOf log key ++ eventsOf log' key := by
  rw [eventsOf, filter_append, map_append]
  rfl

theorem eventsOf_singleton (at_ : RowKey) (ev : ExecutionEvent) (key : RowKey) :
    eventsOf [(at_, ev)] key = if at_ = key then [ev] else [] := by
  unfold eventsOf
  by_cases hk : at_ = key <;> simp [hk]

/-- The table row an event is stored as. -/
def entryOf (J : Serde) (key : RowKey) (event : ExecutionEvent) : EventKey × J.event.Blob :=
  ((key, event.sequence), J.event.encode event)

/-- The events committed for `key` are numbered from one up to the row's next
sequence number, and the longest suffix of them within the budgets is stored. -/
structure JournalOf (st : ExecutionStore J) (events : List ExecutionEvent) (key : RowKey) : Prop where
  absent : st.executions.get? key = none → events = []
  next : ∀ row, st.executions.get? key = some row → row.nextSequence = events.length + 1
  numbered : events.map ExecutionEvent.sequence = List.range' 1 events.length
  small : ∀ event ∈ events, J.event.length (J.event.encode event) ≤ maxRetainedEventBytes
  stored : retained st.executionEvents key = keepSuffix fits (events.map (entryOf J key))

theorem journalOf_empty (key : RowKey) : JournalOf (empty : ExecutionStore J) [] key :=
  ⟨fun _ => rfl, fun _ hr => (nomatch hr), rfl, fun _ h => (not_mem_nil h).elim, rfl⟩

theorem fits_mono (l : List (EventKey × J.event.Blob)) (a : EventKey × J.event.Blob)
    (h : fits (l ++ [a]) = true) : fits l = true := by
  simp only [fits, length_append, length_singleton, map_append, sum_append, Bool.and_eq_true, decide_eq_true_eq] at h ⊢
  omega

theorem fits_singleton (a : EventKey × J.event.Blob) (h : J.event.length a.2 ≤ maxRetainedEventBytes) :
    fits [a] = true := by
  simpa [fits, maxRetainedEvents] using h

theorem JournalOf.numbered_entries {key : RowKey} (h : JournalOf st evs key) :
    Numbered sequenceOf (evs.map (entryOf J key)) (evs.length + 1) := by
  refine ⟨1, ?_, by rw [length_map, Nat.add_comm]⟩
  rw [map_map, length_map]
  exact h.numbered

theorem JournalOf.numbers_after {key : RowKey} (h : JournalOf st evs key) (n : Nat) :
    (evs.drop n).map ExecutionEvent.sequence = List.range' (n + 1) (evs.length - n) := by
  rw [map_drop, h.numbered, drop_range', Nat.mul_one, Nat.add_comm 1]

/-- The journal keeps its description under a change of rows that moves neither
its `next_sequence` nor its events. -/
theorem JournalOf.frame {key : RowKey} (h : JournalOf st evs key)
    (hn : (st'.executions.get? key).map (·.nextSequence) = (st.executions.get? key).map (·.nextSequence))
    (hst : retained st'.executionEvents key = retained st.executionEvents key) : JournalOf st' evs key := by
  refine ⟨fun hnone => ?_, fun row hr => ?_, h.numbered, h.small, hst.trans h.stored⟩
  · rw [hnone, Option.map_none, eq_comm, Option.map_eq_none_iff] at hn
    exact h.absent hn
  rw [hr, Option.map_some, eq_comm, Option.map_eq_some_iff] at hn
  obtain ⟨old, hold, he⟩ := hn
  rw [← he]
  exact h.next old hold

/-- Journaling one event appends it and drops from the front what no longer fits. -/
theorem JournalOf.push {key : RowKey} {row : ExecutionRow J} {state : String} {snap : ExecutionSnapshot}
    {kind : ExecutionEventKind} {now : Int} (h : JournalOf st evs key) (hr : st.executions.get? key = some row)
    (hsize : J.event.length (J.event.encode (.plain row.nextSequence kind)) ≤ maxRetainedEventBytes)
    (hj : st.journal key state snap row.nextSequence (.plain row.nextSequence kind) now = .ok st') :
    JournalOf st' (evs ++ [.plain row.nextSequence kind]) key := by
  obtain ⟨table, hi, rfl⟩ := journal_ok hj
  have hseq : row.nextSequence = evs.length + 1 := h.next row hr
  have hretired : retained table key =
      keepSuffix fits (evs.map (entryOf J key)) ++ [entryOf J key (.plain row.nextSequence kind)] := by
    rw [retained_insert hi, if_pos rfl, h.stored]
    rfl
  have hnumber : Numbered sequenceOf (retained table key) (evs.length + 1 + 1) := by
    rw [hretired]
    exact (h.numbered_entries.suffix (keepSuffix_suffix fits _)).push _ hseq
  refine ⟨fun hn => ?_, fun row' hrow' => ?_, ?_, fun ev he => ?_, ?_⟩
  · rw [get?_update, if_pos rfl, hr] at hn
    cases hn
  · rw [get?_update, if_pos rfl, hr, Option.map_some, Option.some.injEq] at hrow'
    rw [← hrow', length_append, length_singleton, hseq]
  · rw [map_append, h.numbered, length_append, length_singleton, List.range'_concat, hseq]
    simp [ExecutionEvent.plain, Nat.add_comm]
  · rcases mem_append.mp he with hold | hnew
    · exact h.small ev hold
    · rw [mem_singleton.mp hnew]
      exact hsize
  · rw [retained_trimEvents hnumber, hretired, keepSuffix_push fits fits_mono, map_append]
    rfl

theorem Change.journalOf {past ev : List (RowKey × ExecutionEvent)} (h : Change st ev st')
    (hall : ∀ key, JournalOf st (eventsOf past key) key) (key : RowKey) :
    JournalOf st' (eventsOf (past ++ ev) key) key := by
  have hk := hall key
  rw [eventsOf_append]
  cases h with
  | created snap fresh hfree _ _ hi =>
    rw [eventsOf_nil, append_nil]
    by_cases he : key = rowKey snap
    · have hnil := hk.absent (he ▸ (insert_eq_some.mp hi).1)
      rw [hnil] at hk ⊢
      refine ⟨fun _ => rfl, fun row hr => ?_, rfl, hk.small, hk.stored⟩
      rw [get?_insert hi, if_pos he, Option.some.injEq] at hr
      rw [← hr, hfree.nextSequence]
      rfl
    · exact hk.frame (by rw [get?_insert hi, if_neg he]) rfl
  | renewed other live f exp renewal now hl _ hf =>
    rw [eventsOf_nil, append_nil]
    refine hk.frame ?_ rfl
    rw [get?_update]
    split
    · rename_i he
      rw [he, hl, Option.map_some, hf]
      rfl
    · rfl
  | journaled snap row kind now hr _ hsize hj =>
    rw [eventsOf_singleton]
    split
    · rename_i he
      subst he
      exact hk.push hr hsize hj
    rename_i hne
    rw [append_nil]
    refine hk.frame (by rw [journal_get?_ne hj (Ne.symm hne)]) ?_
    obtain ⟨table, hi, rfl⟩ := journal_ok hj
    rw [retained_trimEvents_ne _ (Ne.symm hne), retained_insert hi, if_neg hne, append_nil]

theorem play_journalOf (history : List (Call × Bool)) (key : RowKey) :
    JournalOf (play (empty : ExecutionStore J) history)
      (eventsOf (journaled (empty : ExecutionStore J) history) key) key := by
  have hc := play_changes (coherent_empty (J := J)) history
  exact hc.invariant_log (fun st log => ∀ key, JournalOf st (eventsOf log key) key)
    (fun h hall => h.journalOf hall) [] journalOf_empty key

/-! ### The window -/

theorem JournalOf.stored_suffix {key : RowKey} (h : JournalOf st evs key) :
    ∃ kept, kept <:+ evs ∧ retained st.executionEvents key = kept.map (entryOf J key) := by
  obtain ⟨dropped, hd⟩ := keepSuffix_suffix fits (evs.map (entryOf J key))
  refine ⟨evs.drop dropped.length, drop_suffix _ _, ?_⟩
  have hdrop := congrArg (List.drop dropped.length) hd
  rwa [drop_left, ← map_drop, ← h.stored] at hdrop

/-- A sequence number is stored exactly when it lies in the window. -/
theorem JournalOf.get?_isSome {key : RowKey} (h : JournalOf st evs key) (n : Nat) :
    (st.executionEvents.get? (key, n)).isSome ↔
      evs.length + 1 - (retained st.executionEvents key).length ≤ n ∧ n < evs.length + 1 := by
  have hnumber : Numbered sequenceOf (retained st.executionEvents key) (evs.length + 1) := by
    rw [h.stored]
    exact h.numbered_entries.suffix (keepSuffix_suffix fits _)
  rw [← hnumber.mem]
  constructor
  · intro hsome
    obtain ⟨blob, hblob⟩ := Option.isSome_iff_exists.mp hsome
    exact mem_map.mpr ⟨((key, n), blob), mem_select.mpr ⟨hblob, beq_self_eq_true key⟩, rfl⟩
  intro hm
  obtain ⟨⟨⟨key', n'⟩, blob⟩, hr, hn⟩ := mem_map.mp hm
  obtain ⟨hget, hk⟩ := mem_retained hr
  cases hk
  cases hn
  exact Option.isSome_of_eq_some hget

theorem JournalOf.decode {key : RowKey} (h : JournalOf st evs key) {n : Nat} {blob : J.event.Blob}
    (hblob : st.executionEvents.get? (key, n) = some blob) :
    ∃ ev ∈ evs, J.event.decode blob = some ev ∧ ev.sequence = n := by
  obtain ⟨kept, hkept, hst⟩ := h.stored_suffix
  have hm : ((key, n), blob) ∈ retained st.executionEvents key :=
    mem_select.mpr ⟨hblob, beq_self_eq_true key⟩
  rw [hst] at hm
  obtain ⟨ev, hevent, he⟩ := mem_map.mp hm
  cases he
  exact ⟨ev, hkept.subset hevent, J.event.decode_encode ev, rfl⟩

/-- The window of a row that committed something is not empty. -/
theorem JournalOf.stored_ne_nil {key : RowKey} (h : JournalOf st evs key) (hc : evs ≠ []) :
    retained st.executionEvents key ≠ [] := by
  obtain ⟨past, last, rfl⟩ := (eq_nil_or_concat evs).resolve_left hc
  rw [h.stored, concat_eq_append, map_append]
  refine keepSuffix_newest fits _ _ (fits_singleton _ ?_)
  exact h.small last (by simp)

theorem JournalOf.newest {past : List ExecutionEvent} {last : ExecutionEvent} {key : RowKey}
    (h : JournalOf st (past ++ [last]) key) :
    st.executionEvents.get? (key, last.sequence) = some (J.event.encode last) := by
  obtain ⟨kept, hkept, hst⟩ := h.stored_suffix
  have hne : kept ≠ [] := by
    rintro rfl
    exact h.stored_ne_nil (by simp) hst
  have hlast : last ∈ kept := by
    obtain ⟨dropped, hd⟩ := hkept
    have hlast := congrArg List.getLast? hd
    rw [List.getLast?_append_of_ne_nil _ hne, List.getLast?_concat] at hlast
    exact mem_of_getLast? hlast
  have hm : entryOf J key last ∈ retained st.executionEvents key := hst ▸ mem_map_of_mem hlast
  exact (mem_retained hm).1

theorem JournalOf.base_sequence {kept : List ExecutionEvent} {key : RowKey} (h : JournalOf st evs key)
    (hst : retained st.executionEvents key = kept.map (entryOf J key)) :
    max (((retained st.executionEvents key).map fun r => r.1.2).min?.getD (evs.length + 1)) 1 =
      evs.length + 1 - kept.length := by
  have hn : Numbered sequenceOf (kept.map (entryOf J key)) (evs.length + 1) := by
    rw [← hst, h.stored]
    exact h.numbered_entries.suffix (keepSuffix_suffix fits _)
  rw [hst]
  cases kept with
  | nil => simp
  | cons ev rest =>
    have hmin := hn.min?
    obtain ⟨base, hmap, hend⟩ := hn
    have hf : ev.sequence = base := by
      have hhead := congrArg List.head? hmap
      simpa [List.range'_succ, sequenceOf, entryOf] using hhead
    have hm : base ∈ evs.map ExecutionEvent.sequence := by
      obtain ⟨kept', hkept', hs'⟩ := h.stored_suffix
      have hin := congrArg (List.map sequenceOf) (hst.symm.trans hs')
      rw [← hf]
      refine (hkept'.map ExecutionEvent.sequence).subset ?_
      rw [map_map, map_map] at hin
      exact hin ▸ mem_cons_self
    rw [h.numbered, mem_range'_1] at hm
    have hgot : (((ev :: rest).map (entryOf J key)).map fun r => r.1.2).min? = some ev.sequence := hmin
    rw [hgot, Option.getD_some, hf]
    rw [length_map] at hend
    omega

/-- What a page holds: the events after the cursor, if none of them has been trimmed. -/
theorem JournalOf.loadPage {id : ExecutionId} {gen : ExecutionGeneration}
    (h : JournalOf st evs (id, gen.asI64)) {row : ExecutionRow J}
    (hr : st.executions.get? (id, gen.asI64) = some row) {after : Nat} (ha : after < 2 ^ 63) :
    ∃ base, (1 ≤ base ∧ base ≤ evs.length + 1) ∧
      (∀ n, (st.executionEvents.get? ((id, gen.asI64), n)).isSome ↔ base ≤ n ∧ n < evs.length + 1) ∧
      st.loadPage id gen after = .ok (some ⟨base, evs.length + 1, if after + 1 < base then [] else evs.drop after⟩) := by
  obtain ⟨kept, hkept, hst⟩ := h.stored_suffix
  have hbase := h.base_sequence hst
  have hwin : ∀ n, (st.executionEvents.get? ((id, gen.asI64), n)).isSome ↔
      evs.length + 1 - kept.length ≤ n ∧ n < evs.length + 1 := by
    intro n
    rw [h.get?_isSome, hst, length_map]
  refine ⟨evs.length + 1 - kept.length, ⟨by omega, by omega⟩, hwin, ?_⟩
  have hc : saturatingAdd after 1 = after + 1 := by
    unfold saturatingAdd
    omega
  unfold ExecutionStore.loadPage
  simp only [hr, h.next row hr, hbase, hc]
  split
  · rfl
  have hn : Numbered sequenceOf (kept.map (entryOf J (id, gen.asI64))) (evs.length + 1) := by
    rw [← hst, h.stored]
    exact h.numbered_entries.suffix (keepSuffix_suffix fits _)
  have hwin : kept = evs.drop (evs.length - kept.length) := by
    obtain ⟨dropped, rfl⟩ := hkept
    rw [length_append, Nat.add_sub_cancel, drop_left]
  have hpage : (retained st.executionEvents (id, gen.asI64)).filter
      (fun r => decide ((r.1.2 : Int) > asI64 after)) =
      (evs.drop after).map (entryOf J (id, gen.asI64)) := by
    have hcast : ∀ r : EventKey × J.event.Blob, decide ((r.1.2 : Int) > asI64 after) = decide (after < sequenceOf r) := by
      intro r
      unfold asI64
      rw [if_pos ha, decide_eq_decide]
      exact Int.ofNat_lt
    simp only [hcast]
    rw [hst, hn.filter_after, length_map, ← map_drop]
    congr 1
    rw [hwin, drop_drop, length_drop]
    congr 1
    omega
  have hs : ((evs.drop after).map (entryOf J (id, gen.asI64))).insertionSort
      (fun a b => a.1.2 ≤ b.1.2) = (evs.drop after).map (entryOf J (id, gen.asI64)) := by
    apply List.Pairwise.insertionSort_eq
    rw [map_drop]
    exact (h.numbered_entries.suffix (drop_suffix _ _)).pairwise
  have hd : ∀ l : List ExecutionEvent,
      (l.map (entryOf J (id, gen.asI64))).mapM (fun r => J.event.decode r.2) = some l := by
    intro l
    induction l with
    | nil => rfl
    | cons ev rest ih => simp [entryOf, J.event.decode_encode, ih]
  rw [hpage, hs, hd]

/-- **The retained journal is a window.** After any history of calls, each
allowed to abort, the events kept of a row that committed at least one are those
of a non-empty interval ending at the row's next sequence number, each decodes to
the event of its own number, and both budgets hold. The trimming loop leaves on
every table, and leaves the events of every other row alone. -/
theorem journal_window (history : List (Call × Bool)) :
    (∀ key, eventsOf (journaled (ExecutionStore.empty : ExecutionStore J) history) key ≠ [] →
      ∃ row base, (play (ExecutionStore.empty : ExecutionStore J) history).executions.get? key = some row ∧
        base < row.nextSequence ∧
        (∀ n, ((play (ExecutionStore.empty : ExecutionStore J) history).executionEvents.get? (key, n)).isSome ↔
          base ≤ n ∧ n < row.nextSequence) ∧
        (∀ n blob, (play (ExecutionStore.empty : ExecutionStore J) history).executionEvents.get? (key, n) = some blob →
          ∃ event, J.event.decode blob = some event ∧ event.sequence = n) ∧
        (retained (play (ExecutionStore.empty : ExecutionStore J) history).executionEvents key).length ≤ 256 ∧
        retainedBytes (play (ExecutionStore.empty : ExecutionStore J) history).executionEvents key ≤ 512 * 1024) ∧
    ∀ (events : Table EventKey J.event.Blob) key, TrimLoop key events (trimEvents events key) ∧
      ∀ other, other ≠ key → retained (trimEvents events key) other = retained events other := by
  refine ⟨fun key hcommitted => ?_, fun events key =>
    ⟨trimEvents_loops events key, fun other hne => retained_trimEvents_ne events hne⟩⟩
  have h := play_journalOf (J := J) history key
  obtain ⟨row, hrow⟩ : ∃ row, (play (ExecutionStore.empty : ExecutionStore J) history).executions.get? key = some row :=
    Option.ne_none_iff_exists'.mp fun hnone => hcommitted (h.absent hnone)
  have hlen := length_pos_iff.mpr (h.stored_ne_nil hcommitted)
  have hfits : fits (retained (play (ExecutionStore.empty : ExecutionStore J) history).executionEvents key) = true := by
    rw [h.stored]
    exact keepSuffix_fits fits fits_nil _
  simp only [fits, Bool.and_eq_true, decide_eq_true_eq] at hfits
  refine ⟨row, row.nextSequence -
    (retained (play (ExecutionStore.empty : ExecutionStore J) history).executionEvents key).length, hrow, ?_,
    fun n => ?_, fun n blob hblob => ?_, hfits.1, hfits.2⟩
  · have := h.next row hrow
    omega
  · rw [h.get?_isSome, h.next row hrow]
  · obtain ⟨event, _, hdecode⟩ := h.decode hblob
    exact ⟨event, hdecode⟩

end Eggwork.Store
