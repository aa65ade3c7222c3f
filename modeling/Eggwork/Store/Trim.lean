import Eggwork.Lib.Window
import Eggwork.Store.Changes

/-! The trimming loop.

`TrimLoop` is the source's `loop`, round by round: leave when both budgets hold,
else delete the event with the smallest sequence number and go round again.
`trimEvents_loops` says it always leaves, with what `trimEvents` computes. On a
journal numbered consecutively, what stays is the longest suffix within the
budgets (`retained_trimEvents`), and no other execution's events are touched
(`retained_trimEvents_ne`). -/
namespace Eggwork.Store
open Lib ExecutionStore List Bool Table Nat

variable {J : Serde}
variable {evs : Table EventKey J.event.Blob}

/-- Both budgets, on the retained events of one execution. -/
def fits (rows : List (EventKey × J.event.Blob)) : Bool :=
  decide (rows.length ≤ maxRetainedEvents) &&
    decide ((rows.map fun row => J.event.length row.2).sum ≤ maxRetainedEventBytes)

theorem withinBudget_eq (evs : Table EventKey J.event.Blob) (key : RowKey) :
    withinBudget evs key = fits (retained evs key) := rfl

def sequenceOf (row : EventKey × J.event.Blob) : Nat := row.1.2

theorem mem_retained {key : RowKey} {row : EventKey × J.event.Blob} (h : row ∈ retained evs key) :
    evs.get? row.1 = some row.2 ∧ row.1.1 = key := by
  obtain ⟨hget, hk⟩ := mem_select.mp h
  exact ⟨hget, by simpa using hk⟩

theorem retained_insert {events' : Table EventKey J.event.Blob} {key : RowKey} {sequence : Nat} {blob : J.event.Blob}
    (h : evs.insert (key, sequence) blob = some events') (other : RowKey) : retained events' other =
      retained evs other ++ if key = other then [((key, sequence), blob)] else [] := by
  unfold retained
  rw [select_insert h]
  simp only [beq_iff_eq]

/-! ### Other executions -/

theorem retained_deleteOldest_ne (evs : Table EventKey J.event.Blob) {key other : RowKey}
    (hne : other ≠ key) : retained (deleteOldest evs key) other = retained evs other := by
  unfold deleteOldest
  split
  · rfl
  unfold retained
  rw [Table.select_delete, filter_eq_self]
  intro row hr
  have hk : row.1.1 = other := (mem_retained hr).2
  simp only [Bool.not_eq_eq_eq_not, Bool.not_true, beq_eq_false_iff_ne, ne_eq]
  intro he
  exact hne (by rw [← hk, he])

theorem retained_trimLoop_ne {key other : RowKey} (hne : other ≠ key) (fuel : Nat)
    (evs : Table EventKey J.event.Blob) : retained (trimLoop key fuel evs) other = retained evs other := by
  induction fuel generalizing evs with
  | zero => rfl
  | succ fuel ih =>
    unfold trimLoop
    split
    · rfl
    · rw [ih, retained_deleteOldest_ne evs hne]

theorem retained_trimEvents_ne (evs : Table EventKey J.event.Blob) {key other : RowKey}
    (hne : other ≠ key) : retained (trimEvents evs key) other = retained evs other :=
  retained_trimLoop_ne hne _ evs

/-! ### The loop leaves -/

theorem length_deleteOldest (evs : Table EventKey J.event.Blob) (key : RowKey) (h : retained evs key ≠ []) :
    (retained (deleteOldest evs key) key).length < (retained evs key).length := by
  unfold deleteOldest
  split
  · rename_i hmin
    rw [min?_eq_none_iff, map_eq_nil_iff] at hmin
    exact absurd hmin h
  rename_i sequence hmin
  obtain ⟨row, hr, hseq⟩ := mem_map.mp (min?_mem hmin)
  unfold retained at *
  rw [select_delete]
  apply length_filter_lt_length_iff_exists.mpr
  have hk : row.1.1 = key := (mem_retained hr).2
  refine ⟨row, hr, ?_⟩
  obtain ⟨⟨k, n⟩, blob⟩ := row
  simp_all

/-- `trim_events` as the source runs it: a finished run of the loop. -/
inductive TrimLoop (key : RowKey) : Table EventKey J.event.Blob → Table EventKey J.event.Blob → Prop
  | leave {events : Table EventKey J.event.Blob} (h : withinBudget events key = true) :
      TrimLoop key events events
  | again {events after : Table EventKey J.event.Blob} (h : withinBudget events key = false)
      (rest : TrimLoop key (deleteOldest events key) after) : TrimLoop key events after

theorem fits_nil : fits ([] : List (EventKey × J.event.Blob)) = true := by
  simp [fits]

theorem trimLoop_loops (key : RowKey) (fuel : Nat) (evs : Table EventKey J.event.Blob)
    (hfuel : (retained evs key).length ≤ fuel) : TrimLoop key evs (trimLoop key fuel evs) := by
  induction fuel generalizing evs with
  | zero =>
    have hnil : retained evs key = [] := eq_nil_of_length_eq_zero (le_zero.mp hfuel)
    exact .leave (by rw [withinBudget_eq, hnil, fits_nil])
  | succ fuel ih =>
    unfold trimLoop
    split
    · rename_i h
      exact .leave h
    rename_i h
    have hne : retained evs key ≠ [] := by
      intro hnil
      rw [withinBudget_eq, hnil, fits_nil] at h
      exact h rfl
    have hlt := length_deleteOldest evs key hne
    exact .again (by simpa using h) (ih _ (by omega))

/-- The loop always leaves, with the table `trimEvents` computes. -/
theorem trimEvents_loops (evs : Table EventKey J.event.Blob) (key : RowKey) : TrimLoop key evs (trimEvents evs key) :=
  trimLoop_loops key _ evs (le_refl _)

/-! ### What stays -/

theorem retained_deleteOldest {key : RowKey} {oldest : EventKey × J.event.Blob} {rest : List (EventKey × J.event.Blob)}
    {next : Nat} (hn : Numbered sequenceOf (oldest :: rest) next) (h : retained evs key = oldest :: rest) :
    retained (deleteOldest evs key) key = rest := by
  have hkeys : ∀ row ∈ oldest :: rest, row.1.1 = key := fun row hr => (mem_retained (h ▸ hr)).2
  have hmin : ((retained evs key).map fun row => row.1.2).min? = some oldest.1.2 := by
    rw [h]
    exact hn.min?
  have holde : oldest.1 = (key, oldest.1.2) := by
    rw [← hkeys oldest mem_cons_self]
  have hf : ∀ row ∈ rest, row.1.2 ≠ oldest.1.2 := by
    intro row hr he
    have hnodup := hn.nodup
    rw [map_cons, nodup_cons] at hnodup
    exact hnodup.1 (mem_map.mpr ⟨row, hr, he⟩)
  simp only [deleteOldest, hmin]
  unfold retained at *
  rw [Table.select_delete, h, filter_cons_of_neg (by simp [← holde]), filter_eq_self]
  intro row hr
  simp only [Bool.not_eq_eq_eq_not, Bool.not_true, beq_eq_false_iff_ne, ne_eq]
  intro he
  exact hf row hr (by rw [he])

theorem retained_trimLoop {key : RowKey} {fuel : Nat} {next : Nat}
    (hn : Numbered sequenceOf (retained evs key) next) (hfuel : (retained evs key).length ≤ fuel) :
    retained (trimLoop key fuel evs) key = keepSuffix fits (retained evs key) := by
  induction fuel generalizing evs with
  | zero =>
    have hnil : retained evs key = [] := eq_nil_of_length_eq_zero (le_zero.mp hfuel)
    simp only [trimLoop, hnil, keepSuffix]
  | succ fuel ih =>
    cases hrows : retained evs key with
    | nil => simp [trimLoop, withinBudget_eq, hrows, fits_nil, keepSuffix]
    | cons oldest rest =>
      rw [hrows] at hn hfuel
      have hrest := retained_deleteOldest hn hrows
      simp only [trimLoop, withinBudget_eq, hrows, keepSuffix]
      split
      · exact hrows
      · rw [ih (by rw [hrest]; exact hn.suffix (suffix_cons oldest rest))
          (by rw [hrest]; simpa using hfuel), hrest]

/-- On a numbered journal, trimming keeps the longest suffix within the budgets. -/
theorem retained_trimEvents {key : RowKey} {next : Nat} (hn : Numbered sequenceOf (retained evs key) next) :
    retained (trimEvents evs key) key = keepSuffix fits (retained evs key) :=
  retained_trimLoop hn (le_refl _)

end Eggwork.Store
