import Eggwork.Store.Changes

/-! Generations are ownership epochs: consecutive, and closed before the next
one opens.

`generations_contiguous` is the statement over whole histories: from the empty
store, after any calls with any arguments, aborted or not, the generations stored
for an execution are `1 … n`, all but the last are terminal, and the table never
outgrows its bound. The fencing test of `reserve` reads only the latest row, and
is sound because a terminal row never changes again: `Change` opens no terminal
row. -/
namespace Eggwork.Store
open Lib ExecutionStore Option List Table Prod

variable {J : Serde}
variable {st st' : ExecutionStore J} {event : List (RowKey × ExecutionEvent)} {id : ExecutionId}

/-! ### The latest generation -/

theorem mem_generations {key : RowKey} {row : ExecutionRow J} :
    (key, row) ∈ st.generations id ↔ st.executions.get? key = some row ∧ key.1 = id := by
  unfold generations
  rw [mem_select, beq_iff_eq]

theorem latest_none (h : st.latest id = none) (g : Int) : st.executions.get? (id, g) = none := by
  unfold latest at h
  cases hr : st.executions.get? (id, g) with
  | none => rfl
  | some row =>
    have hm : ((id, g), row) ∈ st.generations id := mem_generations.mpr ⟨hr, rfl⟩
    have hsome := List.isSome_maxOn?_of_mem (f := fun row => row.1.2) hm
    rw [h] at hsome
    cases hsome

theorem latest_some {key : RowKey} {row : ExecutionRow J} (h : st.latest id = some (key, row)) :
    st.executions.get? key = some row ∧ key.1 = id ∧ ∀ g other, st.executions.get? (id, g) = some other → g ≤ key.2 := by
  unfold latest at h
  obtain ⟨hget, hid⟩ := mem_generations.mp (List.maxOn?_mem h)
  refine ⟨hget, hid, fun g other hne => ?_⟩
  have hm : ((id, g), other) ∈ st.generations id := mem_generations.mpr ⟨hne, rfl⟩
  have hle := List.le_apply_get_maxOn?_of_mem (f := fun row => row.1.2) hm
  rwa [get_of_eq_some _ h] at hle

/-! ### One change -/

/-- The generations of one execution are `1 … n`, terminal before `n`. -/
structure Epochs (st : ExecutionStore J) (id : ExecutionId) (n : Nat) : Prop where
  stored : ∀ g : Int, (st.executions.get? (id, g)).isSome ↔ 1 ≤ g ∧ g ≤ n
  closed : ∀ g row, st.executions.get? (id, g) = some row → g < n → isTerminalName row.state = true

/-- The generation that may follow is `n + 1`, and `n` is closed by then. -/
theorem Epochs.follow {n : Nat} (h : Epochs st id n) {g : Int} (hnext : mayFollow (st.latest id) g = true) :
    g = n + 1 ∧ ∀ k row, st.executions.get? (id, k) = some row → isTerminalName row.state = true := by
  unfold mayFollow at hnext
  split at hnext
  · rename_i hl
    have hzero : n = 0 := by
      rcases Nat.eq_zero_or_pos n with hn | hn
      · exact hn
      have := (h.stored n).mpr (by omega)
      rw [latest_none hl] at this
      cases this
    refine ⟨by simp_all, fun k row hr => ?_⟩
    rw [latest_none hl] at hr
    cases hr
  · rename_i key last hl
    obtain ⟨hget, hid, hmax⟩ := latest_some hl
    obtain ⟨id', last'⟩ := key
    subst hid
    rw [Bool.and_eq_true, beq_iff_eq] at hnext
    have hin := (h.stored last').mp (by rw [hget]; rfl)
    have htop : last' = n := by
      obtain ⟨row, hr⟩ := isSome_iff_exists.mp ((h.stored n).mpr (by omega))
      have hle : (n : Int) ≤ last' := hmax n row hr
      omega
    refine ⟨by rw [hnext.1, htop], fun k row hr => ?_⟩
    rcases Int.lt_or_le k n with hk | hk
    · exact h.closed k row hr hk
    have hk' : k = last' := by
      have := hmax k row hr
      simp only at this
      omega
    rw [hk', hget] at hr
    cases hr
    exact hnext.2

/-- A change that keeps the keys and never reopens a terminal row keeps the epochs. -/
theorem Epochs.rewrite {n : Nat} (h : Epochs st id n)
    (hkeys : ∀ g, (st'.executions.get? (id, g)).isSome = (st.executions.get? (id, g)).isSome)
    (hkept : ∀ g row, st.executions.get? (id, g) = some row → isTerminalName row.state = true →
      st'.executions.get? (id, g) = some row) : Epochs st' id n := by
  refine ⟨fun g => by rw [hkeys]; exact h.stored g, fun g row hr hg => ?_⟩
  have hsome : (st.executions.get? (id, g)).isSome := by rw [← hkeys, hr]; rfl
  obtain ⟨old, hold⟩ := isSome_iff_exists.mp hsome
  have hc := h.closed g old hold hg
  rw [hkept g old hold hc] at hr
  cases hr
  exact hc

theorem get?_update_isSome (t : Table RowKey (ExecutionRow J)) (key : RowKey)
    (f : ExecutionRow J → ExecutionRow J) (other : RowKey) :
    ((t.update key f).get? other).isSome = (t.get? other).isSome := by
  rw [get?_update]
  split
  · rename_i he
    rw [he, isSome_map]
  · rfl

theorem get?_update_terminal {t : Table RowKey (ExecutionRow J)} {key : RowKey} {row : ExecutionRow J}
    (hr : t.get? key = some row) (hl : isTerminalName row.state = false)
    (f : ExecutionRow J → ExecutionRow J) {other : RowKey} {closed : ExecutionRow J}
    (hc : t.get? other = some closed) (hterm : isTerminalName closed.state = true) :
    (t.update key f).get? other = some closed := by
  rw [get?_update, if_neg, hc]
  rintro rfl
  rw [hc, some.injEq] at hr
  rw [hr, hl] at hterm
  cases hterm

theorem Change.terminal_row (h : Change st event st') {key : RowKey} {row : ExecutionRow J}
    (hr : st.executions.get? key = some row) (hterm : isTerminalName row.state = true) :
    st'.executions.get? key = some row := by
  cases h with
  | created snap fresh _ _ _ hi =>
    rw [get?_insert hi, if_neg, hr]
    rintro rfl
    rw [(insert_eq_some.mp hi).1] at hr
    cases hr
  | renewed other live f _ _ _ hl hopen _ => exact get?_update_terminal hl hopen f hr hterm
  | journaled snap live _ _ hl hopen _ hj =>
    obtain ⟨events, _, rfl⟩ := journal_ok hj
    exact get?_update_terminal hl hopen _ hr hterm

/-- What a row was created for: the columns a resubmission is compared with. -/
def identityColumns (row : ExecutionRow J) : Int × String × String × String :=
  (row.canonicalVersion, row.digest, row.principalId, row.leaseTokenHash)

theorem Change.identity_kept (h : Change st event st') {key : RowKey} {row : ExecutionRow J}
    (hr : st.executions.get? key = some row) :
    ∃ row', st'.executions.get? key = some row' ∧ identityColumns row' = identityColumns row := by
  have hu : ∀ {at_ : RowKey} {old : ExecutionRow J} {f : ExecutionRow J → ExecutionRow J},
      st.executions.get? at_ = some old → identityColumns (f old) = identityColumns old →
      ∃ row', (st.executions.update at_ f).get? key = some row' ∧ identityColumns row' = identityColumns row := by
    intro at_ old f hold hf
    rw [get?_update]
    split
    · rename_i hk
      rw [hk, hold, some.injEq] at hr
      exact ⟨f old, by rw [hold]; rfl, hr ▸ hf⟩
    · exact ⟨row, hr, rfl⟩
  cases h with
  | created snap fresh _ _ _ hi =>
    rw [get?_insert hi, if_neg, hr]
    · exact ⟨row, rfl, rfl⟩
    rintro rfl
    rw [(insert_eq_some.mp hi).1] at hr
    cases hr
  | renewed at_ old f _ _ _ hold _ hf => exact hu hold (by rw [hf]; rfl)
  | journaled snap old _ _ hold _ _ hj =>
    obtain ⟨events, _, rfl⟩ := journal_ok hj
    exact hu hold rfl

theorem Change.row_kept (h : Change st event st') {key : RowKey} (hk : (st.executions.get? key).isSome) :
    (st'.executions.get? key).isSome := by
  obtain ⟨row, hr⟩ := isSome_iff_exists.mp hk
  obtain ⟨row', hrow', _⟩ := h.identity_kept hr
  exact isSome_iff_exists.mpr ⟨row', hrow'⟩

theorem Change.epochs (h : Change st event st') (hall : ∀ id, ∃ n, Epochs st id n) (id : ExecutionId) :
    ∃ n, Epochs st' id n := by
  obtain ⟨n, hn⟩ := hall id
  cases h with
  | created snap fresh _ hnext _ hi =>
    by_cases hid : snap.executionId = id
    · subst hid
      obtain ⟨hg, hc⟩ := hn.follow hnext
      refine ⟨n + 1, fun g => ?_, fun g row hr hlt => ?_⟩
      · rw [Table.get?_insert hi]
        simp only [rowKey, Prod.mk.injEq, true_and, hg]
        split
        · simp only [isSome_some, true_iff]
          omega
        · rw [hn.stored g]
          omega
      · rw [Table.get?_insert hi] at hr
        simp only [rowKey, Prod.mk.injEq, true_and, hg] at hr
        rw [if_neg (by omega)] at hr
        exact hc g row hr
    · have hsame : ∀ g, Table.get? _ (id, g) = st.executions.get? (id, g) := fun g => by
        rw [Table.get?_insert hi, if_neg]
        exact fun he => hid (congrArg Prod.fst he).symm
      exact ⟨n, hn.rewrite (fun g => by rw [hsame]) fun g row hr _ => by rw [hsame, hr]⟩
  | renewed other live f exp renewal now hl hopen hf =>
    exact ⟨n, hn.rewrite (fun g => get?_update_isSome _ other f (id, g)) fun g row hr hterm =>
      get?_update_terminal hl hopen f hr hterm⟩
  | journaled snap live _ _ hl hopen _ hj =>
    obtain ⟨events, _, rfl⟩ := journal_ok hj
    exact ⟨n, hn.rewrite (fun g => get?_update_isSome _ _ _ (id, g)) fun g row hr hterm =>
      get?_update_terminal hl hopen _ hr hterm⟩

theorem Change.bounded (h : Change st event st') (hle : st.executions.rows.length ≤ maxExecutionIdentities) :
    st'.executions.rows.length ≤ maxExecutionIdentities := by
  cases h with
  | created snap fresh _ _ hroom hi =>
    rw [(insert_eq_some.mp hi).2, length_append, length_singleton]
    exact hroom
  | renewed other live f =>
    rw [length_update]
    exact hle
  | journaled snap live _ _ _ _ _ hj =>
    obtain ⟨events, _, rfl⟩ := journal_ok hj
    rw [length_update]
    exact hle

/-! ### Calls -/

theorem Changes.live_before {log : List (RowKey × ExecutionEvent)} (h : Changes st log st') {key : RowKey}
    {row : ExecutionRow J} (hr : st'.executions.get? key = some row) (hl : isTerminalName row.state = false)
    (hk : (st.executions.get? key).isSome) :
    ∃ old, st.executions.get? key = some old ∧ isTerminalName old.state = false := by
  obtain ⟨old, hold⟩ := isSome_iff_exists.mp hk
  refine ⟨old, hold, ?_⟩
  by_contra hterm
  have hterm : isTerminalName old.state = true := by simpa using hterm
  have hkept := h.invariant (fun st => st.executions.get? key = some old) (fun hc ho => hc.terminal_row ho hterm) hold
  rw [hr, some.injEq] at hkept
  rw [hkept, hterm] at hl
  cases hl

theorem Change.isSome_of_journaled (h : Change st event st') (he : event ≠ []) (key : RowKey) :
    (st'.executions.get? key).isSome = (st.executions.get? key).isSome := by
  cases h with
  | created | renewed => exact absurd rfl he
  | journaled snap live _ _ _ _ _ hj =>
    obtain ⟨events, _, rfl⟩ := journal_ok hj
    exact get?_update_isSome _ _ _ key

/-- Only a reservation makes new rows. -/
theorem exec_isSome {call : Call} (hcall : (∃ snap kind now, call = .commitEvent snap kind now) ∨
      ∃ id gen hash renewal exp now, call = .updateLease id gen hash renewal exp now)
    (key : RowKey) : ((call.exec st).executions.get? key).isSome = (st.executions.get? key).isSome := by
  rcases hcall with ⟨snap, kind, now, rfl⟩ | ⟨id, gen, hash, renewal, exp, now, rfl⟩
  · simp only [Call.exec]
    cases h : st.commitEvent snap kind now with
    | error e => rfl
    | ok a =>
      obtain ⟨a, st'⟩ := a
      rcases commitEvent_changes h with ⟨_, rfl⟩ | ⟨event, _, hc⟩
      · rfl
      · exact hc.isSome_of_journaled (cons_ne_nil _ _) key
  · simp only [Call.exec, updateLease]
    split
    · rfl
    split
    · rfl
    split
    · rfl
    · exact get?_update_isSome _ _ _ key

theorem reserve_get?_ne {snap : ExecutionSnapshot} {ver : UInt16} {digest principal hash : String}
    {exp now : Int} {res : ReserveResult}
    (h : st.reserve snap ver digest principal hash exp now = .ok (res, st')) {key : RowKey}
    (hne : key ≠ rowKey snap) : st'.executions.get? key = st.executions.get? key := by
  rcases reserve_changes h with rfl | ⟨rfl, _⟩
  · rfl
  · obtain ⟨_, _, row, _, _, hi⟩ := reserve_created h
    rw [get?_insert hi, if_neg hne]

/-! ### Histories -/

theorem Reachable.epochs (h : Reachable st) (id : ExecutionId) : ∃ n, Epochs st id n := by
  refine h.invariant (fun st => ∀ id, ∃ n, Epochs st id n) Change.epochs ?_ id
  refine fun id => ⟨0, fun g => ?_, fun g row hr => by cases hr⟩
  simp only [ExecutionStore.empty, get?_empty, isSome_none, Bool.false_eq_true, false_iff]
  omega

/-- **Generations are contiguous and closed in order.** After any history of
calls, each allowed to abort, the generations of an execution are exactly
`1 … n`, every one but the last is terminal, and the table holds at most 2048
rows. -/
theorem generations_contiguous (history : List (Call × Bool)) : (∀ id : ExecutionId, ∃ n : Nat,
      (∀ g : Int, ((play (ExecutionStore.empty : ExecutionStore J) history).executions.get? (id, g)).isSome ↔
        1 ≤ g ∧ g ≤ n) ∧
      ∀ g row, (play (ExecutionStore.empty : ExecutionStore J) history).executions.get? (id, g) = some row →
        g ≠ n → isTerminalName row.state = true) ∧
    (play (ExecutionStore.empty : ExecutionStore J) history).executions.rows.length ≤ 2048 := by
  have hreach : Reachable (play (ExecutionStore.empty : ExecutionStore J) history) := ⟨history, rfl⟩
  refine ⟨fun id => ?_, hreach.invariant (fun st => st.executions.rows.length ≤ maxExecutionIdentities)
    Change.bounded (Nat.zero_le _)⟩
  obtain ⟨n, hn⟩ := hreach.epochs id
  refine ⟨n, hn.stored, fun g row hrow hne => hn.closed g row hrow ?_⟩
  have hin := (hn.stored g).mp (by rw [hrow]; rfl)
  omega

end Eggwork.Store
