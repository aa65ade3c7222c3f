import Eggwork.Lib.Transition
import Eggwork.Store.Terminal

/-! The lease columns of a row.

`update_lease` is the only call that moves them (`exec_lease`): it never lowers the
expiry, and it remembers the renewal it accepted last, and only that one. Presenting
that one again therefore changes nothing (`renewal_replayed`); presenting an older
one extends the lease once more (`older_renewal_extends`). -/
namespace Eggwork.Store
open Lib ExecutionStore Option Table Prod

variable {J : Serde}
variable {st st' : ExecutionStore J} {renewal : String} {id : ExecutionId} {generation : ExecutionGeneration}

def leaseColumns (row : ExecutionRow J) : Int × Option String := (row.leaseExpiresUnixMs, row.lastRenewalId)

/-- A renewal that moves the lease of a row, and what it leaves. -/
def Renews (row : ExecutionRow J) (key : RowKey) (call : Call) (columns : Int × Option String) : Prop :=
  ∃ id generation renewal expires now, call = .updateLease id generation row.leaseTokenHash renewal expires now ∧
    (id, generation.asI64) = key ∧ isTerminalName row.state = false ∧ now < row.leaseExpiresUnixMs ∧
    row.lastRenewalId ≠ some renewal ∧ columns = (max row.leaseExpiresUnixMs expires, some renewal)

/-- `update_lease` leaves the store alone, or moves the lease of one row. -/
theorem updateLease_cases {hash : String} {exp now : Int} {a : Option Int}
    (h : st.updateLease id generation hash renewal exp now = .ok (a, st')) : (st' = st ∧ ∀ granted, a = some granted →
      ∃ row, st.executions.get? (id, generation.asI64) = some row ∧ row.lastRenewalId = some renewal) ∨
      ∃ row f, st.executions.get? (id, generation.asI64) = some row ∧ row.leaseTokenHash = hash ∧
        isTerminalName row.state = false ∧ now < row.leaseExpiresUnixMs ∧ row.lastRenewalId ≠ some renewal ∧
        st' = {st with executions := st.executions.update (id, generation.asI64) f} ∧
        leaseColumns (f row) = (max row.leaseExpiresUnixMs exp, some renewal) := by
  unfold updateLease at h
  split at h
  · cases h
    exact .inl ⟨rfl, fun _ he => by cases he⟩
  rename_i row hr
  split at h
  · cases h
    exact .inl ⟨rfl, fun _ he => by cases he⟩
  rename_i hv
  simp only [ne_eq, not_or, Decidable.not_not, Bool.not_eq_true, Int.not_le] at hv
  split at h
  · rename_i hlast
    cases h
    exact .inl ⟨rfl, fun _ _ => ⟨row, hr, hlast⟩⟩
  rename_i hlast
  cases h
  refine .inr ⟨row, _, hr, hv.1, hv.2.1, hv.2.2, hlast, rfl, ?_⟩
  rw [if_pos hv.1]
  rfl

theorem exec_lease (hc : Coherent st) (call : Call) {key : RowKey} {row : ExecutionRow J}
    (hr : st.executions.get? key = some row) : ∃ row', (call.exec st).executions.get? key = some row' ∧
      (leaseColumns row' = leaseColumns row ∨ Renews row key call (leaseColumns row')) := by
  cases call with
  | reserve snapshot ver digest principal hash exp now =>
    simp only [Call.exec]
    cases h : st.reserve snapshot ver digest principal hash exp now with
    | error e => exact ⟨row, hr, .inl rfl⟩
    | ok ans =>
      obtain ⟨res, st'⟩ := ans
      rcases reserve_changes h with rfl | ⟨rfl, _⟩
      · exact ⟨row, hr, .inl rfl⟩
      obtain ⟨hn, _, _, _, _, hi⟩ := reserve_created h
      have hne : key ≠ rowKey snapshot := by
        rintro rfl
        rw [hn] at hr
        cases hr
      refine ⟨row, ?_, .inl rfl⟩
      show st'.executions.get? key = _
      rw [get?_insert hi, if_neg hne, hr]
  | commitEvent snapshot kind now =>
    simp only [Call.exec]
    cases h : st.commitEvent snapshot kind now with
    | error e => exact ⟨row, hr, .inl rfl⟩
    | ok ans =>
      obtain ⟨ans, st'⟩ := ans
      rcases commitEvent_journaled h with ⟨_, rfl⟩ | ⟨old, _, hold, _, _, hj⟩
      · exact ⟨row, hr, .inl rfl⟩
      by_cases hk : key = rowKey snapshot
      · subst hk
        exact ⟨_, journal_get? hj hr, .inl rfl⟩
      · exact ⟨row, (journal_get?_ne hj hk).trans hr, .inl rfl⟩
  | updateLease id generation hash renewal exp now =>
    simp only [Call.exec]
    cases h : st.updateLease id generation hash renewal exp now with
    | error e => exact ⟨row, hr, .inl rfl⟩
    | ok ans =>
      obtain ⟨ans, st'⟩ := ans
      show ∃ row', st'.executions.get? key = some row' ∧ _
      rcases updateLease_cases h with ⟨rfl, _⟩ | ⟨old, f, hold, rfl, hl, hnow, hlast, rfl, hf⟩
      · exact ⟨row, hr, .inl rfl⟩
      rw [get?_update]
      split
      · rename_i hk
        subst hk
        rw [hr, some.injEq] at hold
        subst hold
        exact ⟨f row, by rw [hr]; rfl, .inr ⟨id, generation, renewal, exp, now, rfl, rfl, hl, hnow, hlast, hf⟩⟩
      · exact ⟨row, hr, .inl rfl⟩
  | recover now =>
    simp only [Call.exec]
    cases h : st.recover now with
    | error e => exact ⟨row, hr, .inl rfl⟩
    | ok ans =>
      obtain ⟨cut, st'⟩ := ans
      obtain ⟨live, hkeys, hown, _, _, hfold⟩ := recover_loop hc h
      obtain ⟨hout, hinsi⟩ := recoverOne_rows now hkeys hown hfold
      by_cases hin : key ∈ live.map fst
      · obtain ⟨p, hp, rfl⟩ := List.mem_map.mp hin
        obtain ⟨old, hold, hrow'⟩ := hinsi p hp
        rw [hr, some.injEq] at hold
        subst hold
        exact ⟨_, hrow', .inl rfl⟩
      · exact ⟨row, (hout key hin).trans hr, .inl rfl⟩

theorem exec_expiry (hc : Coherent st) (call : Call) {key : RowKey} {row : ExecutionRow J}
    (hrow : st.executions.get? key = some row) :
    ∃ row', (call.exec st).executions.get? key = some row' ∧ row.leaseExpiresUnixMs ≤ row'.leaseExpiresUnixMs := by
  obtain ⟨row', hrow', hsame | ⟨_, _, _, expires, _, _, _, _, _, _, hcollect⟩⟩ := exec_lease hc call hrow
  · exact ⟨row', hrow', Int.le_of_eq (congrArg fst hsame).symm⟩
  · have he : row'.leaseExpiresUnixMs = max row.leaseExpiresUnixMs expires := congrArg fst hcollect
    exact ⟨row', hrow', by rw [he]; exact Int.le_max_left _ _⟩

/-! ### Replays -/

/-- A call that commits or aborts. -/
def attempt (st : ExecutionStore J) (call : Call × Bool) : Option (ExecutionStore J) :=
  some (if call.2 then call.1.exec st else st)

/-- A renewal is accepted: it answers with an expiry. -/
def accepts (st : ExecutionStore J) : Call → Bool
  | .updateLease id generation hash renewal expires now =>
    match st.updateLease id generation hash renewal expires now with
    | .ok (some _, _) => true
    | _ => false
  | _ => false

/-- The call is not an accepted renewal of this row under another id. -/
def KeepsRenewal (key : RowKey) (renewal : String) (st : ExecutionStore J) (call : Call × Bool) : Prop :=
  ∀ id generation hash other expires now, call.1 = .updateLease id generation hash other expires now →
    (id, generation.asI64) = key → accepts st call.1 = true → other = renewal

def Remembers (st : ExecutionStore J) (key : RowKey) (renewal : String) : Prop :=
  ∃ row, st.executions.get? key = some row ∧ row.lastRenewalId = some renewal

theorem Renews.accepts {row : ExecutionRow J} {key : RowKey} {call : Call} {columns : Int × Option String}
    (hr : st.executions.get? key = some row) (h : Renews row key call columns) : accepts st call = true := by
  obtain ⟨id, generation, renewal, exp, now, rfl, rfl, hl, hnow, hlast, _⟩ := h
  have hv : ¬ (row.leaseTokenHash ≠ row.leaseTokenHash ∨ isTerminalName row.state = true ∨
      row.leaseExpiresUnixMs ≤ now) := by
    rw [hl]
    simp [hnow]
  simp only [Store.accepts, updateLease, hr, if_neg hv, if_neg hlast]

theorem accepted_remembered {hash : String} {exp now granted : Int}
    (h : st.updateLease id generation hash renewal exp now = .ok (some granted, st')) :
    Remembers st' (id, generation.asI64) renewal := by
  rcases updateLease_cases h with ⟨rfl, hlast⟩ | ⟨row, f, hr, _, _, _, _, rfl, hf⟩
  · exact hlast granted rfl
  refine ⟨f row, ?_, congrArg snd hf⟩
  rw [get?_update, if_pos rfl, hr]
  rfl

theorem Remembers.attempt {key : RowKey} {call : Call × Bool} (h : Remembers st key renewal) (hc : Coherent st)
    (hrule : KeepsRenewal key renewal st call) (hstep : attempt st call = some st') : Remembers st' key renewal := by
  obtain ⟨call, commits⟩ := call
  cases commits with
  | false =>
    cases hstep
    exact h
  | true =>
    cases hstep
    obtain ⟨row, hr, hlast⟩ := h
    obtain ⟨row', hrow', hsame | hrenew⟩ := exec_lease hc call hr
    · exact ⟨row', hrow', (congrArg snd hsame).trans hlast⟩
    have ha := hrenew.accepts hr
    obtain ⟨id, generation, other, exp, now, rfl, hk, _, _, hne, _⟩ := hrenew
    rw [hrule id generation _ other exp now rfl hk ha] at hne
    exact absurd hlast hne

/-- What is remembered changes nothing when presented again. -/
theorem Remembers.replay (h : Remembers st (id, generation.asI64) renewal) (hash : String) (exp now : Int) :
    (Call.updateLease id generation hash renewal exp now).exec st = st := by
  obtain ⟨row, hr, hlast⟩ := h
  simp only [Call.exec]
  cases hu : st.updateLease id generation hash renewal exp now with
  | error e => rfl
  | ok a =>
    obtain ⟨a, st'⟩ := a
    rcases updateLease_cases hu with ⟨rfl, _⟩ | ⟨old, _, hold, _, _, _, hne, _⟩
    · rfl
    · rw [hr, some.injEq] at hold
      exact absurd (hold ▸ hlast) hne

/-- **A renewal presented again changes nothing**, as long as no renewal of that
execution generation under another id has been accepted since: whatever other calls
came in between, and whatever expiry is asked for. -/
theorem renewal_replayed {st₀ st₁ st : ExecutionStore J} {id : ExecutionId} {generation : ExecutionGeneration}
    {hash renewal : String} {expires now granted : Int} (hreach : Reachable st₀)
    (haccepted : st₀.updateLease id generation hash renewal expires now = .ok (some granted, st₁))
    (hrun : Steps attempt (KeepsRenewal (id, generation.asI64) renewal) st₁ st) (hash' : String) (expires' now' : Int) :
    (Call.updateLease id generation hash' renewal expires' now').exec st = st := by
  have hc₁ : Coherent st₁ := by
    rcases updateLease_changes haccepted with rfl | hchange
    · exact hreach.coherent
    · exact hchange.coherent hreach.coherent
  have hinv : Coherent st ∧ Remembers st (id, generation.asI64) renewal := by
    refine hrun.invariant (fun st => Coherent st ∧ Remembers st (id, generation.asI64) renewal)
      (fun {_ _ call} hrule hstep h => ⟨?_, h.2.attempt h.1 hrule hstep⟩) ⟨hc₁, accepted_remembered haccepted⟩
    cases hstep
    cases call.2 with
    | false => exact h.1
    | true => exact (exec_changes h.1 call.1).invariant Coherent Change.coherent h.1
  exact hinv.2.replay hash' expires' now'

/-- A row whose lease was renewed under the id "a". -/
def renewedHistory : List (Call × Bool) :=
  [(.reserve (finishedSnapshot .accepted) 1 "digest" "alice" "lease" 1000 0, true),
    (.updateLease (finishedSnapshot .accepted).executionId ⟨1⟩ "lease" "a" 2000 1, true)]

/-- The same store once its run has started. -/
def renewedRunning : ExecutionStore .json :=
  (Call.commitEvent (finishedSnapshot .running) (.state .running) 2).exec (play ExecutionStore.empty renewedHistory)

theorem renewal_replayed_running :
    (renewedRunning.executions.get? (rowKey (finishedSnapshot .accepted))).map (·.lastRenewalId) = some (some "a") ∧
      (Call.updateLease (finishedSnapshot .accepted).executionId ⟨1⟩ "lease" "a" 4000 3).exec renewedRunning =
        renewedRunning := by
  have haccepted : (play (ExecutionStore.empty : ExecutionStore .json) (renewedHistory.take 1)).updateLease
      (finishedSnapshot .accepted).executionId ⟨1⟩ "lease" "a" 2000 1 =
        .ok (some 2000, play ExecutionStore.empty renewedHistory) := rfl
  have hbetween : Steps attempt (KeepsRenewal (rowKey (finishedSnapshot .accepted)) "a")
      (play ExecutionStore.empty renewedHistory) renewedRunning := by
    refine .tail (.refl _) (a := (.commitEvent (finishedSnapshot .running) (.state .running) 2, true)) ?_ rfl
    intro id generation hash other expires now he
    cases he
  exact ⟨by decide, renewal_replayed ⟨renewedHistory.take 1, rfl⟩ haccepted hbetween "lease" 4000 3⟩

/-- Presented after another one, a renewal extends the lease again. -/
theorem older_renewal_extends : accepts (play (ExecutionStore.empty : ExecutionStore .json) (renewedHistory.take 1))
        (.updateLease (finishedSnapshot .accepted).executionId ⟨1⟩ "lease" "a" 2000 1) = true ∧
      ((play (ExecutionStore.empty : ExecutionStore .json) (renewedHistory ++
        [(.updateLease (finishedSnapshot .accepted).executionId ⟨1⟩ "lease" "b" 3000 2, true)])).executions.get?
          (rowKey (finishedSnapshot .accepted))).map (·.leaseExpiresUnixMs) = some 3000 ∧
      ((play (ExecutionStore.empty : ExecutionStore .json) (renewedHistory ++
        [(.updateLease (finishedSnapshot .accepted).executionId ⟨1⟩ "lease" "b" 3000 2, true),
          (.updateLease (finishedSnapshot .accepted).executionId ⟨1⟩ "lease" "a" 4000 3, true)])).executions.get?
          (rowKey (finishedSnapshot .accepted))).map (·.leaseExpiresUnixMs) = some 4000 := by
  decide

end Eggwork.Store
