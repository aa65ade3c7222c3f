import Eggwork.Server.Conformance
import Eggwork.Store.Encoding
import Eggwork.Store.Generations

/-! Each created row has one owner until its run is spawned.

The reservation transaction creates a row at most once, for one request; that
request alone may spawn the run. So over all processes on one database the run of
an execution generation is spawned at most once (`run_spawned_at_most_once`),
whatever the interleaving, the dropped futures and the crashes. The claims of the
admission protocol are the owners; rows and spawned runs are never forgotten. -/
namespace Eggwork.Server
open Lib Store Runner Function List Local View

variable {J : Serde}
variable {t n : TaskId} {locals : TaskId → Local}

/-! ### Views that only grow -/

/-- The execution generations whose run was spawned, by any process so far. -/
def spawnedKeys (log : List Observation) : List RowKey :=
  log.filterMap fun
    | .spawned key => some key
    | .acted .. => none

theorem spawnedKeys_spawned (v : View J) (key : RowKey) :
    spawnedKeys (v.observe (.spawned key)).log = spawnedKeys v.log ++ [key] := filterMap_append

/-- The store is what its history of calls makes of the empty one. -/
def View.Sound (v : View J) : Prop := v.store = play ExecutionStore.empty v.history

theorem View.Sound.reachable {v : View J} (h : v.Sound) : Reachable v.store := ⟨v.history, h⟩

/-- Rows and records are kept, and no run is spawned. -/
structure View.Extends (v v' : View J) : Prop where
  sound : v.Sound → v'.Sound
  rows : v.Sound → ∀ key, (v.store.executions.get? key).isSome → (v'.store.executions.get? key).isSome
  spawned : spawnedKeys v'.log = spawnedKeys v.log
  records : ∀ (r : RecordId) (record : RecordView), v.records[r]? = some record →
    ∃ record' : RecordView, v'.records[r]? = some record' ∧ record'.key = record.key

variable {v v' : View J}

namespace View.Extends

theorem same (hstored : v'.store = v.store) (hh : v'.history = v.history) (hrs : v'.records = v.records)
    (hlog : v'.log = v.log) : v.Extends v' := by
  refine ⟨fun hs => ?_, fun _ key => hstored ▸ id, congrArg spawnedKeys hlog, fun _ rec h => ⟨rec, hrs ▸ h, rfl⟩⟩
  rw [View.Sound, hstored, hh]
  exact hs

theorem refl (v : View J) : v.Extends v := same rfl rfl rfl rfl

theorem trans {v'' : View J} (h : v.Extends v') (h' : v'.Extends v'') : v.Extends v'' := by
  refine ⟨fun hs => h'.sound (h.sound hs), fun hs key hk => h'.rows (h.sound hs) key (h.rows hs key hk),
    h'.spawned.trans h.spawned, fun r rec hr => ?_⟩
  obtain ⟨rec', hr', hk⟩ := h.records r rec hr
  obtain ⟨record'', hr'', hkey'⟩ := h'.records r rec' hr'
  exact ⟨record'', hr'', hkey'.trans hk⟩

theorem transact (v : View J) (call : Call) : v.Extends (v.transact call) := by
  refine ⟨fun hs => ?_, fun hs key hk => ?_, rfl, fun _ rec h => ⟨rec, h, rfl⟩⟩
  · show call.exec v.store = play _ (v.history ++ [(call, true)])
    rw [play_concat, ← hs]
  · have hc := exec_changes hs.reachable.coherent call
    exact hc.invariant (fun st => (st.executions.get? key).isSome) (fun h => h.row_kept) hk

theorem modifyRecord (v : View J) (r : RecordId) (f : RecordView → RecordView) (hf : ∀ rec, (f rec).key = rec.key) :
    v.Extends (v.modifyRecord r f) := by
  refine ⟨id, fun _ _ => id, rfl, fun i rec hi => ⟨_, record_modify hi, ?_⟩⟩
  split
  · exact hf rec
  · rfl

theorem observe (v : View J) (origin : Origin) (a : Act) (key : RowKey) :
    v.Extends (v.observe (.acted origin a key)) := by
  refine ⟨id, fun _ _ => id, ?_, fun _ rec h => ⟨rec, h, rfl⟩⟩
  show spawnedKeys (v.log ++ [.acted origin a key]) = _
  rw [spawnedKeys, filterMap_append]
  exact append_nil _

theorem append (v : View J) (rec : RecordView) : v.Extends {v with records := v.records ++ [rec]} := by
  refine ⟨id, fun _ _ => id, rfl, fun r old hr => ⟨old, ?_, rfl⟩⟩
  rw [List.getElem?_append_left (List.getElem?_eq_some_iff.mp hr).1, hr]

theorem release (v : View J) (t : TaskId) : v.Extends (v.release t) := by
  refine ⟨id, fun _ _ => id, rfl, fun r rec hr => ⟨releaseLock t rec, ?_, rfl⟩⟩
  show (v.records.map (releaseLock t))[r]? = _
  rw [getElem?_map, hr]
  rfl

theorem foldl_load (snaps : List ExecutionSnapshot) (v : View J) : v.Extends (snaps.foldl load v) := by
  induction snaps generalizing v with
  | nil => exact refl v
  | cons snap rest ih =>
    have hload : v.Extends (v.load snap) := by
      have ha := append v (recordOf snap "" true)
      exact ⟨ha.sound, ha.rows, ha.spawned, ha.records⟩
    exact hload.trans (ih _)

end View.Extends

/-- Every operation but the spawn of a run only extends the view. -/
theorem Effect.extends {origin : Origin} {o : Op} {a : o.Answer} (h : Effect t origin v o a v')
    (hs : ∀ req, o ≠ .spawnRun req) : v.Extends v' := by
  cases h with
  | spawnRun => exact absurd rfl (hs _)
  | reserve | refusedCommit | updateLease => exact .transact v _
  | commitEvent => exact (View.Extends.transact v _).trans (.observe _ _ _ _)
  | newRecord snap hash => exact .append v _
  | writeSnapshot | lockCommit | unlockCommit | finish | send => exact .modifyRecord v _ _ fun _ => rfl
  | cancel | extendLease => exact .observe v _ _ _
  | respond => exact .release v t
  | _ => exact .same rfl rfl rfl rfl

/-! ### Owners -/

def Claim.record? : Claim → Option RecordId
  | .recorded r | .inserted r => some r
  | _ => Option.none

/-- The claims are on rows with no run yet, each by one task, and a claim that has
a record has the record of its row. -/
structure Owned (claims : TaskId → Option (RowKey × Claim)) (v : View J) : Prop where
  sound : v.Sound
  spawned : ∀ key ∈ spawnedKeys v.log, (v.store.executions.get? key).isSome
  nodup : (spawnedKeys v.log).Nodup
  claimed : ∀ t key claim, claims t = some (key, claim) →
    (v.store.executions.get? key).isSome ∧ key ∉ spawnedKeys v.log
  distinct : ∀ t t' key claim claim', claims t = some (key, claim) → claims t' = some (key, claim') → t = t'
  recorded : ∀ t key claim r, claims t = some (key, claim) → claim.record? = some r →
    ∃ record : RecordView, v.records[r]? = some record ∧ record.key = key

namespace Owned
variable {claims : TaskId → Option (RowKey × Claim)} {v v' : View J}

theorem mono (h : Owned claims v) (he : v.Extends v') : Owned claims v' := by
  refine ⟨he.sound h.sound, fun key hk => he.rows h.sound key (h.spawned key (he.spawned ▸ hk)),
    he.spawned.symm ▸ h.nodup, fun t key claim ht => ?_, h.distinct, fun t key claim r ht hr => ?_⟩
  · obtain ⟨hrow, hf⟩ := h.claimed t key claim ht
    exact ⟨he.rows h.sound key hrow, he.spawned.symm ▸ hf⟩
  obtain ⟨rec, hrecord, hk⟩ := h.recorded t key claim r ht hr
  obtain ⟨rec', hr', hkey'⟩ := he.records r rec hrecord
  exact ⟨rec', hr', hkey'.trans hk⟩

theorem advance (h : Owned claims v) {key : RowKey} {claim claim' : Claim} (ht : claims t = some (key, claim))
    (hrecord : ∀ r, claim'.record? = some r → ∃ rec : RecordView, v.records[r]? = some rec ∧ rec.key = key) :
    Owned (update claims t (some (key, claim'))) v := by
  have hold : ∀ i key' claim'', update claims t (some (key, claim')) i = some (key', claim'') →
      (i = t ∧ key' = key ∧ claim'' = claim') ∨ claims i = some (key', claim'') := by
    intro i key' claim'' hi
    by_cases hit : i = t
    · subst hit
      rw [update_self] at hi
      cases hi
      exact .inl ⟨rfl, rfl, rfl⟩
    · rw [update_of_ne hit] at hi
      exact .inr hi
  have hsome : ∀ i key' claim'', update claims t (some (key, claim')) i = some (key', claim'') →
      ∃ old, claims i = some (key', old) := by
    intro i key' claim'' hi
    rcases hold i key' claim'' hi with ⟨rfl, rfl, rfl⟩ | hi
    · exact ⟨claim, ht⟩
    · exact ⟨claim'', hi⟩
  refine ⟨h.sound, h.spawned, h.nodup, fun i key' claim'' hi => ?_, fun i j key' c c' hi hj => ?_,
    fun i key' claim'' r hi hr => ?_⟩
  · obtain ⟨old, hi⟩ := hsome i key' claim'' hi
    exact h.claimed i key' old hi
  · obtain ⟨old, hi⟩ := hsome i key' c hi
    obtain ⟨old', hj⟩ := hsome j key' c' hj
    exact h.distinct i j key' old old' hi hj
  · rcases hold i key' claim'' hi with ⟨rfl, rfl, rfl⟩ | hi
    · exact hrecord r hr
    · exact h.recorded i key' claim'' r hi hr

theorem drop (h : Owned claims v) (t : TaskId) : Owned (update claims t none) v := by
  have hold : ∀ i key claim, update claims t none i = some (key, claim) → claims i = some (key, claim) := by
    intro i key claim hi
    by_cases hit : i = t
    · subst hit
      rw [update_self] at hi
      cases hi
    · rwa [update_of_ne hit] at hi
  exact ⟨h.sound, h.spawned, h.nodup, fun i key claim hi => h.claimed i key claim (hold i key claim hi),
    fun i j key c c' hi hj => h.distinct i j key c c' (hold i key c hi) (hold j key c' hj),
    fun i key claim r hi => h.recorded i key claim r (hold i key claim hi)⟩

theorem create (h : Owned claims v) (he : v.Extends v') (t : TaskId) {key : RowKey}
    (hn : v.store.executions.get? key = none) (hrow : (v'.store.executions.get? key).isSome) :
    Owned (update claims t (some (key, .created))) v' := by
  have hmono := h.mono he
  have hf : key ∉ spawnedKeys v'.log := fun hk => by
    have := h.spawned key (he.spawned ▸ hk)
    rw [hn] at this
    cases this
  have ho : ∀ i claim, claims i ≠ some (key, claim) := fun i claim hi => by
    have := (h.claimed i key claim hi).1
    rw [hn] at this
    cases this
  have hold : ∀ i key' claim, update claims t (some (key, .created)) i = some (key', claim) →
      (i = t ∧ key' = key ∧ claim = .created) ∨ (key' ≠ key ∧ claims i = some (key', claim)) := by
    intro i key' claim hi
    by_cases hit : i = t
    · subst hit
      rw [update_self] at hi
      cases hi
      exact .inl ⟨rfl, rfl, rfl⟩
    · rw [update_of_ne hit] at hi
      exact .inr ⟨fun hk => ho i claim (hk ▸ hi), hi⟩
  refine ⟨hmono.sound, hmono.spawned, hmono.nodup, fun i key' claim hi => ?_, fun i j key' c c' hi hj => ?_,
    fun i key' claim r hi hr => ?_⟩
  · rcases hold i key' claim hi with ⟨_, rfl, _⟩ | ⟨_, hi⟩
    · exact ⟨hrow, hf⟩
    · exact hmono.claimed i key' claim hi
  · rcases hold i key' c hi with ⟨rfl, rfl, _⟩ | ⟨hne, hi⟩ <;> rcases hold j key' c' hj with ⟨rfl, he', _⟩ | ⟨hne', hj⟩
    · rfl
    · exact absurd rfl hne'
    · exact absurd he' hne
    · exact h.distinct i j key' c c' hi hj
  · rcases hold i key' claim hi with ⟨_, _, rfl⟩ | ⟨_, hi⟩
    · cases hr
    · exact hmono.recorded i key' claim r hi hr

theorem spawn (h : Owned claims v) {key : RowKey} {claim : Claim} (ht : claims t = some (key, claim)) :
    Owned (update claims t none) (v.observe (.spawned key)) := by
  have hs := spawnedKeys_spawned v key
  obtain ⟨hr, hf⟩ := h.claimed t key claim ht
  have hdrop := h.drop t
  refine ⟨h.sound, fun key' hkey' => ?_, ?_, fun i key' claim' hi => ?_, hdrop.distinct, hdrop.recorded⟩
  · rw [hs, mem_append, mem_singleton] at hkey'
    rcases hkey' with hkey' | rfl
    · exact h.spawned key' hkey'
    · exact hr
  · rw [hs, nodup_append']
    exact ⟨h.nodup, nodup_singleton key, by simpa using hf⟩
  obtain ⟨hrow', hfree'⟩ := hdrop.claimed i key' claim' hi
  refine ⟨hrow', fun hkey' => ?_⟩
  rw [hs, mem_append, mem_singleton] at hkey'
  rcases hkey' with hkey' | rfl
  · exact hfree' hkey'
  by_cases hit : i = t
  · subst hit
    rw [update_self] at hi
    cases hi
  · rw [update_of_ne hit] at hi
    exact hit (h.distinct i t key' claim' claim hi ht)

end Owned
/-! ### The claims of a run -/

def claimsOf (locals : TaskId → Local) : TaskId → Option (RowKey × Claim) := fun t => (locals t).claimed

theorem birth_claimed (origin : Origin) : (birth origin).claimed = none := by
  cases origin <;> rfl

theorem claimsOf_update (locals : TaskId → Local) (t : TaskId) (g : Local) :
    claimsOf (update locals t g) = update (claimsOf locals) t g.claimed := by
  funext i
  unfold claimsOf
  by_cases hi : i = t
  · subst hi
    rw [update_self, update_self]
  · rw [update_of_ne hi, update_of_ne hi]

theorem claimsOf_birth (hn : locals n = idle) (origin : Origin) :
    claimsOf (update locals n (birth origin)) = claimsOf locals := by
  have hidle : claimsOf locals n = none := congrArg claimed hn
  rw [claimsOf_update, birth_claimed, ← hidle, update_eq_self]

theorem claimsOf_births (hn : locals n = idle) (o : Op) :
    claimsOf (admissionDiscipline.births locals n o) = claimsOf locals := by
  unfold Discipline.births
  split
  · exact claimsOf_birth hn _
  · rfl

theorem answered_ok {α : Type} {res : Except StoreError (α × ExecutionStore J)} {a : α}
    (h : answered res = .ok a) : ∃ st', res = .ok (a, st') := by
  cases res with
  | error e => cases h
  | ok value =>
    cases h
    exact ⟨value.2, rfl⟩

theorem Owned.performs {o : Op} {origin : Origin} {ans : o.Answer} {g : Local}
    (heffect : Effect t origin v o ans v') (hm : (locals t).advance o ans = some g)
    (hn : locals n = idle) (h : Owned (claimsOf locals) v) :
    Owned (claimsOf (update (admissionDiscipline.births locals n o) t g)) v' := by
  rw [claimsOf_update, claimsOf_births hn]
  by_cases hclaimed : o.claims = false
  · have hs : ∀ request, o ≠ .spawnRun request := fun request ho => by
      rw [ho] at hclaimed
      cases hclaimed
    rw [advance_claimed hclaimed hm]
    show Owned (update (claimsOf locals) t (claimsOf locals t)) v'
    rw [update_eq_self]
    exact h.mono (heffect.extends hs)
  have hsame : ∀ {v'}, v.Extends v' → g = locals t → Owned (update (claimsOf locals) t g.claimed) v' := by
    rintro v' he rfl
    show Owned (update (claimsOf locals) t (claimsOf locals t)) v'
    rw [update_eq_self]
    exact h.mono he
  have hclaim : ∀ {key claim}, (locals t).role = .admitting key claim → claim ≠ .none →
      claimsOf locals t = some (key, claim) := fun hrole hc => claimed_of_role hrole hc
  cases heffect with
  | failedReserve =>
    obtain ⟨_, _, ⟨hnew, _⟩ | ⟨_, hg⟩⟩ := advance_reserve hm
    · cases hnew
    · exact hsame (.refl v) hg
  | reserve snapshot ver digest principal hash exp now =>
    have he : v.Extends (v.transact (.reserve snapshot ver digest principal hash exp now)) := .transact v _
    obtain ⟨_, _, ⟨hnew, rfl⟩ | ⟨_, hg⟩⟩ := advance_reserve hm
    · obtain ⟨st', hst'⟩ := answered_ok hnew
      obtain ⟨hnone, _, row, _, _, hi⟩ := reserve_created hst'
      refine h.create he t hnone ?_
      show ((committed v.store (v.store.reserve ..)).executions.get? (rowKey snapshot)).isSome
      rw [hst']
      simp only [committed]
      rw [Table.get?_insert hi, if_pos rfl]
      rfl
    · exact hsame he hg
  | newRecord snapshot hash =>
    obtain ⟨hrole, rfl⟩ := advance_newRecord hm
    refine (h.mono (.append v _)).advance (hclaim hrole (by decide)) fun r hr => ?_
    cases hr
    exact ⟨_, getElem?_concat_length, rfl⟩
  | executionsInsert id r =>
    obtain ⟨_, key, _, hrole, rfl⟩ := advance_executionsInsert hm
    have hc := hclaim hrole Claim.noConfusion
    have hput : Owned (claimsOf locals) {v with executions := v.executions.put id r} :=
      h.mono (.same rfl rfl rfl rfl)
    refine hput.advance hc fun r' hr => ?_
    cases hr
    exact h.recorded t key _ r hc rfl
  | spawnRun hrecord =>
    obtain ⟨key, hrole, rfl⟩ := advance_spawnRun hm
    have hc := hclaim hrole Claim.noConfusion
    obtain ⟨record', hr', hk⟩ := h.recorded t key _ _ hc rfl
    rw [hr', Option.some.injEq] at hrecord
    rw [← hrecord, hk]
    exact h.spawn hc
  | quiet hq =>
    cases o <;> first
      | exact absurd rfl hclaimed
      | cases hq
  | _ => exact absurd rfl hclaimed

/-- The rows have one owner each along every run, whatever its interleaving. -/
theorem owned_inductive (Rule : Node J → Action → Prop) :
    admissionDiscipline.Inductive Rule Nothing fun locals v => Owned (claimsOf locals) v where
  performs _ _ _ _ _ he hm _ hn _ _ h := h.performs he hm hn
  releases _ _ h := h.mono (.release _ _)
  arrives origin _ _ hn _ h := (claimsOf_birth hn origin).symm ▸ h
  drops {s t task locals} _ _ _ _ _ _ h := by
    rw [claimsOf_update]
    have hjobs : Owned (claimsOf locals) {s.view with jobs := s.view.jobs ++ detached task.program} :=
      h.mono (.same rfl rfl rfl rfl)
    exact (hjobs.mono (.release _ t)).drop t
  jobs {s i fails o now call locals} _ _ _ _ h := by
    have hjobs : Owned (claimsOf locals) {s.view with jobs := s.view.jobs.eraseIdx i} :=
      h.mono (.same rfl rfl rfl rfl)
    cases fails
    · exact hjobs.mono (.transact _ _)
    · exact hjobs
  crashes {locals v} _ h := by
    refine ⟨h.sound, h.spawned, h.nodup, fun t key claim ht => ?_, fun t t' key c c' ht => ?_, fun t key c r ht => ?_⟩
    · cases ht
    · cases ht
    · cases ht
  recovers now _ _ _ _ h := h.mono (.transact _ _)
  starts {locals v interrupted snapshots} now _ _ _ _ _ _ h := by
    have hup : Owned (claimsOf locals) {v.transact (.recover now) with up := true} :=
      (h.mono (.transact v (.recover now))).mono (.same rfl rfl rfl rfl)
    exact hup.mono (.foldl_load snapshots _)

theorem owned_fresh : Owned (claimsOf fun _ => idle) (fresh J).view := by
  refine ⟨rfl, fun key hk => ?_, nodup_nil, fun t key claim ht => ?_, fun t t' key c c' ht => ?_,
    fun t key c r ht => ?_⟩
  · cases hk
  · cases ht
  · cases ht
  · cases ht

theorem count_spawned (log : List Observation) (key : RowKey) :
    log.count (.spawned key) = (spawnedKeys log).count key := by
  induction log with
  | nil => rfl
  | cons o rest ih =>
    cases o with
    | spawned key' =>
      show _ = (key' :: spawnedKeys rest).count key
      rw [count_cons, count_cons, ih]
      congr 1
      by_cases hk : key' = key <;> simp [hk]
    | acted origin a key' =>
      show _ = (spawnedKeys rest).count key
      rw [count_cons_of_ne (by simp), ih]

/-- **The run of an execution generation is spawned at most once.** In every run
of the node from an empty database, with any requests, interleaving, dropped
futures, failing store calls, crashes and restarts. -/
theorem run_spawned_at_most_once {config : NodeConfig} {s : Node J}
    (hrun : Steps (step config) Free (fresh J) s) (key : RowKey) : s.log.count (.spawned key) ≤ 1 := by
  obtain ⟨locals, _, howned⟩ := (owned_inductive Free).holds hrun ⟨_, Discipline.keeps_fresh, owned_fresh⟩
  rw [count_spawned]
  exact nodup_iff_count_le_one.mp howned.nodup key

namespace Example

/-- An execution is admitted; the node crashes, is started again, and the request is retried. -/
def retried : List Action :=
  [.start .none, execute 1] ++ runs 0 23 ++ [.crash, .start .none, execute 1] ++ runs 0 12

end Example

open Example

theorem run_spawned_at_most_once_retried : ∃ s, follow (step config) Free (fresh Serde.json) retried = some s ∧
      s.log.count (.spawned (key 1)) = 1 ∧ s.log.count (.spawned (key 1)) ≤ 1 := by
  have hcount : (follow (step config) Free (fresh Serde.json) retried).map
      (fun s => s.log.count (.spawned (key 1))) = some 1 := by
    decide
  obtain ⟨s, hs, hone⟩ := Option.map_eq_some_iff.mp hcount
  exact ⟨s, hs, hone, run_spawned_at_most_once (follow_steps hs) (key 1)⟩

end Eggwork.Server
