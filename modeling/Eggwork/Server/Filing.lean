import Eggwork.Server.Cancellation
import Eggwork.Server.Lifecycle
import Eggwork.Server.Runs

/-! A live execution stays in the map.

`execute` evicts records from a full map by what their snapshots say, and replaces
an entry by what the store says. Both are safe: a snapshot is terminal only once
its row is (`Attested`), and the row of a later generation is created only once
the earlier one has ended. What is left is the window between the reservation and
the insertion: a request dropped there leaves a live row that no entry of the map
leads to (`dropped_unfiled`). Where no request is dropped in it, the map holds,
whenever its lock is free, the one record of every live row (`live_row_filed`). -/
namespace Eggwork.Server
open Lib Store Runner Function Option List Local Discipline View Bool Table Prod

variable {J : Serde}
variable {g g' : Local} {t : TaskId} {now : Int} {locals : TaskId → Local} {origin : Origin} {r : RecordId}
variable {call : Call}
variable {n : TaskId} {locals' : TaskId → Local}

def Op.inserts : Op → Bool
  | .executionsInsert .. => true
  | _ => false

/-- On every path from here a record is put into the map. -/
def LeadsToInsert (program : Async Unit) : Prop := program.Leads fun o : Op => o.inserts = true

/-- The reservation is in flight, or its record is not in the map yet. -/
def Filing (program : Async Unit) : Prop :=
  (∃ (o : Op) (next : o.Answer → Async Unit), program = .perform o next ∧ o.reserves = true) ∨ LeadsToInsert program

/-- No request is dropped in that window. -/
def SparesFilings (s : Node J) : Action → Prop
  | .drop t => ∀ task, s.tasks[t]? = some task → ¬ Filing task.program
  | _ => True

/-! ### Local states -/

theorem Local.pending_advance {o : Op} {answer : o.Answer} (h : g.advance o answer = some g') {key : RowKey}
    (hp : g.pending = some key) :
    g'.pending = some key ∨ ∃ r, o = .executionsInsert key.1 r ∧ g.role = .admitting key (.recorded r) := by
  cases advance_moves h with
  | creates hrole | reserves hrole | spawns hrole | finishes hrole =>
    simp only [pending, hrole] at hp
    cases hp
  | records hrole =>
    simp only [pending, hrole] at hp
    cases hp
    exact .inl rfl
  | inserts _ hrole =>
    simp only [pending, hrole] at hp
    cases hp
    exact .inr ⟨_, rfl, hrole⟩
  | reads => exact .inl (by simp only [pending, read_role] at hp ⊢; exact hp)
  | _ => exact .inl hp

/-- What is pending was so before, or has just been created. -/
theorem Local.pending_before {o : Op} {answer : o.Answer} (h : g.advance o answer = some g') {key : RowKey}
    (hp : g'.pending = some key) :
    g.pending = some key ∨ ∃ snap, o.creates answer = some snap ∧ rowKey snap = key := by
  cases advance_moves h with
  | creates =>
    cases hp
    exact .inr ⟨_, rfl, rfl⟩
  | records hrole =>
    cases hp
    exact .inl (by simp only [pending, hrole])
  | inserts | spawns | finishes => cases hp
  | reads => exact .inl (by simp only [pending, read_role] at hp ⊢; exact hp)
  | _ => exact .inl hp

theorem Local.holds_of_pending {o : Op} {answer : o.Answer} (h : g.advance o answer = some g') {key : RowKey}
    (hp : g.pending = some key) (hh : g.holds = true) : g'.holds = true := by
  cases advance_moves h with
  | unlocksMap _ hn =>
    rw [hn] at hp
    cases hp
  | responds hset =>
    rw [pending_eq_none hset.1] at hp
    cases hp
  | locksMap => rfl
  | reads => rwa [read_holds]
  | _ => exact hh

/-- A task with a pending row reaches the insertion on every path. -/
theorem leads_of_pending {program : Async Unit} (h : admissionDiscipline.Allows g program) (hp : g.pending ≠ none) :
    LeadsToInsert program := by
  refine Protocol.Conforms.leads (fun g : Local => g.pending ≠ none) ?_ ?_ ?_ hp h
  · exact fun _ g hg hf => hg (pending_eq_none hf.1.1)
  · exact fun l g hg hentry => hg (pending_eq_none hentry.1.1.1)
  intro g o answer g' hg hm
  obtain ⟨key, hk⟩ := ne_none_iff_exists'.mp hg
  rcases pending_advance hm hk with he | ⟨r, rfl, _⟩
  · exact .inl (by rw [he]; exact some_ne_none _)
  · exact .inr rfl

theorem Local.claimed_of_pending {key : RowKey} (h : g.pending = some key) :
    ∃ claim, g.claimed = some (key, claim) := by
  unfold pending at h
  split at h
  · rename_i hrole
    cases h
    exact ⟨_, claimed_of_role hrole Claim.noConfusion⟩
  · rename_i hrole
    cases h
    exact ⟨_, claimed_of_role hrole Claim.noConfusion⟩
  · cases h

/-! ### One record for each row -/

/-- No two records are of one row, and a row just created has none yet. -/
structure Distinct (claims : TaskId → Option (RowKey × Claim)) (v : View J) : Prop where
  keyed : ∀ (r r' : RecordId) (record record' : RecordView), v.records[r]? = some record →
    v.records[r']? = some record' → record.key = record'.key → r = r'
  unmade : ∀ t key, claims t = some (key, .created) → ∀ (r : RecordId) (record : RecordView),
    v.records[r]? = some record → record.key ≠ key

theorem Local.created_before {o : Op} {answer : o.Answer} (h : g.advance o answer = some g') {key : RowKey}
    (hc : g'.claimed = some (key, .created)) :
    (g.claimed = some (key, .created) ∧ ∀ snap hash, o ≠ .newRecord snap hash) ∨
      ∃ snap, o.creates answer = some snap ∧ rowKey snap = key := by
  cases advance_moves h with
  | keeps ho | publishes ho => exact .inl ⟨hc, fun snap hash he => by rw [he] at ho; cases ho⟩
  | reads =>
    exact .inl ⟨(claimed_congr (read_role _ _ _)).symm.trans hc, fun _ _ => Op.noConfusion⟩
  | creates =>
    cases hc
    exact .inr ⟨_, rfl, rfl⟩
  | records | inserts | spawns | finishes => cases hc
  | _ => exact .inl ⟨hc, fun _ _ => Op.noConfusion⟩

theorem Distinct.performs {o : Op} {answer : o.Answer} {v v' : View J} (heffect : Effect t origin v o answer v')
    (hm : (locals t).advance o answer = some g) (hn : locals n = Local.idle) (hown : Owned (claimsOf locals) v)
    (hrecord : Recorded locals v) (h : Distinct (claimsOf locals) v) :
    Distinct (claimsOf (update (admissionDiscipline.births locals n o) t g)) v' := by
  rw [claimsOf_update, claimsOf_births hn]
  -- a new rec is of the row its maker has created
  have hnew : ∀ {snap hash}, o = .newRecord snap hash → claimsOf locals t = some (rowKey snap, .created) := by
    rintro snap hash rfl
    obtain ⟨hrole, _⟩ := advance_newRecord hm
    exact claimed_of_role hrole Claim.noConfusion
  refine ⟨fun r r' rec rec' hr hr' hkey => ?_, fun i key hi r rec hr => ?_⟩
  · rcases heffect.record_before hr with ⟨old, hold, hk, _⟩ | ⟨snap, hash, ho, hlast, rfl⟩ <;>
      rcases heffect.record_before hr' with ⟨old', hold', hk', _⟩ | ⟨snapshot', hash', ho', hlast', rfl⟩
    · exact h.keyed r r' old old' hold hold' (hk.symm.trans (hkey.trans hk'))
    · exact absurd (hk.symm.trans hkey) (h.unmade t _ (hnew ho') r old hold)
    · exact absurd (hk'.symm.trans hkey.symm) (h.unmade t _ (hnew ho) r' old' hold')
    · exact hlast.trans hlast'.symm
  · have hb : (claimsOf locals i = some (key, .created) ∧ (i = t → ∀ snap hash, o ≠ .newRecord snap hash)) ∨
        v.store.executions.get? key = none := by
      by_cases hit : i = t
      · subst hit
        rw [update_self] at hi
        rcases created_before hm hi with hold | ⟨snap, hcreated, rfl⟩
        · exact .inl ⟨hold.1, fun _ => hold.2⟩
        · exact .inr (rowOf_none.mp (heffect.created hown.sound hcreated).absent)
      · rw [update_of_ne hit] at hi
        exact .inl ⟨hi, fun he => absurd he hit⟩
    rcases heffect.record_before hr with ⟨old, hold, hk, _⟩ | ⟨snap, hash, ho, _, rfl⟩
    · rw [hk]
      rcases hb with ⟨hc, _⟩ | hnone
      · exact h.unmade i key hc r old hold
      rintro rfl
      have hrow := (hrecord.named r old hold).2
      rw [hnone] at hrow
      cases hrow
    · rintro rfl
      rcases hb with ⟨hc, hne⟩ | hnone
      · have hit : i = t := hown.distinct i t _ _ _ hc (hnew ho)
        exact hne hit snap hash ho
      have hrow := (hown.claimed t _ _ (hnew ho)).1
      rw [show v.store.executions.get? (rowKey snap) = none from hnone] at hrow
      cases hrow

theorem loadAll_nodup {st : ExecutionStore J} (hc : Coherent st) {snaps : List ExecutionSnapshot}
    (h : st.loadAll = .ok snaps) : (snaps.map rowKey).Nodup := by
  unfold ExecutionStore.loadAll at h
  dsimp only at h
  split at h
  · cases h
  rename_i loaded hl
  cases h
  have hperm := List.perm_insertionSort (fun a b : RowKey × ExecutionRow J =>
    a.1.1.value < b.1.1.value ∨ a.1.1.value = b.1.1.value ∧ a.1.2 ≤ b.1.2) st.executions.rows
  obtain ⟨live, hf, hd, hown⟩ := decode_rows fun p hp => by
    obtain ⟨snap, he, hk, _⟩ := hc p.1 p.2 (Table.mem_rows.mp (hperm.mem_iff.mp hp))
    exact ⟨snap, he, hk⟩
  rw [hd, Option.some.injEq] at hl
  have hkeys : snaps.map rowKey = live.map Prod.fst := by
    rw [← hl, List.map_map]
    exact List.map_congr_left fun p hp => (hown p hp).1
  rw [hkeys, hf]
  exact (hperm.map Prod.fst).nodup_iff.mpr st.executions.nodup

theorem Distinct.idle {v : View J} (hkeys : (v.records.map RecordView.key).Nodup) :
    Distinct (claimsOf fun _ => idle) v := by
  refine ⟨fun r r' rec rec' hr hr' hk => ?_, fun t key ht => (nomatch ht)⟩
  have hmap : ∀ {i : Nat} {rec : RecordView}, v.records[i]? = some rec →
      (v.records.map RecordView.key)[i]? = some rec.key := by
    intro i rec hi
    rw [List.getElem?_map, hi]
    rfl
  exact List.getElem?_inj (List.getElem?_eq_some_iff.mp (hmap hr)).1 hkeys |>.mp (by rw [hmap hr, hmap hr', hk])

theorem Distinct.mono {claims claims' : TaskId → Option (RowKey × Claim)} {v v' : View J} (h : Distinct claims v)
    (hc : ∀ t key, claims' t = some (key, .created) → claims t = some (key, .created))
    (hrs : ∀ (r : RecordId) (rec : RecordView), v'.records[r]? = some rec →
      ∃ old : RecordView, v.records[r]? = some old ∧ rec.key = old.key) : Distinct claims' v' := by
  refine ⟨fun r r' rec rec' hr hr' hkey => ?_, fun t key ht r rec hr => ?_⟩
  · obtain ⟨old, hold, hk⟩ := hrs r rec hr
    obtain ⟨old', hold', hk'⟩ := hrs r' rec' hr'
    exact h.keyed r r' old old' hold hold' (hk.symm.trans (hkey.trans hk'))
  · obtain ⟨old, hold, hk⟩ := hrs r rec hr
    exact hk ▸ h.unmade t key (hc t key ht) r old hold

theorem View.key_of_release {v : View J} (r : RecordId) (rec : RecordView)
    (h : (v.release t).records[r]? = some rec) : ∃ old : RecordView, v.records[r]? = some old ∧ rec.key = old.key := by
  obtain ⟨old, hold, rfl⟩ := record_of_release h
  exact ⟨old, hold, rfl⟩

theorem distinct_inductive (Rule : Node J → Action → Prop) :
    admissionDiscipline.Inductive Rule Founded fun locals v => Distinct (claimsOf locals) v where
  performs _ _ _ _ _ heffect hm _ hn _ hfounded h := h.performs heffect hm hn hfounded.1.1 hfounded.1.2
  releases _ _ h := h.mono (fun _ _ => id) key_of_release
  arrives origin _ _ hn _ h := (claimsOf_birth hn origin).symm ▸ h
  drops {s t task locals} _ _ _ _ _ _ h := by
    refine h.mono (fun i key hi => ?_) key_of_release
    by_cases hit : i = t
    · subst hit
      rw [claimsOf, update_self] at hi
      cases hi
    · rwa [claimsOf, update_of_ne hit] at hi
  jobs {s i fails o now call locals} _ _ _ _ h := by cases fails <;> exact ⟨h.keyed, h.unmade⟩
  crashes _ _ := .idle List.nodup_nil
  recovers now _ _ _ _ h := ⟨h.keyed, h.unmade⟩
  starts {locals v interrupted snapshots} now _ hidle hstop _ hload hfounded _ := by
    have hs := (View.Extends.transact v (.recover now)).sound hfounded.1.1.sound
    rw [funext hidle]
    refine .idle ?_
    rw [records_started hstop, List.map_map]
    exact loadAll_nodup hs.reachable.coherent hload

/-! ### A terminal snapshot attests an ended row -/

/-- A record whose snapshot is terminal, or is about to be written so, has an ended row. -/
structure Attested (locals : TaskId → Local) (v : View J) : Prop where
  written : ∀ (r : RecordId) (record : RecordView), v.records[r]? = some record →
    isTerminal record.snapshot.state = true → v.Ended record.key
  proposed : ∀ t r snapshot event, (locals t).publishing = .wrote r snapshot event →
    isTerminal snapshot.state = true → v.Ended (rowKey snapshot)

section Attested
variable {locals : TaskId → Local} {v v' : View J}

theorem Attested.performs {o : Op} {answer : o.Answer} (heffect : Effect t origin v o answer v')
    (hm : (locals t).advance o answer = some g) (hinit : o.initial = true) (hn : locals n = Local.idle)
    (hfounded : Founded locals v) (h : Attested locals v) :
    Attested (update (admissionDiscipline.births locals n o) t g) v' := by
  have hs := hfounded.1.1.sound
  refine ⟨fun r rec' hr hterm => ?_, fun i r snap ev hi hterm => ?_⟩
  · rcases heffect.record_before hr with ⟨rec, hrecord, hk, _, hsnap | rfl⟩ | ⟨snap, hash, rfl, _, rfl⟩
    · rw [hk]
      exact (h.written r rec hrecord (hsnap ▸ hterm)).performs heffect hs
    · -- what is written was committed
      obtain ⟨ev, hw, _⟩ := advance_writeSnapshot hm
      obtain ⟨old, hold, ho⟩ := hfounded.1.2.proposed t r rec'.snapshot (by rw [hw]; rfl)
      rw [hrecord, Option.some.injEq] at hold
      rw [hk, hold, ho]
      exact (h.proposed t r _ ev hw hterm).performs heffect hs
    · rw [show isTerminal (View.recordOf snap hash false).snapshot.state = false from isInitial_state hinit] at hterm
      cases hterm
  · by_cases hit : i = t
    · subst hit
      rw [update_self] at hi
      have hp := advance_publishing hm
      generalize g.publishing = p at hp hi
      cases hp with
      | commits =>
        cases hi
        exact ended_of_rowOf (heffect.committed hs rfl).row ((isTerminalName_stateName _).trans hterm)
      | other => exact (h.proposed i r snap ev hi hterm).performs heffect hs
      | _ => cases hi
    · rw [update_of_ne hit, (births_unlocked hn o i).2] at hi
      exact (h.proposed i r snap ev hi hterm).performs heffect hs

/-- Nothing is written, and no task has more on its way. -/
theorem Attested.mono (h : Attested locals v) (hend : ∀ key, v.Ended key → v'.Ended key)
    (hrs : ∀ (r : RecordId) (rec : RecordView), v'.records[r]? = some rec →
      ∃ old : RecordView, v.records[r]? = some old ∧ rec.key = old.key ∧ rec.snapshot = old.snapshot)
    (hl : ∀ t, (locals' t).publishing = (locals t).publishing ∨ (locals' t).publishing = .idle) :
    Attested locals' v' := by
  refine ⟨fun r rec hr hterm => ?_, fun t r snap ev ht hterm => ?_⟩
  · obtain ⟨old, hold, hk, hsnap⟩ := hrs r rec hr
    exact hk ▸ hend _ (h.written r old hold (hsnap ▸ hterm))
  rcases hl t with he | he
  · exact hend _ (h.proposed t r snap ev (he ▸ ht) hterm)
  · rw [he] at ht
    cases ht

theorem Attested.release (h : Attested locals v) (t : TaskId) : Attested locals (v.release t) := by
  refine h.mono (fun _ => id) (fun r rec hr => ?_) fun _ => .inl rfl
  obtain ⟨old, hold, rfl⟩ := record_of_release hr
  exact ⟨old, hold, rfl, rfl⟩

end Attested

theorem attested_inductive (Rule : Node J → Action → Prop) :
    runDiscipline.Inductive Rule (fun locals => Founded fun t => (locals t).1) fun locals =>
      Attested fun t => (locals t).1 where
  performs _ _ _ _ _ heffect hm _ hn _ hfounded h := by
    obtain ⟨hl, hstage⟩ := Protocol.prod_advance.mp hm
    rw [fst_update, fst_births]
    exact h.performs heffect hl (RunStage.advance_initial hstage) (congrArg fst hn) hfounded
  releases _ _ h := h.release _
  arrives {locals v n} origin _ _ _ _ h := by
    rw [fst_update]
    refine h.mono (fun _ => id) (fun r rec hr => ⟨rec, hr, rfl, rfl⟩) fun t => ?_
    by_cases ht : t = n
    · subst ht
      exact .inr (by rw [update_self]; exact birth_publishing origin)
    · exact .inl (by rw [update_of_ne ht])
  drops {s t task locals} _ _ _ _ _ _ h := by
    rw [fst_update]
    have hjobs : Attested (fun t => (locals t).1) {s.view with jobs := s.view.jobs ++ detached task.program} :=
      h.mono (fun _ => id) (fun r rec hr => ⟨rec, hr, rfl, rfl⟩) fun _ => .inl rfl
    refine (hjobs.release t).mono (fun _ => id) (fun r rec hr => ⟨rec, hr, rfl, rfl⟩) fun i => ?_
    by_cases hi : i = t
    · subst hi
      exact .inr (by rw [update_self]; rfl)
    · exact .inl (by rw [update_of_ne hi])
  jobs {s i fails o now call locals} _ _ _ hfounded h := by
    refine h.mono (fun key hk => ?_) (fun r rec hr => ⟨rec, ?_, rfl, rfl⟩) fun _ => .inl rfl
    · cases fails
      · exact hk.exec hfounded.1.1.sound (.inr ⟨call, rfl⟩)
      · exact hk
    · cases fails <;> exact hr
  crashes _ _ := ⟨fun _ _ hr => (nomatch hr), fun _ _ _ _ ht => (nomatch ht)⟩
  recovers now _ _ _ hfounded h :=
    h.mono (fun _ hk => hk.exec hfounded.1.1.sound (.inr ⟨.recover now, rfl⟩)) (fun r rec hr => ⟨rec, hr, rfl, rfl⟩)
      fun _ => .inl rfl
  starts {locals v interrupted snapshots} now _ hidle hstop _ hload hfounded _ := by
    refine ⟨fun r rec hr hterm => ?_, fun t r snap ev ht => ?_⟩
    · obtain ⟨snap, row, rfl, hrow, _, hst⟩ := record_of_started hfounded.1.1.sound hstop hload hr
      refine ⟨row, ?_, by rw [hst, isTerminalName_stateName]; exact hterm⟩
      rw [foldl_load_store]
      exact hrow
    · rw [hidle] at ht
      cases ht

/-! ### The walk of the map -/

/-- The operations that change the map. -/
def Op.remaps : Op → Bool
  | .executionsRemove _ | .executionsInsert .. => true
  | _ => false

/-- The entries a walk has shown. -/
def Op.lists : (o : Op) → o.Answer → List (ExecutionId × RecordId)
  | .executionsIter, entries => entries
  | _, _ => []

/-- The record an operation has shown to be terminal. -/
def Op.sees : (o : Op) → o.Answer → Option RecordId
  | .readSnapshot r, snapshot => if isTerminal snapshot.state then some r else none
  | _, _ => none

theorem Effect.executions_same {v v' : View J} {o : Op} {answer : o.Answer} (h : Effect t origin v o answer v')
    (ho : o.remaps = false) : v'.executions = v.executions := by
  cases h <;> first
    | rfl
    | cases ho

theorem Local.holds_of_remaps {o : Op} {answer : o.Answer} (h : g.advance o answer = some g') (ho : o.remaps = true) :
    g.holds = true := by
  cases advance_moves h with
  | removes hh | inserts hh => exact hh
  | keeps hu =>
    cases o <;> first
      | (cases ho; done)
      | cases hu
  | publishes hp =>
    cases o <;> first
      | (cases ho; done)
      | cases hp
  | _ => cases ho

/-- What a task knows of the map was known before, or has just been listed; it is
forgotten with the lock and with an insertion. -/
theorem Local.advance_entries {o : Op} {answer : o.Answer} (h : g.advance o answer = some g')
    {e : ExecutionId × RecordId} (he : e ∈ g'.entries) :
    (e ∈ g.entries ∧ (g.holds = true → g'.holds = true)) ∨ (e ∈ o.lists answer ∧ g'.holds = true) := by
  cases advance_moves h with
  | locksMap => exact .inl ⟨he, fun _ => rfl⟩
  | walks hh => exact .inr ⟨he, hh⟩
  | unlocksMap | responds | inserts => cases he
  | reads =>
    have hentry : ∀ r snap, (g.read r snap).entries = g.entries := by
      intro r snap
      unfold read
      split <;> dsimp only <;> split <;> rfl
    exact .inl ⟨hentry _ _ ▸ he, fun hh => (read_holds g _ _).trans hh⟩
  | _ => exact .inl ⟨he, id⟩

/-- A record is remembered as terminal when its snapshot was read so. -/
theorem Local.advance_terminal {o : Op} {answer : o.Answer} (h : g.advance o answer = some g') (hr : r ∈ g'.terminal) :
    r ∈ g.terminal ∨ o.sees answer = some r := by
  cases advance_moves h with
  | unlocksMap | responds => cases hr
  | @reads i snapshot =>
    have hterm : (g.read i snapshot).terminal =
        if g.holds && isTerminal snapshot.state then i :: g.terminal else g.terminal := by
      unfold read
      split <;> dsimp only <;> split <;> rfl
    rw [hterm] at hr
    split at hr
    · rename_i hseen
      rcases mem_cons.mp hr with rfl | hr
      · exact .inr (if_pos (and_eq_true_iff.mp hseen).2)
      · exact .inl hr
    · exact .inl hr
  | _ => exact .inl hr

/-! ### Live rows are filed -/

/-- The map leads to the record of the row. -/
def View.Files (v : View J) (key : RowKey) : Prop :=
  ∃ (r : RecordId) (record : RecordView), v.executions.get? key.1 = some r ∧ v.records[r]? = some record ∧ record.key = key

variable {v : View J}

/-- The operation would end a row. -/
def Op.ends : Op → Bool
  | .commitEvent snapshot _ => isTerminal snapshot.state
  | _ => false

variable {o : Op}

structure Filed (locals : TaskId → Local) (v : View J) : Prop where
  live : v.up = true → ∀ key, v.Live key → v.Files key ∨ ∃ t, (locals t).pending = some key
  jobs : ∀ o ∈ v.jobs, o.reserves = false ∧ o.ends = false
  pending : ∀ t key, (locals t).pending = some key → (locals t).holds = true ∧ v.Live key
  walked : ∀ t id r, (id, r) ∈ (locals t).entries →
    (locals t).holds = true ∧ ∀ r', v.executions.get? id = some r' → r' = r
  seen : ∀ t r, r ∈ (locals t).terminal → ∃ record : RecordView, v.records[r]? = some record ∧ v.Ended record.key

section Performs
variable {locals : TaskId → Local} {n t : TaskId} {o : Op} {origin : Origin} {answer : o.Answer} {v v' : View J} {g : Local}

theorem births_filing (hn : locals n = Local.idle) (o : Op) (i : TaskId) :
    (admissionDiscipline.births locals n o i).pending = (locals i).pending ∧
      (admissionDiscipline.births locals n o i).entries = (locals i).entries ∧
      (admissionDiscipline.births locals n o i).terminal = (locals i).terminal := by
  rcases births_cases hn o i with he | ⟨req, _, rfl, he⟩
  · rw [he]
    exact ⟨rfl, rfl, rfl⟩
  · rw [he, hn]
    exact ⟨rfl, rfl, rfl⟩

theorem View.Files.put {key : RowKey} (hrole : (locals t).role = .admitting key (.recorded r))
    (ho : Owned (claimsOf locals) v) : View.Files {v with executions := v.executions.put key.1 r} key := by
  have hc : claimsOf locals t = some (key, .recorded r) := claimed_of_role hrole Claim.noConfusion
  obtain ⟨rec, hr, hk⟩ := ho.recorded t key _ r hc rfl
  exact ⟨r, rec, (get?_put ..).trans (if_pos rfl), hr, hk⟩

/-- What is evicted was walked and seen terminal. -/
theorem ended_of_removes {id : ExecutionId} (hm : (locals t).advance (.executionsRemove id) () = some g)
    (hw : ∀ t id r, (id, r) ∈ (locals t).entries →
      (locals t).holds = true ∧ ∀ r', v.executions.get? id = some r' → r' = r)
    (hseen : ∀ t r, r ∈ (locals t).terminal → ∃ rec : RecordView, v.records[r]? = some rec ∧ v.Ended rec.key)
    {rec : RecordView} (hentry : v.executions.get? id = some r) (hrecord : v.records[r]? = some rec) :
    v.Ended rec.key := by
  obtain ⟨hg, hm⟩ := ite_none_right_eq_some.mp hm
  obtain ⟨e, he, hremoved⟩ := any_eq_true.mp hg.2
  rw [and_eq_true, beq_iff_eq, contains_iff_mem] at hremoved
  have hr := (hw t e.1 e.2 he).2 r (by rw [hremoved.1]; exact hentry)
  obtain ⟨old, hold, hend⟩ := hseen t e.2 hremoved.2
  rw [← hr, hrecord, some.injEq] at hold
  exact hold ▸ hend

variable (heffect : Effect t origin v o answer v') (hm : (locals t).advance o answer = some g)
  (hn : locals n = Local.idle) (hfounded : Founded locals v)

include heffect hm

theorem View.Live.created (hs : v.Sound) {snap : ExecutionSnapshot} (hc : o.creates answer = some snap) :
    v'.Live (rowKey snap) ∧ g.holds = true ∧ g.pending = some (rowKey snap) := by
  obtain ⟨hh, hst, rfl⟩ := advance_creates hm hc
  refine ⟨live_iff.mpr ⟨_, _, (heffect.created hs hc).row, ?_⟩, hh, rfl⟩
  rw [isTerminalName_stateName, hst]
  rfl

include hfounded

theorem View.Live.claimed {i : TaskId} {key : RowKey} {claim : Claim} (hc : claimsOf locals i = some (key, claim))
    (h : v.Live key) : v'.Live key := by
  have hs := hfounded.1.1.sound
  obtain ⟨blob, state, hr, hl⟩ := live_iff.mp h
  rcases heffect.durable hs key with hsame | ⟨snap, _, rfl, hnew⟩ | ⟨snap, ev, hjs, rfl, hcommit⟩
  · exact live_iff.mpr ⟨blob, state, hsame.row.trans hr, hl⟩
  · rw [hnew.absent] at hr
    cases hr
  refine live_iff.mpr ⟨_, _, hcommit.row, ?_⟩
  rw [isTerminalName_stateName]
  obtain ⟨kind, rfl⟩ := Op.journals_eq hjs
  rcases commit_cases hm hfounded.1.1 hfounded.1.2 with ⟨hst, _⟩ | hst | ⟨_, hspared, _⟩
  · rw [hst]
    rfl
  · rw [hst]
    rfl
  · exact absurd hspared (hfounded.1.1.claimed i _ claim hc).2

theorem View.Files.performs (h : Filed locals v) {key : RowKey} (hl : v.Live key) (hfs : v.Files key) :
    v'.Files key := by
  obtain ⟨r, rec, he, hr, rfl⟩ := hfs
  have hs := hfounded.1.1.sound
  obtain ⟨rec', hr', hk⟩ := (heffect.keeps hs).2.2 r rec hr
  by_cases hremoved : o.remaps = false
  · exact ⟨r, rec', by rw [heffect.executions_same hremoved]; exact he, hr', hk⟩
  cases heffect with
  | executionsRemove id =>
    refine ⟨r, rec', ?_, hr', hk⟩
    rw [get?_delete, if_neg, he]
    intro hid
    rw [beq_iff_eq] at hid
    exact hl.not_ended (ended_of_removes hm h.walked h.seen (hid ▸ he) hr)
  | executionsInsert id r' =>
    obtain ⟨_, key', rfl, hrole, _⟩ := advance_executionsInsert hm
    by_cases hid : key'.1 = rec.key.1
    · -- of two generations of one execution only one is live
      have hp : (locals t).pending = some key' := by simp only [pending, hrole]
      obtain rfl := (h.pending t key' hp).2.unique hs hl hid
      exact .put hrole hfounded.1.1
    · refine ⟨r, rec', ?_, hr', hk⟩
      rw [get?_put, if_neg (Ne.symm hid), he]
  | quiet hq =>
    cases o <;> first
      | exact absurd rfl hremoved
      | cases hq
  | _ => exact absurd rfl hremoved

include hn

theorem Filed.pending_performs (h : Filed locals v) (i : TaskId) (key : RowKey)
    (hi : (update (admissionDiscipline.births locals n o) t g i).pending = some key) :
    (update (admissionDiscipline.births locals n o) t g i).holds = true ∧ v'.Live key := by
  have hs := hfounded.1.1.sound
  have hkept : ∀ {i}, (locals i).pending = some key → v'.Live key := by
    intro i hp
    obtain ⟨claim, hc⟩ := claimed_of_pending hp
    exact (h.pending i key hp).2.claimed heffect hm hfounded hc
  by_cases hit : i = t
  · subst hit
    rw [update_self] at hi ⊢
    rcases pending_before hm hi with hp | ⟨snap, hcreated, rfl⟩
    · exact ⟨holds_of_pending hm hp (h.pending i key hp).1, hkept hp⟩
    · obtain ⟨hl, hh, _⟩ := View.Live.created heffect hm hs hcreated
      exact ⟨hh, hl⟩
  · rw [update_of_ne hit] at hi ⊢
    rw [(births_filing hn o i).1] at hi
    rw [(births_unlocked hn o i).1]
    exact ⟨(h.pending i key hi).1, hkept hi⟩

/-- What a task has walked of the map stays as it was shown, but for what the task itself removes. -/
theorem walked_performs (h : ∀ t id r, (id, r) ∈ (locals t).entries →
      (locals t).holds = true ∧ ∀ r', v.executions.get? id = some r' → r' = r) (i : TaskId) (id : ExecutionId)
    (r : RecordId) (hi : (id, r) ∈ (update (admissionDiscipline.births locals n o) t g i).entries) :
    (update (admissionDiscipline.births locals n o) t g i).holds = true ∧
      ∀ r', v'.executions.get? id = some r' → r' = r := by
  by_cases hit : i = t
  · subst hit
    rw [update_self] at hi ⊢
    rcases advance_entries hm hi with ⟨hold, hh⟩ | ⟨hl, hh⟩
    · obtain ⟨hheld, he⟩ := h i id r hold
      refine ⟨hh hheld, fun r' hr' => ?_⟩
      rcases heffect.entry_before hr' with hb | rfl
      · exact he r' hb
      -- an insertion forgets the walk
      obtain ⟨_, _, _, _, rfl⟩ := advance_executionsInsert hm
      cases hi
    · refine ⟨hh, fun r' hr' => ?_⟩
      cases heffect with
      | executionsIter ho =>
        have hr := mem_rows.mp (ho.mem_iff.mp hl)
        rw [hr', some.injEq] at hr
        exact hr
      | quiet hq =>
        cases o <;> first
          | (cases hl; done)
          | cases hq
      | _ => cases hl
  · rw [update_of_ne hit] at hi ⊢
    rw [(births_filing hn o i).2.1] at hi
    rw [(births_unlocked hn o i).1]
    obtain ⟨hheld, he⟩ := h i id r hi
    refine ⟨hheld, ?_⟩
    by_cases hremoved : o.remaps = true
    · exact absurd (unique_holder hfounded hheld (holds_of_remaps hm hremoved)) hit
    · rw [heffect.executions_same (not_eq_true _ ▸ hremoved)]
      exact he

theorem seen_performs (ha : Attested locals v)
    (h : ∀ t r, r ∈ (locals t).terminal → ∃ rec : RecordView, v.records[r]? = some rec ∧ v.Ended rec.key)
    (i : TaskId) (r : RecordId) (hi : r ∈ (update (admissionDiscipline.births locals n o) t g i).terminal) :
    ∃ rec : RecordView, v'.records[r]? = some rec ∧ v'.Ended rec.key := by
  have hs := hfounded.1.1.sound
  have hkept : ∀ {rec : RecordView}, v.records[r]? = some rec → v.Ended rec.key →
      ∃ rec : RecordView, v'.records[r]? = some rec ∧ v'.Ended rec.key := by
    intro rec hr he
    obtain ⟨rec', hr', hk⟩ := (heffect.keeps hs).2.2 r rec hr
    exact ⟨rec', hr', hk ▸ he.performs heffect hs⟩
  have hb : ∀ {i}, r ∈ (locals i).terminal → ∃ rec : RecordView, v'.records[r]? = some rec ∧
      v'.Ended rec.key := by
    intro i hi
    obtain ⟨rec, hr, he⟩ := h i r hi
    exact hkept hr he
  by_cases hit : i = t
  · subst hit
    rw [update_self] at hi
    rcases advance_terminal hm hi with hold | hsees
    · exact hb hold
    cases heffect with
    | readSnapshot hr =>
      obtain ⟨hterm, ⟨⟩⟩ := ite_none_right_eq_some.mp hsees
      exact hkept hr (ha.written r _ hr hterm)
    | quiet hq =>
      cases o <;> first
        | cases hsees
        | cases hq
    | _ => cases hsees
  · rw [update_of_ne hit, (births_filing hn o i).2.2] at hi
    exact hb hi

theorem Filed.live_performs (h : Filed locals v) (hup : v'.up = true) (key : RowKey) (hl : v'.Live key) :
    v'.Files key ∨ ∃ i, (update (admissionDiscipline.births locals n o) t g i).pending = some key := by
  have hs := hfounded.1.1.sound
  rcases heffect.live_before hs hl with hold | ⟨snap, hc, rfl⟩
  · rcases h.live (heffect.up ▸ hup) key hold with hfs | ⟨i, hi⟩
    · exact .inl (hfs.performs heffect hm hfounded h hold)
    by_cases hit : i = t
    · subst hit
      rcases pending_advance hm hi with hp | ⟨r, rfl, hrole⟩
      · exact .inr ⟨i, by rw [update_self]; exact hp⟩
      cases heffect with
      | quiet hq => cases hq
      | executionsInsert => exact .inl (.put hrole hfounded.1.1)
    · exact .inr ⟨i, by rw [update_of_ne hit, (births_filing hn o i).1]; exact hi⟩
  · exact .inr ⟨t, by rw [update_self]; exact (View.Live.created heffect hm hs hc).2.2⟩

theorem Filed.performs (ha : Attested locals v) (h : Filed locals v) :
    Filed (update (admissionDiscipline.births locals n o) t g) v' where
  live := h.live_performs heffect hm hn hfounded
  jobs o ho := h.jobs o (heffect.jobs ▸ ho)
  pending := h.pending_performs heffect hm hn hfounded
  walked := walked_performs heffect hm hn hfounded h.walked
  seen := seen_performs heffect hm hn hfounded ha h.seen

end Performs

/-- Tasks have only given up what they had, and the store has moved on without a reservation. -/
theorem Filed.mono {v' : View J} (h : Filed locals v) (hup : v'.up = v.up) (hexecutions : v'.executions = v.executions)
    (hjobs : ∀ o ∈ v'.jobs, o.reserves = false ∧ o.ends = false) (hl : ∀ key, v'.Live key → v.Live key)
    (hkept : ∀ t key, (locals t).pending = some key → v'.Live key) (hended : ∀ key, v.Ended key → v'.Ended key)
    (hrs : ∀ (r : RecordId) (rec : RecordView), v.records[r]? = some rec →
      ∃ rec' : RecordView, v'.records[r]? = some rec' ∧ rec'.key = rec.key) (hlocal : ∀ t, locals' t = locals t ∨
      ((locals t).pending = none ∧ (locals' t).pending = none ∧ (locals' t).entries = [] ∧ (locals' t).terminal = [])) :
    Filed locals' v' := by
  refine ⟨fun hup' key hk => ?_, hjobs, fun t key ht => ?_, fun t id r ht => ?_, fun t r ht => ?_⟩
  · rcases h.live (hup ▸ hup') key (hl key hk) with ⟨r, rec, hentry, hr, he⟩ | ⟨t, ht⟩
    · obtain ⟨rec', hrecord', hkey'⟩ := hrs r rec hr
      exact .inl ⟨r, rec', hexecutions ▸ hentry, hrecord', hkey'.trans he⟩
    rcases hlocal t with he | ⟨hn, _⟩
    · exact .inr ⟨t, he ▸ ht⟩
    · rw [hn] at ht
      cases ht
  · rcases hlocal t with he | ⟨_, hn, _⟩
    · rw [he] at ht ⊢
      exact ⟨(h.pending t key ht).1, hkept t key ht⟩
    · rw [hn] at ht
      cases ht
  · rcases hlocal t with he | ⟨_, _, hn, _⟩
    · rw [he] at ht ⊢
      obtain ⟨hh, hentry⟩ := h.walked t id r ht
      exact ⟨hh, fun r' hr' => hentry r' (hexecutions ▸ hr')⟩
    · rw [hn] at ht
      cases ht
  · rcases hlocal t with he | ⟨_, _, _, hn⟩
    · rw [he] at ht
      obtain ⟨rec, hr, hend⟩ := h.seen t r ht
      obtain ⟨rec', hrecord', hk⟩ := hrs r rec hr
      exact ⟨rec', hrecord', hk ▸ hended _ hend⟩
    · rw [hn] at ht
      cases ht

theorem Filed.idle (hl : v.up = true → ∀ key, ¬ v.Live key)
    (hjobs : ∀ o ∈ v.jobs, o.reserves = false ∧ o.ends = false) : Filed (fun _ => idle) v :=
  ⟨fun hup key hk => absurd hk (hl hup key), hjobs, fun _ _ ht => (nomatch ht), fun _ _ _ ht => (nomatch ht),
    fun _ _ ht => (nomatch ht)⟩

/-- What a request that is spared leaves in flight neither creates nor ends a row. -/
theorem detached_spared {task : Task} (hfounded : Founded locals v) (hs : ¬ Filing task.program)
    (hr : task.origin.isRequest = true) (hfits : admissionDiscipline.fits task.face (locals t))
    (hall : admissionDiscipline.Allows (locals t) task.program) (ho : o ∈ detached task.program) :
    o.reserves = false ∧ o.ends = false := by
  refine ⟨?_, ?_⟩
  · unfold detached at ho
    split at ho
    · rename_i o' next hp
      split at ho
      · rw [mem_singleton.mp ho]
        by_contra hresult
        exact hs (.inl ⟨o', next, hp, by simpa using hresult⟩)
      · cases ho
    · cases ho
  · have hleft := leftover_of_drop hr hfits hall hfounded.1.1 hfounded.1.2 ho
    cases o <;> first
      | rfl
      | skip
    case commitEvent snapshot kind =>
      rcases hleft with hst | ⟨hst, _⟩ <;> simp only [Op.ends, hst] <;> rfl

theorem View.transact_cases (hs : v.Sound) (hcall : o.call now = some call) (ho : o.reserves = false) (key : RowKey) :
    v.Same (v.transact call) key ∨ ∃ snap kind event, o = .commitEvent snap kind ∧ rowKey snap = key ∧
        v.Committed (v.transact call) snap event := by
  unfold Op.call at hcall
  split at hcall
  · cases ho
  · rename_i snap kind
    cases hcall
    have hw := writes_commitEvent hs snap kind now
    generalize hjs : Op.journals (.commitEvent snap kind) _ = journaled at hw
    cases hw with
    | nothing hsame => exact .inl (hsame key)
    | commits hc hsame =>
      obtain ⟨_, he⟩ := Op.journals_eq hjs
      cases he
      by_cases hk : key = rowKey snap
      · exact .inr ⟨_, _, _, rfl, hk.symm, hc⟩
      · exact .inl (hsame key hk)
  · cases hcall
    exact .inl (transact_updateLease hs _ _ _ _ _ now key)
  · cases hcall

theorem View.live_of_transact (hs : v.Sound) (hcall : o.call now = some call) (ho : o.reserves = false) {key : RowKey}
    (h : (v.transact call).Live key) : v.Live key := by
  rcases transact_cases hs hcall ho key with hsame | ⟨_, _, _, _, rfl, hc⟩
  · rwa [live_iff, hsame.row, ← live_iff] at h
  · exact live_iff.mpr hc.live

theorem View.live_transact (hs : v.Sound) (hcall : o.call now = some call) (ho : o.reserves = false ∧ o.ends = false)
    (key : RowKey) : (v.transact call).Live key ↔ v.Live key := by
  refine ⟨live_of_transact hs hcall ho.1, fun h => ?_⟩
  rcases transact_cases hs hcall ho.1 key with hsame | ⟨snap, _, _, rfl, rfl, hc⟩
  · rwa [live_iff, hsame.row, ← live_iff]
  refine live_iff.mpr ⟨_, _, hc.row, ?_⟩
  rw [isTerminalName_stateName]
  exact ho.2

theorem not_live_of_starts (hs : v.Sound) {cut : List ExecutionSnapshot × ExecutionStore J}
    (hrecord : v.store.recover now = .ok cut) (snaps : List ExecutionSnapshot) (key : RowKey) :
    ¬ (snaps.foldl load {v.transact (.recover now) with up := true}).Live key := by
  rintro ⟨row, hr, hopen⟩
  rw [foldl_load_store] at hr
  rw [show store {v.transact (.recover now) with up := true} = _ from store_recover hrecord] at hr
  rw [recover_terminal hs.reachable.coherent hrecord hr] at hopen
  cases hopen

theorem filed_inductive : runDiscipline.Inductive (J := J) SparesFilings
    (fun locals v => Founded (fun t => (locals t).1) v ∧ Attested (fun t => (locals t).1) v)
    fun locals => Filed fun t => (locals t).1 where
  performs _ _ _ _ _ heffect hm _ hn _ hg h := by
    rw [fst_update, fst_births]
    exact h.performs heffect (Protocol.prod_advance.mp hm).1 (congrArg fst hn) hg.1 hg.2
  releases {locals v t} _ _ h := h.mono rfl rfl h.jobs (fun _ => id) (fun t key ht => (h.pending t key ht).2) (fun _ => id)
    (View.Extends.release v t).records fun _ => .inl rfl
  arrives {locals v n} origin _ _ hn _ h := by
    rw [fst_update]
    refine h.mono rfl rfl h.jobs (fun _ => id) (fun t key ht => (h.pending t key ht).2) (fun _ => id)
      (fun r rec hr => ⟨rec, hr, rfl⟩) fun t => ?_
    by_cases ht : t = n
    · subst ht
      rw [update_self]
      refine .inr ⟨by rw [hn]; rfl, ?_⟩
      cases origin <;> exact ⟨rfl, rfl, rfl⟩
    · exact .inl (update_of_ne ht _ _)
  drops {s t task locals} hrule htask hrequest hfits hall hg h := by
    have hspared := hrule task htask
    have hp : (locals t).1.pending = none := by
      by_contra hp
      exact hspared (.inr (leads_of_pending hall.fst hp))
    rw [fst_update]
    refine h.mono rfl rfl (fun o ho => ?_) (fun _ => id) (fun t key ht => (h.pending t key ht).2) (fun _ => id)
      (View.Extends.release _ t).records fun i => ?_
    · rcases mem_append.mp ho with ho | ho
      · exact h.jobs o ho
      · exact detached_spared hg.1 hspared hrequest hfits.1 hall.fst ho
    by_cases hi : i = t
    · subst hi
      rw [update_self]
      exact .inr ⟨hp, rfl, rfl, rfl⟩
    · exact .inl (update_of_ne hi _ _)
  jobs {s i fails o now call locals} _ hjob hcall hg h := by
    have hjobs : ∀ o ∈ s.view.jobs.eraseIdx i, o.reserves = false ∧ o.ends = false :=
      fun o ho => h.jobs o (mem_of_mem_eraseIdx ho)
    have hs := hg.1.1.1.sound
    cases fails
    · have hl := live_transact hs hcall (h.jobs o (mem_of_getElem? hjob))
      refine h.mono rfl rfl hjobs (fun key => (hl key).mp) (fun t key ht => (hl key).mpr (h.pending t key ht).2)
        (fun _ hend => hend.exec hs (.inr ⟨call, rfl⟩)) (fun r rec hr => ⟨rec, hr, rfl⟩) fun _ => .inl rfl
    · exact h.mono rfl rfl hjobs (fun _ => id) (fun t key ht => (h.pending t key ht).2) (fun _ => id)
        (fun r rec hr => ⟨rec, hr, rfl⟩) fun _ => .inl rfl
  crashes _ _ := .idle (fun hup => (nomatch hup)) fun _ ho => (nomatch ho)
  recovers now hdown hidle _ _ h := by
    rw [funext hidle]
    exact .idle (fun hup => absurd (hdown.symm.trans hup) false_ne_true) h.jobs
  starts {locals v interrupted snapshots} now _ hidle _ hrecord _ hg h := by
    rw [funext hidle]
    refine .idle (fun _ => not_live_of_starts hg.1.1.1.sound hrecord snapshots) fun o ho => ?_
    rw [(foldl_load_up snapshots _).2] at ho
    exact h.jobs o ho

/-! ### Every run -/

/-- What is filed, and what that rests on. -/
abbrev WellFiled (locals : TaskId → Local × RunStage) (v : View J) : Prop :=
  ((Founded (fun t => (locals t).1) v ∧ Distinct (claimsOf fun t => (locals t).1) v) ∧
    Attested (fun t => (locals t).1) v) ∧ Filed (fun t => (locals t).1) v

theorem wellFiled_inductive : runDiscipline.Inductive (J := J) SparesFilings Nothing WellFiled :=
  (((founded_inductive SparesFilings).and (distinct_inductive SparesFilings)).left.and
    ((attested_inductive SparesFilings).given fun h => h.1)).and (filed_inductive.given fun h => ⟨h.1.1, h.2⟩)

theorem wellFiled_fresh : WellFiled (fun _ => (idle, RunStage.other)) (fresh J).view :=
  ⟨⟨⟨founded_fresh, .idle nodup_nil⟩, fun _ _ hr => (nomatch hr), fun _ _ _ _ ht => (nomatch ht)⟩,
    .idle (fun hup => (nomatch hup)) fun _ ho => (nomatch ho)⟩

/-- **A live execution stays reachable.** In every run in which no request is
dropped from the moment its reservation is in flight until its record is in the
map: whenever the map is unlocked, it holds for every live row, under the id of
the execution, the record made for that generation, the only one ever made for it. -/
theorem live_row_filed {config : NodeConfig} {s : Node J}
    (hrun : Steps (step config) SparesFilings (fresh J) s) (hup : s.up = true) (hfree : s.executionsLock = none)
    {key : RowKey} {row : ExecutionRow J} (hrow : s.store.executions.get? key = some row)
    (hlive : isTerminalName row.state = false) :
    ∃ (r : RecordId) (record : ExecutionRecord), s.executions.get? key.1 = some r ∧ s.records[r]? = some record ∧
      (record.key = key ∧ rowKey record.snapshot = key) ∧
      ∀ (r' : RecordId) (record' : ExecutionRecord), s.records[r']? = some record' → record'.key = key → r' = r := by
  obtain ⟨locals, _, ⟨⟨hfounded, hdistinct⟩, _⟩, hfiled⟩ :=
    wellFiled_inductive.holds hrun ⟨_, Discipline.keeps_fresh, wellFiled_fresh⟩
  rcases hfiled.live hup key ⟨row, hrow, hlive⟩ with ⟨r, view, hentry, hview, hkey⟩ | ⟨t, hpending⟩
  · have hname := (hfounded.1.2.named r view hview).1
    have hget := view_getElem? s r
    rw [hview] at hget
    obtain ⟨record, hrecord, he⟩ := map_eq_some_iff.mp hget.symm
    rw [← he] at hkey hname
    refine ⟨r, record, hentry, hrecord, ⟨hkey, hname.trans hkey⟩, fun r' record' hrecord' hkey' => ?_⟩
    exact hdistinct.keyed r' r _ _ (view_record hrecord') (view_record hrecord) (hkey'.trans hkey.symm)
  · -- who has a row pending holds the map
    have hlock := (hfounded.2.map t).mp (hfiled.pending t key hpending).1
    rw [show s.view.executionsLock = none from hfree] at hlock
    cases hlock

namespace Example

/-- The map is unlocked, and does not know the execution. -/
def unfiled (s : Node Serde.json) : Bool := s.executionsLock.isNone && (s.executions.get? (key 1).1).isNone

end Example

open Example

theorem live_row_filed_admitted :
    ∃ s : Node Serde.json, Steps (step config) SparesFilings (fresh Serde.json) s ∧ live s = true ∧
      ∃ (r : RecordId) (record : ExecutionRecord), s.executions.get? (key 1).1 = some r ∧
        s.records[r]? = some record ∧ (record.key = key 1 ∧ rowKey record.snapshot = key 1) ∧
        ∀ (r' : RecordId) (record' : ExecutionRecord), s.records[r']? = some record' →
          record'.key = key 1 → r' = r := by
  have hfollow : (follow (step config) AtRest (fresh Serde.json) abandoned).any
      (fun s => live s && s.executionsLock.isNone) = true := by
    decide
  obtain ⟨s, hrun, hstate⟩ := follow_reaches hfollow
  obtain ⟨hlive, hfree⟩ := Bool.and_eq_true_iff.mp hstate
  have hspared : Steps (step config) SparesFilings (fresh Serde.json) s := hrun.weaken fun {s a} ha => by
    cases a with
    | drop t => exact fun task ht => rests_spared ha ht
    | _ => trivial
  obtain ⟨hup, row, hrow, hopen⟩ := live_row hlive
  exact ⟨s, hspared, hlive, live_row_filed hspared hup (isNone_iff_eq_none.mp hfree) hrow hopen⟩

/-- A request dropped while its reservation is in flight: the row is created after
all, and the map, unlocked, knows nothing of the execution. -/
theorem dropped_unfiled : ∃ s : Node Serde.json, Steps (step config) Free (fresh Serde.json) s ∧ live s = true ∧
      s.executionsLock = none ∧ s.executions.get? (key 1).1 = none := by
  have hrun : (follow (step config) Free (fresh Serde.json) dropped).any
      (fun s => live s && unfiled s) = true := by
    decide
  obtain ⟨s, hsteps, hstate⟩ := follow_reaches hrun
  simp only [unfiled, Bool.and_eq_true, isNone_iff_eq_none] at hstate
  exact ⟨s, hsteps, hstate.1, hstate.2.1, hstate.2.2⟩

end Eggwork.Server
