import Eggwork.Server.Records

/-! Who holds the locks.

The map of recent executions and the commit lock of each record are held by the
task whose local state says so, and by no other (`Locked`): a lock is taken free,
is given up by its holder, and is never left behind by a task that ends, answers
or is dropped. -/
namespace Eggwork.Server
open Lib Store Runner Function View List Option Bool Local

variable {J : Serde}
variable {ls : TaskId → Local} {t n : TaskId} {g : Local} {origin : Origin}
variable {r : RecordId} {i : TaskId}

/-- The operations that take or give up a lock. -/
def Op.guards : Op → Bool
  | .lockExecutions | .unlockExecutions | .lockCommit _ | .unlockCommit _ | .respond _ => true
  | _ => false

variable {o : Op} {a : o.Answer}

def View.Holder (v : View J) (r : RecordId) (t : TaskId) : Prop :=
  ∃ record : RecordView, v.records[r]? = some record ∧ record.commitLock = some t

variable {v v' : View J}

structure Locked (locals : TaskId → Local) (v : View J) : Prop where
  map : ∀ t, (locals t).holds = true ↔ v.executionsLock = some t
  commit : ∀ t r, (locals t).publishing.record? = some r ↔ v.Holder r t

/-! ### Local states -/

theorem Local.read_holds (g : Local) (r : RecordId) (snap : ExecutionSnapshot) : (g.read r snap).holds = g.holds := by
  unfold read
  split <;> dsimp only <;> split <;> rfl

theorem Local.advance_holds {g' : Local} (ho : o.guards = false) (h : g.advance o a = some g') : g'.holds = g.holds := by
  cases advance_moves h with
  | locksMap | unlocksMap | responds => cases ho
  | reads => exact read_holds g _ _
  | _ => rfl

theorem births_unlocked (hn : ls n = idle) (o : Op) (i : TaskId) :
    (admissionDiscipline.births ls n o i).holds = (ls i).holds ∧
      (admissionDiscipline.births ls n o i).publishing = (ls i).publishing := by
  rcases births_cases hn o i with he | ⟨req, _, rfl, he⟩
  · rw [he]
    exact ⟨rfl, rfl⟩
  · rw [he, hn]
    exact ⟨rfl, rfl⟩

/-! ### The view -/

theorem Effect.executionsLock (h : Effect t origin v o a v') (ho : o.guards = false) :
    v'.executionsLock = v.executionsLock := by
  cases h <;> first
    | rfl
    | cases ho

theorem View.holder_modify {f : RecordView → RecordView} (hf : ∀ rec, (f rec).commitLock = rec.commitLock)
    (i : RecordId) (t : TaskId) : (v.modifyRecord r f).Holder i t ↔ v.Holder i t := by
  constructor
  · rintro ⟨rec', hr', hl⟩
    obtain ⟨rec, hr, ⟨_, rfl⟩ | ⟨_, rfl⟩⟩ := record_of_modify hr'
    · exact ⟨rec', hr, hl⟩
    · exact ⟨rec, hr, hf rec ▸ hl⟩
  · rintro ⟨rec, hr, hl⟩
    refine ⟨_, record_modify hr, ?_⟩
    split
    · rw [hf, hl]
    · exact hl

theorem View.holder_lock {rec : RecordView} (hr : v.records[r]? = some rec) (lock : Option TaskId) (i : RecordId)
    (t : TaskId) : (v.modifyRecord r fun rec => {rec with commitLock := lock}).Holder i t ↔
      if r = i then lock = some t else v.Holder i t := by
  constructor
  · rintro ⟨rec', hr', hl⟩
    obtain ⟨old, hold, ⟨hne, rfl⟩ | ⟨he, rfl⟩⟩ := record_of_modify hr'
    · rw [if_neg hne]
      exact ⟨rec', hold, hl⟩
    · rw [if_pos he]
      exact hl
  · intro h
    split at h
    · rename_i he
      subst he
      exact ⟨_, record_modify hr, by rw [if_pos rfl]; exact h⟩
    · rename_i hne
      obtain ⟨old, hold, hl⟩ := h
      exact ⟨_, record_modify hold, by rw [if_neg hne]; exact hl⟩

theorem Effect.holder (h : Effect t origin v o a v') (ho : o.guards = false) (r : RecordId) (i : TaskId) :
    v'.Holder r i ↔ v.Holder r i := by
  cases h with
  | newRecord snap hash =>
    constructor
    · rintro ⟨rec', hr', hl⟩
      rw [List.getElem?_append] at hr'
      split at hr'
      · exact ⟨rec', hr', hl⟩
      rw [List.getElem?_singleton] at hr'
      split at hr' <;> cases hr'
      cases hl
    · rintro ⟨rec, hr, hl⟩
      refine ⟨rec, ?_, hl⟩
      rw [List.getElem?_append_left (List.getElem?_eq_some_iff.mp hr).1, hr]
  | writeSnapshot | finish | send =>
    apply holder_modify
    intro rec
    rfl
  | lockExecutions | unlockExecutions | lockCommit | unlockCommit | respond => cases ho
  | _ => exact Iff.rfl

/-- A task's guards are dropped: its locks are free, the others stay. -/
theorem View.holder_release (v : View J) (t : TaskId) (r : RecordId) (i : TaskId) :
    (v.release t).Holder r i ↔ i ≠ t ∧ v.Holder r i := by
  constructor
  · rintro ⟨rec', hr', hl⟩
    obtain ⟨rec, hr, rfl⟩ := record_of_release hr'
    simp only [releaseLock] at hl
    split at hl
    · cases hl
    · rename_i ho
      exact ⟨fun he => ho (he ▸ hl), rec, hr, hl⟩
  · rintro ⟨hne, rec, hr, hl⟩
    refine ⟨releaseLock t rec, ?_, ?_⟩
    · show (v.records.map (releaseLock t))[r]? = _
      rw [getElem?_map, hr]
      rfl
    rw [releaseLock, if_neg]
    · exact hl
    · rw [hl, some.injEq]
      exact hne

theorem View.executionsLock_release (v : View J) (t i : TaskId) :
    (v.release t).executionsLock = some i ↔ i ≠ t ∧ v.executionsLock = some i := by
  simp only [release]
  split
  · rename_i hl
    rw [hl]
    constructor
    · intro h
      cases h
    · rintro ⟨hne, h⟩
      exact absurd (some.inj h).symm hne
  · rename_i hl
    exact ⟨fun h => ⟨fun he => hl (he ▸ h), h⟩, fun h => h.2⟩

/-! ### The invariant -/

theorem Locked.move (hn : ls n = idle) (h : Locked ls v) (hmap : g.holds = true ↔ v'.executionsLock = some t)
    (hmap' : ∀ i, i ≠ t → (v'.executionsLock = some i ↔ v.executionsLock = some i))
    (hc : ∀ r, g.publishing.record? = some r ↔ v'.Holder r t) (hc' : ∀ r i, i ≠ t → (v'.Holder r i ↔ v.Holder r i)) :
    Locked (update (admissionDiscipline.births ls n o) t g) v' := by
  refine ⟨fun i => ?_, fun i r => ?_⟩
  · by_cases hit : i = t
    · subst hit
      rw [update_self]
      exact hmap
    · rw [update_of_ne hit, (births_unlocked hn o i).1, hmap' i hit]
      exact h.map i
  · by_cases hit : i = t
    · subst hit
      rw [update_self]
      exact hc r
    · rw [update_of_ne hit, (births_unlocked hn o i).2, hc' r i hit]
      exact h.commit i r

theorem Locked.performs (heffect : Effect t origin v o a v') (hm : (ls t).advance o a = some g)
    (hn : ls n = idle) (h : Locked ls v) : Locked (update (admissionDiscipline.births ls n o) t g) v' := by
  by_cases hg : o.guards = false
  · have hl := heffect.executionsLock hg
    have hr : g.publishing.record? = (ls t).publishing.record? := by
      rcases advance_record? hm with he | ⟨r, rfl, _⟩ | ⟨r, rfl, _⟩
      · exact he
      · cases hg
      · cases hg
    refine h.move hn ?_ (fun i _ => by rw [hl]) (fun r => ?_) fun r i _ => heffect.holder hg r i
    · rw [advance_holds hg hm, hl]
      exact h.map t
    · rw [hr, heffect.holder hg r t]
      exact h.commit t r
  cases heffect with
  | lockExecutions hf =>
    simp only [Local.advance] at hm
    split at hm <;> cases hm
    refine h.move hn (iff_of_true rfl rfl) (fun i hit => ?_) (fun r => h.commit t r) fun r i _ => Iff.rfl
    rw [hf]
    exact iff_of_false (fun he => hit (some.inj he).symm) fun he => by cases he
  | unlockExecutions =>
    obtain ⟨hh, ⟨⟩⟩ := ite_none_right_eq_some.mp hm
    have hl := (h.map t).mp hh.1
    refine h.move hn (iff_of_false false_ne_true fun he => by cases he) (fun i hit => ?_) (fun r => h.commit t r)
      fun r i _ => Iff.rfl
    rw [hl]
    exact iff_of_false (fun he => by cases he) fun he => hit (some.inj he).symm
  | respond resp =>
    obtain ⟨hset, ⟨⟩⟩ := ite_none_right_eq_some.mp hm
    refine h.move hn ?_ (fun i hit => ?_) (fun r => ?_) fun r i hit => ?_
    · rw [executionsLock_release]
      exact iff_of_false false_ne_true fun he => he.1 rfl
    · rw [executionsLock_release]
      exact ⟨fun he => he.2, fun he => ⟨hit, he⟩⟩
    · rw [holder_release]
      refine iff_of_false (fun he => ?_) fun he => he.1 rfl
      rw [show (ls t).unlock.publishing = .idle from hset.2] at he
      cases he
    · rw [holder_release]
      exact ⟨fun he => he.2, fun he => ⟨hit, he⟩⟩
  | lockCommit hr hf =>
    obtain ⟨hidle, ⟨⟩⟩ := ite_none_right_eq_some.mp hm
    refine h.move hn (h.map t) (fun i _ => Iff.rfl) (fun r' => ?_) fun r' i hit => ?_
    · rw [holder_lock hr]
      split
      · rename_i he
        exact iff_of_true (congrArg some he) rfl
      rename_i hne
      -- the task held no lock before
      rw [← h.commit t r', hidle]
      exact iff_of_false (fun he => hne (some.inj he)) fun he => by cases he
    · rw [holder_lock hr]
      split
      · rename_i he
        subst he
        refine iff_of_false (fun he => hit (some.inj he).symm) ?_
        rintro ⟨old, hold, hl⟩
        rw [hr, some.injEq] at hold
        rw [← hold, hf] at hl
        cases hl
      · exact Iff.rfl
  | unlockCommit r =>
    have hr : (ls t).publishing.record? = some r ∧ g.publishing.record? = none := by
      rcases advance_record? hm with he | ⟨_, he, _⟩ | ⟨_, he, hboth⟩
      · simp only [Local.advance] at hm
        split at hm
        all_goals first
          | (rename_i hb; split at hm <;> cases hm; rw [hb] at he; cases he)
          | cases hm
      · cases he
      · cases he
        exact hboth
    have hh : g.holds = (ls t).holds := by
      simp only [Local.advance] at hm
      split at hm
      all_goals first
        | (split at hm <;> cases hm; rfl)
        | cases hm
    obtain ⟨rec, hlocal, hl⟩ := (h.commit t r).mp hr.1
    refine h.move hn ?_ (fun i _ => Iff.rfl) (fun r' => ?_) fun r' i hit => ?_
    · rw [hh]
      exact h.map t
    · rw [hr.2, holder_lock hlocal]
      refine iff_of_false (fun he => by cases he) fun he => ?_
      split at he
      · cases he
      rename_i hne
      have hsame := (h.commit t r').mpr he
      rw [hr.1, some.injEq] at hsame
      exact hne hsame
    · rw [holder_lock hlocal]
      split
      · rename_i he
        subst he
        refine iff_of_false (fun he => by cases he) ?_
        rintro ⟨old, hold, hlock'⟩
        rw [hlocal, some.injEq] at hold
        rw [← hold, hl, some.injEq] at hlock'
        exact hit hlock'.symm
      · exact Iff.rfl
  | quiet hq =>
    cases o <;> first
      | exact absurd rfl hg
      | cases hq
  | _ => exact absurd rfl hg

theorem Locked.idle (hmap : v.executionsLock = none)
    (hc : ∀ (r : RecordId) (rec : RecordView), v.records[r]? = some rec → rec.commitLock = none) :
    Locked (fun _ => idle) v := by
  refine ⟨fun t => iff_of_false false_ne_true ?_, fun t r => iff_of_false ?_ ?_⟩
  · rw [hmap]
    intro h
    cases h
  · intro h
    cases h
  · rintro ⟨rec, hr, hl⟩
    rw [hc r rec hr] at hl
    cases hl

theorem Locked.release (h : Locked ls v) (hmap : (ls t).holds = false) (hidle : (ls t).publishing = .idle) :
    Locked ls (v.release t) := by
  refine ⟨fun i => ?_, fun i r => ?_⟩
  · rw [executionsLock_release, h.map i]
    refine ⟨fun hl => ⟨fun he => ?_, hl⟩, fun hl => hl.2⟩
    subst he
    rw [(h.map i).mpr hl] at hmap
    cases hmap
  rw [holder_release, h.commit i r]
  refine ⟨fun hl => ⟨fun he => ?_, hl⟩, fun hl => hl.2⟩
  subst he
  have hr := (h.commit i r).mpr hl
  rw [hidle] at hr
  cases hr

theorem Locked.drop (h : Locked ls v) (t : TaskId) : Locked (update ls t Local.idle) (v.release t) := by
  refine ⟨fun i => ?_, fun i r => ?_⟩
  · rw [executionsLock_release]
    by_cases hit : i = t
    · subst hit
      rw [update_self]
      exact iff_of_false Bool.false_ne_true fun hl => hl.1 rfl
    · rw [update_of_ne hit, h.map i]
      exact ⟨fun hl => ⟨hit, hl⟩, fun hl => hl.2⟩
  · rw [holder_release]
    by_cases hit : i = t
    · subst hit
      rw [update_self]
      exact iff_of_false (fun he => by cases he) fun hl => hl.1 rfl
    · rw [update_of_ne hit, h.commit i r]
      exact ⟨fun hl => ⟨hit, hl⟩, fun hl => hl.2⟩

theorem locked_inductive (Rule : Node J → Action → Prop) : admissionDiscipline.Inductive Rule Nothing Locked where
  performs _ _ _ _ _ he hm _ hn _ _ h := h.performs he hm hn
  releases hf _ h := h.release hf.2 hf.1.2
  arrives {ls v n} origin _ _ hn _ h := by
    have hb : ∀ i, (update ls n (birth origin) i).holds = (ls i).holds ∧
        (update ls n (birth origin) i).publishing = (ls i).publishing := by
      intro i
      by_cases hi : i = n
      · subst hi
        rw [update_self, hn, birth_publishing]
        refine ⟨?_, rfl⟩
        cases origin <;> rfl
      · rw [update_of_ne hi]
        exact ⟨rfl, rfl⟩
    refine ⟨fun i => ?_, fun i r => ?_⟩
    · rw [← h.map i, ← (hb i).1]
      rfl
    · rw [← h.commit i r, ← (hb i).2]
      rfl
  drops {s t task ls} _ _ _ _ _ _ h := by
    have hjobs : Locked ls {s.view with jobs := s.view.jobs ++ detached task.program} := ⟨h.map, h.commit⟩
    exact hjobs.drop t
  jobs {s i fails o now call ls} _ _ _ _ h := by
    cases fails <;> exact ⟨h.map, h.commit⟩
  crashes _ _ := Locked.idle rfl fun _ _ hr => by cases hr
  recovers now _ _ _ _ h := ⟨h.map, h.commit⟩
  starts {ls v interrupted snapshots} now _ hidle hstop _ _ _ _ := by
    have hl : v.executionsLock = none := congrArg executionsLock hstop
    rw [funext hidle]
    refine Locked.idle ((Discipline.foldl_load_frame executionsLock (fun _ _ => rfl) _ _).trans hl) fun r rec hr => ?_
    rw [records_started hstop, getElem?_map] at hr
    obtain ⟨snap, _, rfl⟩ := map_eq_some_iff.mp hr
    rfl

theorem locked_fresh : Locked (fun _ => idle) (fresh J).view := Locked.idle rfl fun _ _ hr => by cases hr

/-! ### What holds of every node -/

/-- The store is sound, its rows have their owners and records, and the locks their holders. -/
abbrev Founded (locals : TaskId → Local) (v : View J) : Prop :=
  (Owned (claimsOf locals) v ∧ Recorded locals v) ∧ Locked locals v

theorem founded_inductive (Rule : Node J → Action → Prop) : admissionDiscipline.Inductive Rule Nothing Founded :=
  ((owned_inductive Rule).and (recorded_inductive Rule)).and ((locked_inductive Rule).given fun _ => trivial)

theorem unique_holder (h : Founded ls v) (hi : (ls i).holds = true) (ht : (ls t).holds = true) : i = t := by
  have hl := (h.2.map i).mp hi
  rw [(h.2.map t).mp ht, some.injEq] at hl
  exact hl.symm

theorem unique_publisher (h : Founded ls v) (hi : (ls i).publishing.record? = some r)
    (ht : (ls t).publishing.record? = some r) : i = t := by
  obtain ⟨rec, hr, hl⟩ := (h.2.commit i r).mp hi
  obtain ⟨rec', hr', hlock'⟩ := (h.2.commit t r).mp ht
  obtain rfl := some.inj (hr.symm.trans hr')
  exact some.inj (hl.symm.trans hlock')

theorem founded_fresh : Founded (fun _ => idle) (fresh J).view := ⟨⟨owned_fresh, recorded_fresh⟩, locked_fresh⟩

end Eggwork.Server
