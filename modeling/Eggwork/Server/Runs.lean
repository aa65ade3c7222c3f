import Eggwork.Server.Locks
import Eggwork.Server.Stages

/-! One run per record, and the terminal event is its to publish.

A record has at most one run, and until that run commits the terminal event
neither the record nor any snapshot on its way to it is terminal (`Runs`). So a
run never finds its record terminal before its time. -/
namespace Eggwork.Server
open Lib Store Runner Function Local RunStage List Option

variable {J : Serde}
variable {r : RecordId} {g g' : RunStage} {o : Op} {a : o.Answer} {kind : ExecutionEventKind} {i : TaskId}
variable {base snap : ExecutionSnapshot} {claim : Claim}

/-! ### Stages across a step -/

namespace RunStage

/-- Where no terminal event is to be published, the stage no longer moves. -/
theorem advance_shut (hshut : g.open? = none) (h : g.advance o a = some g') : g' = g := by
  have hread : ∀ i snap, g.read i snap = g := by
    intro i snap
    unfold read
    rw [hshut, if_neg fun hopen => by cases hopen.1]
  cases o <;> first
    | (cases h; rfl)
    | (cases h; exact hread _ _)
    | skip
  case reserve | newRecord | captureDeclared | panicked =>
    simp only [advance] at h
    split at h <;> cases h
    rfl
  case commitEvent | startRunner | select | isDrained | tryRecv =>
    cases g <;> first
      | (cases h; rfl)
      | cases h
      | cases hshut
  case finish i =>
    cases g with
    | closed r =>
      simp only [advance, finish] at h
      split at h <;> cases h
      rfl
    | barred r =>
      cases h
      rfl
    | _ => cases h

/-- Nothing is to be published again. -/
theorem advance_open? (h : g.advance o a = some g') (hopen : g'.open? = some r) : g.open? = some r := by
  cases hb : g.open? with
  | none =>
    rw [advance_shut hb h, hb] at hopen
    cases hopen
  | some i =>
    have hr := (advance_record? h).symm.trans (record?_of_open? hopen)
    rw [record?_of_open? hb] at hr
    exact hr

theorem advance_bars (h : g.advance o a = some (.barred r)) (hread : ∀ i, o ≠ .readSnapshot i) : g = .barred r := by
  cases hopen : g.open? with
  | none => exact (advance_shut hopen h).symm
  | some i =>
    exfalso
    cases o <;> first
      | exact hread _ rfl
      | (cases h; cases hopen)
      | skip
    case reserve | newRecord | captureDeclared | panicked =>
      simp only [advance] at h
      split at h <;> cases h
      cases hopen
    case commitEvent | startRunner | finish =>
      cases g <;> first
        | (cases hopen; done)
        | cases h
        | (simp only [advance, commit, start] at h; split at h <;> cases h)
    case select =>
      cases g <;> first
        | (cases hopen; done)
        | cases h
        | skip
      obtain ⟨_, h⟩ := ite_none_right_eq_some.mp h
      rw [some.injEq] at h
      cases a <;> simp only [polled] at h <;> first
        | cases h
        | (split at h <;> cases h)
    case isDrained =>
      cases g <;> first
        | (cases hopen; done)
        | cases h
        | skip
      obtain ⟨_, h⟩ := ite_none_right_eq_some.mp h
      rw [some.injEq] at h
      split at h <;> cases h
    case tryRecv =>
      cases g <;> first
        | (cases hopen; done)
        | cases h
        | skip
      obtain ⟨_, h⟩ := ite_none_right_eq_some.mp h
      rw [some.injEq] at h
      cases a <;> cases h

theorem commit_cases {state : ExecutionState} (h : g.commit state kind = some g') :
    g = .other ∨ (∃ r, g = .barred r) ∨ state = .running ∨ ∃ r, g = .closing r ∧ g' = .closed r := by
  cases g <;> simp only [commit] at h
  case other => exact .inl rfl
  case barred r => exact .inr (.inl ⟨r, rfl⟩)
  case opening | holding | spilling =>
    split at h <;> cases h
    rename_i hrunning
    exact .inr (.inr (.inl hrunning.1))
  case closing r =>
    split at h <;> cases h
    exact .inr (.inr (.inr ⟨r, rfl, rfl⟩))
  all_goals cases h

end RunStage

theorem Local.mayCommit_terminal {g : Local} {proposed : ExecutionSnapshot}
    (h : g.mayCommit r base proposed kind = true) (hterm : isTerminal proposed.state = true) : g.role = .run r := by
  have hmay := (commits_of_mayCommit h).may
  unfold mayPublish at hmay
  split at hmay
  all_goals first
    | exact beq_iff_eq.mp hmay
    | (rename_i hst; rw [hst] at hterm; cases hterm)

/-! ### The invariant -/

/-- The protocols of admission and of runs together. -/
abbrev runDiscipline : Discipline (Local × RunStage) := admissionDiscipline.prod stageDiscipline

theorem runDiscipline_births {ls : TaskId → Local × RunStage} {n : TaskId} (hn : ls n = (idle, other))
    (o : Op) (i : TaskId) : runDiscipline.births ls n o i = ls i ∨ ∃ req, o = .spawnRun req ∧ i = n ∧
        runDiscipline.births ls n o i = ({idle with role := .run req.record}, .opening req.record) := by
  cases o <;> first
    | exact .inl rfl
    | skip
  case spawnMonitor r =>
    left
    show update ls n (idle, other) i = ls i
    rw [← hn, update_eq_self]
  case spawnRun req =>
    by_cases hi : i = n
    · subst hi
      exact .inr ⟨req, rfl, rfl, update_self ..⟩
    · exact .inl (update_of_ne hi _ _)

/-- The record is not terminal, and no terminal snapshot is on its way to it. -/
structure Unfinished (locals : TaskId → Local × RunStage) (v : View J) (r : RecordId) : Prop where
  recorded : ∀ record : RecordView, v.records[r]? = some record → isTerminal record.snapshot.state = false
  proposed : ∀ t snapshot event, (locals t).1.publishing = .wrote r snapshot event → isTerminal snapshot.state = false

structure Runs (locals : TaskId → Local × RunStage) (v : View J) : Prop where
  role : ∀ t r, (locals t).1.role = .run r → (locals t).2.record? = some r
  spawned : ∀ t r, (locals t).2.record? = some r →
    ∃ record : RecordView, v.records[r]? = some record ∧ record.key ∈ spawnedKeys v.log
  single : ∀ t t' r, (locals t).2.record? = some r → (locals t').2.record? = some r → t = t'
  running : ∀ t r, (locals t).2.open? = some r → Unfinished locals v r
  claimed : ∀ t key claim r, (locals t).1.claimed = some (key, claim) → claim.record? = some r → Unfinished locals v r
  unbarred : ∀ t r, (locals t).2 ≠ .barred r

theorem isInitial_state (h : isInitial snap = true) : isTerminal snap.state = false := by
  simp only [isInitial, Bool.and_eq_true, beq_iff_eq] at h
  rw [h.1.2]
  rfl

section Performs
variable {ls : TaskId → Local × RunStage} {n t : TaskId} {o : Op} {origin : Origin} {a : o.Answer} {v v' : View J}
  {g : Local} {stage : RunStage}

theorem Runs.commits (h : Runs ls v) (ho : o = .commitEvent snap kind) (hstage : (ls t).2.advance o a = some stage)
    (hmay : (ls t).1.mayCommit r base snap kind = true) (hterm : isTerminal snap.state = true) :
    (ls t).2.record? = some r ∧ stage = .closed r := by
  subst ho
  have hr := h.role t r (mayCommit_terminal hmay hterm)
  refine ⟨hr, ?_⟩
  rcases commit_cases hstage with hne | ⟨i, hbar⟩ | hrun | ⟨i, hc, hclos⟩
  · rw [hne] at hr
    cases hr
  · exact absurd hbar (h.unbarred t i)
  · rw [hrun] at hterm
    cases hterm
  rw [hc] at hr
  cases hr
  exact hclos

theorem Runs.unclaimed (h : Runs ls v) (ho : Owned (claimsOf fun i => (ls i).1) v) {j : TaskId} {key : RowKey}
    (hi : (ls i).1.claimed = some (key, claim)) (hr : claim.record? = some r) : (ls j).2.record? ≠ some r := by
  intro hj
  obtain ⟨rec, hrecord, hk⟩ := ho.recorded i key claim r hi hr
  obtain ⟨rec', hr', hs⟩ := h.spawned j r hj
  rw [hrecord, some.injEq] at hr'
  exact (ho.claimed i key claim hi).2 (hk ▸ hr' ▸ hs)

variable (heffect : Effect t origin v o a v') (hm : (ls t).1.advance o a = some g)
  (hstage : (ls t).2.advance o a = some stage) (hn : ls n = (Local.idle, RunStage.other)) (h : Runs ls v)

include hm hstage hn

/-- Who is in a stage after a step was in one before, or has just been spawned by the claimant. -/
theorem RunStage.record?_before (hi : (update (runDiscipline.births ls n o) t (g, stage) i).2.record? = some r) :
    (ls i).2.record? = some r ∨ ∃ req key, o = .spawnRun req ∧ i = n ∧ r = req.record ∧
      (ls t).1.claimed = some (key, .inserted r) := by
  by_cases hit : i = t
  · subst hit
    rw [update_self] at hi
    exact .inl ((advance_record? hstage).symm.trans hi)
  rw [update_of_ne hit] at hi
  rcases runDiscipline_births hn o i with he | ⟨req, rfl, hin, he⟩
  · exact .inl (he ▸ hi)
  rw [he] at hi
  cases hi
  obtain ⟨key, hrole, _⟩ := advance_spawnRun hm
  exact .inr ⟨req, key, rfl, hin, rfl, claimed_of_role hrole Claim.noConfusion⟩

include heffect

/-- A record stays unfinished while no terminal event is committed on it. -/
theorem Unfinished.performs
    (hc : ∀ snap kind base, o = .commitEvent snap kind → (ls t).1.mayCommit r base snap kind = true →
      isTerminal snap.state = false) (h : Unfinished ls v r) :
    Unfinished (update (runDiscipline.births ls n o) t (g, stage)) v' r := by
  refine ⟨fun rec' hr' => ?_, fun i snap ev hi => ?_⟩
  · rcases heffect.record_before hr' with ⟨rec, hr, _, _, hsnap | rfl⟩ | ⟨snap, hash, rfl, _, rfl⟩
    · rw [hsnap]
      exact h.recorded rec hr
    · obtain ⟨ev, hw, _⟩ := advance_writeSnapshot hm
      exact h.proposed t _ ev hw
    · exact isInitial_state (advance_initial hstage)
  · by_cases hit : i = t
    · subst hit
      rw [update_self] at hi
      rcases advance_wrote hm hi with hold | ⟨kind, base, ho, hmay⟩
      · exact h.proposed i snap ev hold
      · exact hc snap kind base ho hmay
    · rw [update_of_ne hit] at hi
      rcases runDiscipline_births hn o i with he | ⟨req, _, _, he⟩
      · exact h.proposed i snap ev (he ▸ hi)
      · rw [he] at hi
        cases hi

include h

theorem Runs.unfinished (hr : Unfinished ls v r) (hopen : (ls t).2.record? = some r → stage ≠ .closed r) :
    Unfinished (update (runDiscipline.births ls n o) t (g, stage)) v' r := by
  refine hr.performs heffect hm hstage hn fun snap kind base ho hmay => ?_
  by_contra hterm
  rw [Bool.not_eq_false] at hterm
  obtain ⟨hrecord, hc⟩ := h.commits ho hstage hmay hterm
  exact hopen hrecord hc

/-- A claimed record stays unfinished, and so is one that is just made. -/
theorem Runs.claimed_performs (ho : Owned (claimsOf fun i => (ls i).1) v)
    (hrecorded : Recorded (fun i => (ls i).1) v) {key : RowKey}
    (hi : (update (runDiscipline.births ls n o) t (g, stage) i).1.claimed = some (key, claim))
    (hr : claim.record? = some r) : Unfinished (update (runDiscipline.births ls n o) t (g, stage)) v' r := by
  have hold : ∀ {i key claim}, (ls i).1.claimed = some (key, claim) → claim.record? = some r →
      Unfinished (update (runDiscipline.births ls n o) t (g, stage)) v' r := by
    intro i key claim hi hr
    exact h.unfinished heffect hm hstage hn (h.claimed i key claim r hi hr) fun hrecord =>
      absurd hrecord (h.unclaimed ho hi hr)
  by_cases hit : i = t
  · subst hit
    rw [update_self] at hi
    by_cases hc : o.claims = false
    · exact hold ((advance_claimed hc hm).symm.trans hi) hr
    cases o <;> first
      | exact absurd rfl hc
      | skip
    case reserve =>
      obtain ⟨hrole, _, ⟨_, rfl⟩ | ⟨_, rfl⟩⟩ := advance_reserve hm
      · cases hi
        cases hr
      · exact hold hi hr
    case newRecord snap hash =>
      obtain ⟨_, rfl⟩ := advance_newRecord hm
      cases hi
      cases hr
      -- no snap is on its way to the new rec
      have hlen : r = v.records.length := by
        cases heffect with
        | quiet hq => cases hq
        | newRecord => rfl
      have hnone : v.records[r]? = none := getElem?_eq_none (Nat.le_of_eq hlen.symm)
      refine h.unfinished heffect hm hstage hn ⟨fun rec hrecord => ?_, fun j snap ev hj => ?_⟩ fun hrecord => ?_
      · rw [hnone] at hrecord
        cases hrecord
      · obtain ⟨rec, hrecord, _⟩ := hrecorded.proposed j r snap (by rw [hj]; rfl)
        rw [hnone] at hrecord
        cases hrecord
      · obtain ⟨rec, hrecord, _⟩ := h.spawned i r hrecord
        rw [hnone] at hrecord
        cases hrecord
    case executionsInsert id r' =>
      obtain ⟨_, key', _, hrole, rfl⟩ := advance_executionsInsert hm
      cases hi
      cases hr
      exact hold (claimed_of_role hrole Claim.noConfusion) rfl
    case spawnRun req =>
      obtain ⟨key', hrole, rfl⟩ := advance_spawnRun hm
      cases hi
  · rw [update_of_ne hit] at hi
    rcases runDiscipline_births hn o i with he | ⟨req, _, _, he⟩
    · exact hold (he ▸ hi) hr
    · rw [he] at hi
      cases hi

omit hm hn in
theorem Runs.unbarred_performs (r : RecordId) : stage ≠ .barred r := by
  rintro rfl
  by_cases hread : ∀ j, o ≠ .readSnapshot j
  · exact h.unbarred t r (advance_bars hstage hread)
  simp only [not_forall, Decidable.not_not] at hread
  obtain ⟨j, rfl⟩ := hread
  simp only [RunStage.advance, Option.some.injEq] at hstage
  unfold RunStage.read at hstage
  split at hstage
  · rename_i hopen
    cases hstage
    cases heffect with
    | quiet hq => cases hq
    | readSnapshot hr =>
      have hl := (h.running t r hopen.1).recorded _ hr
      rw [hl] at hopen
      cases hopen.2
  · exact h.unbarred t r hstage

theorem Runs.performs (hf : Founded (fun i => (ls i).1) v) :
    Runs (update (runDiscipline.births ls n o) t (g, stage)) v' := by
  obtain ⟨⟨ho, hrecorded⟩, _⟩ := hf
  obtain ⟨_, hs, hrs⟩ := heffect.keeps ho.sound
  refine ⟨fun i r hi => ?_, fun i r hi => ?_, fun i j r hi hj => ?_, fun i r hi => ?_, fun i key claim r hi hr => ?_,
    fun i r hi => ?_⟩
  · by_cases hit : i = t
    · subst hit
      rw [update_self] at hi ⊢
      exact (advance_record? hstage).trans (h.role i r ((role_of_advance hm).2 r hi))
    rw [update_of_ne hit] at hi ⊢
    rcases runDiscipline_births hn o i with he | ⟨req, _, _, he⟩
    · rw [he] at hi ⊢
      exact h.role i r hi
    rw [he] at hi ⊢
    cases hi
    rfl
  · rcases record?_before hm hstage hn hi with hold | ⟨req, key, rfl, _, rfl, _⟩
    · obtain ⟨rec, hrecord, hk⟩ := h.spawned i r hold
      obtain ⟨rec', hr', hkey'⟩ := hrs r rec hrecord
      exact ⟨rec', hr', hkey' ▸ hs hk⟩
    cases heffect with
    | quiet hq => cases hq
    | spawnRun hrecord =>
      refine ⟨_, hrecord, ?_⟩
      rw [spawnedKeys_spawned]
      exact mem_append_right _ mem_cons_self
  · rcases record?_before hm hstage hn hi with hi | ⟨req, key, _, hin, _, hc⟩ <;>
      rcases record?_before hm hstage hn hj with hj | ⟨request', key', _, hjn, _, hc'⟩
    · exact h.single i j r hi hj
    · exact absurd hi (h.unclaimed ho hc' rfl)
    · exact absurd hj (h.unclaimed ho hc rfl)
    · exact hin.trans hjn.symm
  · by_cases hit : i = t
    · subst hit
      rw [update_self] at hi
      refine h.unfinished heffect hm hstage hn (h.running i r (advance_open? hstage hi)) fun _ hclosed => ?_
      rw [hclosed] at hi
      cases hi
    rw [update_of_ne hit] at hi
    rcases runDiscipline_births hn o i with he | ⟨req, rfl, _, he⟩
    · rw [he] at hi
      refine h.unfinished heffect hm hstage hn (h.running i r hi) fun hrecord _ => ?_
      exact hit (h.single i t r (record?_of_open? hi) hrecord)
    rw [he] at hi
    cases hi
    obtain ⟨key, hrole, _⟩ := advance_spawnRun hm
    have hc := claimed_of_role hrole Claim.noConfusion
    exact h.unfinished heffect hm hstage hn (h.claimed t key _ _ hc rfl) fun hrecord =>
      absurd hrecord (h.unclaimed ho hc rfl)
  · exact h.claimed_performs heffect hm hstage hn ho hrecorded hi hr
  · by_cases hit : i = t
    · subst hit
      rw [update_self] at hi
      exact h.unbarred_performs heffect hstage r hi
    rw [update_of_ne hit] at hi
    rcases runDiscipline_births hn o i with he | ⟨req, _, _, he⟩
    · exact h.unbarred i r (he ▸ hi)
    · rw [he] at hi
      cases hi

end Performs

theorem Runs.idle (v : View J) : Runs (fun _ => (idle, other)) v where
  role _ _ h := by cases h
  spawned _ _ h := by cases h
  single _ _ _ h := by cases h
  running _ _ h := by cases h
  claimed _ _ _ _ h := by cases h
  unbarred _ _ h := by cases h

section Steps
variable {ls ls' : TaskId → Local × RunStage} {v v' : View J}

/-- Records and runs are as they were, and no task has more to do. -/
theorem Runs.mono (h : Runs ls v) (hlog : v'.log = v.log)
    (hrs : ∀ (r : RecordId) (rec : RecordView), v.records[r]? = some rec →
      ∃ rec' : RecordView, v'.records[r]? = some rec' ∧ rec'.key = rec.key)
    (hs : ∀ (r : RecordId) (rec' : RecordView), v'.records[r]? = some rec' →
      ∃ rec : RecordView, v.records[r]? = some rec ∧ rec'.snapshot = rec.snapshot)
    (hl : ∀ t, ls' t = ls t ∨ (∀ r, (ls' t).1.role ≠ .run r) ∧ (ls' t).1.claimed = none ∧
      (ls' t).1.publishing = .idle ∧ (ls' t).2 = .other) : Runs ls' v' := by
  have hsame : ∀ t r, (ls' t).2.record? = some r → ls' t = ls t := by
    intro t r ht
    rcases hl t with he | ⟨_, _, _, hne⟩
    · exact he
    · rw [hne] at ht
      cases ht
  have hu : ∀ r, Unfinished ls v r → Unfinished ls' v' r := by
    intro r hr
    refine ⟨fun rec' hr' => ?_, fun t snap ev ht => ?_⟩
    · obtain ⟨rec, hrecord, hsnap⟩ := hs r rec' hr'
      rw [hsnap]
      exact hr.recorded rec hrecord
    rcases hl t with he | ⟨_, _, hidle, _⟩
    · exact hr.proposed t snap ev (he ▸ ht)
    · rw [hidle] at ht
      cases ht
  refine ⟨fun t r ht => ?_, fun t r ht => ?_, fun t t' r ht ht' => ?_, fun t r ht => ?_, fun t key claim r ht hr => ?_,
    fun t r ht => ?_⟩
  · rcases hl t with he | ⟨hrole, _⟩
    · exact he ▸ h.role t r (he ▸ ht)
    · exact absurd ht (hrole r)
  · obtain ⟨rec, hrecord, hk⟩ := h.spawned t r (hsame t r ht ▸ ht)
    obtain ⟨rec', hr', hkey'⟩ := hrs r rec hrecord
    exact ⟨rec', hr', by rw [hkey', hlog]; exact hk⟩
  · exact h.single t t' r (hsame t r ht ▸ ht) (hsame t' r ht' ▸ ht')
  · exact hu r (h.running t r (hsame t r (record?_of_open? ht) ▸ ht))
  · rcases hl t with he | ⟨_, hc, _⟩
    · exact hu r (h.claimed t key claim r (he ▸ ht) hr)
    · rw [hc] at ht
      cases ht
  · rcases hl t with he | ⟨_, _, _, hne⟩
    · exact h.unbarred t r (he ▸ ht)
    · rw [hne] at ht
      cases ht

theorem Runs.release (h : Runs ls v) (t : TaskId) : Runs ls (v.release t) := by
  refine h.mono rfl (View.Extends.release v t).records (fun r rec' hr => ?_) fun _ => .inl rfl
  obtain ⟨rec, hrecord, rfl⟩ := View.record_of_release hr
  exact ⟨rec, hrecord, rfl⟩

end Steps

theorem runs_inductive (Rule : Node J → Action → Prop) :
    runDiscipline.Inductive Rule (fun ls => Founded fun t => (ls t).1) Runs where
  performs _ _ _ _ _ heffect hm _ hn _ hf h := by
    obtain ⟨hl, hstage⟩ := Protocol.prod_advance.mp hm
    exact h.performs heffect hl hstage hn hf
  releases _ _ h := h.release _
  arrives {ls v n} origin hrequest _ _ _ h := by
    refine h.mono rfl (fun r rec hr => ⟨rec, hr, rfl⟩) (fun r rec hr => ⟨rec, hr, rfl⟩) fun t => ?_
    by_cases ht : t = n
    · subst ht
      rw [update_self]
      refine .inr ⟨fun r hr => ?_, birth_claimed origin, birth_publishing origin, ?_⟩
      · cases origin with
        | run r' => cases hrequest
        | _ => cases hr
      · cases origin with
        | run r' => cases hrequest
        | _ => rfl
    · exact .inl (update_of_ne ht _ _)
  drops {s t task ls} _ _ _ _ _ _ h := by
    have hjobs : Runs ls {s.view with jobs := s.view.jobs ++ detached task.program} :=
      h.mono rfl (fun r rec hr => ⟨rec, hr, rfl⟩) (fun r rec hr => ⟨rec, hr, rfl⟩) fun _ => .inl rfl
    refine (hjobs.release t).mono rfl (fun r rec hr => ⟨rec, hr, rfl⟩) (fun r rec hr => ⟨rec, hr, rfl⟩) fun i => ?_
    by_cases hi : i = t
    · subst hi
      rw [update_self]
      exact .inr ⟨fun r hr => (nomatch hr), rfl, rfl, rfl⟩
    · exact .inl (update_of_ne hi _ _)
  jobs {s i fails o now call ls} _ _ _ _ h := by
    cases fails <;>
      exact h.mono rfl (fun r rec hr => ⟨rec, hr, rfl⟩) (fun r rec hr => ⟨rec, hr, rfl⟩) fun _ => .inl rfl
  crashes _ _ := .idle _
  recovers _ _ hidle _ _ _ := by
    rw [funext hidle]
    exact .idle _
  starts _ _ hidle _ _ _ _ _ := by
    rw [funext hidle]
    exact .idle _

/-- What holds of every node, with the stages of its runs. -/
abbrev Staged (locals : TaskId → Local × RunStage) (v : View J) : Prop :=
  Founded (fun t => (locals t).1) v ∧ Runs locals v

theorem staged_inductive (Rule : Node J → Action → Prop) : runDiscipline.Inductive Rule Nothing Staged :=
  (founded_inductive Rule).left.and (runs_inductive Rule)

theorem staged_fresh : Staged (fun _ => (idle, other)) (fresh J).view := ⟨founded_fresh, .idle _⟩

end Eggwork.Server
