import Eggwork.Server.Durable

/-! A dropped request must not leave a row without a run.

The runtime may drop the future of a request at any `await`; a store call in
flight then still runs. Between the reservation and the spawn of the run the
handler of `execute` awaits five times more, so a drop there leaves a live row
that nothing runs (`dropped_admission`). Where such drops do not happen, every
live row has its run, or a handler that reaches the spawn on every path
(`live_row_has_run`). -/
namespace Eggwork.Server
open Lib Store Runner Function List Local Option Bool

variable {J : Serde}
variable {g : Local} {claim : Claim} {call : Call} {locals : TaskId → Local} {t : TaskId} {origin : Origin}

def Op.reserves : Op → Bool
  | .reserve .. => true
  | _ => false

def Op.spawnsRun : Op → Bool
  | .spawnRun _ => true
  | _ => false

variable {o : Op} {a : o.Answer}

/-- On every path from here the run is spawned. -/
def LeadsToRun (program : Async Unit) : Prop := program.Leads fun o : Op => o.spawnsRun = true

/-- The reservation is in flight, or its row is still without a run. -/
def Admitting (program : Async Unit) : Prop :=
  (∃ (o : Op) (next : o.Answer → Async Unit), program = .perform o next ∧ o.reserves = true) ∨ LeadsToRun program

/-- No request is dropped while it admits an execution. -/
def SparesAdmissions (s : Node J) : Action → Prop
  | .drop t => ∀ task, s.tasks[t]? = some task → ¬ Admitting task.program
  | _ => True

/-! ### Claims and programs -/

theorem Local.claimed_advance {g' : Local} (h : g.advance o a = some g') {key : RowKey}
    (hc : g.claimed = some (key, claim)) : (∃ claim', g'.claimed = some (key, claim')) ∨ o.spawnsRun = true := by
  by_cases hclaim : o.claims = false
  · exact .inl ⟨claim, (advance_claimed hclaim h).trans hc⟩
  cases o <;> first
    | exact absurd rfl hclaim
    | exact .inr rfl
    | skip
  case reserve snap ver digest principal hash exp =>
    obtain ⟨hrole, _⟩ := advance_reserve h
    simp only [claimed, hrole] at hc
    cases hc
  case newRecord snap hash =>
    obtain ⟨hrole, rfl⟩ := advance_newRecord h
    simp only [claimed, hrole] at hc
    cases hc
    exact .inl ⟨_, rfl⟩
  case executionsInsert id r =>
    obtain ⟨_, key', _, hrole, rfl⟩ := advance_executionsInsert h
    simp only [claimed, hrole] at hc
    cases hc
    exact .inl ⟨_, rfl⟩

/-- A task that has claimed a row reaches the spawn of its run on every path. -/
theorem leads_of_claimed {program : Async Unit} (h : admissionDiscipline.Allows g program) (hc : g.claimed ≠ none) :
    LeadsToRun program := by
  refine Protocol.Conforms.leads (fun g : Local => g.claimed ≠ none) ?_ ?_ ?_ hc h
  · exact fun _ g hg hf => hg hf.1.1
  · exact fun l g hg hentry => hg hentry.1.1.1
  intro g o ans g' hg hm
  obtain ⟨⟨key, claim⟩, hc⟩ := ne_none_iff_exists'.mp hg
  rcases claimed_advance hm hc with ⟨claim', he⟩ | hgoal
  · exact .inl (by rw [he]; exact some_ne_none _)
  · exact .inr hgoal

/-! ### Live rows -/

/-- Every live row of a running node has its run, or a claim on it. -/
structure Manned (claims : TaskId → Option (RowKey × Claim)) (v : View J) : Prop where
  live : v.up = true → ∀ key row, v.store.executions.get? key = some row → isTerminalName row.state = false →
    key ∈ spawnedKeys v.log ∨ ∃ t claim, claims t = some (key, claim)
  jobs : ∀ o ∈ v.jobs, o.reserves = false

def View.LiveBefore (v v' : View J) : Prop := ∀ key, v'.Live key → v.Live key

variable {v v' : View J}

theorem View.LiveBefore.transact (hs : v.Sound) (hcall : (∃ snap kind now, call = .commitEvent snap kind now) ∨
      ∃ id gen hash renewal exp now, call = .updateLease id gen hash renewal exp now) :
    v.LiveBefore (v.transact call) := by
  rintro key ⟨row, hr, hl⟩
  have hk : (v.store.executions.get? key).isSome := by
    rw [← exec_isSome hcall key, show (call.exec v.store).executions.get? key = some row from hr]
    rfl
  exact (exec_changes hs.reachable.coherent call).live_before hr hl hk

namespace Manned
variable {claims claims' : TaskId → Option (RowKey × Claim)} {v v' : View J}

theorem mono (h : Manned claims v) (hup : v'.up = v.up) (hl : v.LiveBefore v')
    (hs : spawnedKeys v.log ⊆ spawnedKeys v'.log) (hc : ∀ t key claim, claims t = some (key, claim) →
      key ∈ spawnedKeys v'.log ∨ ∃ t' claim', claims' t' = some (key, claim'))
    (hjobs : ∀ o ∈ v'.jobs, o.reserves = false) : Manned claims' v' := by
  refine ⟨fun hup' key row hr hrow => ?_, hjobs⟩
  obtain ⟨old, hold, holdl⟩ := hl key ⟨row, hr, hrow⟩
  rcases h.live (hup ▸ hup') key old hold holdl with hspawned | ⟨t, claim, ht⟩
  · exact .inl (hs hspawned)
  · exact hc t key claim ht

theorem keep (h : Manned claims v) (hup : v'.up = v.up) (hl : v.LiveBefore v')
    (hs : spawnedKeys v'.log = spawnedKeys v.log) (hjobs : ∀ o ∈ v'.jobs, o.reserves = false) : Manned claims v' :=
  h.mono hup hl (hs ▸ List.Subset.refl _) (fun t _ claim ht => .inr ⟨t, claim, ht⟩) hjobs

end Manned

theorem claim_kept (he : Effect t origin v o a v') (hm : (locals t).advance o a = some g)
    (ho : Owned (claimsOf locals) v) {i : TaskId} {key : RowKey} (hi : claimsOf locals i = some (key, claim)) :
    key ∈ spawnedKeys v'.log ∨ ∃ i' claim', update (claimsOf locals) t g.claimed i' = some (key, claim') := by
  by_cases hit : i = t
  · subst hit
    rcases claimed_advance hm hi with ⟨claim', hc'⟩ | hs
    · exact .inr ⟨i, claim', by rw [update_self]; exact hc'⟩
    cases o <;> first
      | exact absurd hs false_ne_true
      | skip
    case spawnRun req =>
    cases he with
    | quiet hq => cases hq
    | spawnRun hr =>
      obtain ⟨key', hrole, _⟩ := advance_spawnRun hm
      have hc : claimsOf locals i = some (key', .inserted req.record) :=
        claimed_of_role hrole Claim.noConfusion
      obtain ⟨rec', hr', hk⟩ := ho.recorded i key' _ _ hc rfl
      rw [hr', some.injEq] at hr
      rw [hc] at hi
      cases hi
      left
      rw [spawnedKeys_spawned, ← hr, hk]
      exact mem_append_right _ mem_cons_self
  · exact .inr ⟨i, claim, by rw [update_of_ne hit]; exact hi⟩

theorem Manned.performs {n : TaskId} {ans : o.Answer} (he : Effect t origin v o ans v')
    (hm : (locals t).advance o ans = some g) (hn : locals n = idle) (hown : Owned (claimsOf locals) v)
    (h : Manned (claimsOf locals) v) : Manned (claimsOf (update (admissionDiscipline.births locals n o) t g)) v' := by
  rw [claimsOf_update, claimsOf_births hn]
  refine ⟨fun hup key row hr hl => ?_, fun o ho => h.jobs o (he.jobs ▸ ho)⟩
  rcases he.live_before hown.sound ⟨row, hr, hl⟩ with ⟨old, hold, holdl⟩ | ⟨snap, hc, rfl⟩
  · rcases h.live (he.up ▸ hup) key old hold holdl with hs | ⟨i, claim, hi⟩
    · exact .inl ((he.keeps hown.sound).2.1 hs)
    · exact claim_kept he hm hown hi
  · -- the row a reservation makes live is claimed
    obtain ⟨_, _, rfl⟩ := advance_creates hm hc
    exact .inr ⟨t, .created, by rw [update_self]; rfl⟩

/-- A job that no admission was dropped for runs no reservation. -/
theorem call_of_not_reserves {now : Int} (hcall : o.call now = some call) (ho : o.reserves = false) :
    (∃ snap kind now, call = .commitEvent snap kind now) ∨
      ∃ id gen hash renewal exp now, call = .updateLease id gen hash renewal exp now := by
  unfold Op.call at hcall
  split at hcall
  · cases ho
  · cases hcall
    exact .inl ⟨_, _, _, rfl⟩
  · cases hcall
    exact .inr ⟨_, _, _, _, _, _, rfl⟩
  · cases hcall

theorem manned_inductive : admissionDiscipline.Inductive (J := J) SparesAdmissions
    (fun locals v => Owned (claimsOf locals) v) fun locals v => Manned (claimsOf locals) v where
  performs _ _ _ _ _ he hm _ hn _ hown h := h.performs he hm hn hown
  releases _ _ h := h.keep rfl (fun _ => id) rfl h.jobs
  arrives origin _ _ hn _ h := (claimsOf_birth hn origin).symm ▸ h
  drops {s t task locals} hrule ht _ _ hall _ h := by
    -- a task that is not admitting has claimed nothing
    have hs := hrule task ht
    have hc : (locals t).claimed = none := by
      by_contra hc
      exact hs (.inr (leads_of_claimed hall hc))
    have hsame : claimsOf (update locals t idle) = claimsOf locals := by
      rw [claimsOf_update, show idle.claimed = claimsOf locals t from hc.symm, update_eq_self]
    show Manned (claimsOf (update locals t idle)) _
    rw [hsame]
    refine h.keep rfl (fun _ => id) rfl fun o ho => ?_
    rcases mem_append.mp ho with ho | ho
    · exact h.jobs o ho
    unfold detached at ho
    split at ho
    · rename_i o' next hp
      split at ho
      · rw [mem_singleton.mp ho]
        by_contra hresult
        exact hs (.inl ⟨o', next, hp, by simpa using hresult⟩)
      · cases ho
    · cases ho
  jobs {s i fails o now call locals} _ hjob hcall hown h := by
    have hjobs : ∀ o ∈ s.view.jobs.eraseIdx i, o.reserves = false :=
      fun o ho => h.jobs o (mem_of_mem_eraseIdx ho)
    have hresult := h.jobs o (mem_of_getElem? hjob)
    cases fails
    · exact h.keep rfl (.transact hown.sound (call_of_not_reserves hcall hresult)) rfl hjobs
    · exact h.keep rfl (fun _ => id) rfl hjobs
  crashes _ _ := ⟨fun hup => (nomatch hup), fun _ ho => (nomatch ho)⟩
  recovers _ hdown _ _ _ h := ⟨fun hup => absurd (hdown.symm.trans hup) false_ne_true, h.jobs⟩
  starts {locals v interrupted snapshots} now _ _ _ hrecord _ hown h := by
    -- what was left live was interrupted
    have hstored : (snapshots.foldl View.load {v.transact (.recover now) with up := true}).store =
        (v.transact (.recover now)).store := Discipline.foldl_load_store snapshots _
    refine ⟨fun _ key row hr hl => ?_, fun o ho => ?_⟩
    · rw [hstored] at hr
      rw [View.store_recover hrecord] at hr
      have hterm := recover_terminal hown.sound.reachable.coherent hrecord hr
      rw [hterm] at hl
      cases hl
    · rw [(Discipline.foldl_load_up snapshots _).2] at ho
      exact h.jobs o ho

/-- **Every live row has its run.** In every run in which no request is dropped
from the moment its reservation is in flight until it has spawned the run, each
row that is not terminal has had its run spawned, or is the row of a request whose
handler reaches the spawn on every path. -/
theorem live_row_has_run {config : NodeConfig} {s : Node J}
    (hrun : Steps (step config) SparesAdmissions (fresh J) s) (hup : s.up = true) {key : RowKey}
    {row : ExecutionRow J} (hrow : s.store.executions.get? key = some row)
    (hlive : isTerminalName row.state = false) : .spawned key ∈ s.log ∨
      ∃ (t : TaskId) (task : Task), s.tasks[t]? = some task ∧ task.origin.admits = some key ∧
        LeadsToRun task.program := by
  have hfresh : Manned (claimsOf fun _ => Local.idle) (fresh J).view :=
    ⟨fun hup => (nomatch hup), fun _ ho => (nomatch ho)⟩
  obtain ⟨locals, hkeeps, howned, hmanned⟩ := ((owned_inductive SparesAdmissions).and manned_inductive).holds hrun
    ⟨_, Discipline.keeps_fresh, owned_fresh, hfresh⟩
  rcases hmanned.live hup key row hrow hlive with hspawned | ⟨t, claim, hclaim⟩
  · obtain ⟨o, ho, hkey⟩ := mem_filterMap.mp hspawned
    cases o with
    | spawned key' =>
      cases hkey
      exact .inl ho
    | acted origin a key' => cases hkey
  · have hrole : (locals t).role = .admitting key claim := by
      have hclaim : (locals t).claimed = some (key, claim) := hclaim
      unfold Local.claimed at hclaim
      split at hclaim
      · cases hclaim
      · cases hclaim
        assumption
      · cases hclaim
    cases htask : s.tasks[t]? with
    | none =>
      have hlength : s.threads.length ≤ t := by
        rw [Node.threads, length_map]
        exact List.getElem?_eq_none_iff.mp htask
      rw [hkeeps.unborn hlength] at hrole
      cases hrole
    | some task =>
      have hthread := threads_getElem? htask
      have hsome : (locals t).claimed ≠ none := fun hnone => by
        rw [show claimsOf locals t = none from hnone] at hclaim
        cases hclaim
      exact .inr ⟨t, task, htask, (hkeeps.fits hthread).1 key claim hrole,
        leads_of_claimed (hkeeps.conforms hthread) hsome⟩

namespace Example

/-- The request is dropped while its reservation is in flight; the call still commits. -/
def dropped : List Action := [.start .none, execute 1] ++ runs 0 10 ++ [.drop 0, .job 0 false]

def rests : Async Unit → Bool
  | .loop _ => true
  | _ => false

/-- A request is dropped only where its stream waits for the next round. -/
abbrev AtRest (s : Node Serde.json) (a : Action) : Prop :=
  (match a with
    | .drop t => (s.tasks[t]?).all fun task => rests task.program
    | _ => true) = true

/-- The execution is admitted, and its client goes away. -/
def abandoned : List Action := admitted ++ runs 0 4 ++ [.drop 0]

/-- The row of the execution is live. -/
def live (s : Node Serde.json) : Bool :=
  s.up && (s.store.executions.get? (key 1)).any fun row => !isTerminalName row.state

end Example

open Example

/-- A task that waits for its next round has nothing in flight, and need not come to anything. -/
theorem rests_spared {s : Node Serde.json} {t : TaskId} {task : Task} {flies goal : Op → Prop} (h : AtRest s (.drop t))
    (ht : s.tasks[t]? = some task) :
    ¬ ((∃ (o : Op) (next : o.Answer → Async Unit), task.program = .perform o next ∧ flies o) ∨ task.program.Leads goal) := by
  simp only [AtRest, ht, all_some] at h
  cases hp : task.program with
  | loop l =>
    rintro (⟨o, next, he, _⟩ | hl)
    · cases he
    · exact hl
  | _ =>
    rw [hp] at h
    cases h

theorem live_row {s : Node Serde.json} (h : live s = true) :
    s.up = true ∧ ∃ row, s.store.executions.get? (key 1) = some row ∧ isTerminalName row.state = false := by
  obtain ⟨hup, hl⟩ := and_eq_true_iff.mp h
  cases hr : s.store.executions.get? (key 1) with
  | none =>
    rw [hr] at hl
    cases hl
  | some row =>
    rw [hr] at hl
    exact ⟨hup, row, rfl, by simpa using hl⟩

theorem live_row_has_run_admitted :
    ∃ s : Node Serde.json, Steps (step config) SparesAdmissions (fresh Serde.json) s ∧ live s = true ∧
      (.spawned (key 1) ∈ s.log ∨
        ∃ (t : TaskId) (task : Task), s.tasks[t]? = some task ∧ task.origin.admits = some (key 1) ∧
          LeadsToRun task.program) := by
  have hfollow : (follow (step config) AtRest (fresh Serde.json) abandoned).any live = true := by
    decide
  obtain ⟨s, hrun, hlive⟩ := follow_reaches hfollow
  have hspared : Steps (step config) SparesAdmissions (fresh Serde.json) s := hrun.weaken fun {s a} ha => by
    cases a with
    | drop t => exact fun task ht => rests_spared ha ht
    | _ => trivial
  obtain ⟨hup, row, hrow, hopen⟩ := live_row hlive
  exact ⟨s, hspared, hlive, live_row_has_run hspared hup hrow hopen⟩

/-- A drop in that window leaves a live row and nothing that would ever run it: no
run was spawned, every task is over, and no store call is in flight. -/
theorem dropped_admission : ∃ s : Node Serde.json, Steps (step config) Free (fresh Serde.json) s ∧ live s = true ∧
      .spawned (key 1) ∉ s.log ∧ (∀ task ∈ s.tasks, task.program.isDone = true) ∧ s.jobs = [] := by
  have hrun : (follow (step config) Free (fresh Serde.json) dropped).any (fun s =>
      live s && !s.log.contains (.spawned (key 1)) && s.tasks.all (fun task => task.program.isDone) &&
        s.jobs.isEmpty) = true := by
    decide
  obtain ⟨s, hsteps, hstate⟩ := follow_reaches hrun
  simp only [Bool.and_eq_true, Bool.not_eq_true', List.contains_eq_mem, decide_eq_false_iff_not, List.all_eq_true,
    List.isEmpty_iff] at hstate
  obtain ⟨⟨⟨hlive, hspawned⟩, htasks⟩, hjobs⟩ := hstate
  exact ⟨s, hsteps, hlive, hspawned, htasks, hjobs⟩

end Eggwork.Server
