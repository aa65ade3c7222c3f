import Eggwork.Server.Filing

/-! The gate of admission.

`execute` asks twice whether the node drains: on its way in, and again with the map
of recent executions locked. The second time decides. A `Gate` says how far a task
has come since it locked the map: it has seen the flag down, and then the marker
away as well. Only past both, and with the map still locked, does it reserve a row
and put a record into the map (`gateDiscipline`, `Gated`). -/
namespace Eggwork.Server
open Lib Store Runner Function Protocol

variable {J : Serde}

/-! ### The protocol -/

inductive Gate where
  /-- No `execute` request. -/
  | free
  | outside
  | locked
  | unflagged
  | cleared
deriving DecidableEq

variable {g g' : Gate}

namespace Gate

/-- Where an `execute` request comes to. -/
def goes (g next : Gate) : Gate := if g = .free then .free else next

def flag (draining : Bool) : Gate → Gate
  | .locked => if draining then .locked else .unflagged
  | g => g

def mark (marker : Bool) : Gate → Gate
  | .unflagged => if marker then .unflagged else .cleared
  | g => g

/-- How an operation moves the gate; `none` where it is not allowed. -/
def advance (g : Gate) : (o : Op) → o.Answer → Option Gate
  | .lockExecutions, _ => some (g.goes .locked)
  | .unlockExecutions, _ | .respond _, _ => some (g.goes .outside)
  | .loadDraining, draining => some (g.flag draining)
  | .isPersistentlyDraining, marker => some (g.mark marker)
  | .reserve .., _ | .executionsInsert .., _ => if g = .free ∨ g = .cleared then some g else none
  | _, _ => some g

/-- The map is locked. -/
def within : Gate → Bool
  | .locked | .unflagged | .cleared => true
  | _ => false

/-- The flag was seen down. -/
def unbarred : Gate → Bool
  | .unflagged | .cleared => true
  | _ => false

def birth : Origin → Gate
  | .execute _ => .outside
  | _ => .free

end Gate

/-- The operations behind the gate. -/
def Op.gated : Op → Bool
  | .reserve .. | .executionsInsert .. => true
  | _ => false

variable {o : Op} {answer : o.Answer}

abbrev gate : Protocol effects Gate where
  advance := Gate.advance
  enter l g := g = .free ∨ g = .outside ∧ l.isStream

/-! ### Handlers -/

theorem Gate.advance_ungated (h : o.gated = false) (g : Gate) (answer : o.Answer) :
    ∃ g', g.advance o answer = some g' := by
  cases o <;> first
    | exact ⟨_, rfl⟩
    | cases h

/-- The areas in which nothing is behind the gate and the map stays locked. -/
def Area.inner : Area → Bool
  | .map | .admission | .answer => false
  | _ => true

variable {areas : List Area}

theorem Op.ungated_of_inner (h : o.area.inner = true) : o.gated = false := by
  cases o <;> first
    | rfl
    | cases h

theorem Gate.advance_inner (h : o.area.inner = true) (answer : o.Answer) :
    Gate.cleared.advance o answer = some .cleared := by
  cases o <;> first
    | rfl
    | cases h

/-- A handler that keeps to the gate, wherever it stands in the end. -/
abbrev Passes {α : Type} (g : Gate) (p : Async α) : Prop := gate.Conforms (fun _ _ => True) g p

theorem Op.inner_of_within (ha : areas.all Area.inner = true) (ho : o.within areas = true) : o.area.inner = true :=
  List.all_eq_true.mp ha o.area (List.contains_iff_mem.mp (Bool.and_eq_true_iff.mp ho).1)

theorem Within.passes {α : Type} {p : Async α} (h : Within areas p) (ha : areas.all Area.inner = true) (g : Gate) :
    Passes g p := by
  refine .of_closed (fun _ => True) (fun g o answer _ ho => ?_) (fun _ _ _ hl => hl.elim) trivial h
  obtain ⟨g', hm⟩ := Gate.advance_ungated (Op.ungated_of_inner (Op.inner_of_within ha ho)) g answer
  exact ⟨g', hm, trivial⟩

theorem Within.cleared {α : Type} {p : Async α} (h : Within areas p) (ha : areas.all Area.inner = true) :
    gate.Conforms (fun _ g => g = .cleared) .cleared p :=
  .of_uses (fun _ ho answer => Gate.advance_inner (Op.inner_of_within ha ho) answer) (fun _ hl => hl.elim) h

theorem passes_op {α : Type} {f : o.Answer → Async α} (ho : o.gated = false) (h : ∀ g answer, Passes g (f answer)) :
    Passes g (Program.op (E := effects) o >>= f) := by
  refine .op fun answer => ?_
  obtain ⟨g', hm⟩ := Gate.advance_ungated ho g answer
  exact ⟨g', hm, h g' answer⟩

theorem refuse_passes (g : Gate) (metric : String) (status : Nat) (code message : String) :
    Passes g (refuse metric status code message) := (refuse_within ..).passes rfl g

theorem isDraining_clears : gate.Conforms (fun draining g => draining = false → g = .cleared) .locked isDraining := by
  refine .op fun draining => ⟨_, rfl, ?_⟩
  cases draining
  · refine .last fun marker => ⟨_, rfl, fun hm => ?_⟩
    rw [hm]
    rfl
  · exact fun h => (nomatch h)

theorem removeAll_clears (ids : List ExecutionId) : gate.Conforms (fun _ g => g = .cleared) .cleared (removeAll ids) := by
  induction ids with
  | nil => rfl
  | cons id rest ih => exact .stay (fun _ => rfl) fun _ => ih

theorem evict_clears : gate.Conforms (fun _ g => g = .cleared) .cleared evict := by
  refine .stay (fun _ => rfl) fun len => ?_
  split
  · refine .stay (fun _ => rfl) fun es => ((findTerminal_within ..).cleared rfl).thence fun terminal => ?_
    exact removeAll_clears terminal
  · rfl

theorem launch_passes (wire : ExecuteRequest) (i : Identity) : Passes .cleared (launch wire i) := by
  refine .stay (fun _ => rfl) fun r => .stay (fun _ => rfl) fun _ => passes_op rfl fun g _ => ?_
  refine ((publish_within ..).passes rfl g).bind fun _ g _ => ?_
  exact passes_op rfl fun g _ => passes_op rfl fun g _ => (eventResponse_within ..).passes rfl g

theorem reserveExecution_passes (wire : ExecuteRequest) (i : Identity) (exp : Int) :
    Passes .cleared (reserveExecution wire i exp) := by
  have hr : ∀ g (resp : Response), Passes g (do retire wire.workspaceId; pure resp) :=
    fun g resp => ((retire_within _).passes rfl g).bind fun _ _ _ => trivial
  refine .stay (fun _ => rfl) fun answer => ?_
  split
  · exact hr _ _
  · exact .stay (fun _ => rfl) fun _ => launch_passes wire i
  · have hrest : ∀ g snap, Passes g (do
        sync .unlockExecutions
        eventResponse i.handle.executionId i.handle.generation 0 (.recovered snap)) :=
      fun g snap => passes_op rfl fun g _ => (eventResponse_within ..).passes rfl g
    refine passes_op rfl fun g _ => ?_
    split
    · exact ((retire_within _).passes rfl g).bind fun _ g _ => hrest g _
    · exact hrest g _
  · exact hr _ _
  · exact hr _ _
  · exact passes_op rfl fun g _ => hr g _

theorem admitNew_passes (wire : ExecuteRequest) (i : Identity) (exp : Int) : Passes .locked (admitNew wire i exp) := by
  refine isDraining_clears.bind fun draining g hg => ?_
  cases draining
  · obtain rfl := hg rfl
    refine .stay (fun _ => rfl) fun permit => ?_
    split
    · exact refuse_passes _ _ _ _ _
    refine evict_clears.thence fun _ => ?_
    refine .stay (fun _ => rfl) fun len => ?_
    split
    · exact refuse_passes _ _ _ _ _
    refine ((activate_within _).cleared rfl).thence fun active => ?_
    split
    · exact passes_op rfl fun g _ => passes_op rfl fun g _ => refuse_passes g _ _ _ _
    · exact reserveExecution_passes wire i exp
  · exact refuse_passes g _ _ _ _

theorem resubmitted_passes (g : Gate) (i : Identity) (old : ExistingExecution) : Passes g (resubmitted i old) := by
  have ha : ∀ g, Passes g (attach i old) := by
    intro g
    refine passes_op rfl fun g found => ?_
    split
    · exact passes_op rfl fun _ _ => trivial
    · trivial
  unfold resubmitted
  split
  · trivial
  split
  · trivial
  split
  · trivial
  · exact (ha g).bind fun rec g _ => passes_op rfl fun g _ => (eventResponse_within ..).passes rfl g

theorem identify_passes (config : NodeConfig) (wire : ExecuteRequest) (i : Identity) :
    Passes .outside (identify config wire i) := by
  refine .stay (fun _ => rfl) fun now => .op fun _ => ⟨.locked, rfl, .stay (fun _ => rfl) fun found => ?_⟩
  split
  · trivial
  · exact resubmitted_passes _ i _
  · exact admitNew_passes wire i _

theorem execute_passes (config : NodeConfig) (principal : PrincipalId) (wire : ExecuteRequest) :
    Passes .outside (execute config principal (.parsed wire)) := by
  have hout : Indifferent [.reading] (Passes .outside) := by
    refine ⟨fun _ => trivial, fun {o _} ho hf => .stay (fun answer => ?_) hf⟩
    cases o <;> first
      | rfl
      | cases ho
  exact execute_rule hout principal fun i _ => identify_passes config wire i

/-! ### All tasks -/

/-- A task that is no `execute` request may do anything. -/
theorem free_passes {α : Type} (p : Async α) : gate.Conforms (fun _ _ => True) .free p := by
  have hf : ∀ (o : Op) (answer : o.Answer), Gate.free.advance o answer = some .free := by
    intro o answer
    cases o <;> rfl
  induction p with
  | done v => trivial
  | perform o next ih => exact fun answer => ⟨.free, hf o answer, ih answer⟩
  | loop l => exact .inl rfl

theorem Gate.advance_free (h : g.advance o answer = some g') : g' = .free ↔ g = .free := by
  cases o <;> first
    | (cases h; exact Iff.rfl)
    | skip
  case lockExecutions | unlockExecutions | respond | loadDraining | isPersistentlyDraining =>
    cases h
    revert answer
    cases g <;> simp [Gate.goes, Gate.flag, Gate.mark]
  case reserve | executionsInsert =>
    simp only [Gate.advance] at h
    split at h <;> cases h
    exact Iff.rfl

def gateDiscipline : Discipline Gate where
  protocol := gate
  idle := .outside
  birth := Gate.birth
  final _ := True
  final_idle := trivial
  requests {config request task} h := by
    unfold Request.task at h
    split at h
    · cases h
      refine (execute_passes config ..).bind fun response g _ => .op fun _ => ⟨_, rfl, ?_⟩
      split
      · by_cases hg : g = .free
        · exact .inl (if_pos hg)
        · exact .inr ⟨if_neg hg, trivial⟩
      · trivial
    · cases h
      exact free_passes _
    · obtain ⟨named, _, he⟩ := Option.map_eq_some_iff.mp h
      cases he
      exact free_passes _
    · cases h
  loops {l g} h := by
    rcases h with rfl | ⟨rfl, hl⟩
    · exact free_passes _
    cases l <;> cases hl
    rename_i stream
    refine (Protocol.Conforms.of_uses (fun o ho answer => ?_) (fun _ hl => Or.inr ⟨rfl, hl⟩)
      (nextEvent_within stream)).mono fun _ _ _ => trivial
    have harea := List.mem_singleton.mp (List.contains_iff_mem.mp (Bool.and_eq_true_iff.mp ho).1)
    cases o <;> first
      | rfl
      | cases harea
  spawns h := by
    rcases spawns_cases h with ⟨r, rfl, rfl⟩ | ⟨request, rfl, rfl⟩ <;> exact .inl rfl
  fits face g := g = .free → face.origin.admits = none
  fits_idle _ h := by cases h
  fits_birth origin h := by
    cases origin with
    | execute handle => cases h
    | _ => rfl
  fits_advance {face g o answer g'} hfits hmove hfree := by
    rw [o.shows_origin]
    exact hfits ((Gate.advance_free hmove).mp hfree)

/-! ### Behind the gate the map is locked -/

/-- The protocols of admission, of runs and of the gate together. -/
abbrev gatedDiscipline : Discipline ((Local × RunStage) × Gate) := runDiscipline.prod gateDiscipline

/-- Who stands within the gate holds the map. -/
def Gated (locals : TaskId → (Local × RunStage) × Gate) (_ : View J) : Prop :=
  ∀ t, (locals t).2.within = true → (locals t).1.1.holds = true

theorem Gate.advance_within {l l' : Local} (hgate : g.advance o answer = some g') (hl : l.advance o answer = some l')
    (h : g.within = true → l.holds = true) (hw : g'.within = true) : l'.holds = true := by
  by_cases hg : o.guards = false
  · rw [Local.advance_holds hg hl]
    apply h
    -- apart from the lock nothing leads in
    cases o <;> first
      | (cases hg; done)
      | (cases hgate; exact hw)
      | skip
    case loadDraining | isPersistentlyDraining =>
      cases hgate
      cases g <;> first
        | rfl
        | cases hw
    case reserve | executionsInsert =>
      obtain ⟨_, ⟨⟩⟩ := Option.ite_none_right_eq_some.mp hgate
      exact hw
  · have hout : ∀ g : Gate, (g.goes .outside).within = false := by
      intro g
      cases g <;> rfl
    cases Local.advance_moves hl with
    | locksMap => rfl
    | unlocksMap | responds =>
      cases hgate
      rw [hout] at hw
      cases hw
    | publishes ho hp =>
      cases o <;> first
        | (cases ho; done)
        | (cases hgate; exact h hw)
    | keeps ho =>
      cases o <;> first
        | (cases ho; done)
        | exact absurd rfl hg
    | _ => exact absurd rfl hg

theorem gatedDiscipline_births (ls : TaskId → (Local × RunStage) × Gate) (n : TaskId) (o : Op) (i : TaskId) :
    gatedDiscipline.births ls n o i = ls i ∨ (gatedDiscipline.births ls n o i).2 = .free := by
  unfold Discipline.births
  cases hs : o.spawns with
  | none => exact .inl rfl
  | some spawned =>
    obtain ⟨origin, l⟩ := spawned
    by_cases hi : i = n
    · subst hi
      right
      show (update ls i (gatedDiscipline.birth origin) i).2 = _
      rw [update_self]
      rcases spawns_cases hs with ⟨r, rfl, _⟩ | ⟨req, rfl, _⟩ <;> rfl
    · exact .inl (update_of_ne hi _ _)

theorem gated_inductive (Rule : Node J → Action → Prop) : gatedDiscipline.Inductive Rule Nothing Gated where
  performs {s t task choice o next answer v ls g n} _ _ _ _ _ _ hm _ _ _ _ h i := by
    obtain ⟨hr, hgate⟩ := prod_advance.mp hm
    by_cases hit : i = t
    · subst hit
      rw [update_self]
      exact Gate.advance_within hgate (prod_advance.mp hr).1 (h i)
    rw [update_of_ne hit]
    rcases gatedDiscipline_births ls n o i with he | he
    · rw [he]
      exact h i
    · rw [he]
      exact fun hw => (nomatch hw)
  releases _ _ h := h
  arrives {ls v n} origin _ _ _ _ h i := by
    by_cases hi : i = n
    · subst hi
      rw [update_self]
      cases origin <;> exact fun hw => (nomatch hw)
    · rw [update_of_ne hi]
      exact h i
  drops {s t task ls} _ _ _ _ _ _ h i := by
    by_cases hi : i = t
    · subst hi
      rw [update_self]
      exact fun hw => (nomatch hw)
    · rw [update_of_ne hi]
      exact h i
  jobs _ _ _ _ h := h
  crashes _ _ _ hw := nomatch hw
  recovers _ _ _ _ _ h := h
  starts _ _ _ _ _ _ _ h := h

section Step
variable {config : NodeConfig} {ls ls' : TaskId → (Local × RunStage) × Gate} {s s' : Node J} {a : Action}

/-- A stage of the gate nobody has reached, and that no operation leads to from here. -/
theorem unreached_moves {stage : Gate → Bool} (hout : stage .outside = false) (hf : stage .free = false)
    (hperform : ∀ {t c o answer s₁ g g'}, perform config s t c o = some (answer, s₁) →
      Gate.advance g o answer = some g' → stage g = false → stage g' = false)
    (h : gatedDiscipline.Moves config ls s a ls' s') (hn : ∀ t, stage (ls t).2 = false) (t : TaskId) :
    stage (ls' t).2 = false := by
  cases h with
  | @performs i task c o next answer s₁ g htask hprogram hp hm =>
    by_cases hti : t = i
    · subst hti
      rw [update_self]
      exact hperform hp (prod_advance.mp hm).2 (hn t)
    rw [update_of_ne hti]
    rcases gatedDiscipline_births ls s.threads.length o t with he | he
    · rw [he]
      exact hn t
    · rw [he]
      exact hf
  | @arrives request task =>
    by_cases ht : t = s.threads.length
    · subst ht
      rw [update_self]
      cases task.origin <;> first
        | exact hout
        | exact hf
    · rw [update_of_ne ht]
      exact hn t
  | @drops i =>
    by_cases hti : t = i
    · subst hti
      rw [update_self]
      exact hout
    · rw [update_of_ne hti]
      exact hn t
  | crashes => exact hout
  | _ => exact hn t

/-- Who reserves or inserts next has been let through. -/
theorem cleared_of_gated (hk : gatedDiscipline.Keeps ls s) {t : TaskId} (ho : o.gated = true)
    (hn : s.nextOp t = some o) : (ls t).2 = .cleared := by
  obtain ⟨task, next, ht, hp⟩ := nextOp_inv hn
  have hthreads := threads_getElem? ht
  have hall := hk.conforms hthreads
  rw [hp] at hall
  obtain ⟨answer⟩ := o.answer_nonempty
  obtain ⟨g, hm, _⟩ := hall answer
  obtain ⟨hr, hgate⟩ := prod_advance.mp hm
  have hl : (ls t).1.1.advance o answer = some g.1.1 := (prod_advance.mp hr).1
  have hgate : (ls t).2.advance o answer = some g.2 := hgate
  obtain ⟨⟨hadm, _⟩, hf⟩ := hk.fits hthreads
  -- only an `execute` request is admitting, and it is not free of the gate
  have ha : ∃ key claim, (ls t).1.1.role = .admitting key claim := by
    cases o <;> first
      | (cases ho; done)
      | skip
    case reserve => exact ⟨_, _, (Local.advance_reserve hl).1⟩
    case executionsInsert =>
      obtain ⟨_, key, _, hrole, _⟩ := Local.advance_executionsInsert hl
      exact ⟨key, _, hrole⟩
  have hopen : (ls t).2 = .free ∨ (ls t).2 = .cleared := by
    cases o <;> first
      | (cases ho; done)
      | skip
    case reserve | executionsInsert =>
      simp only [Gate.advance] at hgate
      split at hgate <;> first
        | assumption
        | cases hgate
  refine hopen.resolve_left fun he => ?_
  obtain ⟨key, claim, hrole⟩ := ha
  have hadmits := hadm.1 key claim hrole
  rw [hf he] at hadmits
  cases hadmits

theorem Gated.empty {v : View J} (h : Gated ls v) (hfound : Founded (fun t => (ls t).1.1) v)
    (hf : v.executionsLock = none) (t : TaskId) : (ls t).2.within = false := by
  by_contra hw
  have hl := (hfound.2.map t).mp (h t (Bool.not_eq_false _ ▸ hw))
  rw [hf] at hl
  cases hl

end Step
end Eggwork.Server
