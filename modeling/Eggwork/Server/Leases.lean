import Eggwork.Store.Renewal
import Eggwork.Server.Moves
import Eggwork.Server.Records

/-! Leases of running executions.

A lease is renewed, and marked expired, under its lock. `Leasing` says what a task
that holds the lock knows of the lease: it was found unexpired, or due at a clock
reading taken under the lock. The lock makes that knowledge last until it is
released (`LeaseHeld`): so the monitor marks a lease only when it is due, and a
renewal that answers success finds it unmarked. A notification the monitor misses
makes no difference: nothing here depends on what wakes it. -/
namespace Eggwork.Server
open Lib Store Runner Function Option Bool Nat Protocol.Conforms Discipline

variable {J : Serde}
variable {r : RecordId} {t : TaskId} {choice : Choice}

/-! ### The protocol of the lock -/

inductive Leasing where
  | gone
  | other
  | idle
  | locked (r : RecordId)
  | timed (r : RecordId) (now : Nat)
  | live (r : RecordId)
  | due (r : RecordId)
  | renewed (r : RecordId)
deriving DecidableEq

def Area.leases : Area → Bool
  | .lease | .expiry => true
  | _ => false

variable {areas : List Area}

/-- The answer of a renewal that succeeds. -/
def Response.renews : Response → Bool
  | .snapshot status _ => status == 200
  | _ => false

variable {response : Response}

namespace Leasing

/-- The record whose lease lock the task holds. -/
def held? : Leasing → Option RecordId
  | .locked r | .timed r _ | .live r | .due r | .renewed r => some r
  | _ => none

def read (i : RecordId) (lease : LeaseState) : Leasing → Option Leasing
  | .locked r => if r = i then some (if lease.expired then .locked r else .live r) else none
  | .timed r now => if r = i then some (if lease.expiresAt ≤ now then .due r else .locked r) else none
  | _ => none

/-- The clock is read. -/
def clock (now : Nat) : Leasing → Leasing
  | .locked r => .timed r now
  | g => g

def isRenewed : Leasing → Bool
  | .renewed _ => true
  | _ => false

/-- How an operation of a task that has to do with leases moves it. -/
def act (g : Leasing) : (o : Op) → o.Answer → Option Leasing
  | .lockLease r, _ => if g = .idle then some (.locked r) else none
  | .unlockLease r, _ => if g.held? = some r then some .idle else none
  | .readLease r, lease => g.read r lease
  | .instant, now => some (g.clock now)
  | .extendLease r _, _ => if g = .live r then some (.renewed r) else none
  | .expireLease r, _ => if g = .due r then some g else none
  | .respond response, _ => if !response.renews || g.isRenewed then some .idle else none
  | _, _ => some g

def advance (g : Leasing) (o : Op) (answer : o.Answer) : Option Leasing :=
  match g with
  | .gone => none
  | .other => if o.area.leases then none else some .other
  | g => g.act o answer

def enter : Loop → Leasing → Prop
  | .events _, g => g = .other ∨ g = .idle
  | _, g => g = .idle

def birth : Origin → Leasing
  | .execute _ | .events .. => .other
  | _ => .idle

end Leasing

abbrev leasing : Protocol effects Leasing where
  advance := Leasing.advance
  enter := Leasing.enter

/-! ### Every task keeps to it -/

/-- A task that has nothing to do with leases does as it likes elsewhere. -/
theorem Leasing.advance_other (ha : areas.any Area.leases = false) {o : Op} (ho : o.within areas = true)
    (answer : o.Answer) : Leasing.other.advance o answer = some .other :=
  if_neg (eq_false_iff.mp (Op.area_of_within ha ho))

/-- Elsewhere, and until it answers, a task does not take the lock. -/
theorem Leasing.advance_idle (ha : areas.any (fun a => a.leases || a == .answer) = false) {o : Op}
    (ho : o.within areas = true) (answer : o.Answer) : Leasing.idle.advance o answer = some .idle := by
  have harea := Op.area_of_within ha ho
  cases o <;> first
    | rfl
    | cases harea

theorem Within.idles {α : Type} {p : Async α} (h : Within areas p)
    (ha : areas.any (fun a => a.leases || a == .answer) = false) : leasing.Conforms (fun _ g => g = .idle) .idle p :=
  .of_uses (fun _ ho answer => Leasing.advance_idle ha ho answer) (fun _ hl => hl.elim) h

/-- What a handler may answer, and how it may stand when it does. -/
def Leasing.Settles (response : Response) (g : Leasing) : Prop :=
  g ≠ .gone ∧ g ≠ .other ∧ (response.renews = true → g.isRenewed = true)

theorem Leasing.Settles.plain {g : Leasing} (hgone : g ≠ .gone) (hne : g ≠ .other) (h : response.renews = false) :
    g.Settles response := by
  refine ⟨hgone, hne, fun hr => ?_⟩
  rw [h] at hr
  cases hr

theorem Leasing.Settles.responds {g : Leasing} (h : g.Settles response) :
    g.advance (.respond response) () = some .idle := by
  obtain ⟨hgone, hne, hrenew⟩ := h
  have hact : g.act (.respond response) () = some .idle := by
    refine if_pos ?_
    cases hr : response.renews with
    | false => rfl
    | true => rw [hrenew hr, Bool.or_true]
  cases g <;> first
    | exact absurd rfl hgone
    | exact absurd rfl hne
    | exact hact

theorem leaseLapsed_leasing (r : RecordId) :
    leasing.Conforms (fun lapsed g => (g = .locked r ∨ g = .live r) ∧ (lapsed = false → g = .live r)) (.locked r)
      (leaseLapsed r) := by
  refine .op fun lease => ⟨if lease.expired then .locked r else .live r, if_pos rfl, ?_⟩
  split
  · exact ⟨.inl rfl, nofun⟩
  · exact .stay (fun _ => rfl) fun now => ⟨.inr rfl, fun _ => rfl⟩

theorem renew_leasing (config : NodeConfig) (r : RecordId) (req : ControlRequest) (leaseHash : String)
    (snap : ExecutionSnapshot) : leasing.Conforms Leasing.Settles .idle (renew config r req leaseHash snap) := by
  have hidle : ∀ status code message,
      leasing.Conforms Leasing.Settles .idle (pure (.error status code message) : Async Response) :=
    fun _ _ _ => .plain nofun nofun rfl
  unfold renew
  split
  · exact hidle _ _ _
  split
  · exact hidle _ _ _
  split
  · exact hidle _ _ _
  refine .op fun _ => ⟨.locked r, rfl, (leaseLapsed_leasing r).bind ?_⟩
  rintro lapsed g ⟨hg, hl⟩
  split
  · rcases hg with rfl | rfl <;> exact .plain nofun nofun rfl
  rename_i hlapsed
  rw [hl (not_eq_true _ ▸ hlapsed)]
  refine .stay (fun _ => rfl) fun now => .stay (fun _ => rfl) fun answer => ?_
  split
  · exact .plain nofun nofun rfl
  · exact .plain nofun nofun rfl
  · refine .stay (fun _ => rfl) fun now => .stay (fun _ => rfl) fun instant => ?_
    exact .op fun _ => ⟨.renewed r, if_pos rfl, ⟨nofun, nofun, fun _ => rfl⟩⟩

theorem cancel_leasing (r : RecordId) (snap : ExecutionSnapshot) :
    leasing.Conforms Leasing.Settles .idle (cancel r snap) := by
  have hread : leasing.Conforms Leasing.Settles .idle
      (do pure (.snapshot 202 (← await (.readSnapshot r))) : Async Response) :=
    .stay (fun _ => rfl) fun _ => .plain nofun nofun rfl
  unfold cancel
  split
  · refine .op fun _ => ⟨.locked r, rfl, (leaseLapsed_leasing r).bind ?_⟩
    rintro lapsed g ⟨hg, _⟩
    split
    · rcases hg with rfl | rfl <;> exact .plain nofun nofun rfl
    have hu : ∀ answer, g.advance (.unlockLease r) answer = some .idle := by
      rcases hg with rfl | rfl <;> exact fun _ => if_pos rfl
    refine .op fun answer => ⟨.idle, hu answer, ((publish_within ..).idles rfl).bind ?_⟩
    rintro _ _ rfl
    refine .stay (fun _ => rfl) fun current => ?_
    split
    · exact .stay (fun _ => rfl) fun _ => hread
    · exact hread
  · split
    · exact .stay (fun _ => rfl) fun _ => hread
    · exact hread

theorem control_leasing (config : NodeConfig) (id : ExecutionId) (principal : PrincipalId) (isRenew : Bool)
    (req : ControlRequest) :
    leasing.Conforms Leasing.Settles .idle (control config id principal isRenew (.parsed req)) := by
  have hidle : Indifferent [.reading, .identity] fun handler => leasing.Conforms Leasing.Settles .idle handler := by
    refine ⟨fun {response} hresponse => .plain nofun nofun ?_, fun ho hf => .stay (Leasing.advance_idle rfl ho) hf⟩
    cases response <;> first
      | rfl
      | cases hresponse
  refine control_rule (hidle.mono (by decide)) (fun req old => ?_) _
  refine ((fetchRecord_within _).idles rfl).thence fun rec => ?_
  split
  · exact hidle.refused rfl
  refine hidle.op rfl fun hash => ?_
  split
  · exact hidle.refused rfl
  refine hidle.op rfl fun snap => ?_
  split
  · exact renew_leasing ..
  · exact cancel_leasing _ snap

/-- The monitor takes the lock to look at the deadline, and again before it marks the lease. -/
theorem monitorLease_leasing (r : RecordId) : leasing.Conforms (fun _ g => g.held? = none) .idle (monitorLease r) := by
  refine .stay (fun _ => rfl) fun snap => ?_
  split
  · rfl
  refine .op fun _ => ⟨.locked r, rfl, .op fun lease => ⟨if lease.expired then .locked r else .live r, if_pos rfl, ?_⟩⟩
  have hu : ∀ answer,
      (if lease.expired then Leasing.locked r else .live r).advance (.unlockLease r) answer = some .idle := by
    intro answer
    split <;> exact if_pos rfl
  refine .op fun answer => ⟨.idle, hu answer, .stay (fun _ => rfl) fun wake => ?_⟩
  split
  · rfl
  · rfl
  refine .op fun _ => ⟨.locked r, rfl, .op fun now => ⟨.timed r now, rfl, .op fun lease => ?_⟩⟩
  by_cases hdue : now ≥ lease.expiresAt
  · refine ⟨.due r, (if_pos rfl).trans (congrArg some (if_pos hdue)), ?_⟩
    rw [if_pos hdue]
    refine .stay (fun _ => if_pos rfl) fun _ => .stay (fun _ => rfl) fun _ => .last fun _ => ⟨.idle, if_pos rfl, rfl⟩
  · refine ⟨.locked r, (if_pos rfl).trans (congrArg some (if_neg hdue)), ?_⟩
    rw [if_neg hdue]
    exact .op fun _ => ⟨.idle, if_pos rfl, rfl⟩

theorem finishRun_leasing (run : Run) : leasing.Conforms (fun _ g => g.held? = none) .idle (finishRun run) := by
  refine .op fun _ => ⟨.locked run.request.record, rfl, .op fun lease => ?_⟩
  refine ⟨if lease.expired then .locked run.request.record else .live run.request.record, if_pos rfl, ?_⟩
  have hu : ∀ answer, (if lease.expired then Leasing.locked run.request.record else .live run.request.record).advance
      (.unlockLease run.request.record) answer = some .idle := by
    intro answer
    split <;> exact if_pos rfl
  refine .op fun answer => ⟨.idle, hu answer, ((finalize_within run _).idles rfl).bind ?_⟩
  rintro res _ rfl
  refine .stay (fun _ => rfl) fun _ => ((publish_within ..).idles rfl).thence fun _ => ?_
  exact .last fun _ => ⟨.idle, rfl, rfl⟩

theorem body_leasing {l : Loop} {g : Leasing} (h : Leasing.enter l g) :
    leasing.Conforms (fun _ g => g.held? = none) g (body l) := by
  have hp : ∀ {r state res kind} {f : Unit → Async Unit},
      leasing.Conforms (fun _ g => g.held? = none) .idle (f ()) →
      leasing.Conforms (fun _ g => g.held? = none) .idle (publish r state res kind >>= f) := by
    intro r state res kind f hf
    refine ((publish_within ..).idles rfl).thence fun _ => ?_
    exact hf
  cases l with
  | monitorLease r =>
    cases h
    exact monitorLease_leasing r
  | runExecution req =>
    cases h
    exact hp (.stay (fun _ => rfl) fun _ => rfl)
  | drain run =>
    cases h
    refine .stay (fun _ => rfl) fun polled => ?_
    split
    · exact hp rfl
    · show Leasing.enter (if _ then _ else _) _
      split <;> rfl
    · refine .stay (fun _ => rfl) fun drained => ?_
      split <;> rfl
    · exact .last fun _ => ⟨.idle, rfl, rfl⟩
  | flush run =>
    cases h
    refine .stay (fun _ => rfl) fun received => ?_
    split
    · exact hp rfl
    · exact finishRun_leasing run
  | events stream =>
    have hs : ∀ {l : Loop} {g : Leasing}, l.isStream → g = .other ∨ g = .idle → Leasing.enter l g := by
      intro l g hl hg
      cases l <;> first
        | exact hg
        | cases hl
    rcases h with rfl | rfl
    · exact (of_uses (fun o ho answer => Leasing.advance_other rfl ho answer)
        (fun _ hl => hs hl (.inl rfl)) (nextEvent_within stream)).mono fun _ g hg => hg ▸ rfl
    · exact (of_uses (fun o ho answer => Leasing.advance_idle rfl ho answer)
        (fun _ hl => hs hl (.inr rfl)) (nextEvent_within stream)).mono fun _ g hg => hg ▸ rfl

theorem request_leasing {config : NodeConfig} {req : Request} {task : Task} (h : req.task config = some task) :
    leasing.Conforms (fun _ g => g.held? = none) (Leasing.birth task.origin) task.program := by
  -- a req that is no control req keeps out of the lease areas
  have hne : ∀ {handler : Async Response}, task.program = serve handler → Within task.origin.areas handler →
      task.origin.areas.any Area.leases = false → leasing.Conforms (fun _ g => g.held? = none) .other task.program := by
    intro handler hp hw ha
    have hs : (Area.answer :: task.origin.areas).any Area.leases = false := ha
    rw [hp]
    refine (of_uses (fun o ho answer => Leasing.advance_other hs ho answer) (fun l hl => ?_)
      hw.serve).mono fun _ g hg => hg ▸ rfl
    cases l <;> first
      | exact .inl rfl
      | cases hl
  obtain ⟨handler, hp, hw⟩ := request_within h
  unfold Request.task at h
  split at h
  · cases h
    exact hne hp hw rfl
  · cases h
    refine (control_leasing config ..).bind fun response g hg => .op fun _ => ⟨.idle, hg.responds, ?_⟩
    split
    · exact .inr rfl
    · rfl
  · obtain ⟨named, _, rfl⟩ := map_eq_some_iff.mp h
    exact hne hp hw rfl
  · cases h

/-- A task that has to do with leases goes on having to do with them. -/
theorem Leasing.act_ne {g g' : Leasing} {o : Op} {answer : o.Answer} (h : g.act o answer = some g')
    (hne : g ≠ .other) : g' ≠ .other := by
  cases o <;> first
    | (cases h; exact hne)
    | skip
  case lockLease | unlockLease | extendLease | respond =>
    simp only [act] at h
    split at h <;> cases h
    exact Leasing.noConfusion
  case expireLease =>
    simp only [act] at h
    split at h <;> cases h
    exact hne
  case instant =>
    cases h
    cases g <;> first
      | exact absurd rfl hne
      | exact Leasing.noConfusion
  case readLease i =>
    cases g <;> simp only [act, read] at h <;> first
      | cases h
      | (split at h <;> cases h; split <;> exact Leasing.noConfusion)

/-- All tasks of the node keep to the protocol of the lease lock. -/
def leaseDiscipline : Discipline Leasing where
  protocol := leasing
  idle := .gone
  birth := Leasing.birth
  final g := g.held? = none
  final_idle := rfl
  requests := request_leasing
  loops := body_leasing
  spawns := by
    intro o origin l h
    rcases spawns_cases h with ⟨r, rfl, rfl⟩ | ⟨request, rfl, rfl⟩ <;> rfl
  fits face g := ∀ id generation isRenew, face.origin = .control id generation isRenew → g ≠ .other
  fits_idle _ _ _ _ _ := nofun
  fits_birth origin id generation isRenew h := by
    have h : origin = .control id generation isRenew := h
    subst h
    exact Leasing.noConfusion
  fits_advance {face g o answer g'} hfits hmove id generation isRenew h := by
    rw [o.shows_origin] at h
    have hother := hfits id generation isRenew h
    cases g <;> first
      | cases hmove
      | exact absurd rfl hother
      | exact Leasing.act_ne hmove hother

/-! ### What the lock keeps true -/

/-- What a task knows of a lease whose lock it holds, and what was noted of it. -/
def Leasing.Knows (instant : Nat) (lease : LeaseState) (extended : Option RecordId) : Leasing → Prop
  | .timed _ now => now ≤ instant
  | .live _ => lease.expired = false
  | .due _ => lease.expiresAt ≤ instant
  | .renewed r => lease.expired = false ∧ extended = some r
  | _ => True

variable {g g' : Leasing}

/-- The record whose lease each task has extended, as an observer of one process notes it. -/
abbrev Extended := TaskId → Option RecordId

def Extended.noteOp (w : Extended) (t : TaskId) : Op → Extended
  | .extendLease r _ => update w t (some r)
  | _ => w

def Extended.note (s : Node J) (a : Action) (w : Extended) : Extended :=
  match a with
  | .task t _ => (s.nextOp t).elim w (w.noteOp t)
  | .crash => fun _ => none
  | _ => w

/-- Whoever holds a lease lock in the protocol has it, and what it knows is so. -/
def LeaseHeld (locals : TaskId → Leasing) (s : Node J) (w : Extended) : Prop :=
  ∀ t r, (locals t).held? = some r → ∃ record, s.records[r]? = some record ∧ record.leaseLock = some t ∧
    (locals t).Knows s.instant record.lease (w t)

theorem Leasing.Knows.later {instant instant' : Nat} {lease : LeaseState} {extended : Option RecordId}
    (hnow : instant ≤ instant') (h : g.Knows instant lease extended) : g.Knows instant' lease extended := by
  cases g with
  | timed r now | due r => exact le_trans h hnow
  | _ => exact h

/-- The record whose lease, or lease lock, an operation moves. -/
def Op.leased? : Op → Option RecordId
  | .lockLease r | .unlockLease r | .extendLease r _ | .expireLease r => some r
  | _ => none

variable {o : Op} {answer : o.Answer}

/-- Other operations leave the lease and its lock, unless its holder answers. -/
theorem touch_lease (t : TaskId) (rec : ExecutionRecord) (h : o.leased? ≠ some r) : (o.touch t r rec).lease = rec.lease ∧
      ((o.touch t r rec).leaseLock = rec.leaseLock ∨ (∃ response, o = .respond response) ∧ rec.leaseLock = some t) := by
  cases o <;> first
    | exact ⟨rfl, .inl rfl⟩
    | skip
  case respond response =>
    refine ⟨rfl, ?_⟩
    by_cases hl : rec.leaseLock = some t
    · exact .inr ⟨⟨response, rfl⟩, hl⟩
    · exact .inl (if_neg hl)
  all_goals
    simp only [Op.touch]
    split
    · rename_i hi
      first
        | exact ⟨rfl, .inl rfl⟩
        | exact absurd (congrArg some hi) h
    · exact ⟨rfl, .inl rfl⟩

/-- Who moves a lease or its lock holds the lock, or takes it. -/
theorem Leasing.advance_leased (h : g.advance o answer = some g') (hr : o.leased? = some r) :
    g.held? = some r ∨ o = .lockLease r := by
  have hact : g.act o answer = some g' := by
    cases g <;> first
      | exact h
      | cases h
      | skip
    cases o <;> cases hr <;> cases h
  cases o <;> cases hr
  case lockLease => exact .inr rfl
  case unlockLease => exact .inl (ite_none_right_eq_some.mp hact).1
  case extendLease | expireLease =>
    obtain ⟨hg, ⟨⟩⟩ := ite_none_right_eq_some.mp hact
    exact .inl (hg ▸ rfl)

theorem Leasing.advance_expireLease (h : g.advance (.expireLease r) () = some g') : g = .due r := by
  cases g <;> first
    | cases h
    | exact (ite_none_right_eq_some.mp h).1

theorem Leasing.advance_respond (h : g.advance (.respond response) () = some g') (hne : g ≠ .other)
    (hr : response.renews = true) : ∃ r, g = .renewed r := by
  cases g <;> first
    | exact ⟨_, rfl⟩
    | exact absurd rfl hne
    | cases h
    | skip
  all_goals
    have hcond := (ite_none_right_eq_some.mp h).1
    rw [hr] at hcond
    cases hcond

section Steps
variable {config : NodeConfig} {locals : TaskId → Leasing} {s s' : Node J} {w : Extended}

theorem Extended.noteOp_other {i : TaskId} (hne : i ≠ t) (w : Extended) (o : Op) : w.noteOp t o i = w i := by
  cases o <;> first
    | rfl
    | exact update_of_ne hne _ _

theorem record_touched (h : perform config s t choice o = some (answer, s')) {rec : ExecutionRecord}
    (hr : s.records[r]? = some rec) : s'.records[r]? = some (o.touch t r rec) := by
  rw [perform_record h r, hr]
  rfl

theorem LeaseHeld.others (h : LeaseHeld locals s w) {i : TaskId}
    (hp : perform config s t choice o = some (answer, s')) (hm : (locals t).advance o answer = some g)
    (hne : i ≠ t) (hr : (locals i).held? = some r) : ∃ rec, s'.records[r]? = some rec ∧ rec.leaseLock = some i ∧
      (locals i).Knows s'.instant rec.lease (w.noteOp t o i) := by
  obtain ⟨rec, hrecord, hl, hk⟩ := h i r hr
  have hs : o.leased? ≠ some r := by
    intro hlease
    rcases Leasing.advance_leased hm hlease with hheld | rfl
    · obtain ⟨rec', hr', hlock', _⟩ := h t r hheld
      rw [hrecord, some.injEq] at hr'
      rw [← hr', hl, some.injEq] at hlock'
      exact hne hlock'
    · simp only [perform, hrecord, hl] at hp
      cases hp
  obtain ⟨hleas, hkept⟩ := touch_lease t rec hs
  refine ⟨_, record_touched hp hrecord, ?_, ?_⟩
  · rcases hkept with hkept | ⟨_, hown⟩
    · exact hkept.trans hl
    · rw [hl, some.injEq] at hown
      exact absurd hown hne
  · rw [hleas, (perform_clock hp).1, Extended.noteOp_other hne]
    exact hk

/-- What a task does itself under the lock. -/
theorem LeaseHeld.own (h : LeaseHeld locals s w) (hp : perform config s t choice o = some (answer, s'))
    (hm : (locals t).advance o answer = some g) (hr : g.held? = some r) :
    ∃ rec, s'.records[r]? = some rec ∧ rec.leaseLock = some t ∧ g.Knows s'.instant rec.lease (w.noteOp t o t) := by
  have hact : (locals t).act o answer = some g := by
    unfold Leasing.advance at hm
    split at hm
    · cases hm
    · split at hm <;> cases hm
      cases hr
    · exact hm
  rw [(perform_clock hp).1]
  have hsame : g = locals t → o.leased? = none → (∀ response, o ≠ .respond response) → w.noteOp t o = w →
      ∃ rec, s'.records[r]? = some rec ∧ rec.leaseLock = some t ∧ g.Knows s.instant rec.lease (w.noteOp t o t) := by
    rintro rfl hlease hresult hw
    obtain ⟨rec, hrecord, hl, hk⟩ := h t r hr
    obtain ⟨hleas, hkept⟩ := touch_lease (r := r) t rec (by rw [hlease]; exact nofun)
    refine ⟨_, record_touched hp hrecord, ?_, by rw [hleas, hw]; exact hk⟩
    rcases hkept with hkept | ⟨⟨response, hresponse⟩, _⟩
    · exact hkept.trans hl
    · exact absurd hresponse (hresult response)
  cases o <;> first
    | (cases hact; exact hsame rfl rfl (fun _ => Op.noConfusion) rfl)
    | skip
  case lockLease i =>
    simp only [Leasing.act] at hact
    split at hact <;> cases hact
    cases hr
    cases hrecord : s.records[r]? with
    | none =>
      simp only [perform, hrecord] at hp
      cases hp
    | some rec =>
      refine ⟨_, record_touched hp hrecord, ?_, trivial⟩
      simp only [Op.touch, if_true]
  case unlockLease | respond =>
    simp only [Leasing.act] at hact
    split at hact <;> cases hact
    cases hr
  case readLease i =>
    obtain ⟨rec, hrecord, he⟩ := map_eq_some_iff.mp hp
    cases he
    cases hg : locals t with
    | locked i' =>
      rw [hg] at hact
      obtain ⟨rfl, ⟨⟩⟩ := ite_none_right_eq_some.mp hact
      obtain ⟨rec', hr', hl, _⟩ := h t i' (by rw [hg]; rfl)
      obtain rfl := some.inj (hrecord.symm.trans hr')
      split at hr <;> cases hr
      · rename_i hexpired
        exact ⟨rec, hrecord, hl, by rw [if_pos hexpired]; trivial⟩
      · rename_i hexpired
        exact ⟨rec, hrecord, hl, by rw [if_neg hexpired]; exact eq_false_iff.mpr hexpired⟩
    | timed i' now =>
      rw [hg] at hact
      obtain ⟨rfl, ⟨⟩⟩ := ite_none_right_eq_some.mp hact
      obtain ⟨rec', hr', hl, hk⟩ := h t i' (by rw [hg]; rfl)
      obtain rfl := some.inj (hrecord.symm.trans hr')
      rw [hg] at hk
      split at hr <;> cases hr
      · rename_i hdue
        exact ⟨rec, hrecord, hl, by rw [if_pos hdue]; exact le_trans hdue hk⟩
      · rename_i hdue
        exact ⟨rec, hrecord, hl, by rw [if_neg hdue]; trivial⟩
    | _ =>
      rw [hg] at hact
      cases hact
  case instant =>
    cases hg : locals t with
    | locked i =>
      obtain ⟨rec, hrecord, hl, _⟩ := h t i (by rw [hg]; rfl)
      rw [hg] at hact
      cases hact
      cases hr
      cases hp
      exact ⟨rec, hrecord, hl, le_refl _⟩
    | _ =>
      refine hsame ?_ rfl (fun _ => Op.noConfusion) rfl
      rw [hg] at hact ⊢
      exact (some.inj hact).symm
  case extendLease i expiresAt =>
    simp only [Leasing.act] at hact
    split at hact <;> cases hact
    cases hr
    rename_i hg
    obtain ⟨rec, hrecord, hl, hk⟩ := h t r (by rw [hg]; rfl)
    rw [hg] at hk
    refine ⟨_, record_touched hp hrecord, ?_, ?_, update_self ..⟩ <;> simp only [Op.touch, if_true]
    · exact hl
    · exact hk
  case expireLease i =>
    obtain ⟨hg, ⟨⟩⟩ := ite_none_right_eq_some.mp hact
    obtain ⟨rec, hrecord, hl, hk⟩ := h t r hr
    rw [hg] at hr hk ⊢
    cases hr
    refine ⟨_, record_touched hp hrecord, ?_, ?_⟩ <;> simp only [Op.touch, if_true]
    · exact hl
    · exact hk

/-- Going on at the end of a step: a task that ends holds no lock. -/
theorem LeaseHeld.resume (h : LeaseHeld locals s w) {prog : Async Unit}
    (hall : leaseDiscipline.Allows (locals t) prog) : LeaseHeld locals (s.resume t prog) w := by
  intro i r hr
  obtain ⟨rec, hrecord, hl, hk⟩ := h i r hr
  rw [(steady_resume s t prog).instant, records_resume, hrecord]
  refine ⟨_, rfl, ?_, ?_⟩
  · split
    · rename_i hdone
      have hne : i ≠ t := by
        rintro rfl
        cases prog with
        | done v =>
          rw [show (locals i).held? = none from hall] at hr
          cases hr
        | perform | loop => cases hdone
      have ho : rec.leaseLock ≠ some t := by
        rw [hl]
        exact fun he => hne (some.inj he)
      exact (if_neg ho).trans hl
    · exact hl
  · split <;> exact hk

theorem LeaseHeld.moves {a : Action} {ls' : TaskId → Leasing} (hmoves : leaseDiscipline.Moves config locals s a ls' s')
    (h : LeaseHeld locals s w) : LeaseHeld ls' s' (w.note s a) := by
  have hsame : ∀ {s' : Node J}, s'.records = s.records → s.instant ≤ s'.instant → LeaseHeld locals s' w := by
    intro s' hrs hnow i r hr
    obtain ⟨rec, hrecord, hl, hk⟩ := h i r hr
    exact ⟨rec, hrs ▸ hrecord, hl, hk.later hnow⟩
  have hpipe : ∀ {r f}, modifyPipe s r f = some s' → LeaseHeld locals s' w := by
    intro j f hpipe i r hr
    obtain ⟨rec, hrecord, hl, hk⟩ := h i r hr
    obtain ⟨_, _, p', _, _, _, rfl⟩ := modifyPipe_eq hpipe
    rw [records_modify, hrecord]
    refine ⟨_, rfl, ?_, ?_⟩ <;> split <;> assumption
  cases hmoves with
  | @performs t task choice o next answer s₁ g ht hprogram hp hm hn =>
    have hnote : w.note s (.task t choice) = w.noteOp t o := by
      simp only [Extended.note, nextOp_eq ht hprogram, elim_some]
    rw [hnote]
    refine LeaseHeld.resume (fun i r hr => ?_) (by rw [update_self]; exact hn)
    by_cases hit : i = t
    · subst hit
      rw [update_self] at hr ⊢
      exact h.own hp hm hr
    rw [update_of_ne hit] at hr ⊢
    have hb : leaseDiscipline.births locals s.threads.length o i = locals i := by
      unfold births at hr ⊢
      cases hs : o.spawns with
      | none => rfl
      | some spawned =>
        simp only [hs] at hr ⊢
        by_cases hi : i = s.threads.length
        · subst hi
          rw [update_self] at hr
          rcases spawns_cases hs with ⟨_, horigin, _⟩ | ⟨_, horigin, _⟩ <;> rw [horigin] at hr <;> cases hr
        · exact update_of_ne hi _ _
    rw [hb] at hr ⊢
    exact h.others hp hm hit hr
  | @rounds t task choice l ht hprogram hbody =>
    have hnote : w.note s (.task t choice) = w := by
      simp only [Extended.note, Node.nextOp, ht, bind_some, hprogram, elim_none]
    rw [hnote]
    exact h.resume hbody
  | @arrives request task hup ht =>
    intro i r hr
    by_cases hi : i = s.threads.length
    · rw [hi, update_self] at hr
      have hb : (Leasing.birth task.origin).held? = some r := hr
      cases horigin : task.origin <;> rw [horigin] at hb <;> cases hb
    · rw [update_of_ne hi] at hr ⊢
      exact h i r hr
  | @drops t task ht hrequest hall =>
    refine LeaseHeld.resume (fun i r hr => ?_) (by rw [update_self]; rfl)
    by_cases hi : i = t
    · rw [hi, update_self] at hr
      cases hr
    · rw [update_of_ne hi] at hr ⊢
      exact h i r hr
  | @finishes i fails o call hjob hcall => cases fails <;> exact hsame rfl (le_refl _)
  | writes hmode | closes hmode | exits hmode => exact hpipe hmode
  | answers | marks | drains | furnishes => exact hsame rfl (le_refl _)
  | ticks => exact hsame rfl (le_add_right _ _)
  | crashes => exact fun i r hr => (by cases hr)
  | starts hdown hidle =>
    intro i r hr
    rw [hidle i] at hr
    cases hr

end Steps

theorem leased_holds {config : NodeConfig} {s : Node J} {w : Extended}
    (hrun : Steps (watched (step config) Extended.note) (fun p => Free p.1) (fresh J, fun _ => none) (s, w)) :
    ∃ locals, leaseDiscipline.Keeps locals s ∧ LeaseHeld locals s w := by
  refine hrun.watched_invariant (fun s w => ∃ locals, leaseDiscipline.Keeps locals s ∧ LeaseHeld locals s w)
    (fun {s a s' w} _ hstep h => ?_) ⟨_, keeps_fresh, fun _ _ hr => (by cases hr)⟩
  obtain ⟨locals, hk, hl⟩ := h
  obtain ⟨ls', hk', hm⟩ := hk.moves hstep
  exact ⟨ls', hk', hl.moves hm⟩

theorem expiry_kept {config : NodeConfig} {s s' : Node J} (hs : Steps (step config) Free (fresh J) s)
    (hrun : Steps (step config) Free s s') {key : RowKey} {row : ExecutionRow J}
    (hr : s.store.executions.get? key = some row) :
    ∃ row', s'.store.executions.get? key = some row' ∧ row.leaseExpiresUnixMs ≤ row'.leaseExpiresUnixMs := by
  have hh := (owned_inductive Free).holds hs ⟨_, keeps_fresh, owned_fresh⟩
  refine (hrun.invariant (fun s => admissionDiscipline.Holds (fun locals v => Owned (claimsOf locals) v) s ∧
    ∃ row', s.store.executions.get? key = some row' ∧ row.leaseExpiresUnixMs ≤ row'.leaseExpiresUnixMs)
    (fun {s s' a} hrule hstep h => ?_) ⟨hh, row, hr, Int.le_refl _⟩).2
  obtain ⟨hh, row₁, hrow₁, hle⟩ := h
  refine ⟨(owned_inductive Free).step hrule hstep hh, ?_⟩
  obtain ⟨locals, hk, ho⟩ := hh
  obtain ⟨ls', _, hm⟩ := hk.moves hstep
  rcases hm.store_cases with he | ⟨call, he⟩
  · exact ⟨row₁, he ▸ hrow₁, hle⟩
  · obtain ⟨row₂, hrow₂, hle'⟩ := exec_expiry ho.sound.reachable.coherent call hrow₁
    exact ⟨row₂, he ▸ hrow₂, Int.le_trans hle hle'⟩

/-- **Lease safety.** In every run, a lease about to be marked expired is due at that
instant; a renewal about to answer success finds the lease it extended unmarked; and
the durable expiry of a row never decreases. -/
theorem lease_safety {config : NodeConfig} {s : Node J} {w : Extended}
    (hrun : Steps (watched (step config) Extended.note) (fun p => Free p.1) (fresh J, fun _ => none) (s, w)) :
    (∀ t r, s.nextOp t = some (.expireLease r) →
        ∃ record, s.records[r]? = some record ∧ record.lease.expiresAt ≤ s.instant) ∧
      (∀ t task id generation response, s.tasks[t]? = some task → task.origin = .control id generation true →
        s.nextOp t = some (.respond response) → response.renews = true →
        ∃ r record, w t = some r ∧ s.records[r]? = some record ∧ record.lease.expired = false) ∧
      ∀ s', Steps (step config) Free s s' → ∀ key row, s.store.executions.get? key = some row →
        ∃ row', s'.store.executions.get? key = some row' ∧ row.leaseExpiresUnixMs ≤ row'.leaseExpiresUnixMs := by
  obtain ⟨locals, hkeeps, hleased⟩ := leased_holds hrun
  refine ⟨fun t r hnext => ?_, fun t task id generation response htask horigin hnext hrenews => ?_,
    fun s' hrun' key row hrow => expiry_kept hrun.unwatched hrun' hrow⟩
  · obtain ⟨task, next, htask, hprogram⟩ := nextOp_inv hnext
    have hconforms := hkeeps.conforms (threads_getElem? htask)
    rw [hprogram] at hconforms
    obtain ⟨g, hmove, _⟩ := hconforms ()
    have hdue := Leasing.advance_expireLease hmove
    obtain ⟨record, hrecord, _, hknows⟩ := hleased t r (by rw [hdue]; rfl)
    rw [hdue] at hknows
    exact ⟨record, hrecord, hknows⟩
  · obtain ⟨task', next, htask', hprogram⟩ := nextOp_inv hnext
    obtain rfl := Option.some.inj (htask.symm.trans htask')
    have hconforms := hkeeps.conforms (threads_getElem? htask)
    have hother := hkeeps.fits (threads_getElem? htask) id generation true horigin
    rw [hprogram] at hconforms
    obtain ⟨g, hmove, _⟩ := hconforms ()
    obtain ⟨r, hr⟩ := Leasing.advance_respond hmove hother hrenews
    obtain ⟨record, hrecord, _, hknows⟩ := hleased t r (by rw [hr]; rfl)
    rw [hr] at hknows
    exact ⟨r, record, hknows.2, hrecord, hknows.1⟩

namespace Example

def renewer : Origin := .control (handle 1).executionId (handle 1).generation true

/-- The lease of the admitted execution is renewed, by task 3, up to the answer. -/
def renewing : List Action :=
  [.request (.control (handle 1).executionId client true (.parsed ⟨apiSchemaVersion, handle 1, some "a"⟩))] ++ runs 3 15

end Example

open Example

theorem lease_safety_renewing : ∃ (s : Node Serde.json) (w : Extended) (response : Response),
      Steps (watched (step config) Extended.note) (fun p => Free p.1) (fresh Serde.json, fun _ => none) (s, w) ∧
        s.nextOp 3 = some (.respond response) ∧ response.renews = true ∧
        ∃ r record, w 3 = some r ∧ s.records[r]? = some record ∧ record.lease.expired = false := by
  have hfollow : (follow (watched (step config) Extended.note) (fun p => Free p.1) (fresh Serde.json, fun _ => none)
      (admitted ++ running ++ renewing)).any (fun p =>
        (p.1.tasks[3]?).any (fun task => decide (task.origin = renewer)) &&
          (p.1.records[0]?).any fun record => decide (p.1.nextOp 3 = some (.respond (.snapshot 200 record.snapshot)))) =
        true := by
    decide
  obtain ⟨⟨s, w⟩, hrun, hp⟩ := follow_reaches hfollow
  simp only [Bool.and_eq_true, any_eq_true, decide_eq_true_eq] at hp
  obtain ⟨⟨task, htask, horigin⟩, record, _, hnext⟩ := hp
  exact ⟨s, w, _, hrun, hnext, rfl, (lease_safety hrun).2.1 3 task _ _ _ htask horigin hnext rfl⟩

end Eggwork.Server
