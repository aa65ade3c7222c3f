import Eggwork.Server.Locks
import Eggwork.Store.Journal

/-! The protocol of a request that is submitted again.

`execute` looks its handle up only after the gates of admission: the drain flag and
marker, the capabilities, the workspace. `Attach` is how far such a request is if
the store has its identity on record: `serve_attaches` says that `execute` keeps to
that protocol, `Attach.At.moves` that the answers of a node with the row never lead
it off. -/
namespace Eggwork.Server
open Lib Store Runner Bool Option

variable {J : Serde}
variable {v : View J} {known : Nat} {cfg : NodeConfig} {t : TaskId} {st : ExecutionStore J}

/-! ### What a resubmission is -/

/-- The checks `execute` makes of a request by itself. -/
def wellFormed (config : NodeConfig) (principal : PrincipalId) (wire : ExecuteRequest) : Bool :=
  wire.schemaVersion == apiSchemaVersion && authorized config principal wire &&
    wire.handle.generation.get != 0 && wire.spec.schemaVersion == apiSchemaVersion && wire.spec.validate.isOk &&
    (wire.spec.command.declaredOutputs.isEmpty || wire.workspaceId.isSome)

/-- What turns a resubmission away: a gate, or a read that fails. -/
inductive Refusal where
  | draining
  | isolation
  | resources
  | network
  | workspace
  | store
deriving DecidableEq

def Refusal.response : Refusal → Response
  | .draining => .error 503 "draining" "node is not accepting executions"
  | .isolation => .error 409 "capability_mismatch" "requested filesystem isolation capability is unavailable"
  | .resources => .error 409 "capability_mismatch" "requested resource control capability is unavailable"
  | .network => .error 409 "capability_mismatch" "requested network capability is unavailable"
  | .workspace => .error 409 "workspace_not_ready" "workspace is unavailable for this execution"
  | .store => storeUnavailable

/-- The first capability a request requires that is not advertised. -/
def unsupported (config : NodeConfig) (wire : ExecuteRequest) : Option Refusal :=
  if !checkIsolationSupported config wire.spec.command.isolation then some .isolation
  else if !checkResourcesSupported config wire.spec.command.resources then some .resources
  else if !checkNetworkSupported wire.spec.command.network then some .network
  else none

/-- What a request stands for. -/
def identityOf (config : NodeConfig) (principal : PrincipalId) (wire : ExecuteRequest) : Option Identity :=
  (config.requestDigestWithWorkspace wire.spec wire.workspaceId).map fun (canonicalVersion, digest) =>
    ⟨wire.handle, canonicalVersion, digest, principal.value, config.leaseHash wire.handle.leaseId⟩

/-- The store has this identity on record. -/
def Identity.Known (i : Identity) (st : ExecutionStore J) : Prop :=
  ∃ row, st.executions.get? i.key = some row ∧ UInt16.ofInt row.canonicalVersion = i.canonicalVersion ∧
    row.digest = i.digest ∧ row.principalId = i.principalId ∧ row.leaseTokenHash = i.leaseHash

def Identity.matches (i : Identity) (existing : ExistingExecution) : Bool :=
  existing.canonicalVersion == i.canonicalVersion && existing.principalId == i.principalId &&
    existing.digest == i.digest && existing.leaseTokenHash == i.leaseHash

def historyExpired : Response := .error 410 "history_expired" "event history has expired"

/-- The event stream of the execution from its start, or that it has expired. -/
def attaches (i : Identity) : Response → Bool
  | .events stream => stream.key == i.key && stream.lastSequence == 0
  | response => response == historyExpired

/-- The operations a resubmission makes: the gates, the reads, its answer. -/
def Op.attaches : Op → Bool
  | .loadDraining | .isPersistentlyDraining | .resolve .. | .incrementMetric _ | .unixMillis | .lockExecutions
  | .unlockExecutions | .lookup .. | .executionsGet _ | .readSnapshot _ | .subscribe _ | .loadPage .. | .respond _
  | .recv .. | .yield _ => true
  | _ => false

variable {o : Op} {a : o.Answer}

/-! ### The protocol of a resubmission -/

/-- How far a resubmission is. `lost` is where only a store without the row could
have led it; `barred` lacks a capability, which is checked after the drain. -/
inductive Attach where
  | lost
  | going (locked : Bool) (known : Nat)
  | barred (refusal : Refusal)
  | refused (refusal : Refusal)
  | attached
  | turned (refusal : Refusal)
deriving DecidableEq

/-- A gate is passed, or refuses. -/
def Attach.pass : Attach → Option Refusal → Option Attach
  | .going locked known, refusal => some (refusal.elim (.going locked known) .refused)
  | .barred bar, refusal => some (refusal.elim (.barred bar) .refused)
  | .refused first, _ => some (.refused first)
  | _, _ => none

def Refusal.when (refusal : Refusal) (refuses : Bool) : Option Refusal := if refuses then some refusal else none

/-- An operation on a record that was fetched. -/
def Attach.touch : Attach → RecordId → Option Attach
  | .going locked known, r => if r < known then some (.going locked known) else none
  | _, _ => none

def Attach.moves (i : Identity) (g : Attach) : (o : Op) → o.Answer → Option Attach
  | .loadDraining, draining => g.pass (Refusal.draining.when draining)
  | .isPersistentlyDraining, draining => g.pass (Refusal.draining.when draining)
  | .resolve .., root => g.pass (Refusal.workspace.when root.isNone)
  | .incrementMetric _, _ => g.pass none
  | .unixMillis, _ => g.pass none
  | .unlockExecutions, _ => g.pass none
  | .lockExecutions, _ =>
    match g with
    | .going false known => some (.going true known)
    | _ => none
  | .lookup id generation, answer =>
    if id = i.handle.executionId ∧ generation = i.handle.generation then
      match answer with
      | .ok (some existing) => if i.matches existing then g.pass none else some .lost
      | .ok none => some .lost
      | .error _ => g.pass (some .store)
    else none
  | .executionsGet _, found =>
    match g with
    | .going locked known => some (.going locked (found.elim known fun r => max known (r + 1)))
    | _ => none
  | .readSnapshot r, _ => g.touch r
  | .subscribe r, _ => g.touch r
  | .loadPage id generation after, answer =>
    if id = i.handle.executionId ∧ generation = i.handle.generation ∧ after = 0 then
      match answer with
      | .ok (some page) => if page.nextSequence = 0 then some .lost else g.pass none
      | .ok none => some .lost
      | .error _ => g.pass (some .store)
    else none
  | .respond response, _ =>
    match g with
    | .going .. => if attaches i response then some .attached else none
    | .barred refusal | .refused refusal => if response = refusal.response then some (.turned refusal) else none
    | _ => none
  | .recv .., _ => if g = .attached then some g else none
  | .yield _, _ => if g = .attached then some g else none
  | _, _ => none

abbrev attaching (i : Identity) : Protocol effects Attach where
  advance g o answer := if g = .lost then some .lost else g.moves i o answer
  enter l g := g = .lost ∨ (g = .attached ∧ ∃ stream, l = Loop.events stream)

/-- The request has not answered. -/
def Attach.pending : Attach → Bool
  | .going .. | .barred _ | .refused _ => true
  | _ => false

/-- The local states a task may end in: not before it has answered. -/
def Attach.final (g : Attach) : Prop := g.pending = false

/-- Where a request starts. -/
def Attach.start (bar : Option Refusal) : Attach := bar.elim (.going false 0) .barred

/-- What a handler that returns in a local state returns. -/
def Attach.answers (i : Identity) (response : Response) : Attach → Prop
  | .lost => True
  | .going .. => attaches i response = true
  | .barred refusal | .refused refusal => response = refusal.response
  | _ => False

/-! ### Conformance -/

section Conformance
variable {i : Identity}
variable {g : Attach}

theorem attaching_advance (hg : g ≠ .lost) (o : Op) (answer : o.Answer) :
    (attaching i).advance g o answer = g.moves i o answer := if_neg hg

/-- A handler's part that answers at its end. -/
abbrev Replies (i : Identity) (g : Attach) (p : Async Response) : Prop := (attaching i).Conforms (Attach.answers i) g p

theorem lost_conforms {α : Type} {post : α → Attach → Prop} (hpost : ∀ v, post v .lost) (p : Async α) :
    (attaching i).Conforms post .lost p := by
  induction p with
  | done v => exact hpost v
  | perform o next ih => exact fun a => ⟨.lost, rfl, ih a⟩
  | loop l => exact .inl rfl

theorem lost_replies (p : Async Response) : Replies i .lost p := lost_conforms (fun _ => trivial) p

/-- A first operation, from a local state that is not lost. -/
theorem Replies.op {f : o.Answer → Async Response} (hg : g ≠ .lost)
    (h : ∀ answer, ∃ g', g.moves i o answer = some g' ∧ Replies i g' (f answer)) :
    Replies i g (Program.op (E := effects) o >>= f) := by
  intro answer
  obtain ⟨g', hm, hn⟩ := h answer
  exact ⟨g', (attaching_advance hg o answer).trans hm, hn⟩

theorem refuse_replies {metric code message : String} {status : Nat} (hg : g.pass none = some g)
    (ha : g.answers i (.error status code message)) : Replies i g (refuse metric status code message) :=
  Replies.op (by rintro rfl; cases hg) fun _ => ⟨g, hg, ha⟩

theorem eventResponse_replies {locked : Bool} {record : Attached} (hr : ∀ r, record = .live r → r < known) :
    Replies i (.going locked known) (eventResponse i.handle.executionId i.handle.generation 0 record) := by
  have hg : Attach.going locked known ≠ .lost := Attach.noConfusion
  have hsubset : (attaching i).Conforms (fun _ g => g = .going locked known) (.going locked known) (subscribe record) := by
    cases record with
    | live r => exact fun position => ⟨.going locked known, (attaching_advance hg _ _).trans (if_pos (hr r rfl)), rfl⟩
    | recovered snapshot => rfl
  refine hsubset.thence fun receiver => ?_
  refine Replies.op hg fun answer => ?_
  have hguard : i.handle.executionId = i.handle.executionId ∧ i.handle.generation = i.handle.generation ∧ 0 = 0 :=
    ⟨rfl, rfl, rfl⟩
  cases answer with
  | error e => exact ⟨.refused .store, if_pos hguard, rfl⟩
  | ok page =>
    cases page with
    | none => exact ⟨.lost, if_pos hguard, trivial⟩
    | some page =>
      by_cases hzero : page.nextSequence = 0
      · exact ⟨.lost, (if_pos hguard).trans (if_pos hzero), lost_replies _⟩
      refine ⟨.going locked known, (if_pos hguard).trans (if_neg hzero), ?_⟩
      dsimp only [checkPage]
      split
      · exact Replies.op hg fun _ => ⟨.going locked known, rfl, rfl⟩
      · rename_i hpast
        split at hpast
        · cases hpast
        split at hpast
        · exact absurd (Nat.le_zero.mp ‹_›) hzero
        · cases hpast
      rename_i events _
      have hs : ∀ snapshot : ExecutionSnapshot, attaches i (.events (eventStreamResponse
          (i.handle.executionId, i.handle.generation.asI64) 0 events receiver (isTerminal snapshot.state))) = true := by
        intro snapshot
        simp [attaches, eventStreamResponse, Identity.key]
      cases record with
      | live r =>
        exact Replies.op hg fun snapshot => ⟨.going locked known, if_pos (hr r rfl), hs snapshot⟩
      | recovered snapshot => exact hs snapshot

/-- An identity that matches is attached to, not compared again. -/
theorem resubmitted_replies {old : ExistingExecution} (hm : i.matches old = true) :
    Replies i (.going true known) (resubmitted i old) := by
  have hg : ∀ known, Attach.going true known ≠ .lost := fun _ => Attach.noConfusion
  simp only [Identity.matches, and_eq_true, beq_iff_eq] at hm
  obtain ⟨⟨⟨hv, hp⟩, hd⟩, hl⟩ := hm
  unfold resubmitted
  rw [if_neg (not_not_intro hv), if_neg (not_not_intro hp)]
  have hsame : ¬ (old.digest ≠ i.digest ∨ old.leaseTokenHash ≠ i.leaseHash) := by
    rintro (hne | hne)
    · exact hne hd
    · exact hne hl
  rw [if_neg hsame]
  have hf : ∀ {known rec}, (∀ r, rec = Attached.live r → r < known) → Replies i (.going true known) (do
      sync .unlockExecutions
      eventResponse i.handle.executionId i.handle.generation 0 rec) := fun hrecord =>
    Replies.op (hg _) fun _ => ⟨_, rfl, eventResponse_replies hrecord⟩
  refine Replies.op (hg known) fun found => ?_
  cases found with
  | none => exact ⟨_, rfl, hf fun r hr => by cases hr⟩
  | some r =>
    refine ⟨_, rfl, Replies.op (hg _) fun snap => ⟨.going true (max known (r + 1)), if_pos (by simp), ?_⟩⟩
    refine hf fun r' hr' => ?_
    split at hr' <;> cases hr'
    simp

theorem identify_replies (cfg : NodeConfig) {wire : ExecuteRequest} (known : Nat) :
    Replies i (.going false known) (identify cfg wire i) := by
  refine Replies.op Attach.noConfusion fun now => ⟨.going false known, rfl, ?_⟩
  refine Replies.op Attach.noConfusion fun _ => ⟨.going true known, rfl, ?_⟩
  refine Replies.op Attach.noConfusion fun a => ?_
  have hg : i.handle.executionId = i.handle.executionId ∧ i.handle.generation = i.handle.generation := ⟨rfl, rfl⟩
  cases a with
  | error e => exact ⟨.refused .store, if_pos hg, rfl⟩
  | ok found =>
    cases found with
    | none => exact ⟨.lost, if_pos hg, lost_replies _⟩
    | some old =>
      by_cases hm : i.matches old = true
      · exact ⟨.going true known, (if_pos hg).trans (if_pos hm), resubmitted_replies hm⟩
      · exact ⟨.lost, (if_pos hg).trans (if_neg hm), lost_replies _⟩

theorem isDraining_conforms (bar : Option Refusal) :
    (attaching i).Conforms (fun draining g => g = if draining then .refused .draining else .start bar) (.start bar)
      isDraining := by
  have hpass : ∀ draining, (Attach.start bar).pass (Refusal.draining.when draining) =
      some (if draining then .refused .draining else .start bar) := by
    intro draining
    cases bar <;> cases draining <;> rfl
  have hlost : Attach.start bar ≠ .lost := by
    cases bar <;> exact Attach.noConfusion
  intro draining
  refine ⟨_, (attaching_advance hlost _ _).trans (hpass _), ?_⟩
  cases draining with
  | true => rfl
  | false =>
    intro marked
    refine ⟨_, (attaching_advance hlost _ _).trans (hpass _), ?_⟩
    cases marked <;> rfl

theorem resolveRoot_conforms (wire : ExecuteRequest) (principal : PrincipalId) :
    (attaching i).Conforms (fun resolved g => g = if resolved then .going false known else .refused .workspace)
      (.going false known) (resolveRoot wire principal) := by
  unfold resolveRoot
  split
  · rfl
  intro root
  refine ⟨_, attaching_advance Attach.noConfusion _ _, ?_⟩
  cases root <;> rfl

theorem passGates_replies {principal : PrincipalId} {wire : ExecuteRequest}
    (hi : identityOf cfg principal wire = some i) :
    Replies i (.start (unsupported cfg wire)) (passGates cfg principal wire) := by
  refine (isDraining_conforms (unsupported cfg wire)).thence fun draining => ?_
  cases draining with
  | true => exact refuse_replies rfl rfl
  | false =>
    -- the capabilities are checked in the order of `unsupported`
    rw [if_neg Bool.false_ne_true, if_neg Bool.false_ne_true, unsupported]
    split
    · exact refuse_replies rfl rfl
    split
    · exact refuse_replies rfl rfl
    split
    · exact refuse_replies rfl rfl
    obtain ⟨⟨ver, digest⟩, hd, rfl⟩ := map_eq_some_iff.mp hi
    simp only [hd]
    refine (resolveRoot_conforms wire principal).thence fun resolved => ?_
    cases resolved with
    | true => exact identify_replies cfg 0
    | false => exact refuse_replies rfl rfl

theorem execute_wellFormed {principal : PrincipalId} {wire : ExecuteRequest} (h : wellFormed cfg principal wire = true) :
    execute cfg principal (.parsed wire) = passGates cfg principal wire := by
  simp only [wellFormed, and_eq_true, beq_iff_eq, bne_iff_ne, or_eq_true] at h
  obtain ⟨⟨⟨⟨⟨hs, hauth⟩, hg⟩, hspec⟩, hv⟩, hout⟩ := h
  rw [execute, if_neg (not_not_intro hs), if_neg (by simp [hauth]), if_neg hg,
    if_neg (not_not_intro hspec), if_neg (by simp [hv]), if_neg]
  rcases hout with he | hsome
  · simp [he]
  cases hws : wire.workspaceId with
  | none =>
    rw [hws] at hsome
    cases hsome
  | some w => simp

theorem serve_attaches {principal : PrincipalId} {wire : ExecuteRequest} (hv : wellFormed cfg principal wire = true)
    (hi : identityOf cfg principal wire = some i) :
    (attaching i).Conforms (fun _ => Attach.final) (.start (unsupported cfg wire))
      (serve (execute cfg principal (.parsed wire))) := by
  rw [execute_wellFormed hv]
  refine (passGates_replies hi).bind fun response g hg => ?_
  cases g with
  | lost =>
    refine lost_conforms (fun _ => ?_) _
    rfl
  | going locked known =>
    intro _
    refine ⟨.attached, (attaching_advance Attach.noConfusion _ _).trans (if_pos hg), ?_⟩
    split
    · exact .inr ⟨rfl, _, rfl⟩
    · rfl
  | barred refusal | refused refusal =>
    intro _
    refine ⟨.turned refusal, (attaching_advance Attach.noConfusion _ _).trans (if_pos hg), ?_⟩
    split
    · -- no refusal is a stream
      cases refusal <;> cases hg
    · rfl
  | attached | turned => exact hg.elim

theorem nextEvent_attached (stream : EventStream) :
    (attaching i).Conforms (fun _ => Attach.final) .attached (nextEvent stream) := by
  refine (Protocol.Conforms.of_uses (fun o ho a => ?_) (fun l hl => ?_) (nextEvent_within stream)).mono ?_
  · cases o <;> first
      | rfl
      | cases ho
  · cases l <;> first
      | exact .inr ⟨rfl, _, rfl⟩
      | cases hl
  · rintro _ _ rfl
    rfl

end Conformance

/-! ### What the store and the map answer -/

section Answers
variable {i : Identity}

theorem Identity.Known.exec (h : i.Known st) (hc : Coherent st) (call : Call) : i.Known (call.exec st) := by
  refine (exec_changes hc call).invariant (fun st => i.Known st) (fun hchange hk => ?_) h
  obtain ⟨row, hr, hverdict, hdigest, hprincipal, hlease⟩ := hk
  obtain ⟨row', hrow', hsame⟩ := hchange.identity_kept hr
  simp only [identityColumns, Prod.mk.injEq] at hsame
  obtain ⟨hv, hd, hp, hl⟩ := hsame
  exact ⟨row', hrow', hv ▸ hverdict, hd ▸ hdigest, hp ▸ hprincipal, hl ▸ hlease⟩

theorem Identity.Known.lookup (h : i.Known st) (hc : Coherent st) :
    ∃ old, st.lookup i.handle.executionId i.handle.generation = .ok (some old) ∧ i.matches old = true := by
  obtain ⟨row, hr, hv, hd, hp, hl⟩ := h
  obtain ⟨snap, he, _⟩ := hc _ row hr
  have hr : st.executions.get? (i.handle.executionId, i.handle.generation.asI64) = some row := hr
  simp only [ExecutionStore.lookup, hr, he, J.snapshot.decode_encode]
  exact ⟨_, rfl, by simp [Identity.matches, hv, hd, hp, hl]⟩

theorem Identity.Known.loadPage (h : i.Known v.store) (hs : v.Sound) :
    ∃ page, v.store.loadPage i.handle.executionId i.handle.generation 0 = .ok (some page) ∧ page.nextSequence ≠ 0 := by
  obtain ⟨row, hr, _⟩ := h
  have hj := play_journalOf (J := J) v.history i.key
  rw [← hs] at hj
  obtain ⟨base, _, _, hpage⟩ := JournalOf.loadPage hj hr (show 0 < 2 ^ 63 by decide)
  exact ⟨_, hpage, Nat.succ_ne_zero _⟩

/-- What a local state says of the view: the request knows records that exist, and
does not hold the map before it has locked it. -/
def Attach.At (t : TaskId) (v : View J) : Attach → Prop
  | .lost => False
  | .going locked known => known ≤ v.records.length ∧ (locked = false → v.executionsLock ≠ some t)
  | _ => True

variable {g g' : Attach}

theorem Attach.At.pass (h : g.At t v) {refusal : Option Refusal} (hpass : g.pass refusal = some g') : g'.At t v := by
  cases g with
  | going locked known | barred bar =>
    cases refusal <;> cases hpass
    · exact h
    · trivial
  | refused first =>
    cases hpass
    trivial
  | _ => cases hpass

theorem Attach.At.touch (h : g.At t v) {r : RecordId} (ht : g.touch r = some g') :
    g'.At t v ∧ r < v.records.length := by
  cases g with
  | going locked known =>
    obtain ⟨hr, ⟨⟩⟩ := ite_none_right_eq_some.mp ht
    exact ⟨h, Nat.lt_of_lt_of_le hr h.1⟩
  | _ => cases ht

/-- A resubmission makes no other operations. -/
theorem Attach.moves_attaches (h : g.moves i o a = some g') : o.attaches = true := by
  cases o <;> first
    | rfl
    | cases h

/-- With the row on record, no answer loses the request. -/
theorem Attach.At.moves {origin : Origin} {v' : View J} (h : g.At t v) (heffect : Effect t origin v o a v')
    (hk : i.Known v.store) (hs : v.Sound) (hmap : v.Mapped) (hm : g.moves i o a = some g') : g'.At t v' := by
  have ha := Attach.moves_attaches hm
  cases heffect with
  | quiet =>
    cases o <;> first
      | exact absurd ha false_ne_true
      | exact h.pass hm
      | skip
    case yield =>
      obtain ⟨_, ⟨⟩⟩ := ite_none_right_eq_some.mp hm
      exact h
    all_goals (rename_i hq; cases hq)
  | unlockExecutions =>
    cases g with
    | going locked known =>
      cases hm
      exact ⟨h.1, fun _ he => nomatch he⟩
    | barred refusal | refused refusal =>
      cases hm
      trivial
    | _ => cases hm
  | lockExecutions =>
    simp only [Attach.moves] at hm
    split at hm <;> cases hm
    exact ⟨h.1, fun he => nomatch he⟩
  | executionsGet id =>
    cases g with
    | going locked known =>
      cases hm
      refine ⟨?_, h.2⟩
      cases hf : v.executions.get? id with
      | none => exact h.1
      | some r =>
        obtain ⟨rec, hr, _⟩ := hmap id r hf
        exact Nat.max_le.mpr ⟨h.1, (List.getElem?_eq_some_iff.mp hr).1⟩
    | _ => cases hm
  | failedLookup =>
    obtain ⟨_, hm⟩ := ite_none_right_eq_some.mp hm
    exact h.pass hm
  | lookup =>
    obtain ⟨⟨rfl, rfl⟩, hm⟩ := ite_none_right_eq_some.mp hm
    obtain ⟨old, hl, hmatch⟩ := hk.lookup hs.reachable.coherent
    rw [hl] at hm
    simp only [hmatch, if_true] at hm
    exact h.pass hm
  | failedLoadPage =>
    obtain ⟨_, hm⟩ := ite_none_right_eq_some.mp hm
    exact h.pass hm
  | loadPage =>
    obtain ⟨⟨rfl, rfl, rfl⟩, hm⟩ := ite_none_right_eq_some.mp hm
    obtain ⟨page, hpage, hn⟩ := hk.loadPage hs
    rw [hpage] at hm
    simp only [hn, if_false] at hm
    exact h.pass hm
  | readSnapshot | subscribe => exact (h.touch hm).1
  | respond =>
    simp only [Attach.moves] at hm
    split at hm
    all_goals first
      | (split at hm <;> cases hm; trivial)
      | cases hm
  | received | lagged | closed =>
    simp only [Attach.moves] at hm
    split at hm <;> cases hm
    exact h
  | _ => exact absurd ha false_ne_true

end Answers

end Eggwork.Server
