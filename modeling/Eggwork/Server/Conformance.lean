import Eggwork.Server.Admission
import Eggwork.Server.Footprint

/-! Every handler and every loop keeps to the protocol of admission.

One lemma for each function of the source, about all its paths: what it returns
is irrelevant, where its local state can end is the statement. A handler settles
(`Settles`): it may still hold a guard, which its response drops. The discipline
at the end is what the invariants of the node are proved from. -/
namespace Eggwork.Server
open Lib Store Runner List Local Bool

variable {r : RecordId}
variable {state : ExecutionState} {kind : ExecutionEventKind} {id : ExecutionId}

/-! ### Programs that leave the local state alone -/

/-- The operations that never move the local state. -/
def Op.neutral : Op → Bool
  | .lookup .. | .updateLease .. | .loadPage .. | .loadSnapshot .. | .recordLeaseHash _ | .cancel _
  | .extendLease .. | .subscribe _ | .recv .. => true
  | o => o.quiet

/-- The operations of a task that neither holds the map nor publishes. -/
def Op.calm (o : Op) : Prop := o.neutral = true ∨ ∃ r, o = .readSnapshot r

variable {o : Op}

theorem Local.advance_neutral (h : o.neutral = true) (g : Local) (a : o.Answer) : g.advance o a = some g := by
  cases o <;> first
    | rfl
    | exact absurd h false_ne_true

theorem Local.read_calm {g : Local} (hh : g.holds = false) (hidle : g.publishing = .idle) (r : RecordId)
    (snap : ExecutionSnapshot) : g.read r snap = g := by
  simp [read, hh, hidle]

theorem Local.advance_calm (h : o.calm) {g : Local} (hh : g.holds = false) (hidle : g.publishing = .idle)
    (a : o.Answer) : g.advance o a = some g := by
  rcases h with h | ⟨r, rfl⟩
  · exact advance_neutral h g a
  · exact congrArg some (read_calm hh hidle r a)

/-- A program of calm operations that enters no loop. -/
abbrev Calm {α : Type} (p : Async α) : Prop := p.Uses Op.calm fun _ => False

/-- A program of neutral operations that enters no loop. -/
abbrev Neutral {α : Type} (p : Async α) : Prop := p.Uses (fun o : Op => o.neutral = true) fun _ => False

theorem Neutral.conforms {α : Type} {p : Async α} (h : Neutral p) (g : Local) :
    admission.Conforms (fun _ g' => g' = g) g p :=
  .of_uses (fun (_ : Op) ho => advance_neutral ho g) (fun _ (hl : False) => hl.elim) h

theorem Calm.conforms {α : Type} {p : Async α} (h : Calm p) {g : Local} (hh : g.holds = false)
    (hidle : g.publishing = .idle) : admission.Conforms (fun _ g' => g' = g) g p :=
  .of_uses (fun (_ : Op) ho => advance_calm ho hh hidle) (fun _ (hl : False) => hl.elim) h

theorem refuse_neutral (metric : String) (status : Nat) (code message : String) :
    Neutral (refuse metric status code message) := .op rfl fun _ => trivial

theorem isDraining_neutral : Neutral isDraining := by
  refine .op rfl fun draining => ?_
  cases draining
  · exact .op rfl fun _ => trivial
  · trivial

theorem retire_neutral (w : Option WorkspaceId) : Neutral (retire w) := by
  cases w with
  | none => trivial
  | some w => exact .op rfl fun _ => trivial

theorem activate_neutral (w : Option WorkspaceId) : Neutral (activate w) := by
  cases w with
  | none => trivial
  | some w => exact ⟨rfl, fun _ => trivial⟩

theorem leaseLapsed_neutral (r : RecordId) : Neutral (leaseLapsed r) := by
  refine .op rfl fun lease => ?_
  split
  · trivial
  · exact .op rfl fun _ => trivial

theorem Op.calm_of_within (ho : o.within [.reading, .identity, .feed, .workspace, .lease] = true) : o.calm := by
  cases o <;> first
    | exact .inl rfl
    | exact .inr ⟨_, rfl⟩
    | cases ho

/-! ### Publishing -/

theorem Local.publishing_idle {g : Local} (h : g.publishing = .idle) : {g with publishing := .idle} = g := by
  cases g
  cases h
  rfl

/-- `publish` follows the protocol where the state may be published, and is then over. -/
theorem publish_conforms {g : Local} (hh : g.holds = false) (hidle : g.publishing = .idle)
    (res : Option ExecutionResult) (hkind : kind.isTerminal = isTerminal state)
    (hresult : resultFits state res = true) (hmay : g.mayPublish r state = true) :
    admission.Conforms (fun _ g' => g' = g) g (publish r state res kind) := by
  have hu : ∀ publishing, publishing = .locked r ∨ (∃ base, publishing = .based r base) →
      admission.Conforms (fun _ g' => g' = g) {g with publishing} (sync (.unlockCommit r)) := by
    rintro publishing (rfl | ⟨base, rfl⟩) <;>
      exact .last fun _ => ⟨{g with publishing := .idle}, if_pos rfl, publishing_idle hidle⟩
  refine .op fun _ => ⟨{g with publishing := .locked r}, if_pos hidle, ?_⟩
  refine .op fun base => ⟨{g with publishing := .based r base}, ?_, ?_⟩
  · show some (Local.read {g with publishing := .locked r} r base) = _
    simp [Local.read, hh]
  split
  · exact hu _ (.inr ⟨base, rfl⟩)
  rename_i hl
  have hc : Local.mayCommit {g with publishing := .based r base} r base
      {base with state := state, result := res.or base.result} kind = true := by
    have hr : rowKey {base with state := state, result := res.or base.result} = rowKey base := rfl
    have hmay' : Local.mayPublish {g with publishing := .based r base} r state = true := hmay
    have hfits : (resultFits state (res.or base.result) || !resultFits base.state base.result) = true := by
      cases hbase : base.result with
      | none => rw [Option.or_none, hresult, Bool.true_or]
      | some old =>
        -- a res before the end does not fit
        rw [show resultFits base.state (some old) = false by simp [resultFits, hl], Bool.not_false, Bool.or_true]
    simp [Local.mayCommit, hr, hl, hkind, hmay', hfits]
  refine .op fun ans => ?_
  cases ans with
  | error e =>
    refine ⟨{g with publishing := .locked r}, if_pos hc, ?_⟩
    exact .stay (fun _ => rfl) fun _ => .stay (fun _ => rfl) fun _ => hu _ (.inl rfl)
  | ok committed =>
    cases committed with
    | none => exact ⟨{g with publishing := .locked r}, if_pos hc, hu _ (.inl rfl)⟩
    | some ev =>
      refine ⟨{g with publishing := .wrote r {base with state := state, result := res.or base.result} ev},
        if_pos hc, ?_⟩
      refine .op fun _ => ⟨{g with publishing := .told r ev}, if_pos ⟨rfl, rfl⟩, ?_⟩
      refine .op fun _ => ⟨{g with publishing := .locked r}, if_pos rfl, hu _ (.inl rfl)⟩

/-! ### Control and events -/

/-- The end of a handler: whatever guard it still holds, nothing is left undone. -/
abbrev Settles {α : Type} (g : Local) (p : Async α) : Prop := admission.Conforms (fun _ g' => g'.settled) g p

theorem Calm.settles {α : Type} {p : Async α} (h : Calm p) {g : Local} (hf : g.final) : Settles g p := by
  refine (h.conforms hf.2 hf.1.2).mono ?_
  rintro _ _ rfl
  exact hf.1

theorem settles_indifferent {g : Local} (hfinal : g.final) :
    Indifferent [.reading, .identity, .feed, .workspace, .lease] (Settles g) where
  refused _ := hfinal.1
  op ho hf := .stay (advance_calm (Op.calm_of_within ho) hfinal.2 hfinal.1.2) hf

theorem eventResponse_settles {g : Local} (hf : g.final) (id : ExecutionId) (gen : ExecutionGeneration)
    (after : Nat) (rec : Attached) : Settles g (eventResponse id gen after rec) :=
  have hcalm : Calm (eventResponse id gen after rec) :=
    Program.Uses.mono (fun _ ho => Op.calm_of_within (Op.within_mono (by decide) ho)) (fun _ hl => hl) (eventResponse_within ..)
  hcalm.settles hf

theorem fetchRecord_conforms {g : Local} (hf : g.final) (he : g.entries = [] ∧ g.terminal = [])
    (id : ExecutionId) : admission.Conforms (fun _ g' => g' = g) g (fetchRecord id) := by
  obtain ⟨role, holds, publishing, es, terminal⟩ := g
  obtain ⟨rfl, rfl⟩ := he
  obtain ⟨⟨hc, rfl⟩, rfl⟩ := hf
  have hp : pending ⟨role, true, .idle, [], []⟩ = none := pending_eq_none hc
  exact .op fun _ => ⟨_, rfl, .op fun rec => ⟨_, rfl, .op fun _ => ⟨_, if_pos ⟨rfl, hp⟩, rfl⟩⟩⟩

theorem cancel_settles (r : RecordId) (snap : ExecutionSnapshot) : Settles idle (cancel r snap) := by
  have hread : ∀ r, Calm (do pure (.snapshot 202 (← await (.readSnapshot r))) : Async Response) :=
    fun r => .op (.inr ⟨r, rfl⟩) fun _ => trivial
  have hc : Calm (do sync (.cancel r); pure (.snapshot 202 (← await (.readSnapshot r))) : Async Response) :=
    .op (.inl rfl) fun _ => hread r
  have hidle : idle.final := ⟨⟨rfl, rfl⟩, rfl⟩
  unfold cancel
  split
  · refine .stay (fun _ => rfl) fun _ => ((leaseLapsed_neutral r).conforms _).thence fun lapsed => ?_
    split
    · exact hidle.1
    refine .stay (fun _ => rfl) fun _ => ?_
    refine (publish_conforms rfl rfl none rfl rfl rfl).thence fun _ => ?_
    refine .stay (fun _ => rfl) fun current => ?_
    split
    · exact hc.settles hidle
    · exact (hread r).settles hidle
  · split
    · exact hc.settles hidle
    · exact (hread r).settles hidle

theorem control_settles (cfg : NodeConfig) (id : ExecutionId) (principal : PrincipalId) (isRenew : Bool)
    (req : Body ControlRequest) : Settles idle (control cfg id principal isRenew req) := by
  have hidle : idle.final := ⟨⟨rfl, rfl⟩, rfl⟩
  have hset := settles_indifferent hidle
  refine control_rule (hset.mono (by decide)) (fun req old => ?_) req
  refine (fetchRecord_conforms hidle ⟨rfl, rfl⟩ _).thence fun rec => ?_
  split
  · exact hidle.1
  refine hset.op rfl fun hash => ?_
  split
  · exact hidle.1
  refine hset.op rfl fun snap => ?_
  split
  · exact renew_rule (hset.mono (by decide)) (fun _ => hidle.1) _ _ _ snap
  · exact cancel_settles _ snap

theorem eventsRoute_settles (cfg : NodeConfig) (id : ExecutionId) (principal : PrincipalId)
    (query : EventsQuery) : Settles idle (eventsRoute cfg id principal query) := by
  have hidle : idle.final := ⟨⟨rfl, rfl⟩, rfl⟩
  have hset := settles_indifferent hidle
  have hr : ∀ gen after, Settles idle (eventsRoute.recovered id gen after) := by
    intro gen after
    refine hset.op rfl fun found => ?_
    split
    · exact hidle.1
    · exact hidle.1
    · exact eventResponse_settles hidle ..
  refine eventsRoute_rule (hset.mono (by decide)) (fun gen after => ?_) query
  refine (fetchRecord_conforms hidle ⟨rfl, rfl⟩ _).thence fun rec => ?_
  unfold eventsRoute.follow
  split
  · refine hset.op rfl fun snap => ?_
    split
    · exact eventResponse_settles hidle ..
    · exact hr _ _
  · exact hr _ _

/-! ### Execute -/

/-- The task has only seen more of the map since. -/
structure Local.Seen (g g' : Local) : Prop where
  role : g'.role = g.role
  holds : g'.holds = g.holds
  publishing : g'.publishing = g.publishing
  entries : g'.entries = g.entries
  terminal : g.terminal ⊆ g'.terminal

theorem Local.Seen.refl (g : Local) : g.Seen g := ⟨rfl, rfl, rfl, rfl, List.Subset.refl _⟩

theorem Local.Seen.trans {g g' g'' : Local} (h : g.Seen g') (h' : g'.Seen g'') : g.Seen g'' :=
  ⟨h'.role.trans h.role, h'.holds.trans h.holds, h'.publishing.trans h.publishing, h'.entries.trans h.entries,
    List.Subset.trans h.terminal h'.terminal⟩

theorem Local.seen_read {g : Local} (hidle : g.publishing = .idle) (r : RecordId) (snap : ExecutionSnapshot) :
    g.Seen (g.read r snap) := by
  have hnot : ∀ terminal, ({g with terminal} : Local).publishing ≠ .locked r := fun _ => by
    rw [hidle]
    exact Publishing.noConfusion
  unfold read
  split
  · rw [if_neg (hnot _)]
    exact ⟨rfl, rfl, rfl, rfl, subset_cons_self r g.terminal⟩
  · rw [if_neg (hnot g.terminal)]
    exact .refl g

theorem Local.mem_terminal_read {g : Local} (hh : g.holds = true) {snap : ExecutionSnapshot}
    (hterm : isTerminal snap.state = true) : r ∈ (g.read r snap).terminal := by
  unfold read
  rw [if_pos (and_eq_true_iff.mpr ⟨hh, hterm⟩)]
  dsimp only
  split <;> exact mem_cons_self

theorem Local.removable_of_mem {g : Local} (he : (id, r) ∈ g.entries) (hterm : r ∈ g.terminal) : g.removable id = true :=
  any_eq_true.mpr ⟨(id, r), he, by simpa using hterm⟩

theorem Local.Seen.removable {g g' : Local} (h : g.Seen g') (hid : g.removable id = true) : g'.removable id = true := by
  obtain ⟨⟨id', r⟩, hentry, he⟩ := any_eq_true.mp hid
  simp only [and_eq_true, beq_iff_eq, contains_iff_mem] at he
  obtain ⟨rfl, hr⟩ := he
  exact removable_of_mem (h.entries ▸ hentry) (h.terminal hr)

/-- The walk only collects entries whose record it saw terminal. -/
theorem findTerminal_conforms (len : Nat) {g : Local} (hh : g.holds = true) (hidle : g.publishing = .idle)
    {rest : List (ExecutionId × RecordId)} (hrest : rest ⊆ g.entries) {found : List ExecutionId}
    (hf : ∀ id ∈ found, g.removable id = true) :
    admission.Conforms (fun ids g' => g.Seen g' ∧ ∀ id ∈ ids, g'.removable id = true) g
      (findTerminal len rest found) := by
  induction rest generalizing g found with
  | nil => exact ⟨.refl g, hf⟩
  | cons entry rest ih =>
    obtain ⟨id, r⟩ := entry
    refine .op fun snap => ⟨g.read r snap, rfl, ?_⟩
    have hseen := seen_read hidle r snap
    have hf' : ∀ id' ∈ (if isTerminal snap.state then found ++ [id] else found),
        (g.read r snap).removable id' = true := by
      intro id' hid'
      split at hid'
      · rename_i hterm
        rcases mem_append.mp hid' with hid' | hid'
        · exact hseen.removable (hf id' hid')
        rw [mem_singleton.mp hid']
        exact removable_of_mem (hseen.entries ▸ hrest mem_cons_self)
          (mem_terminal_read hh hterm)
      · exact hseen.removable (hf id' hid')
    have hrest' : rest ⊆ (g.read r snap).entries := fun e he => hseen.entries ▸ hrest (mem_cons_of_mem _ he)
    dsimp only
    generalize (if isTerminal snap.state = true then found ++ [id] else found) = ids at hf' ⊢
    -- the walk stops once the removals make room
    split
    · exact ⟨hseen, hf'⟩
    · have hn := ih (hseen.holds.trans hh) (hseen.publishing.trans hidle) hrest' hf'
      exact hn.mono fun ids g' h => ⟨hseen.trans h.1, h.2⟩

theorem removeAll_conforms {g : Local} (hh : g.holds = true) {ids : List ExecutionId}
    (hids : ∀ id ∈ ids, g.removable id = true) : admission.Conforms (fun _ g' => g' = g) g (removeAll ids) := by
  induction ids with
  | nil => rfl
  | cons id rest ih =>
    refine .op fun _ => ⟨g, if_pos ⟨hh, hids id mem_cons_self⟩, ?_⟩
    exact ih fun id' hid' => hids id' (mem_cons_of_mem id hid')

/-- Eviction moves nothing but what it has seen of the map. -/
theorem evict_conforms {g : Local} (hh : g.holds = true) (hidle : g.publishing = .idle) :
    admission.Conforms (fun _ g' => g'.role = g.role ∧ g'.holds = true ∧ g'.publishing = .idle) g evict := by
  refine .stay (fun _ => rfl) fun len => ?_
  split
  · refine .op fun entries => ⟨{g with entries}, if_pos hh, ?_⟩
    have hn : ∀ id ∈ ([] : List ExecutionId), ({g with entries} : Local).removable id = true :=
      fun id hid => by cases hid
    refine (findTerminal_conforms len (g := {g with entries}) hh hidle (List.Subset.refl entries) hn).bind ?_
    rintro ids g' ⟨hseen, hids⟩
    refine (removeAll_conforms (hseen.holds.trans hh) hids).mono ?_
    rintro _ _ rfl
    exact ⟨hseen.role, hseen.holds.trans hh, hseen.publishing.trans hidle⟩
  · exact ⟨rfl, hh, hidle⟩

/-- A task that admits the execution `key` and is at this point of it. -/
abbrev Local.admitting (key : RowKey) (claim : Claim) (holds : Bool) (entries : List (ExecutionId × RecordId))
    (terminal : List RecordId) : Local := ⟨.admitting key claim, holds, .idle, entries, terminal⟩

variable {g : Local}

/-- Whatever it has seen, a task with no claim may stop here. -/
theorem Neutral.settles {α : Type} {p : Async α} (h : Neutral p) (hg : g.settled) : Settles g p := by
  refine (h.conforms g).mono ?_
  rintro _ _ rfl
  exact hg

theorem launch_settles (wire : ExecuteRequest) (i : Identity) (es : List (ExecutionId × RecordId))
    (terminal : List RecordId) : Settles (.admitting i.key .created true es terminal) (launch wire i) := by
  refine .op fun r => ⟨.admitting i.key (.recorded r) true es terminal, if_pos rfl, ?_⟩
  refine .op fun _ => ⟨.admitting i.key (.inserted r) true [] terminal, if_pos ⟨rfl, rfl, rfl⟩, ?_⟩
  refine .op fun _ => ⟨.admitting i.key (.inserted r) false [] [], rfl, ?_⟩
  refine (publish_conforms rfl rfl none rfl rfl (by exact beq_self_eq_true _)).thence fun _ => ?_
  refine .stay (fun _ => rfl) fun _ => ?_
  refine .op fun _ => ⟨.admitting i.key .none false [] [], if_pos rfl, ?_⟩
  exact eventResponse_settles ⟨⟨rfl, rfl⟩, rfl⟩ ..

theorem reserveExecution_settles (wire : ExecuteRequest) (i : Identity) (exp : Int)
    (es : List (ExecutionId × RecordId)) (terminal : List RecordId) :
    Settles (.admitting i.key .none true es terminal) (reserveExecution wire i exp) := by
  have hset : (admitting i.key .none true es terminal).settled := ⟨rfl, rfl⟩
  -- a refused reservation lets the workspace expire and answers
  have hr : ∀ resp : Response, Neutral (do retire wire.workspaceId; pure resp : Async Response) :=
    fun resp => (retire_neutral wire.workspaceId).bind fun _ => trivial
  refine .op fun ans => ?_
  cases ans with
  | error e => exact ⟨_, if_pos ⟨rfl, rfl, rfl⟩, (hr _).settles hset⟩
  | ok res =>
    cases res with
    | created =>
      refine ⟨.admitting i.key .created true es terminal, if_pos ⟨rfl, rfl, rfl⟩, ?_⟩
      exact .stay (fun _ => rfl) fun _ => launch_settles wire i es terminal
    | existing snap =>
      refine ⟨_, if_pos ⟨rfl, rfl, rfl⟩, .stay (fun _ => rfl) fun _ => ?_⟩
      have hrest : Settles (.admitting i.key .none true es terminal) (do
          sync .unlockExecutions
          eventResponse i.handle.executionId i.handle.generation 0 (.recovered snap)) :=
        .op fun _ => ⟨.admitting i.key .none false [] [], rfl, eventResponse_settles ⟨⟨rfl, rfl⟩, rfl⟩ ..⟩
      split
      · refine ((retire_neutral wire.workspaceId).conforms _).thence fun _ => ?_
        exact hrest
      · exact hrest
    | conflict | staleGeneration => exact ⟨_, if_pos ⟨rfl, rfl, rfl⟩, (hr _).settles hset⟩
    | storageFull =>
      exact ⟨_, if_pos ⟨rfl, rfl, rfl⟩, .stay (fun _ => rfl) fun _ => (hr _).settles hset⟩

theorem admitNew_settles (wire : ExecuteRequest) (i : Identity) (exp : Int) :
    Settles (.admitting i.key .none true [] []) (admitNew wire i exp) := by
  have hset : (admitting i.key .none true [] []).settled := ⟨rfl, rfl⟩
  refine (isDraining_neutral.conforms _).thence fun draining => ?_
  split
  · exact (refuse_neutral ..).settles hset
  refine .stay (fun _ => rfl) fun permit => ?_
  split
  · exact (refuse_neutral ..).settles hset
  refine (evict_conforms rfl rfl).bind ?_
  rintro _ ⟨role, holds, publishing, entries, terminal⟩ ⟨rfl, rfl, rfl⟩
  refine .stay (fun _ => rfl) fun len => ?_
  split
  · exact (refuse_neutral ..).settles ⟨rfl, rfl⟩
  refine ((activate_neutral wire.workspaceId).conforms _).thence fun active => ?_
  split
  · refine .stay (fun _ => rfl) fun _ => ?_
    refine .op fun _ => ⟨.admitting i.key .none false [] [], rfl, ?_⟩
    exact (refuse_neutral ..).settles ⟨rfl, rfl⟩
  · exact reserveExecution_settles wire i exp entries terminal

theorem resubmitted_settles (i : Identity) (old : ExistingExecution) :
    Settles (.admitting i.key .none true [] []) (resubmitted i old) := by
  have hset : (admitting i.key .none true [] []).settled := ⟨rfl, rfl⟩
  have ha : admission.Conforms (fun _ g => ∃ terminal, g = .admitting i.key .none true [] terminal)
      (.admitting i.key .none true [] []) (attach i old) := by
    refine .op fun found => ⟨_, rfl, ?_⟩
    cases found with
    | none => exact ⟨[], rfl⟩
    | some r =>
      refine .op fun snap => ⟨_, rfl, ?_⟩
      have hseen := seen_read (g := .admitting i.key .none true [] []) rfl r snap
      generalize read (.admitting i.key .none true [] []) r snap = g at hseen ⊢
      obtain ⟨role, holds, publishing, es, terminal⟩ := g
      obtain ⟨rfl, rfl, rfl, rfl, _⟩ := hseen
      exact ⟨terminal, rfl⟩
  unfold resubmitted
  split
  · exact hset
  split
  · exact hset
  split
  · exact hset
  refine ha.bind ?_
  rintro rec _ ⟨terminal, rfl⟩
  refine .op fun _ => ⟨.admitting i.key .none false [] [], rfl, ?_⟩
  exact eventResponse_settles ⟨⟨rfl, rfl⟩, rfl⟩ ..

theorem identify_settles (cfg : NodeConfig) (wire : ExecuteRequest) (i : Identity) :
    Settles (.admitting i.key .none false [] []) (identify cfg wire i) := by
  refine .stay (fun _ => rfl) fun now => .op fun _ => ⟨.admitting i.key .none true [] [], rfl, ?_⟩
  refine .stay (fun _ => rfl) fun found => ?_
  rcases found with _ | _ | _
  · exact ⟨rfl, rfl⟩
  · exact admitNew_settles wire i _
  · exact resubmitted_settles i _

theorem execute_settles (cfg : NodeConfig) (principal : PrincipalId) (wire : ExecuteRequest) :
    Settles (birth (.execute wire.handle)) (execute cfg principal (.parsed wire)) := by
  have hf : (birth (.execute wire.handle)).final := ⟨⟨rfl, rfl⟩, rfl⟩
  refine execute_rule ((settles_indifferent hf).mono (by decide)) principal fun i hi => ?_
  rw [← hi]
  exact identify_settles cfg wire i

/-! ### Tasks -/

/-- A task that runs the conforming program to its end is over. -/
abbrev Completes (g : Local) (p : Async Unit) : Prop := admission.Conforms (fun _ g' => g'.final) g p

theorem serve_completes {handler : Async Response} (h : Settles g handler) : Completes g (serve handler) := by
  refine h.bind fun resp g' hset => .op fun _ => ⟨g'.unlock, if_pos hset, ?_⟩
  have hf : g'.unlock.final := ⟨hset, rfl⟩
  cases resp with
  | events => exact ⟨hf, fun r hr => by cases hr⟩
  | _ => exact hf

theorem request_completes {cfg : NodeConfig} {req : Request} {task : Task}
    (h : req.task cfg = some task) : Completes (birth task.origin) task.program := by
  unfold Request.task at h
  split at h
  · cases h
    exact serve_completes (execute_settles cfg _ _)
  · cases h
    exact serve_completes (control_settles cfg ..)
  · obtain ⟨named, _, he⟩ := Option.map_eq_some_iff.mp h
    cases he
    exact serve_completes (eventsRoute_settles cfg ..)
  · cases h

theorem nextEvent_completes (hg : g.final) (stream : EventStream) : Completes g (nextEvent stream) := by
  refine (Protocol.Conforms.of_uses (fun o ho a => ?_) (fun l hl => ?_) (nextEvent_within stream)).mono ?_
  · cases o <;> first
      | rfl
      | cases ho
  · cases l with
    | events => exact ⟨hg, by rintro _ ⟨⟩⟩
    | _ => cases hl
  · rintro _ _ rfl
    exact hg

theorem monitorLease_completes (hg : g.final) (r : RecordId) : Completes g (monitorLease r) := by
  have hread : ∀ snap, g.advance (.readSnapshot r) snap = some g :=
    fun snap => congrArg some (read_calm hg.2 hg.1.2 r snap)
  have ha : Completes g (again (.monitorLease r)) := ⟨hg, fun r hr => by cases hr⟩
  refine .stay hread fun snap => ?_
  split
  · exact hg
  refine .stay (fun _ => rfl) fun _ => .stay (fun _ => rfl) fun lease => .stay (fun _ => rfl) fun _ => ?_
  refine .stay (fun _ => rfl) fun wake => ?_
  cases wake with
  | cancelled => exact hg
  | notified => exact ha
  | elapsed =>
    refine .stay (fun _ => rfl) fun _ => .stay (fun _ => rfl) fun now => .stay (fun _ => rfl) fun lease => ?_
    split
    · refine .stay (fun _ => rfl) fun _ => .stay (fun _ => rfl) fun _ => ?_
      exact .last fun _ => ⟨g, rfl, hg⟩
    · exact .stay (fun _ => rfl) fun _ => ha

theorem Local.mayPublish_terminal (hrole : g.role = .run r) (hterm : isTerminal state = true) :
    g.mayPublish r state = true := by
  cases state <;> first
    | exact beq_iff_eq.mpr hrole
    | exact absurd hterm false_ne_true

theorem finalize_conforms (hg : g.final) (run : Run) (res : ExecutionResult) :
    admission.Conforms (fun v g' => g' = g ∧ v.state = res.state) g (finalize run res) := by
  have hread : ∀ snap, g.advance (.readSnapshot run.request.record) snap = some g :=
    fun snap => congrArg some (read_calm hg.2 hg.1.2 _ snap)
  have hr : ∀ (w : WorkspaceId) (v : ExecutionResult), v.state = res.state →
      admission.Conforms (fun v g' => g' = g ∧ v.state = res.state) g (do
        if ← sync (.markTerminal w) then pure v
        else pure {v with finalizationFailure := some .retention}) := by
    intro w v hv
    refine .stay (fun _ => rfl) fun retained => ?_
    split
    · exact ⟨rfl, hv⟩
    · exact ⟨rfl, hv⟩
  unfold finalize
  cases run.request.workspace with
  | none => exact ⟨rfl, rfl⟩
  | some w =>
    dsimp only
    split
    · refine .stay hread fun _ => .stay (fun _ => rfl) fun captured => ?_
      cases captured with
      | some count => exact hr w.id {res with artifactCount := _} rfl
      | none => exact hr w.id {res with finalizationFailure := _} rfl
    · exact hr w.id res rfl

theorem finishRun_completes (hg : g.final) (run : Run) (hrole : g.role = .run run.request.record) :
    Completes g (finishRun run) := by
  refine .stay (fun _ => rfl) fun _ => .stay (fun _ => rfl) fun lease => .stay (fun _ => rfl) fun _ => ?_
  refine (finalize_conforms hg run _).bind ?_
  rintro res _ ⟨rfl, hst⟩
  have hterm : isTerminal res.state = true := by
    rw [hst]
    exact Drain.executionResult_terminal ..
  refine .stay (fun _ => rfl) fun _ => ?_
  have hfits : resultFits res.state (some res) = true := and_eq_true_iff.mpr ⟨hterm, beq_self_eq_true _⟩
  refine (publish_conforms hg.2 hg.1.2 _ rfl hfits (mayPublish_terminal hrole hterm)).thence fun _ => ?_
  exact .last fun _ => ⟨_, if_pos ⟨hrole, hg.1.2⟩, ⟨rfl, hg.1.2⟩, hg.2⟩

theorem run_publishes (hg : g.final) (hrole : g.role = .run r) (hkind : kind.isTerminal = false) :
    admission.Conforms (fun _ g' => g' = g) g (publish r .running none kind) :=
  publish_conforms hg.2 hg.1.2 none hkind rfl (beq_iff_eq.mpr hrole)

theorem chunk_not_terminal (chunk : OutputChunk) : chunk.kind.isTerminal = false := by
  unfold OutputChunk.kind
  split <;> rfl

theorem body_completes {l : Loop} (h : admission.enter l g) : Completes g (body l) := by
  obtain ⟨hg, hrecord⟩ := h
  cases l with
  | monitorLease r => exact monitorLease_completes hg r
  | events stream => exact nextEvent_completes hg stream
  | runExecution req =>
    have hrole := hrecord _ rfl
    refine (run_publishes hg hrole rfl).thence fun _ => ?_
    exact .stay (fun _ => rfl) fun _ => ⟨hg, fun r hr => by cases hr; exact hrole⟩
  | drain run =>
    have hrole := hrecord _ rfl
    have ha : ∀ l : Loop, l.record? = some run.request.record → Completes g (again l) :=
      fun l hl => ⟨hg, fun r hr => by rw [hl] at hr; cases hr; exact hrole⟩
    refine .stay (fun _ => rfl) fun polled => ?_
    cases polled with
    | output chunk =>
      refine (run_publishes hg hrole (chunk_not_terminal _)).thence fun _ => ?_
      exact ha _ rfl
    | closed =>
      refine ha _ ?_
      split <;> rfl
    | joined how =>
      refine .stay (fun _ => rfl) fun drained => ?_
      split
      · exact ha _ rfl
      · exact ha _ rfl
    | disabled => exact .last fun _ => ⟨g, rfl, hg⟩
  | flush run =>
    have hrole := hrecord _ rfl
    refine .stay (fun _ => rfl) fun received => ?_
    cases received with
    | some chunk =>
      refine (run_publishes hg hrole (chunk_not_terminal _)).thence fun _ => ?_
      exact ⟨hg, fun r hr => by cases hr; exact hrole⟩
    | none => exact finishRun_completes hg run hrole

/-- The row a request may create. -/
def Origin.admits : Origin → Option RowKey
  | .execute handle => some (handle.executionId, handle.generation.asI64)
  | _ => none

/-- All tasks of the node keep to the protocol. -/
def admissionDiscipline : Discipline Local where
  protocol := admission
  idle := Local.idle
  birth := Local.birth
  final := Local.final
  final_idle := ⟨⟨rfl, rfl⟩, rfl⟩
  requests := request_completes
  loops := body_completes
  spawns := by
    intro o origin l h
    rcases spawns_cases h with ⟨r, rfl, rfl⟩ | ⟨request, rfl, rfl⟩
    · exact ⟨⟨⟨rfl, rfl⟩, rfl⟩, fun r hr => by cases hr⟩
    · exact ⟨⟨⟨rfl, rfl⟩, rfl⟩, fun r hr => by cases hr; rfl⟩
  fits face g := (∀ key claim, g.role = .admitting key claim → face.origin.admits = some key) ∧
    ∀ r, g.role = .run r → face.origin = .run r
  fits_idle _ := ⟨fun _ _ h => (nomatch h), fun _ h => (nomatch h)⟩
  fits_birth origin := by
    cases origin <;> refine ⟨fun key claim h => ?_, fun r h => ?_⟩ <;> cases h <;> rfl
  fits_advance {face g o answer g'} hfits hmove := by
    rw [o.shows_origin]
    obtain ⟨hgates, hrun⟩ := Local.role_of_advance hmove
    refine ⟨fun key claim hrole => ?_, fun r hrole => hfits.2 r (hrun r hrole)⟩
    obtain ⟨old, hold⟩ := hgates key claim hrole
    exact hfits.1 key old hold

theorem allows_perform {next : o.Answer → Async Unit} (h : admissionDiscipline.Allows g (.perform o next))
    (a : o.Answer) : ∃ g', g.advance o a = some g' ∧ admissionDiscipline.Allows g' (next a) := h a

end Eggwork.Server
