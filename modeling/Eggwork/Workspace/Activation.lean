import Eggwork.Server.Footprint
import Eggwork.Workspace.Retention

/-! What a request leaves of the workspace it activates.

`execute` activates the workspace before it reserves the row, and lets it expire
again on the way out when no run is spawned. Both calls write twice. The error of an
activation that stopped half-way is answered with nothing undone, and the error of
the release is dropped. -/
namespace Eggwork.Workspace
open Lib Effect Store Server Program

variable {response : Response} {i : Identity}

/-- What a request meets: the manager, the fates of its steps, the time and the expiry of a release. -/
structure Surroundings where
  manager : Manager
  fates : Fates
  now : Nat
  expires : Nat

/-- The tree of a workspace, for the execution it was made for. -/
def resolve (m : Manager) (workspace : WorkspaceId) (id : ExecutionId) (generation : ExecutionGeneration)
    (principal : PrincipalId) (now : Nat) (d : Disk) : Option String :=
  match d.workspaces.get? workspace with
  | none => none
  | some row =>
    if row.executionId ≠ id ∨ row.generation ≠ generation ∨ row.principalId ≠ principal ∨ isExpired now row = true then none
    else if m.validStorageKey row.storageKey = false ∨ (d.directories.get? row.storageKey).isSome = false then none
    else some row.storageKey

/-- How the operations of a request that spawns no run are answered, when no live
execution uses its workspace: the store does not find one. A look-up may fail. -/
def withoutRun (e : Surroundings) (d : Disk) : (o : Server.Op) → o.Answer → Disk → Prop
  | .resolve workspace id generation principal, found, d' =>
    (found = none ∨ found = resolve e.manager workspace id generation principal e.now d) ∧ d' = d
  | .markActive workspace, ok, d' =>
    succeeded? (markActive e.manager e.fates workspace e.now d).1 = some ok ∧
      d' = (markActive e.manager e.fates workspace e.now d).2
  | .markTerminal workspace, ok, d' =>
    succeeded? (markTerminal e.fates workspace e.expires d).1 = some ok ∧
      d' = (markTerminal e.fates workspace e.expires d).2
  | .reserve .., answer, d' =>
    (∀ snapshot, answer = .ok (.existing snapshot) → isTerminal snapshot.state = true) ∧ d' = d
  | .spawnRun _, _, _ => False
  | _, _, d' => d' = d

/-- The request returns without a run. -/
def Exits (e : Surroundings) (config : NodeConfig) (principal : PrincipalId) (body : Body ExecuteRequest) (d d' : Disk) :
    Prop := ∃ response, (execute config principal body).Runs (withoutRun e) d response d'

section
variable {e : Surroundings} {config : NodeConfig} {principal : PrincipalId} {wire : ExecuteRequest} {d d' : Disk}

theorem withoutRun_quiet {o : Server.Op} {a : o.Answer} (ho : o.area ≠ .workspace) (h : withoutRun e d o a d') :
    d' = d := by
  cases o with
  | markActive workspace | markTerminal workspace => exact absurd rfl ho
  | spawnRun req => exact h.elim
  | resolve workspace id gen principal | reserve => exact h.2
  | _ => exact h

theorem within_runs {areas : List Area} (ha : areas.any (· == .workspace) = false) {α : Type} {p : Async α}
    (hp : Within areas p) {res : α} (h : p.Runs (withoutRun e) d res d') : d' = d := by
  refine Program.Runs.of_uses (fun {s o a t} ho => withoutRun_quiet ?_) hp h
  exact beq_eq_false_iff_ne.mp (Server.Op.area_of_within ha ho)

/-! ### The way through the request -/

theorem launch_runs (h : (launch wire i).Runs (withoutRun e) d response d') : False := by
  obtain ⟨r, d, hr, _, d, hi, _, d, hu, h⟩ := h
  obtain ⟨_, d, hp, _, d, hm, _, d, hs, _⟩ :=
    (runs_bind (p := publish r .accepted none (.state .accepted))).mp h
  exact hs

theorem retire_runs {workspace : Option WorkspaceId} {rest : Async Response} (areas : List Area)
    (h : (retire workspace >>= fun _ => rest).Runs (withoutRun e) d response d')
    (ha : areas.any (· == .workspace) = false) (hrest : Within areas rest) :
    (retire workspace).Runs (withoutRun e) d () d' := by
  obtain ⟨_, t, hr, hlast⟩ := runs_bind.mp h
  rw [within_runs ha hrest hlast]
  exact hr

theorem reserveExecution_runs {exp : Int} (h : (reserveExecution wire i exp).Runs (withoutRun e) d response d') :
    (retire wire.workspaceId).Runs (withoutRun e) d () d' := by
  obtain ⟨a, _, ⟨he, rfl⟩, ha⟩ := runs_op.mp h
  rcases a with error | res
  · exact retire_runs [] ha rfl trivial
  cases res with
  | created =>
    obtain ⟨_, _, _, hl⟩ := runs_op.mp ha
    exact (launch_runs hl).elim
  | existing snap =>
    obtain ⟨_, _, rfl, hd⟩ := runs_op.mp ha
    simp only [he snap rfl, if_true] at hd
    refine retire_runs [.map, .reading, .feed] hd rfl ?_
    exact .op rfl fun _ => (eventResponse_within ..).mono (by decide)
  | conflict | staleGeneration => exact retire_runs [] ha rfl trivial
  | storageFull =>
    obtain ⟨_, _, rfl, hc⟩ := runs_op.mp ha
    exact retire_runs [] hc rfl trivial

/-- What a request does to the workspace it names: it activates it, and if that
succeeds it lets it expire again. -/
def Touches (e : Surroundings) (workspace : WorkspaceId) (d d' : Disk) : Prop :=
  ∃ ok t, withoutRun e d (.markActive workspace) ok t ∧
    (ok = false ∧ d' = t ∨ ok = true ∧ ∃ ok', withoutRun e t (.markTerminal workspace) ok' d')

theorem admitNew_runs {exp : Int} (h : (admitNew wire i exp).Runs (withoutRun e) d response d') :
    d' = d ∨ ∃ workspace, wire.workspaceId = some workspace ∧ Touches e workspace d d' := by
  obtain ⟨draining, _, hd, hadmits⟩ := runs_bind.mp h
  obtain rfl := within_runs rfl isDraining_within hd
  cases draining with
  | true => exact .inl (within_runs rfl (refuse_within ..) hadmits)
  | false =>
    obtain ⟨permit, _, rfl, hp⟩ := runs_op.mp hadmits
    cases permit with
    | false => exact .inl (within_runs rfl (refuse_within ..) hp)
    | true =>
      obtain ⟨_, _, hevic, he⟩ := runs_bind.mp hp
      obtain rfl := within_runs rfl evict_within hevic
      obtain ⟨len, _, rfl, hlen⟩ := runs_op.mp he
      by_cases hfull : len ≥ maxRecentExecutions
      · rw [if_pos hfull] at hlen
        exact .inl (within_runs rfl (refuse_within ..) hlen)
      rw [if_neg hfull] at hlen
      obtain ⟨ok, t, ha, hact⟩ := runs_bind.mp hlen
      cases hws : wire.workspaceId with
      | none =>
        rw [hws] at ha
        obtain ⟨rfl, rfl⟩ := ha
        have hr := reserveExecution_runs hact
        rw [hws] at hr
        exact .inl hr.2
      | some workspace =>
        rw [hws] at ha
        obtain ⟨_, _, hactive, rfl, rfl⟩ := ha
        refine .inr ⟨workspace, rfl, ok, t, hactive, ?_⟩
        cases ok with
        | false =>
          obtain ⟨_, _, rfl, _, _, rfl, hrefuse⟩ := hact
          exact .inl ⟨rfl, within_runs rfl (refuse_within ..) hrefuse⟩
        | true =>
          have hr := reserveExecution_runs hact
          rw [hws] at hr
          obtain ⟨ok', _, hterm, _, rfl⟩ := hr
          exact .inr ⟨rfl, ok', hterm⟩

theorem identify_runs (h : (identify config wire i).Runs (withoutRun e) d response d') :
    d' = d ∨ ∃ workspace, wire.workspaceId = some workspace ∧ Touches e workspace d d' := by
  obtain ⟨now, _, rfl, _, _, rfl, found, _, rfl, hf⟩ := h
  rcases found with error | (_ | old)
  · exact .inl hf.2
  · exact admitNew_runs hf
  · exact .inl (within_runs rfl (resubmitted_within i old) hf)

/-- What a request has to pass before its identity is looked up. -/
structure Passes (config : NodeConfig) (principal : PrincipalId) (wire : ExecuteRequest) : Prop where
  version : wire.schemaVersion = apiSchemaVersion
  authorized : authorized config principal wire = true
  generation : wire.handle.generation.get ≠ 0
  specVersion : wire.spec.schemaVersion = apiSchemaVersion
  valid : wire.spec.validate.isOk = true
  outputs : wire.spec.command.declaredOutputs.isEmpty = true ∨ wire.workspaceId.isSome = true
  isolation : checkIsolationSupported config wire.spec.command.isolation = true
  resources : checkResourcesSupported config wire.spec.command.resources = true
  network : checkNetworkSupported wire.spec.command.network = true
  digest : (config.requestDigestWithWorkspace wire.spec wire.workspaceId).isSome = true

/-- The request comes to the workspace it names, and finds it. -/
def Reaches (e : Surroundings) (principal : PrincipalId) (wire : ExecuteRequest) (d d' : Disk) : Prop :=
  ∃ workspace, wire.workspaceId = some workspace ∧
    (resolve e.manager workspace wire.handle.executionId wire.handle.generation principal e.now d).isSome = true ∧
    Touches e workspace d d'

theorem passGates_runs (hr : (passGates config principal wire).Runs (withoutRun e) d response d') :
    d' = d ∨ (checkIsolationSupported config wire.spec.command.isolation = true ∧
      checkResourcesSupported config wire.spec.command.resources = true ∧
      checkNetworkSupported wire.spec.command.network = true ∧
      (config.requestDigestWithWorkspace wire.spec wire.workspaceId).isSome = true) ∧ Reaches e principal wire d d' := by
  obtain ⟨draining, _, hd, h⟩ := runs_bind.mp hr
  obtain rfl := within_runs rfl isDraining_within hd
  split at h
  · exact .inl (within_runs rfl (refuse_within ..) h)
  split at h
  · exact .inl (within_runs rfl (refuse_within ..) h)
  rename_i hi
  split at h
  · exact .inl (within_runs rfl (refuse_within ..) h)
  rename_i hresources
  split at h
  · exact .inl (within_runs rfl (refuse_within ..) h)
  rename_i hnetwork
  split at h
  · exact .inl (within_runs rfl (refuse_within ..) h)
  rename_i ver digest hdigest
  simp only [Bool.not_eq_true', Bool.not_eq_false] at hi hresources hnetwork
  obtain ⟨root, _, hroot, hresult⟩ := runs_bind.mp h
  have hsum : (config.requestDigestWithWorkspace wire.spec wire.workspaceId).isSome = true := by rw [hdigest]; rfl
  cases hws : wire.workspaceId with
  | none =>
    rw [resolveRoot, hws] at hroot
    obtain ⟨rfl, rfl⟩ := hroot
    rcases identify_runs hresult with hsame | ⟨workspace, hsome, _⟩
    · exact .inl hsame
    · cases hws.symm.trans hsome
  | some workspace =>
    rw [resolveRoot, hws] at hroot
    obtain ⟨found, _, ⟨hf, rfl⟩, rfl, rfl⟩ := hroot
    cases found with
    | none => exact .inl (within_runs rfl (refuse_within ..) hresult)
    | some root =>
      rcases identify_runs hresult with hsame | ⟨workspace', hsome, ht⟩
      · exact .inl hsame
      obtain rfl := Option.some.inj (hws.symm.trans hsome)
      rcases hf with hn | hf
      · cases hn
      · exact .inr ⟨⟨hi, hresources, hnetwork, hws ▸ hsum⟩, workspace, hws, by rw [← hf]; rfl, ht⟩

theorem execute_runs {body : Body ExecuteRequest} (h : Exits e config principal body d d') :
    d' = d ∨ ∃ wire, body = .parsed wire ∧ Passes config principal wire ∧ Reaches e principal wire d d' := by
  obtain ⟨response, h⟩ := h
  cases body with
  | tooLarge | invalid => exact .inl h.2
  | parsed wire =>
    rw [execute] at h
    split at h
    · exact .inl h.2
    rename_i hverdict
    split at h
    · exact .inl h.2
    rename_i hauth
    split at h
    · exact .inl h.2
    rename_i hg
    split at h
    · exact .inl (within_runs rfl (refuse_within ..) h)
    rename_i hspec
    split at h
    · exact .inl (within_runs rfl (refuse_within ..) h)
    rename_i hv
    split at h
    · exact .inl (within_runs rfl (refuse_within ..) h)
    rename_i hout
    rcases passGates_runs h with hsame | ⟨⟨hi, hresult, hn, hd⟩, hr⟩
    · exact .inl hsame
    simp only [Bool.not_eq_true', Bool.not_eq_false, not_not, Bool.and_eq_true, not_and_or, Option.isNone_iff_eq_none,
      ← Option.isSome_iff_ne_none] at hverdict hauth hspec hv hout
    exact .inr ⟨wire, rfl, ⟨hverdict, hauth, hg, hspec, hv, hout, hi, hresult, hn, hd⟩, hr⟩

/-! ### A way to every end -/

theorem isDraining_false (d : Disk) : isDraining.Runs (withoutRun e) d false d := ⟨false, d, rfl, false, d, rfl, rfl, rfl⟩

theorem evict_nothing (d : Disk) : evict.Runs (withoutRun e) d () d := by
  refine runs_op.mpr ⟨(0 : Nat), d, rfl, ?_⟩
  rw [if_neg (by decide)]
  exact ⟨rfl, rfl⟩

theorem reserveExecution_conflicts (i : Identity) (exp : Int)
    (h : (retire wire.workspaceId).Runs (withoutRun e) d () d') :
    ∃ response, (reserveExecution wire i exp).Runs (withoutRun e) d response d' := by
  refine ⟨_, runs_op.mpr ⟨.ok .conflict, d, ⟨fun snap he => ?_, rfl⟩, runs_bind.mpr ⟨(), d', h, rfl, rfl⟩⟩⟩
  cases he

/-- A node with room takes the request on. -/
theorem admitNew_reaches (i : Identity) (exp : Int) {workspace : WorkspaceId}
    (hws : wire.workspaceId = some workspace) (h : Touches e workspace d d') :
    ∃ response, (admitNew wire i exp).Runs (withoutRun e) d response d' := by
  obtain ⟨ok, t, ha, hend⟩ := h
  have hact : (activate wire.workspaceId).Runs (withoutRun e) d ok t := by
    rw [hws]
    exact ⟨ok, t, ha, rfl, rfl⟩
  have hroom : ∀ response, (do
      if !(← activate wire.workspaceId) then
        sync .dropPermit
        sync .unlockExecutions
        refuseWorkspace
      else reserveExecution wire i exp : Async Response).Runs (withoutRun e) d response d' →
      (admitNew wire i exp).Runs (withoutRun e) d response d' := by
    intro response hrest
    refine runs_bind.mpr ⟨false, d, isDraining_false d, runs_op.mpr ⟨true, d, rfl, ?_⟩⟩
    refine runs_bind.mpr ⟨(), d, evict_nothing d, runs_op.mpr ⟨(0 : Nat), d, rfl, ?_⟩⟩
    rw [if_neg (by decide)]
    exact hrest
  rcases hend with ⟨rfl, rfl⟩ | ⟨rfl, ok', hterm⟩
  · exact ⟨_, hroom _ (runs_bind.mpr ⟨false, d', hact, (), d', rfl, (), d', rfl, (), d', rfl, rfl, rfl⟩)⟩
  have hr : (retire wire.workspaceId).Runs (withoutRun e) t () d' := by
    rw [hws]
    exact ⟨ok', d', hterm, rfl, rfl⟩
  obtain ⟨response, hresult⟩ := reserveExecution_conflicts i exp hr
  exact ⟨response, hroom _ (runs_bind.mpr ⟨true, t, hact, hresult⟩)⟩

theorem exits_of_reaches (hp : Passes config principal wire) (h : Reaches e principal wire d d') :
    Exits e config principal (.parsed wire) d d' := by
  obtain ⟨workspace, hws, hreso, ht⟩ := h
  obtain ⟨root, hroot⟩ := Option.isSome_iff_exists.mp hreso
  obtain ⟨⟨ver, digest⟩, hd⟩ := Option.isSome_iff_exists.mp hp.digest
  have hiden : ∀ i, ∃ response, (identify config wire i).Runs (withoutRun e) d response d' := by
    intro i
    obtain ⟨response, ha⟩ := admitNew_reaches i (config.leaseExpiry 0) hws ht
    exact ⟨response, (0 : Int), d, rfl, (), d, rfl, .ok none, d, rfl, ha⟩
  have hr : (resolveRoot wire principal).Runs (withoutRun e) d true d := by
    rw [resolveRoot, hws]
    exact ⟨some root, d, ⟨.inr hroot.symm, rfl⟩, rfl, rfl⟩
  have hout : (!wire.spec.command.declaredOutputs.isEmpty && wire.workspaceId.isNone) = false := by
    rw [hws]
    exact Bool.and_false _
  obtain ⟨response, hi⟩ := hiden
    ⟨wire.handle, ver, digest, principal.value, config.leaseHash wire.handle.leaseId⟩
  refine ⟨response, ?_⟩
  simp only [execute, hp.version, hp.authorized, hp.generation, hp.specVersion, hp.valid, hout,
    ne_eq, not_true, if_false, Bool.not_true, Bool.false_eq_true]
  refine runs_bind.mpr ⟨false, d, isDraining_false d, ?_⟩
  simp only [hp.isolation, hp.resources, hp.network, hd, Bool.not_true, Bool.false_eq_true, if_false]
  exact runs_bind.mpr ⟨true, d, hr, hi⟩

/-! ### What is left -/

section
variable {workspace : WorkspaceId}

/-- The row, if there is one, has an expiry. -/
def Dated (d : Disk) (workspace : WorkspaceId) : Prop := ∀ row, d.workspaces.get? workspace = some row → row.expires ≠ none

/-- Nothing of the workspace is pinned. -/
def Loose (d : Disk) (workspace : WorkspaceId) : Prop := Dated d workspace ∧ ¬ Pins d workspace.value

/-- An activation that writes its row writes the references too, and what it wrote is
taken back: the row, and the references if there are any. -/
def Undoes (e : Surroundings) (workspace : WorkspaceId) (d : Disk) : Prop :=
  (∀ error, e.fates .clearExpiry ≠ .fails error) ∧ (e.fates .clearExpiry = .happens →
    (∀ error, e.fates .terminalUpdate ≠ .fails error) ∧ (e.fates .terminalUpdate = .happens →
      (∃ digest, d.references.get? (.workspace, workspace.value, digest) ≠ none) → ∀ error, e.fates .setExpiry ≠ .fails error))

/-- What is kept of another workspace. -/
def SameOf (workspace : WorkspaceId) (d s : Disk) : Prop :=
  s.workspaces.get? workspace = d.workspaces.get? workspace ∧
    ∀ digest, s.references.get? (.workspace, workspace.value, digest) = d.references.get? (.workspace, workspace.value, digest)

theorem SameOf.loose {s : Disk} (h : SameOf workspace d s) (hd : Loose d workspace) : Loose s workspace := by
  refine ⟨fun row hr => hd.1 row (h.1 ▸ hr), ?_⟩
  rintro ⟨digest, hpin⟩
  exact hd.2 ⟨digest, (h.2 digest).symm.trans hpin⟩

section
variable {other : WorkspaceId} (hother : workspace ≠ other) {s : Disk}

include hother

theorem SameOf.setExpiry (h : SameOf workspace d s) (exp : Option Nat) : SameOf workspace d (s.setExpiry other exp) := by
  refine ⟨?_, h.2⟩
  rw [get?_setExpiry, if_neg hother]
  exact h.1

theorem not_ownedBy (digest : BlobDigest) : ownedBy .workspace other.value (.workspace, workspace.value, digest) = false := by
  refine decide_eq_false fun h => hother ?_
  obtain ⟨v, _⟩ := workspace
  obtain ⟨value', _⟩ := other
  simp only at h
  simp only [h.2]

theorem SameOf.clearReferenceExpiry (h : SameOf workspace d s) :
    SameOf workspace d (s.clearReferenceExpiry .workspace other.value) := by
  refine ⟨h.1, fun digest => ?_⟩
  rw [get?_clearReferenceExpiry, not_ownedBy hother, ← h.2]
  simp

theorem SameOf.setReferenceExpiry (h : SameOf workspace d s) (exp : Nat) :
    SameOf workspace d (s.setReferenceExpiry .workspace other.value exp) := by
  refine ⟨h.1, fun digest => ?_⟩
  rw [get?_setReferenceExpiry, not_ownedBy hother, ← h.2]
  simp

theorem Touches.same (h : Touches e other d d') : SameOf workspace d d' := by
  obtain ⟨ok, t, ⟨_, rfl⟩, hend⟩ := h
  have ha : SameOf workspace d (markActive e.manager e.fates other e.now d).2 := by
    have hsame : SameOf workspace d d := ⟨rfl, fun _ => rfl⟩
    by_cases hact : Activates e.manager e.fates other e.now d
    · rw [markActive_of_activates hact]
      exact Keeps.commit (fun s hs => hs.clearReferenceExpiry hother) _ (hsame.setExpiry hother none)
    obtain ⟨stop, hr⟩ := markActive_of_not hact
    rw [hr]
    exact hsame
  have hterm : SameOf workspace d (markTerminal e.fates other e.expires (markActive e.manager e.fates other e.now d).2).2 :=
    Keeps.bind (I := SameOf workspace d) (.commit fun s hs => hs.setExpiry hother _)
      (fun _ => .commit fun s hs => hs.setReferenceExpiry hother _) _ ha
  rcases hend with ⟨_, rfl⟩ | ⟨_, ok', _, rfl⟩
  · exact ha
  · exact hterm

end

def activated (workspace : WorkspaceId) (d : Disk) : Disk :=
  (d.setExpiry workspace none).clearReferenceExpiry .workspace workspace.value

theorem not_dated {row : WorkspaceRow} (hr : d.workspaces.get? workspace = some row)
    (h : d'.workspaces = (d.setExpiry workspace none).workspaces) : ¬ Dated d' workspace := by
  intro hd
  refine hd { row with expires := none } ?_ rfl
  rw [h, get?_setExpiry, if_pos rfl, hr]
  rfl

theorem dated_setExpiry (workspace : WorkspaceId) (exp : Nat) (d : Disk) :
    Dated (d.setExpiry workspace (some exp)) workspace := by
  intro row hr
  rw [get?_setExpiry, if_pos rfl] at hr
  obtain ⟨_, _, rfl⟩ := Option.map_eq_some_iff.mp hr
  exact Option.some_ne_none _

theorem get?_activated (workspace : WorkspaceId) (d : Disk) (digest : BlobDigest) :
    (activated workspace d).references.get? (.workspace, workspace.value, digest) =
      (d.references.get? (.workspace, workspace.value, digest)).map fun _ => none := by
  rw [activated, get?_clearReferenceExpiry]
  simp [ownedBy, Disk.setExpiry]

/-- A release that is not cut in two leaves nothing pinned. -/
theorem release_loose {ok : Bool} (hu : ∀ error, e.fates .terminalUpdate ≠ .fails error)
    (he : e.fates .terminalUpdate = .happens →
      (∃ digest, d.references.get? (.workspace, workspace.value, digest) ≠ none) → ∀ error, e.fates .setExpiry ≠ .fails error)
    (hok : succeeded? (markTerminal e.fates workspace e.expires (activated workspace d)).1 = some ok) :
    Loose (markTerminal e.fates workspace e.expires (activated workspace d)).2 workspace := by
  unfold markTerminal at hok ⊢
  rw [bind_apply] at hok ⊢
  cases hterm : e.fates .terminalUpdate with
  | fails error => exact absurd hterm (hu error)
  | crashes =>
    rw [hterm] at hok
    cases hok
  | happens =>
    rw [commit_happens hterm] at hok
    rw [commit_happens rfl]
    simp only at hok ⊢
    cases hset : e.fates .setExpiry with
    | crashes =>
      rw [hset] at hok
      cases hok
    | fails error =>
      refine ⟨dated_setExpiry workspace e.expires (activated workspace d), ?_⟩
      rintro ⟨digest, hpin⟩
      obtain ⟨old, hold, _⟩ := Option.map_eq_some_iff.mp ((get?_activated workspace d digest).symm.trans hpin)
      exact he hterm ⟨digest, by rw [hold]; exact Option.some_ne_none _⟩ error hset
    | happens =>
      refine ⟨dated_setExpiry workspace e.expires (activated workspace d), ?_⟩
      rintro ⟨digest, hpin⟩
      exact (pin_of_setReferenceExpiry hpin).1 rfl

theorem Touches.loose (hd : Loose d workspace)
    (hu : Activates e.manager e.fates workspace e.now d → Undoes e workspace d) (h : Touches e workspace d d') :
    Loose d' workspace := by
  obtain ⟨ok, t, ⟨hok, rfl⟩, hend⟩ := h
  by_cases hact : Activates e.manager e.fates workspace e.now d
  · obtain ⟨hc, hundo⟩ := hu hact
    rw [markActive_of_activates hact] at hok hend
    cases hfate : e.fates .clearExpiry with
    | fails error => exact absurd hfate (hc error)
    | crashes =>
      rw [hfate] at hok
      cases hok
    | happens =>
      obtain ⟨hupdate, he⟩ := hundo hfate
      rw [commit_happens hfate] at hok hend
      cases hok
      rcases hend with ⟨hf, _⟩ | ⟨_, ok', hok', rfl⟩
      · cases hf
      · exact release_loose hupdate he hok'
  · obtain ⟨stop, hr⟩ := markActive_of_not hact
    rw [hr] at hok hend
    rcases hend with ⟨_, rfl⟩ | ⟨rfl, _⟩
    · exact hd
    · cases stop <;> cases hok

/-- Where something fails to be undone, a request shows it. -/
theorem undoes_of_touches (hact : Activates e.manager e.fates workspace e.now d)
    (h : ∀ d', Touches e workspace d d' → Loose d' workspace) : Undoes e workspace d := by
  obtain ⟨row, hr, _⟩ := hact.row
  have ha := markActive_of_activates hact
  refine ⟨fun error hc => ?_, fun hc => ?_⟩
  · rw [hc] at ha
    have hl := h (d.setExpiry workspace none) ⟨false, _, ⟨by rw [ha]; rfl, by rw [ha]; rfl⟩, .inl ⟨rfl, rfl⟩⟩
    exact not_dated hr rfl hl.1
  rw [commit_happens hc] at ha
  have hrelease : ∀ ok, succeeded? (markTerminal e.fates workspace e.expires (activated workspace d)).1 = some ok →
      Loose (markTerminal e.fates workspace e.expires (activated workspace d)).2 workspace := fun ok hok =>
    h _ ⟨true, activated workspace d, ⟨by rw [ha]; rfl, by rw [ha]; rfl⟩, .inr ⟨rfl, ok, hok, rfl⟩⟩
  refine ⟨fun error hu => ?_, fun hu hrefs error hset => ?_⟩
  · have hrun : markTerminal e.fates workspace e.expires (activated workspace d) =
        (.error (.failed error), activated workspace d) := by
      rw [markTerminal, bind_apply, hu]
      rfl
    rw [hrun] at hrelease
    exact not_dated hr rfl (hrelease false rfl).1
  · have hrun : markTerminal e.fates workspace e.expires (activated workspace d) =
        (.error (.failed error), (activated workspace d).setExpiry workspace (some e.expires)) := by
      rw [markTerminal, bind_apply, hu, hset]
      rfl
    rw [hrun] at hrelease
    obtain ⟨digest, hd⟩ := hrefs
    obtain ⟨old, hold⟩ := Option.ne_none_iff_exists'.mp hd
    refine (hrelease false rfl).2 ⟨digest, ?_⟩
    show (activated workspace d).references.get? _ = _
    rw [get?_activated, hold]
    rfl

end
end

/-- Nothing of a workspace is pinned before the request. Then nothing of it is pinned
when the request returns without a run, whatever it was answered on its way, exactly
if: should the request name this workspace, pass the gates, find it and write the row
of its activation, then the activation is completed and undone. -/
theorem exit_leaves_loose {d : Disk} {workspace : WorkspaceId} (e : Surroundings) (config : NodeConfig)
    (principal : PrincipalId) (body : Body ExecuteRequest) (hloose : Loose d workspace) :
    (∀ d', Exits e config principal body d d' → Loose d' workspace) ↔
      ∀ wire, body = .parsed wire → Passes config principal wire → wire.workspaceId = some workspace →
        (resolve e.manager workspace wire.handle.executionId wire.handle.generation principal e.now d).isSome = true →
        Activates e.manager e.fates workspace e.now d → Undoes e workspace d := by
  constructor
  · rintro h wire rfl hpasses hworkspace hresolve hactivates
    exact undoes_of_touches hactivates fun d' htouches =>
      h d' (exits_of_reaches hpasses ⟨workspace, hworkspace, hresolve, htouches⟩)
  intro h d' hexits
  rcases execute_runs hexits with rfl | ⟨wire, hbody, hpasses, other, hother, hresolve, htouches⟩
  · exact hloose
  by_cases hsame : workspace = other
  · subst hsame
    exact htouches.loose hloose (h wire hbody hpasses hother hresolve)
  · exact (htouches.same hsame).loose hloose

namespace Example

/-- A workspace that was materialized and is not in use. -/
def built : Disk := (materialize manager smooth request (blank Sample.threeBytes)).2

/-- Its execution is submitted. -/
def submission : ExecuteRequest :=
  ⟨apiSchemaVersion, { Server.Example.handle 1 with executionId := execution }, some request.workspaceId, Server.Example.spec⟩

def surroundings (fates : Fates) : Surroundings := ⟨manager, fates, 1, 50⟩

theorem submission_passes : Passes Server.Example.config principal submission :=
  ⟨rfl, by decide, by decide, rfl, by decide, .inl rfl, rfl, rfl, rfl, rfl⟩

theorem built_resolves : (resolve manager request.workspaceId execution ⟨1⟩ principal 1 built).isSome = true := by
  with_unfolding_all decide

theorem built_loose : Loose built request.workspaceId := by
  constructor
  · intro row hr he
    have hall : (built.workspaces.get? request.workspaceId).all (fun row => row.expires.isSome) = true := by with_unfolding_all decide
    rw [hr, Option.all_some, he] at hall
    cases hall
  · rintro ⟨digest, hpin⟩
    have hn : hasPin built = false := by with_unfolding_all decide
    have hm := Table.mem_rows.mpr hpin
    rw [hasPin, List.any_eq_false] at hn
    exact hn _ hm rfl

theorem undated {d : Disk} {workspace : WorkspaceId}
    (h : (d.workspaces.get? workspace).any (fun row => row.expires.isNone) = true) : ¬ Dated d workspace := by
  intro hd
  obtain ⟨row, hr, he⟩ := (Option.any_eq_true _ _).mp h
  exact hd row hr (Option.isNone_iff_eq_none.mp he)

end Example

open Example in
theorem exit_leaves_loose_smooth : Loose built request.workspaceId ∧
    ∀ d', Exits (surroundings smooth) Server.Example.config principal (.parsed submission) built d' →
      Loose d' request.workspaceId := by
  refine ⟨built_loose, (exit_leaves_loose _ _ _ _ built_loose).mpr fun wire _ _ _ _ _ => ?_⟩
  exact ⟨fun error h => (by cases h), fun _ => ⟨fun error h => (by cases h), fun _ _ error h => (by cases h)⟩⟩

open Example in
/-- The references are not cleared: the request is refused and the row has no expiry.
The release of a request that met a conflict is cut in two: the references have none. -/
theorem half_activation_pins :
    (∃ d', Exits (surroundings (failing .clearExpiry)) Server.Example.config principal (.parsed submission) built d' ∧
      ¬ Dated d' request.workspaceId) ∧
    ∃ d', Exits (surroundings (failing .setExpiry)) Server.Example.config principal (.parsed submission) built d' ∧
      Pins d' request.workspaceId.value := by
  constructor
  · refine ⟨_, exits_of_reaches submission_passes ⟨_, rfl, built_resolves, false, _, ⟨by with_unfolding_all decide, rfl⟩,
      .inl ⟨rfl, rfl⟩⟩, undated ?_⟩
    with_unfolding_all decide
  · refine ⟨_, exits_of_reaches submission_passes ⟨_, rfl, built_resolves, true, _, ⟨by with_unfolding_all decide, rfl⟩,
      .inr ⟨rfl, false, by decide, rfl⟩⟩, Sample.blob, ?_⟩
    with_unfolding_all decide

end Eggwork.Workspace
