import Eggwork.Runner.Handshake

/-! Required isolation is never given up.

A request that requires its sandbox or a resource meets a refusal or a helper that
has made its checks; the command is never started without one. -/
namespace Eggwork.Runner
open Lib List

/-- The checks a specification asks for. -/
def Passed (profile : Option String) (checks : List Check) : Prop :=
  .readSpec ∈ checks ∧ .verifyResourceLimits ∈ checks ∧ (profile.isSome = true → .restrict ∈ checks)

def HelperPhase.Checked (profile : Option String) (checks : List Check) : HelperPhase → Prop
  | .loaded => .readSpec ∈ checks
  | .limited => .readSpec ∈ checks ∧ .verifyResourceLimits ∈ checks
  | .confined | .announced | .launched | .reported => Passed profile checks
  | .absent | .started | .connected | .exited => True

/-- The specification holds what the request requires. -/
def Loaded (r : RunnerRequest) (s : RunState) : Prop :=
  (r.sandbox.isRequired = true → s.profile.isSome = true) ∧ (r.resources.hasRequired = true → s.limits = true)

def Guarded (r : RunnerRequest) (s : RunState) : Phase → Prop
  | .channeling outcome => r.resources.hasRequired = true → outcome.resources.isApplied = true
  | .wrapping leader _ | .spawning leader _ => leader = .helper ∧ Loaded r s
  | .leaving _ => False
  | .refusing _ fallback _ | .reaping _ fallback _ => fallback = false
  | .running _ => s.targets ≠ []
  | .returned result => result = .ok () → s.targets ≠ []
  | .starting | .preparing | .accepting _ | .reading _ | .confirming _ => True

structure Confined (r : RunnerRequest) (s : RunState) : Prop where
  coherent : Coherent s
  checked : s.helper.Checked s.profile s.checks
  loaded : s.helper ≠ .absent → s.helper ≠ .exited → Loaded r s
  passed : s.targets ≠ [] → Passed s.profile s.checks ∧ Loaded r s
  leaders : ∀ t ∈ s.targets, t.leader = .helper
  guarded : Guarded r s s.phase

theorem launchProfile_required {r : RunnerRequest} {profile : Option String} (hr : r.sandbox.isRequired = true)
    (h : launchProfile r = .ok profile) : profile.isSome = true := by
  cases hs : r.sandbox with
  | required name =>
    rw [launchProfile, hs] at h
    simp only at h
    split at h <;> cases h
    rfl
  | none | bestEffort name => rw [hs] at hr; cases hr

namespace Confined
variable {r : RunnerRequest} {setup : ExecutionSetup} {s t : RunState}

theorem goto {phase : Phase} (hs : Confined r s) (hc : Coherent { s with phase })
    (hphase : Guarded r s phase) : Confined r { s with phase } :=
  ⟨hc, hs.checked, hs.loaded, hs.passed, hs.leaders, by cases phase <;> exact hphase⟩

theorem targets_eq_nil (hs : Confined r s) (ha : s.helper = .absent) : s.targets = [] :=
  RunState.targets_eq_nil hs.leaders (hs.coherent.story.eq_of_quiet (by rw [ha]; decide)).2

theorem ne_nil_of_confirmed (hs : Confined r s) (hh : s.wrote[1]? = some 1) : s.targets ≠ [] := by
  intro hnil
  have hstage := (hs.coherent.story.confirmed hh).1
  rw [RunState.started, hnil] at hstage
  cases hstage

theorem of_move (hrequired : r.isRequired = true) (hs : Confined r s) (h : Move r setup s t) : Confined r t := by
  have hc := h.coherent hs.coherent
  have hg := hs.guarded
  cases h with
  | stop hphase | fail hphase => exact hs.goto hc nofun
  | validated hphase => exact hs.goto hc trivial
  | prepared hphase hp hhelp => exact hs.goto hc (prepare_required hrequired hp).2
  | unaided hphase hp hhelp =>
    rw [(prepare_required hrequired hp).1] at hhelp
    cases hhelp
  | unchanneled hphase hr | refused hphase hh hcode hr =>
    rw [hrequired] at hr
    cases hr
  | channel hphase hproposed =>
    rw [hphase] at hg
    have ha := hs.coherent.absent (by rw [hphase]; rfl)
    have hloaded := And.intro (fun hsandbox => launchProfile_required hsandbox hproposed) hg
    exact ⟨hc, by rw [ha]; trivial, fun _ _ => hloaded,
      fun hne => absurd (hs.targets_eq_nil ha) hne, hs.leaders, rfl, hloaded⟩
  | wrap hphase =>
    rw [hphase] at hg
    exact hs.goto hc hg
  | spawnHelper hphase =>
    rw [hphase] at hg
    exact ⟨hc, trivial, fun _ _ => hg.2, hs.passed, hs.leaders, trivial⟩
  | spawnDirect hphase =>
    rw [hphase] at hg
    cases hg.1
  | accept hphase | announced hphase => exact hs.goto hc trivial
  | confirmed hphase hh => exact hs.goto hc (hs.ne_nil_of_confirmed hh)
  | refuse hphase hr =>
    rename_i fallback
    refine hs.goto hc ?_
    cases fallback with
    | false => rfl
    | true =>
      have := hr rfl
      rw [hrequired] at this
      cases this
  | kill hphase =>
    rw [hphase] at hg
    exact ⟨hc, trivial, fun _ hl => absurd rfl hl, hs.passed, hs.leaders, hg⟩
  | left hphase | fallBack hphase =>
    rw [hphase] at hg
    cases hg
  | finish hphase =>
    rw [hphase] at hg
    refine ⟨hc, trivial, fun _ hl => absurd rfl hl, fun _ => hs.passed hg, ?_,
      fun _ => map_eq_nil_iff.not.mpr hg⟩
    intro t ht
    obtain ⟨t', ht', rfl⟩ := mem_map.mp ht
    exact hs.leaders t' ht'

theorem of_words {helper : HelperPhase} {wrote : List UInt8} {checks : List Check} (hs : Confined r s)
    (h : HelperMove s { s with helper, wrote, checks }) (hc : helper.Checked s.profile checks)
    (hkept : s.checks ⊆ checks) : Confined r { s with helper, wrote, checks } := by
  refine ⟨h.coherent hs.coherent, hc, fun _ _ => hs.loaded h.live.1 h.live.2, fun hne => ⟨?_, (hs.passed hne).2⟩,
    hs.leaders, ?_⟩
  · obtain ⟨hread, hl, hr⟩ := (hs.passed hne).1
    exact ⟨hkept hread, hkept hl, fun hp => hkept (hr hp)⟩
  have hg := hs.guarded
  revert hg
  cases s.phase <;> exact id

theorem of_helperMove (hs : Confined r s) (h : HelperMove s t) : Confined r t := by
  have hc := hs.checked
  cases h with
  | connect hhelp => exact hs.of_words (.connect hhelp) trivial (List.Subset.refl _)
  | load hhelp => exact hs.of_words (.load hhelp) mem_cons_self (subset_cons_self _ _)
  | verify hhelp =>
    rw [hhelp] at hc
    refine hs.of_words (.verify hhelp) ?_ (subset_cons_self _ _)
    split
    · exact ⟨mem_cons_of_mem _ hc, mem_cons_self⟩
    · rename_i hp
      exact ⟨mem_cons_of_mem _ hc, mem_cons_self, fun h => absurd h hp⟩
  | restrict hhelp =>
    rw [hhelp] at hc
    exact hs.of_words (.restrict hhelp)
      ⟨mem_cons_of_mem _ hc.1, mem_cons_of_mem _ hc.2, fun _ => mem_cons_self⟩
      (subset_cons_self _ _)
  | announce hhelp =>
    rw [hhelp] at hc
    exact hs.of_words (.announce hhelp) hc (List.Subset.refl _)
  | report hhelp =>
    rw [hhelp] at hc
    exact hs.of_words (.report hhelp) hc (List.Subset.refl _)
  | unspawned hhelp => exact hs.of_words (.unspawned hhelp) trivial (List.Subset.refl _)
  | finish hhelp => exact hs.of_words (.finish hhelp) trivial (List.Subset.refl _)
  | refuse hhelp hcode => exact hs.of_words (.refuse hhelp hcode) trivial (List.Subset.refl _)
  | quit hhelp => exact hs.of_words (.quit hhelp) trivial (List.Subset.refl _)
  | spawn hhelp =>
    rw [hhelp] at hc
    have hl := hs.loaded (by rw [hhelp]; decide) (by rw [hhelp]; decide)
    have hm : HelperMove s _ := .spawn hhelp
    refine ⟨hm.coherent hs.coherent, hc, fun _ _ => hl, fun _ => ⟨hc, hl⟩,
      hm.leaders hs.leaders, ?_⟩
    have hg := hs.guarded
    revert hg
    cases s.phase with
    | running leader => exact fun _ => append_ne_nil_of_right_ne_nil _ (cons_ne_nil _ _)
    | returned res => exact fun _ _ => append_ne_nil_of_right_ne_nil _ (cons_ne_nil _ _)
    | _ => exact id

theorem of_step {e : Event} (hr : r.isRequired = true) (hs : Confined r s) (h : step r setup s e = some t) :
    Confined r t := by
  cases e with
  | runner e => exact hs.of_move hr (advance_move h)
  | helper e => exact hs.of_helperMove (helperAdvance_move h)
  | targetExits i =>
    have hc := step_coherent h hs.coherent
    cases h
    have hnil : s.targets.modify i Target.ended = [] ↔ s.targets = [] := by
      rw [← length_eq_zero_iff, length_modify, length_eq_zero_iff]
    refine ⟨hc, hs.checked, hs.loaded, fun hne => hs.passed (hnil.not.mp hne), leaders_modify hs.leaders, ?_⟩
    have hg := hs.guarded
    revert hg
    cases s.phase with
    | running leader => exact fun hne => hnil.not.mpr hne
    | returned res => exact fun hne hok => hnil.not.mpr (hne hok)
    | _ => exact id

theorem of_steps (hr : r.isRequired = true) (h : Steps (step r setup) Free .initial s) : Confined r s :=
  h.invariant (Confined r) (fun _ hstep hs => hs.of_step hr hstep)
    ⟨initial_coherent, trivial, fun hne _ => absurd rfl hne, fun hne => absurd rfl hne, nofun, trivial⟩

/-- A target is only ever started by the helper, once it has announced it. -/
theorem spawned (hs : Confined r s) {e : Event} (h : step r setup s e = some t)
    (hmore : s.targets.length < t.targets.length) : (∃ he, e = .helper he) ∧ s.helper = .announced := by
  cases e with
  | targetExits i =>
    cases h
    rw [length_modify] at hmore
    exact absurd hmore (lt_irrefl _)
  | runner e =>
    have hg := hs.guarded
    cases advance_move h with
    | spawnDirect hphase =>
      rw [hphase] at hg
      cases hg.1
    | finish hphase =>
      rw [length_map] at hmore
      exact absurd hmore (lt_irrefl _)
    | _ => exact absurd hmore (lt_irrefl _)
  | helper e =>
    refine ⟨⟨e, rfl⟩, ?_⟩
    cases helperAdvance_move h with
    | spawn hhelp => exact hhelp
    | _ => exact absurd hmore (lt_irrefl _)

end Confined

/-- The isolation of a call that has come to the state. -/
structure Isolated (r : RunnerRequest) (setup : ExecutionSetup) (s : RunState) : Prop where
  /-- The command is not about to be spawned directly, and never was. -/
  indirect : (∀ outcome, s.phase ≠ .spawning .direct outcome) ∧ ∀ t ∈ s.targets, t.leader = .helper
  /-- What starts a target is the helper, under the required specification and after its checks. -/
  checked : ∀ {e : Event} {t : RunState}, step r setup s e = some t → s.targets.length < t.targets.length →
    (∃ he, e = .helper he) ∧ Loaded r s ∧ Passed s.profile s.checks
  /-- A call that returns without a target returns an error. -/
  failed : s.targets = [] → ∀ result, s.phase = .returned result → ∃ error, result = .error error
  /-- It does return: until then an event of the runner is enabled, and each takes it closer. -/
  returns : (∃ result, s.phase = .returned result) ∨ ∃ e t, advance r setup s e = some t
  closer : ∀ {e : RunnerEvent} {t : RunState}, advance r setup s e = some t → t.phase.rank < s.phase.rank

theorem Confined.isolated {r : RunnerRequest} {setup : ExecutionSetup} {s : RunState} (hs : Confined r s) :
    Isolated r setup s where
  indirect := by
    refine ⟨fun out hphase => ?_, hs.leaders⟩
    have hg := hs.guarded
    rw [hphase] at hg
    cases hg.1
  checked h hmore := by
    obtain ⟨he, hhelp⟩ := hs.spawned h hmore
    have hc := hs.checked
    rw [hhelp] at hc
    exact ⟨he, hs.loaded (by rw [hhelp]; decide) (by rw [hhelp]; decide), hc⟩
  failed hn result hphase := by
    have hg := hs.guarded
    rw [hphase] at hg
    cases result with
    | error error => exact ⟨error, rfl⟩
    | ok _ => exact absurd hn (hg rfl)
  returns := by
    refine advance_enabled fun out hphase => ?_
    have hg := hs.guarded
    rw [hphase] at hg
    cases hg
  closer h := (advance_move h).rank

/-- Whatever the setup, the host and the helper answer, and in every order of their
steps, a call whose sandbox or some resource is required stays isolated: every word
but a session ends it in an error. -/
theorem required_isolation {r : RunnerRequest} {setup : ExecutionSetup} {s : RunState} (hrequired : r.isRequired = true)
    (h : Steps (step r setup) Free .initial s) : Isolated r setup s ∧ ∀ outcome handshake, handshake ≠ .session →
      ∃ error, respond r outcome handshake = .refusing error false outcome := by
  refine ⟨(Confined.of_steps hrequired h).isolated, fun outcome handshake hsession => ?_⟩
  rcases respond_eq r outcome hsession with ⟨_, hrelaxed, _⟩ | ⟨error, fallback, hrespond, hrelaxed⟩
  · rw [hrequired] at hrelaxed
    cases hrelaxed
  cases fallback with
  | false => exact ⟨error, hrespond⟩
  | true =>
    rw [hrequired] at hrelaxed
    cases hrelaxed rfl

/-- The sandboxed request with the sandbox required. -/
def Example.required : RunnerRequest := { sandboxed [] with sandbox := .required "workspace_rw" }

open Example in
theorem required_isolation_session :
    ∃ s, Steps (step required .trustedLandlockSetup) Free .initial s ∧ s.targets = [⟨.helper, true⟩] ∧
      Isolated required .trustedLandlockSetup s := by
  have hfollow : (follow (step required .trustedLandlockSetup) Free .initial
      (opened ++ [.helper (.announce true), .helper (.spawn true), .runner .readStatus, .helper (.report true), .runner .readStatus])).any
        (fun s => s.targets == [⟨.helper, true⟩]) = true := by
    decide
  obtain ⟨s, hrun, htargets⟩ := follow_reaches hfollow
  exact ⟨s, hrun, beq_iff_eq.mp htargets, (required_isolation rfl hrun).1⟩

end Eggwork.Runner
