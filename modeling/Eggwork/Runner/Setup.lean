import Eggwork.Runner.Launch

/-! What is prepared before a process exists.

An `ExecutionSetup` answers whether sandbox and resource limits can be had; the
node has two. The host's part in the answer is its probes. What is required is
either prepared or refused here: a required request that gets past `prepare` goes
through the helper (`prepare_required`). -/
namespace Eggwork.Runner
open Lib

inductive SandboxOutcome where
  | notRequested
  | notApplied (reason : String)
  | applied (profile : String)
  | failed (reason : String)
deriving DecidableEq, Repr

inductive ResourceSetupOutcome where
  | notRequested
  | notApplied (reason : String)
  | applied (backend : String)
  | failed (reason : String)
deriving DecidableEq, Repr

structure SetupOutcome where
  sandbox : SandboxOutcome
  resources : ResourceSetupOutcome
deriving DecidableEq, Repr

def SandboxOutcome.isApplied : SandboxOutcome → Bool
  | .applied _ => true
  | _ => false

def ResourceSetupOutcome.isApplied : ResourceSetupOutcome → Bool
  | .applied _ => true
  | _ => false

def SandboxRequest.isNone : SandboxRequest → Bool
  | .none => true
  | _ => false

def SandboxRequest.isRequired : SandboxRequest → Bool
  | .required _ => true
  | _ => false

/-- Sandbox or some resource is required. -/
def RunnerRequest.isRequired (r : RunnerRequest) : Bool := r.sandbox.isRequired || r.resources.hasRequired

/-- What the host answers: the probe of the resource backend, and the trust check of
the helper, which is made up to twice. -/
structure Probes where
  backend : Except String Unit
  helper : Except String Unit
  helperAgain : Except String Unit
deriving Repr

/-- The two setups of the crate. -/
inductive ExecutionSetup where
  | noExecutionSetup
  | trustedLandlockSetup
deriving DecidableEq, Repr

namespace NoExecutionSetup

def prepare (sandbox : SandboxRequest) (resources : ResourceSetupRequest) : Except RunnerError SetupOutcome :=
  if sandbox.isRequired || resources.hasRequired then .error .requiredSetupUnavailable
  else .ok {
    sandbox := match sandbox with
      | .none => .notRequested
      | .bestEffort _ | .required _ => .notApplied "no sandbox backend is configured"
    resources :=
      if resources.isRequested then .notApplied "no resource-control backend is configured" else .notRequested }

end NoExecutionSetup

namespace TrustedLandlockSetup

def prepareResources (probes : Probes) (resources : ResourceSetupRequest) : Except RunnerError ResourceSetupOutcome :=
  if resources.isRequested then
    match probes.backend with
    | .ok () =>
      match probes.helper with
      | .ok () => .ok (.applied "systemd-cgroup-v2")
      | .error reason => if resources.hasRequired then .error (.setup reason) else .ok (.notApplied reason)
    | .error reason => if resources.hasRequired then .error (.setup reason) else .ok (.notApplied reason)
  else .ok .notRequested

def prepareSandbox (probes : Probes) : SandboxRequest → Except RunnerError SandboxOutcome
  | .none => .ok .notRequested
  | .bestEffort profile =>
    if profile ≠ "workspace_rw" then .ok (.notApplied "unsupported sandbox profile")
    else match probes.helperAgain with
      | .ok () => .ok (.applied profile)
      | .error reason => .ok (.notApplied reason)
  | .required profile =>
    if profile ≠ "workspace_rw" then .error (.setup "unsupported sandbox profile")
    else match probes.helperAgain with
      | .ok () => .ok (.applied profile)
      | .error reason => .error (.setup reason)

def prepare (probes : Probes) (sandbox : SandboxRequest) (resources : ResourceSetupRequest) :
    Except RunnerError SetupOutcome := do
  let resourceOutcome ← prepareResources probes resources
  let outcome ← prepareSandbox probes sandbox
  return ⟨outcome, resourceOutcome⟩

end TrustedLandlockSetup

namespace ExecutionSetup

def prepare (setup : ExecutionSetup) (probes : Probes) (r : RunnerRequest) : Except RunnerError SetupOutcome :=
  match setup with
  | .noExecutionSetup => NoExecutionSetup.prepare r.sandbox r.resources
  | .trustedLandlockSetup => TrustedLandlockSetup.prepare probes r.sandbox r.resources

def hasHelper : ExecutionSetup → Bool
  | .noExecutionSetup => false
  | .trustedLandlockSetup => true

end ExecutionSetup

/-- Whether the helper is to start the target. -/
def useHelper (setup : ExecutionSetup) (r : RunnerRequest) (outcome : SetupOutcome) : Bool :=
  ((!r.sandbox.isNone && outcome.sandbox.isApplied) || outcome.resources.isApplied) && setup.hasHelper

/-! ### What is required is prepared -/

theorem Requirement.isRequested_of_isRequired {α : Type} {r : Requirement α} (h : r.isRequired = true) :
    Requirement.isRequested r = true := by
  cases r with
  | notRequested => cases h
  | bestEffort v | required v => rfl

theorem ResourceSetupRequest.isRequested_of_hasRequired {r : ResourceSetupRequest} (h : r.hasRequired = true) :
    r.isRequested = true := by
  simp only [ResourceSetupRequest.hasRequired, ResourceSetupRequest.isRequested, Bool.or_eq_true] at h ⊢
  exact h.imp (Or.imp Requirement.isRequested_of_isRequired Requirement.isRequested_of_isRequired)
    Requirement.isRequested_of_isRequired

theorem TrustedLandlockSetup.prepareResources_required {probes : Probes} {resources : ResourceSetupRequest}
    {out : ResourceSetupOutcome} (hr : resources.hasRequired = true)
    (h : prepareResources probes resources = .ok out) : out.isApplied = true := by
  rw [prepareResources, if_pos (ResourceSetupRequest.isRequested_of_hasRequired hr)] at h
  cases hb : probes.backend with
  | error reason =>
    rw [hb] at h
    simp only [if_pos hr] at h
    cases h
  | ok _ =>
    cases hhelp : probes.helper with
    | error reason =>
      rw [hb, hhelp] at h
      simp only [if_pos hr] at h
      cases h
    | ok _ =>
      rw [hb, hhelp] at h
      cases h
      rfl

theorem TrustedLandlockSetup.prepareSandbox_required {probes : Probes} {profile : String} {out : SandboxOutcome}
    (h : prepareSandbox probes (.required profile) = .ok out) : out.isApplied = true := by
  obtain ⟨_, h⟩ := throwing_eq_ok.mp h
  cases hhelp : probes.helperAgain with
  | error reason =>
    rw [hhelp] at h
    cases h
  | ok _ =>
    rw [hhelp] at h
    cases h
    rfl

theorem prepare_required {setup : ExecutionSetup} {probes : Probes} {r : RunnerRequest} {out : SetupOutcome}
    (hrequired : r.isRequired = true) (h : setup.prepare probes r = .ok out) :
    useHelper setup r out = true ∧ (r.resources.hasRequired = true → out.resources.isApplied = true) := by
  cases setup with
  | noExecutionSetup => exact absurd hrequired (throwing_eq_ok.mp h).1
  | trustedLandlockSetup =>
    obtain ⟨resources, hresources, h⟩ := bind_eq_ok.mp h
    obtain ⟨sandbox, hs, h⟩ := bind_eq_ok.mp h
    cases h
    have ha := fun hresult => TrustedLandlockSetup.prepareResources_required hresult hresources
    refine ⟨?_, ha⟩
    rw [useHelper, ExecutionSetup.hasHelper, Bool.and_true, Bool.or_eq_true]
    rcases Bool.or_eq_true_iff.mp hrequired with hrequest | hrequest
    · cases hr : r.sandbox with
      | required profile =>
        rw [hr] at hs
        exact .inl (TrustedLandlockSetup.prepareSandbox_required hs)
      | none | bestEffort profile => rw [hr] at hrequest; cases hrequest
    · exact .inr (ha hrequest)

end Eggwork.Runner
