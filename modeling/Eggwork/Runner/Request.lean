import Eggwork.Core.Canonical
import Eggwork.Runner.Result

/-! The runner's own request and the checks it makes on it.

`RunnerRequest.fromSpec` translates an admitted specification;
`RunnerRequest.validate` checks the fields again before anything is set up, then
resolves root and working directory on the host. The two validators were written
apart: the runner also refuses an empty argument. -/
namespace Eggwork.Runner
open Lib

inductive SandboxRequest where
  | none
  | bestEffort (profile : String)
  | required (profile : String)
deriving DecidableEq, Repr

structure ResourceSetupRequest where
  memoryBytes : Requirement UInt64
  cpuMillis : Requirement UInt64
  pids : Requirement UInt32
deriving DecidableEq, Repr

structure ExecutionProvenance where
  executionId : Option ExecutionId
  generation : Option ExecutionGeneration
deriving DecidableEq, Repr

/-- Paths of the host are texts here; `Host` is what it knows about them. -/
structure RunnerRequest where
  argv : List String
  root : String
  cwd : Option RelativePath
  environment : List (String × String)
  stdin : StdinPolicy
  timeoutNanos : Nat
  captureLimit : Nat
  eventChunkBytes : Nat
  overflow : OverflowPolicy
  provenance : ExecutionProvenance
  sandbox : SandboxRequest
  resources : ResourceSetupRequest
deriving DecidableEq, Repr

def RunnerRequest.fromSpec (spec : ExecutionSpec) (root : String) (provenance : ExecutionProvenance) :
    Except RunnerError RunnerRequest := do
  spec.validate.mapError fun e => .invalidRequest e.text
  return {
    argv := spec.command.argv
    root
    cwd := spec.command.cwd
    environment := spec.command.environment.map fun e => (e.name, e.value)
    stdin := spec.command.stdin
    timeoutNanos := spec.command.timeoutMillis.toNat * 1000000
    captureLimit := spec.command.output.captureLimitBytes
    eventChunkBytes := spec.command.output.eventChunkBytes
    overflow := spec.command.output.overflow
    provenance
    sandbox := match spec.command.isolation with
      | .none => .none
      | .bestEffort => .bestEffort "workspace_rw"
      | .required => .required "workspace_rw"
    resources := ⟨spec.command.resources.memoryBytes, spec.command.resources.cpuMillis, spec.command.resources.pids⟩ }

/-! ### The check -/

/-- An argument the runner refuses: empty, too long, or with a NUL. -/
def badArgument (a : String) : Bool := a.isEmpty || decide (a.utf8ByteSize > maxArgBytes) || containsNul a

/-- A variable the runner refuses. -/
def badVariable (kv : String × String) : Bool :=
  kv.1.isEmpty || decide (kv.1.utf8ByteSize > maxEnvNameBytes) || decide (kv.2.utf8ByteSize > maxEnvValueBytes) ||
    containsNul kv.1 || kv.1.toList.contains '=' || containsNul kv.2

/-- The runner's check of its input; the error is quoted in another. -/
def checkStdin : StdinPolicy → Except RunnerError Unit
  | .bytes value =>
    if value.length > maxStdinBytes then .error (.invalidRequest "invalid execution request: stdin exceeds limit") else .ok ()
  | .null => .ok ()

/-- The checks on the fields alone: argv, environment, output limits, timeout and stdin. -/
def RunnerRequest.validateFields (r : RunnerRequest) : Except RunnerError Unit := do
  if r.argv.isEmpty || decide (r.argv.length > maxArgCount) || r.argv.any badArgument then
    throw (.invalidRequest "argv is empty or contains an empty/NUL entry")
  if decide (r.environment.length > maxEnvCount) || r.environment.any badVariable then
    throw (.invalidRequest "environment violates bounds or syntax")
  if r.captureLimit > maxCaptureBytes ∨ r.eventChunkBytes = 0 ∨ r.eventChunkBytes > maxEventChunkBytes then
    throw (.invalidRequest "output limits are outside supported bounds")
  if r.timeoutNanos = 0 ∨ r.timeoutNanos > maxTimeoutMillis * 1000000 then
    throw (.invalidRequest "timeout must be positive")
  checkStdin r.stdin

/-- What the host answers about paths. -/
structure Host where
  canonicalize : String → Except String String
  isDir : String → Bool
  join : String → String → String
  startsWith : String → String → Bool

/-- The whole check; the answer is the working directory. -/
def RunnerRequest.validate (host : Host) (r : RunnerRequest) : Except RunnerError String := do
  r.validateFields
  let root ← (host.canonicalize r.root).mapError RunnerError.invalidRoot
  if !host.isDir root then throw (.invalidRoot "execution root is not a directory")
  match r.cwd with
  | some relative =>
    let canonical ← (host.canonicalize (host.join root relative.value)).mapError RunnerError.invalidWorkingDirectory
    if !host.startsWith canonical root || !host.isDir canonical then
      throw (.invalidWorkingDirectory "cwd escapes root or is not a directory")
    pure canonical
  | none => pure root

/-- What the runner's check of the fields leaves to rely on. -/
structure RunnerRequest.Valid (r : RunnerRequest) : Prop where
  argv : r.argv ≠ []
  argvCount : r.argv.length ≤ maxArgCount
  argument : ∀ a ∈ r.argv, badArgument a = false
  environmentCount : r.environment.length ≤ maxEnvCount
  environment : ∀ kv ∈ r.environment, badVariable kv = false
  output : r.captureLimit ≤ maxCaptureBytes ∧ r.eventChunkBytes ≠ 0 ∧ r.eventChunkBytes ≤ maxEventChunkBytes
  timeout : r.timeoutNanos ≠ 0 ∧ r.timeoutNanos ≤ maxTimeoutMillis * 1000000
  stdin : checkStdin r.stdin = .ok ()

theorem RunnerRequest.validateFields_ok {r : RunnerRequest} : r.validateFields = .ok () ↔ r.Valid := by
  unfold RunnerRequest.validateFields
  simp only [guard_eq_ok, Bool.or_eq_true, decide_eq_true_eq, not_or, List.isEmpty_iff, gt_iff_lt, Nat.not_lt,
    Bool.not_eq_true, List.any_eq_false]
  constructor
  · rintro ⟨⟨⟨hargv, hc⟩, ha⟩, ⟨henvc, he⟩, hout, ht, hs⟩
    exact ⟨hargv, hc, ha, henvc, he, hout, ht, hs⟩
  · rintro ⟨hargv, hc, ha, henvc, he, hout, ht, hs⟩
    exact ⟨⟨⟨hargv, hc⟩, ha⟩, ⟨henvc, he⟩, hout, ht, hs⟩

/-! ### From an admitted specification -/

/-- What the specification accepts as an argument, the runner accepts unless it is empty. -/
theorem badArgument_eq_false {a : String} (h : a.utf8ByteSize ≤ maxArgBytes ∧ containsNul a = false) :
    badArgument a = false ↔ a ≠ "" := by
  have hlen : decide (a.utf8ByteSize > maxArgBytes) = false := decide_eq_false (Nat.not_lt.mpr h.1)
  rw [badArgument, hlen, h.2, Bool.or_false, Bool.or_false, ← Bool.not_eq_true, String.isEmpty_iff]

theorem badVariable_of_valid {e : EnvironmentEntry} (h : e.validate = .ok ()) : badVariable (e.name, e.value) = false := by
  obtain ⟨hname, h⟩ := throwing_eq_ok.mp h
  obtain ⟨hlen, h⟩ := throwing_eq_ok.mp h
  have hv := (throwing_eq_ok.mp h).1
  simp only [Bool.or_eq_true, decide_eq_true_eq, not_or, Bool.not_eq_true, Bool.not_eq_eq_eq_not, Bool.not_true,
    Bool.not_eq_false, List.all_eq_true] at hname hv
  obtain ⟨⟨⟨⟨he, hb⟩, hchange⟩, _⟩, hn⟩ := hname
  have hequal : e.name.toList.contains '=' = false := by
    by_contra hc
    have hchar := hchange '=' (List.contains_iff_mem.mp (Bool.not_eq_false _ ▸ hc))
    exact absurd hchar (by decide)
  simp only [badVariable, he, hn, hequal, hv, Bool.or_false, Bool.or_eq_false_iff, decide_eq_false_iff_not]
  exact ⟨⟨trivial, hb⟩, hlen⟩

theorem checkStdin_of_valid {policy : StdinPolicy} (h : policy.validate = .ok ()) : checkStdin policy = .ok () := by
  cases policy with
  | null => rfl
  | bytes v => exact throwing_eq_ok.mpr ⟨(throwing_eq_ok.mp h).1, rfl⟩

theorem output_of_valid {p : OutputPolicy} (h : p.validate = .ok ()) :
    p.captureLimitBytes ≤ maxCaptureBytes ∧ p.eventChunkBytes ≠ 0 ∧ p.eventChunkBytes ≤ maxEventChunkBytes := by
  have hb := (throwing_eq_ok.mp h).1
  omega

/-- Admission implies a runnable request exactly when no argument is empty: everything
else the runner checks on the fields, the specification has checked already. -/
theorem admitted_runnable (spec : ExecutionSpec) (root : String) (provenance : ExecutionProvenance)
    (h : spec.validate = .ok ()) :
    ∃ r, RunnerRequest.fromSpec spec root provenance = .ok r ∧ (r.validateFields = .ok () ↔ ∀ a ∈ spec.command.argv, a ≠ "") := by
  have hvalid := spec.validate_command h
  refine ⟨_, by rw [RunnerRequest.fromSpec, h]; rfl, ?_⟩
  rw [RunnerRequest.validateFields_ok]
  constructor
  · intro hr a ha
    exact (badArgument_eq_false (hvalid.argvEntry a ha)).mp (hr.argument a ha)
  intro hargs
  refine ⟨hvalid.argv, hvalid.argvCount, fun a ha => ?_, ?_, fun kv hkv => ?_, output_of_valid hvalid.output, ?_,
    checkStdin_of_valid hvalid.stdin⟩
  · exact (badArgument_eq_false (hvalid.argvEntry a ha)).mpr (hargs a ha)
  · simpa using hvalid.environmentCount
  · obtain ⟨e, he, rfl⟩ := List.mem_map.mp hkv
    exact badVariable_of_valid (hvalid.environment e he)
  have hpositive : spec.command.timeoutMillis.toNat ≠ 0 := fun h0 => hvalid.timeout.1 (UInt64.toNat_inj.mp h0)
  have hbound := hvalid.timeout.2
  dsimp only
  omega

namespace Example

def command (argv : List String) : ExecutionSpec :=
  let request := Sample.request [⟨"LANG", "C"⟩] .notRequested
  { request with command := { request.command with argv } }

end Example

open Example in
theorem admitted_runnable_make : (command ["make", "all"]).validate = .ok () ∧
      ∃ r, RunnerRequest.fromSpec (command ["make", "all"]) "/work" ⟨none, none⟩ = .ok r ∧ r.validateFields = .ok () := by
  have hvalid : (command ["make", "all"]).validate = .ok () := by decide
  obtain ⟨r, hr, hrunnable⟩ := admitted_runnable _ "/work" ⟨none, none⟩ hvalid
  exact ⟨hvalid, r, hr, hrunnable.mpr (by decide)⟩

open Example in
/-- An empty argument is admitted and then refused by the runner. -/
theorem empty_argument_refused : (command ["git", "commit", "-m", ""]).validate = .ok () ∧
      ((RunnerRequest.fromSpec (command ["git", "commit", "-m", ""]) "/work" ⟨none, none⟩).bind
          fun r => r.validateFields) = .error (.invalidRequest "argv is empty or contains an empty/NUL entry") := by
  decide

end Eggwork.Runner
