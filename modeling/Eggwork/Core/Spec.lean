import Eggwork.Core.Types
import Eggwork.Lib.Checks

/-! The execution request: the command specification with the checks made on it,
and the handle that names an execution generation and its lease. -/
namespace Eggwork
open Lib

def apiSchemaVersion : UInt16 := 1
def maxArgCount : Nat := 256
def maxArgBytes : Nat := 32 * 1024
def maxEnvCount : Nat := 256
def maxEnvNameBytes : Nat := 256
def maxEnvValueBytes : Nat := 16 * 1024
def maxPathBytes : Nat := 4096
def maxOutputs : Nat := 128
def maxStdinBytes : Nat := 4 * 1024 * 1024
def maxCaptureBytes : Nat := 16 * 1024 * 1024
/-- Seven days, in milliseconds. -/
def maxTimeoutMillis : Nat := 7 * 24 * 60 * 60 * 1000

/-- A NUL byte; in UTF-8 only the character NUL has one. -/
def containsNul (s : String) : Bool := s.toList.contains (Char.ofNat 0)

/-! ### Components -/

/-- The parts of a path between its slashes. -/
def components (path : String) : List (List Char) := path.toList.splitOn '/'

def validRelativePath (value : String) : Bool :=
  !value.isEmpty && decide (value.utf8ByteSize ≤ maxPathBytes) && !value.startsWith "/" &&
    !value.toList.contains '\\' && !containsNul value &&
    (components value).all fun c => !(c.isEmpty || c == ".".toList || c == "..".toList)

structure RelativePath where
  value : String
  valid : validRelativePath value = true
deriving DecidableEq, Repr

structure EnvironmentEntry where
  name : String
  value : String
deriving DecidableEq, Repr

/-- The checks of `EnvironmentEntry::new`, made again on a deserialized entry. -/
def EnvironmentEntry.validate (e : EnvironmentEntry) : Except ValidationError Unit :=
  if e.name.isEmpty || decide (e.name.utf8ByteSize > maxEnvNameBytes) ||
      !e.name.toList.all (fun c => c.isAlphanum || c == '_') ||
      e.name.toList.head?.any (·.isDigit) || containsNul e.name then
    .error (.invalidSyntax "environment name")
  else if e.value.utf8ByteSize > maxEnvValueBytes then
    .error (.tooLong "environment value" maxEnvValueBytes)
  else if containsNul e.value then .error (.forbidden "environment value NUL")
  else .ok ()

inductive StdinPolicy where
  | null
  | bytes (value : List UInt8)
deriving DecidableEq, Repr

def StdinPolicy.validate : StdinPolicy → Except ValidationError Unit
  | .null => .ok ()
  | .bytes value => if value.length > maxStdinBytes then .error (.tooLong "stdin" maxStdinBytes) else .ok ()

inductive OverflowPolicy where
  | truncate | terminate
deriving DecidableEq, Repr

structure OutputPolicy where
  captureLimitBytes : Nat
  eventChunkBytes : Nat
  overflow : OverflowPolicy
deriving DecidableEq, Repr

def OutputPolicy.validate (p : OutputPolicy) : Except ValidationError Unit :=
  if p.captureLimitBytes > maxCaptureBytes ∨ p.eventChunkBytes = 0 ∨ p.eventChunkBytes > maxEventChunkBytes then
    .error (.outOfRange "output policy")
  else .ok ()

structure DeclaredOutput where
  path : RelativePath
  required : Bool
deriving DecidableEq, Repr

inductive Requirement (α : Type) where
  | notRequested
  | bestEffort (value : α)
  | required (value : α)
deriving DecidableEq, Repr

def Requirement.isRequired {α : Type} : Requirement α → Bool
  | .required _ => true
  | _ => false

/-- What is asked for, if anything, satisfies `p`. -/
def Requirement.all {α : Type} (p : α → Bool) : Requirement α → Bool
  | .notRequested => true
  | .bestEffort value | .required value => p value

structure ResourceRequirements where
  memoryBytes : Requirement UInt64
  cpuMillis : Requirement UInt64
  pids : Requirement UInt32
deriving DecidableEq, Repr

def ResourceRequirements.validate (r : ResourceRequirements) : Except ValidationError Unit :=
  let memoryValid := r.memoryBytes.all fun v => decide (1 ≤ v.toNat) && decide (v.toNat ≤ 1125899906842624)
  let cpuValid := r.cpuMillis.all fun v => decide (1 ≤ v.toNat) && decide (v.toNat ≤ 1000000)
  let pidsValid := r.pids.all fun v => decide (1 ≤ v.toNat) && decide (v.toNat ≤ 1000000)
  if memoryValid && cpuValid && pidsValid then .ok () else .error (.outOfRange "resource requirements")

inductive IsolationRequirement where
  | none | bestEffort | required
deriving DecidableEq, Repr

inductive NetworkRequirement where
  | unrestricted | disabled
  | allowListed (hosts : List String)
deriving DecidableEq, Repr

/-! ### The specification -/

structure CommandSpec where
  argv : List String
  cwd : Option RelativePath
  environment : List EnvironmentEntry
  stdin : StdinPolicy
  timeoutMillis : UInt64
  output : OutputPolicy
  declaredOutputs : List DeclaredOutput
  resources : ResourceRequirements
  isolation : IsolationRequirement
  network : NetworkRequirement
deriving DecidableEq, Repr

def CommandSpec.validate (c : CommandSpec) : Except ValidationError Unit := do
  if c.argv.isEmpty then throw (.empty "argv")
  if c.argv.length > maxArgCount then throw (.tooMany "argv" maxArgCount)
  if c.argv.any fun a => decide (a.utf8ByteSize > maxArgBytes) || containsNul a then
    throw (.outOfRange "argv entry")
  if c.environment.length > maxEnvCount then throw (.tooMany "environment" maxEnvCount)
  c.environment.forM EnvironmentEntry.validate
  if ¬ (c.environment.map EnvironmentEntry.name).Nodup then throw (.invalidSyntax "duplicate environment name")
  if c.declaredOutputs.length > maxOutputs then throw (.tooMany "declared outputs" maxOutputs)
  if c.timeoutMillis = 0 ∨ c.timeoutMillis.toNat > maxTimeoutMillis then throw (.outOfRange "timeout")
  c.stdin.validate
  c.output.validate
  c.resources.validate

/-- What validation leaves to rely on. -/
structure CommandSpec.Valid (c : CommandSpec) : Prop where
  argv : c.argv ≠ []
  argvCount : c.argv.length ≤ maxArgCount
  argvEntry : ∀ a ∈ c.argv, a.utf8ByteSize ≤ maxArgBytes ∧ containsNul a = false
  environmentCount : c.environment.length ≤ maxEnvCount
  environment : ∀ e ∈ c.environment, e.validate = .ok ()
  names : (c.environment.map EnvironmentEntry.name).Nodup
  outputs : c.declaredOutputs.length ≤ maxOutputs
  timeout : c.timeoutMillis ≠ 0 ∧ c.timeoutMillis.toNat ≤ maxTimeoutMillis
  stdin : c.stdin.validate = .ok ()
  output : c.output.validate = .ok ()
  resources : c.resources.validate = .ok ()

theorem CommandSpec.validate_ok {c : CommandSpec} : c.validate = .ok () ↔ c.Valid := by
  unfold CommandSpec.validate
  simp only [guard_eq_ok, bind_eq_ok, List.isEmpty_iff, gt_iff_lt, Nat.not_lt, Bool.not_eq_true,
    List.any_eq_false, Bool.or_eq_false_iff, decide_eq_false_iff_not, Decidable.not_not, not_or]
  constructor
  · rintro ⟨hargv, ha, hentry, hc, _, he, hn, hout, ht, _, hs, _, ho, hr⟩
    exact ⟨hargv, ha, hentry, hc, forM_eq_ok.mp he, hn, hout, ht, hs, ho, hr⟩
  rintro ⟨hargv, ha, hentry, hc, he, hn, hout, ht, hs, ho, hr⟩
  exact ⟨hargv, ha, hentry, hc, (), forM_eq_ok.mpr he, hn, hout, ht, (), hs, (),
    ho, hr⟩

structure ExecutionSpec where
  schemaVersion : UInt16
  command : CommandSpec
  metadata : List (String × String)
deriving DecidableEq, Repr

def ExecutionSpec.validate (s : ExecutionSpec) : Except ValidationError Unit := do
  s.command.validate
  if s.schemaVersion = 0 then throw (.outOfRange "schema version")
  if s.metadata.length > maxMetadataCount then throw (.tooMany "metadata" maxMetadataCount)
  if s.metadata.any fun (k, v) => k.isEmpty || decide (k.utf8ByteSize > maxMetadataKeyBytes) ||
      decide (v.utf8ByteSize > maxMetadataValueBytes) || containsNul k || containsNul v then
    throw (.outOfRange "metadata entry")

theorem ExecutionSpec.validate_command {s : ExecutionSpec} (h : s.validate = .ok ()) : s.command.Valid := by
  obtain ⟨_, hc, _⟩ := bind_eq_ok.mp h
  exact CommandSpec.validate_ok.mp hc

/-! ### Requests -/

structure ExecutionHandle where
  executionId : ExecutionId
  generation : ExecutionGeneration
  leaseId : LeaseId
deriving DecidableEq, Repr

structure ExecuteRequest where
  schemaVersion : UInt16
  handle : ExecutionHandle
  workspaceId : Option WorkspaceId
  spec : ExecutionSpec
deriving DecidableEq, Repr

structure ControlRequest where
  schemaVersion : UInt16
  handle : ExecutionHandle
  renewalId : Option String
deriving DecidableEq, Repr

/-- A request body: refused for its size, not parsed, or parsed. -/
inductive Body (α : Type) where
  | tooLarge
  | invalid
  | parsed (value : α)
deriving DecidableEq, Repr

end Eggwork
