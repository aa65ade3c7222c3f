import Eggwork.Core.Spec
import Eggwork.Lib.Json
import Eggwork.Lib.Sorting
import Mathlib.Data.Prod.Lex
import Mathlib.Data.String.Basic

/-! The canonical digest of an execution request.

`normalizeExecutionSpec` sorts what has no order of its own; the digest is a hash of
a versioned prefix and the JSON of the result. The JSON of each part loses nothing
(the `_injective` lemmas), a requirement included: `null`, a number and a record are
three shapes. So with an injective encoding and hash, a digest stands for a request
up to the order of its environment, metadata and outputs. -/
namespace Eggwork
open Lib Json

def canonicalRequestVersion : UInt16 := 2
def canonicalWorkspaceRequestVersion : UInt16 := 3

/-- The bytes hashed before a request without a workspace. -/
def requestPrefix : List UInt8 := "eggwork-execution-spec\x00canonical-json-v2\x00".toUTF8.toList

/-- The bytes hashed before a request in a workspace. -/
def workspaceRequestPrefix : List UInt8 := "eggwork-execution-spec\x00canonical-json-v3\x00".toUTF8.toList

def normalizeExecutionSpec (spec : ExecutionSpec) : ExecutionSpec :=
  { spec with
    command := { spec.command with
      environment := sortBy (fun entry => entry.name) spec.command.environment
      declaredOutputs := sortBy (fun output => toLex (output.path.value, output.required)) spec.command.declaredOutputs }
    metadata := sortBy (fun (pair : String × String) => toLex pair) spec.metadata }

/-! ### Encodings -/

def EnvironmentEntry.toJson (e : EnvironmentEntry) : Json := .record [("name", .string e.name), ("value", .string e.value)]

def StdinPolicy.toJson : StdinPolicy → Json
  | .null => .string "Null"
  | .bytes value => .record [("Bytes", .list (fun byte => .number byte.toNat) value)]

def OverflowPolicy.toJson : OverflowPolicy → Json
  | .truncate => .string "Truncate"
  | .terminate => .string "Terminate"

def OutputPolicy.toJson (p : OutputPolicy) : Json :=
  .record [("capture_limit_bytes", .number p.captureLimitBytes), ("event_chunk_bytes", .number p.eventChunkBytes),
    ("overflow", p.overflow.toJson)]

def RelativePath.toJson (p : RelativePath) : Json := .string p.value

def DeclaredOutput.toJson (o : DeclaredOutput) : Json := .record [("path", o.path.toJson), ("required", .bool o.required)]

/-- `null`, the value, or a record of it: the encoding the crate writes out by hand. -/
def Requirement.toJson {α : Type} (f : α → Json) : Requirement α → Json
  | .notRequested => .null
  | .bestEffort value => f value
  | .required value => .record [("required", f value)]

def ResourceRequirements.toJson (r : ResourceRequirements) : Json :=
  .record [("memory_bytes", r.memoryBytes.toJson fun v => .number v.toNat),
    ("cpu_millis", r.cpuMillis.toJson fun v => .number v.toNat), ("pids", r.pids.toJson fun v => .number v.toNat)]

def IsolationRequirement.toJson : IsolationRequirement → Json
  | .none => .string "None"
  | .bestEffort => .string "BestEffort"
  | .required => .string "Required"

def NetworkRequirement.toJson : NetworkRequirement → Json
  | .unrestricted => .string "Unrestricted"
  | .disabled => .string "Disabled"
  | .allowListed hosts => .record [("AllowListed", .list .string hosts)]

def CommandSpec.toJson (c : CommandSpec) : Json :=
  .record [("argv", .list .string c.argv), ("cwd", .option RelativePath.toJson c.cwd),
    ("environment", .list EnvironmentEntry.toJson c.environment), ("stdin", c.stdin.toJson),
    ("timeout_millis", .number c.timeoutMillis.toNat), ("output", c.output.toJson),
    ("declared_outputs", .list DeclaredOutput.toJson c.declaredOutputs), ("resources", c.resources.toJson),
    ("isolation", c.isolation.toJson), ("network", c.network.toJson)]

def pairToJson (pair : String × String) : Json := .list .string [pair.1, pair.2]

def ExecutionSpec.toJson (s : ExecutionSpec) : Json :=
  .record [("schema_version", .number s.schemaVersion.toNat), ("command", s.command.toJson),
    ("metadata", .list pairToJson s.metadata)]

/-! ### Digests -/

section
variable {Digest : Type} (toVec : Json → List UInt8) (sha256 : List UInt8 → Digest)

def requestDigest (spec : ExecutionSpec) : Digest :=
  sha256 (requestPrefix ++ toVec (normalizeExecutionSpec spec).toJson)

def requestDigestWithWorkspace (spec : ExecutionSpec) : Option WorkspaceId → UInt16 × Digest
  | none => (canonicalRequestVersion, requestDigest toVec sha256 spec)
  | some workspaceId =>
    (canonicalWorkspaceRequestVersion, sha256 (workspaceRequestPrefix ++
      toVec (.record [("spec", (normalizeExecutionSpec spec).toJson), ("workspace_id", .string workspaceId.value)])))

end

/-! ### Nothing is lost -/

theorem EnvironmentEntry.toJson_injective : Function.Injective EnvironmentEntry.toJson := by
  rintro ⟨name, value⟩ ⟨name', value'⟩ h
  simp_all [EnvironmentEntry.toJson]

theorem StdinPolicy.toJson_injective : Function.Injective StdinPolicy.toJson := by
  have hb : Function.Injective (Json.list fun byte : UInt8 => .number byte.toNat) :=
    list_injective fun _ _ h => UInt8.toNat_inj.mp (Json.number.inj h)
  intro p p' h
  cases p with
  | null =>
    cases p' with
    | null => rfl
    | bytes v => cases h
  | bytes v =>
    cases p' with
    | null => cases h
    | bytes value' => rw [hb (record_cons.mp h).2.1]

theorem OutputPolicy.toJson_injective : Function.Injective OutputPolicy.toJson := by
  rintro ⟨capture, chunk, overflow⟩ ⟨capture', chunk', overflow'⟩ h
  cases overflow <;> cases overflow' <;> simp_all [OutputPolicy.toJson, OverflowPolicy.toJson]

theorem RelativePath.toJson_injective : Function.Injective RelativePath.toJson := by
  rintro ⟨v, _⟩ ⟨value', _⟩ h
  cases Json.string.inj h
  rfl

theorem DeclaredOutput.toJson_injective : Function.Injective DeclaredOutput.toJson := by
  rintro ⟨path, required⟩ ⟨path', required'⟩ h
  simp only [DeclaredOutput.toJson, record_cons, Json.bool.injEq, true_and, and_true] at h
  rw [RelativePath.toJson_injective h.1, h.2]

/-- A requirement is told by its shape as long as its value is neither `null` nor a record. -/
theorem Requirement.toJson_injective {α : Type} {f : α → Json} (hf : Function.Injective f)
    (hnumber : ∀ a, ∃ n, f a = .number n) : Function.Injective (Requirement.toJson f) := by
  intro r r' h
  cases r with
  | notRequested =>
    cases r' with
    | notRequested => rfl
    | bestEffort v =>
      obtain ⟨n, hn⟩ := hnumber v
      exact nomatch h.trans hn
    | required v => cases h
  | bestEffort v =>
    obtain ⟨n, hn⟩ := hnumber v
    cases r' with
    | notRequested => exact nomatch hn.symm.trans h
    | bestEffort value' => rw [hf h]
    | required value' => exact nomatch hn.symm.trans h
  | required v =>
    cases r' with
    | notRequested => cases h
    | bestEffort value' =>
      obtain ⟨n, hn⟩ := hnumber value'
      exact nomatch h.trans hn
    | required value' => rw [hf (record_cons.mp h).2.1]

theorem ResourceRequirements.toJson_injective : Function.Injective ResourceRequirements.toJson := by
  have hword : Function.Injective (Requirement.toJson fun v : UInt64 => .number v.toNat) :=
    Requirement.toJson_injective (fun _ _ h => UInt64.toNat_inj.mp (Json.number.inj h)) fun v => ⟨v.toNat, rfl⟩
  have hs : Function.Injective (Requirement.toJson fun v : UInt32 => .number v.toNat) :=
    Requirement.toJson_injective (fun _ _ h => UInt32.toNat_inj.mp (Json.number.inj h)) fun v => ⟨v.toNat, rfl⟩
  rintro ⟨memory, cpu, pids⟩ ⟨memory', cpu', pids'⟩ h
  simp only [ResourceRequirements.toJson, record_cons, true_and, and_true] at h
  rw [hword h.1, hword h.2.1, hs h.2.2]

theorem IsolationRequirement.toJson_injective : Function.Injective IsolationRequirement.toJson := by
  intro i i' h
  cases i <;> cases i' <;> simp_all [IsolationRequirement.toJson]

theorem NetworkRequirement.toJson_injective : Function.Injective NetworkRequirement.toJson := by
  have hh : Function.Injective (Json.list Json.string) := list_injective fun _ _ => Json.string.inj
  intro r r' h
  cases r with
  | unrestricted | disabled => cases r' <;> simp_all [NetworkRequirement.toJson, Json.record]
  | allowListed hosts =>
    cases r' with
    | unrestricted | disabled => cases h
    | allowListed hosts' => rw [hh (record_cons.mp h).2.1]

theorem CommandSpec.toJson_injective : Function.Injective CommandSpec.toJson := by
  rintro ⟨argv, cwd, environment, stdin, timeout, output, outputs, resources, isolation, network⟩
    ⟨argv', cwd', environment', stdin', timeout', output', outputs', resources', isolation', network'⟩ h
  simp only [CommandSpec.toJson, record_cons, Json.number.injEq, true_and, and_true] at h
  obtain ⟨hargv, hcwd, he, hs, ht, ho, hout, hr, hi, hn⟩ := h
  rw [list_injective (fun _ _ => Json.string.inj) hargv,
    option_injective RelativePath.toJson_injective (fun _ => Json.noConfusion) hcwd,
    list_injective EnvironmentEntry.toJson_injective he, StdinPolicy.toJson_injective hs,
    UInt64.toNat_inj.mp ht, OutputPolicy.toJson_injective ho,
    list_injective DeclaredOutput.toJson_injective hout, ResourceRequirements.toJson_injective hr,
    IsolationRequirement.toJson_injective hi, NetworkRequirement.toJson_injective hn]

theorem pairToJson_injective : Function.Injective pairToJson := by
  rintro ⟨key, value⟩ ⟨key', value'⟩ h
  have hpair := list_injective (fun _ _ => Json.string.inj) h
  simp_all

theorem ExecutionSpec.toJson_injective : Function.Injective ExecutionSpec.toJson := by
  rintro ⟨ver, command, metadata⟩ ⟨version', command', metadata'⟩ h
  simp only [ExecutionSpec.toJson, record_cons, Json.number.injEq, true_and, and_true] at h
  rw [UInt16.toNat_inj.mp h.1, CommandSpec.toJson_injective h.2.1, list_injective pairToJson_injective h.2.2]

/-! ### Requests up to order -/

/-- The same request, but for the order of environment, metadata and outputs. -/
structure SameRequest (s t : ExecutionSpec) : Prop where
  environment : s.command.environment.Perm t.command.environment
  outputs : s.command.declaredOutputs.Perm t.command.declaredOutputs
  metadata : s.metadata.Perm t.metadata
  rest : t = { s with
    command := { s.command with
      environment := t.command.environment
      declaredOutputs := t.command.declaredOutputs }
    metadata := t.metadata }

theorem output_key_injective {o o' : DeclaredOutput}
    (h : toLex (o.path.value, o.required) = toLex (o'.path.value, o'.required)) : o = o' := by
  obtain ⟨⟨v, _⟩, required⟩ := o
  obtain ⟨⟨value', _⟩, required'⟩ := o'
  cases toLex.injective h
  rfl

/-- The normal form of a request with distinct variable names is its class up to order. -/
theorem normalizeExecutionSpec_eq_iff {s t : ExecutionSpec}
    (hn : (s.command.environment.map EnvironmentEntry.name).Nodup) :
    normalizeExecutionSpec s = normalizeExecutionSpec t ↔ SameRequest s t := by
  constructor
  · intro h
    have hc := congrArg ExecutionSpec.command h
    refine ⟨perm_of_sortBy_eq (congrArg CommandSpec.environment hc),
      perm_of_sortBy_eq (congrArg CommandSpec.declaredOutputs hc),
      perm_of_sortBy_eq (congrArg ExecutionSpec.metadata h), ?_⟩
    obtain ⟨ver, command, metadata⟩ := s
    obtain ⟨version', command', metadata'⟩ := t
    cases command
    cases command'
    simp only [normalizeExecutionSpec, ExecutionSpec.mk.injEq, CommandSpec.mk.injEq] at h ⊢
    simp only [h, and_self]
  · rintro ⟨henvironment, hout, hmeta, hrest⟩
    have he := sortBy_eq_of_perm (eq_of_key_eq hn) henvironment
    have ho := sortBy_eq_of_perm (fun _ _ _ _ => output_key_injective) hout
    have hm : sortBy (fun pair : String × String => toLex pair) _ = _ := sortBy_eq_of_perm
      (fun _ _ _ _ h => toLex.injective h) hmeta
    rw [hrest]
    unfold normalizeExecutionSpec
    simp only [he, ho, hm]

section
variable {Digest : Type} {toVec : Json → List UInt8} {sha256 : List UInt8 → Digest}

theorem hashed_inj (hjson : Function.Injective toVec) (hs : Function.Injective sha256) (label : List UInt8) {j j' : Json} :
    sha256 (label ++ toVec j) = sha256 (label ++ toVec j') ↔ j = j' :=
  ⟨fun h => hjson (List.append_cancel_left (hs h)), fun h => by rw [h]⟩

theorem requestDigestWithWorkspace_eq_iff (hjson : Function.Injective toVec) (hs : Function.Injective sha256)
    {s t : ExecutionSpec} {w w' : Option WorkspaceId} :
    requestDigestWithWorkspace toVec sha256 s w = requestDigestWithWorkspace toVec sha256 t w' ↔
      w = w' ∧ normalizeExecutionSpec s = normalizeExecutionSpec t := by
  have hv : canonicalRequestVersion ≠ canonicalWorkspaceRequestVersion := by decide
  cases w with
  | none =>
    cases w' with
    | none =>
      simp only [requestDigestWithWorkspace, requestDigest, Prod.mk.injEq, hashed_inj hjson hs, true_and,
        ExecutionSpec.toJson_injective.eq_iff]
    | some id' => exact ⟨fun h => absurd (congrArg Prod.fst h) hv, fun h => (nomatch h.1)⟩
  | some id =>
    cases w' with
    | none => exact ⟨fun h => absurd (congrArg Prod.fst h).symm hv, fun h => (nomatch h.1)⟩
    | some id' =>
      have hid : id.value = id'.value ↔ id = id' := ⟨fun h => by cases id; cases id'; cases h; rfl, fun h => by rw [h]⟩
      simp only [requestDigestWithWorkspace, Prod.mk.injEq, hashed_inj hjson hs, true_and, record_cons,
        Json.string.injEq, ExecutionSpec.toJson_injective.eq_iff, hid, Option.some.injEq, and_comm]

end

/-- A digest stands for a request: with an injective encoding and hash, two validated
requests have the same version and digest exactly if they name the same workspace, or
none, and are the same up to order. What is asked of a resource always shows. -/
theorem digest_identifies {Digest : Type} (toVec : Json → List UInt8) (sha256 : List UInt8 → Digest)
    (hjson : Function.Injective toVec) (hsha : Function.Injective sha256) (s t : ExecutionSpec)
    (hs : s.validate = .ok ()) (w w' : Option WorkspaceId) :
    (requestDigestWithWorkspace toVec sha256 s w = requestDigestWithWorkspace toVec sha256 t w' ↔
      w = w' ∧ SameRequest s t) ∧ (s.command.resources ≠ t.command.resources →
      requestDigestWithWorkspace toVec sha256 s w ≠ requestDigestWithWorkspace toVec sha256 t w') := by
  have hiff : requestDigestWithWorkspace toVec sha256 s w = requestDigestWithWorkspace toVec sha256 t w' ↔
      w = w' ∧ SameRequest s t := by
    rw [requestDigestWithWorkspace_eq_iff hjson hsha, normalizeExecutionSpec_eq_iff (s.validate_command hs).names]
  refine ⟨hiff, fun hne hdigest => hne ?_⟩
  rw [(hiff.mp hdigest).2.rest]

namespace Sample

def request (environment : List EnvironmentEntry) (memory : Requirement UInt64) : ExecutionSpec where
  schemaVersion := apiSchemaVersion
  command :=
    { argv := ["make"], cwd := none, environment, stdin := .null, timeoutMillis := 1000,
      output := ⟨1024, 16, .truncate⟩, declaredOutputs := [],
      resources := ⟨memory, .notRequested, .notRequested⟩, isolation := .none, network := .unrestricted }
  metadata := []

end Sample

open Sample in
theorem digest_identifies_reordered : ∃ toVec : Json → List UInt8, Function.Injective toVec ∧
      requestDigestWithWorkspace toVec id (request [⟨"A", "1"⟩, ⟨"B", "2"⟩] (.bestEffort 7)) none =
        requestDigestWithWorkspace toVec id (request [⟨"B", "2"⟩, ⟨"A", "1"⟩] (.bestEffort 7)) none ∧
      requestDigestWithWorkspace toVec id (request [] (.bestEffort 7)) none ≠
        requestDigestWithWorkspace toVec id (request [] (.required 7)) none := by
  obtain ⟨number, hnumber⟩ := exists_injective_nat Json
  have hvec : Function.Injective fun j => List.replicate (number j) (0 : UInt8) :=
    fun _ _ h => hnumber (List.replicate_left_injective _ h)
  refine ⟨_, hvec, ?_, ?_⟩
  · refine (digest_identifies _ id hvec Function.injective_id _ _ (by decide) none none).1.mpr ⟨rfl, ?_⟩
    exact ⟨List.Perm.swap _ _ _, .refl _, .refl _, rfl⟩
  · exact (digest_identifies _ id hvec Function.injective_id _ _ (by decide) none none).2 (by decide)

end Eggwork
