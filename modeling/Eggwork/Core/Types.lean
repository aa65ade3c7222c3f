/-! The protocol-neutral domain of an execution: identities, states, results,
events and snapshots, with the bounds the crate checks on them.

An identifier carries the check its constructor makes. A generation and a
sequence number are `u64` on the wire; the store casts a generation to `i64`
before it is a key (`ExecutionGeneration.asI64`), so generations stay machine
words here. Sequence numbers only ever count up from one and are naturals. -/
namespace Eggwork

def maxIdBytes : Nat := 128
def maxMetadataCount : Nat := 64
def maxMetadataKeyBytes : Nat := 128
def maxMetadataValueBytes : Nat := 2048
def maxEventChunkBytes : Nat := 64 * 1024
/-- Ceiling on the JSON encoding of one event. -/
def maxEventBytes : Nat := 512 * 1024

inductive ValidationError where
  | empty (field : String)
  | tooLong (field : String) (max : Nat)
  | invalidSyntax (field : String)
  | tooMany (field : String) (max : Nat)
  | forbidden (field : String)
  | invalidPath (field : String)
  | outOfRange (field : String)
deriving DecidableEq, Repr

/-- The text of a validation error. -/
def ValidationError.text : ValidationError → String
  | .empty field => field ++ " must not be empty"
  | .tooLong field max => field ++ " exceeds its " ++ toString max ++ "-byte limit"
  | .invalidSyntax field => field ++ " has invalid syntax"
  | .tooMany field max => field ++ " exceeds its " ++ toString max ++ "-item limit"
  | .forbidden field => field ++ " contains a forbidden value"
  | .invalidPath field => field ++ " must be relative and confined"
  | .outOfRange field => field ++ " is outside its supported range"

/-! ### Identifiers -/

def idChar (c : Char) : Bool := c.isAlphanum || c == '-' || c == '_' || c == '.' || c == ':'

/-- What `id_type!` checks: not empty, at most 128 bytes, ASCII letters, digits and `-_.:`. -/
def validId (value : String) : Bool :=
  !value.isEmpty && decide (value.utf8ByteSize ≤ maxIdBytes) && value.toList.all idChar

/-- The family `id_type!` generates; `label` is the field its errors name. -/
structure IdType (label : String) where
  value : String
  valid : validId value = true
deriving DecidableEq, Repr

theorem IdType.eq_of_value {label : String} {a b : IdType label} (h : a.value = b.value) : a = b := by
  cases a
  cases b
  cases h
  rfl

def IdType.new (label value : String) : Except ValidationError (IdType label) :=
  if value.isEmpty then .error (.empty label)
  else if value.utf8ByteSize > maxIdBytes then .error (.tooLong label maxIdBytes)
  else if h : validId value = true then .ok ⟨value, h⟩
  else .error (.invalidSyntax label)

abbrev PrincipalId := IdType "principal id"
abbrev ExecutionId := IdType "execution id"
abbrev LeaseId := IdType "lease id"
abbrev WorkspaceId := IdType "workspace id"

structure ExecutionGeneration where
  get : UInt64
deriving DecidableEq, Repr

/-- `get() as i64`: the store's key column is signed, so a generation past
`i64::MAX` becomes negative. -/
def ExecutionGeneration.asI64 (g : ExecutionGeneration) : Int := g.get.toInt64.toInt

theorem ExecutionGeneration.asI64_inj {g h : ExecutionGeneration} : g.asI64 = h.asI64 ↔ g = h := by
  constructor
  · intro he
    have hword : g.get.toInt64 = h.get.toInt64 := Int64.toInt_inj.mp he
    have hget : g.get = h.get := by
      rw [← UInt64.toUInt64_toInt64 g.get, hword, UInt64.toUInt64_toInt64]
    cases g
    cases h
    exact congrArg _ hget
  · rintro rfl
    rfl

def ExecutionGeneration.new (value : UInt64) : Except ValidationError ExecutionGeneration :=
  if value = 0 then .error (.outOfRange "execution generation") else .ok ⟨value⟩

/-! ### States and results -/

inductive ExecutionState where
  | accepted | preparing | running | cancelling
  | succeeded | failed | cancelled | timedOut | interrupted
deriving DecidableEq, Repr

def isTerminal : ExecutionState → Bool
  | .succeeded | .failed | .cancelled | .timedOut | .interrupted => true
  | _ => false

inductive ExecutionFailure where
  | spawn | internal | outputLimit | sandbox | resourceLimit | interrupted | leaseExpired
deriving DecidableEq, Repr

inductive SandboxResult where
  | notRequested
  | notApplied (reason : String)
  | applied (profile : String)
  | failed (reason : String)
deriving DecidableEq, Repr

inductive ResourceDimensionResult where
  | notRequested
  | notApplied (reason : String)
  | applied (backend : String)
  | limitExceeded (backend : String)
deriving DecidableEq, Repr

structure ResourceResult where
  memoryBytes : ResourceDimensionResult
  cpuMillis : ResourceDimensionResult
  pids : ResourceDimensionResult
deriving DecidableEq, Repr

inductive ExecutionFinalizationFailure where
  | artifactCapture | retention
deriving DecidableEq, Repr

structure ExecutionResult where
  state : ExecutionState
  exitCode : Option Int
  failure : Option ExecutionFailure
  stdoutBytes : Nat
  stderrBytes : Nat
  stdoutOmitted : Nat
  stderrOmitted : Nat
  cleanupWarning : Option String
  finalizationFailure : Option ExecutionFinalizationFailure
  artifactCount : Nat
  sandbox : Option SandboxResult
  resources : Option ResourceResult
deriving DecidableEq, Repr

structure ExecutionSnapshot where
  schemaVersion : UInt16
  executionId : ExecutionId
  generation : ExecutionGeneration
  state : ExecutionState
  result : Option ExecutionResult
deriving DecidableEq, Repr

/-! ### Events -/

structure EventMetadata where
  fields : List (String × String)
deriving DecidableEq, Repr

def EventMetadata.validate (m : EventMetadata) : Except ValidationError Unit :=
  if m.fields.length > maxMetadataCount then .error (.tooMany "event metadata" maxMetadataCount)
  else if m.fields.any fun (k, v) =>
      decide (k.utf8ByteSize > maxMetadataKeyBytes) || decide (v.utf8ByteSize > maxMetadataValueBytes)
    then .error (.outOfRange "event metadata")
  else .ok ()

inductive ExecutionEventKind where
  | state (state : ExecutionState)
  | stdout (bytes : List UInt8)
  | stderr (bytes : List UInt8)
  | diagnostic (text : String)
deriving DecidableEq, Repr

/-- The payload length `validate` bounds. -/
def ExecutionEventKind.payload : ExecutionEventKind → Nat
  | .stdout bytes | .stderr bytes => bytes.length
  | .diagnostic text => text.utf8ByteSize
  | .state _ => 0

/-- The event that says the execution is over: `State` of a terminal state. -/
def ExecutionEventKind.isTerminal : ExecutionEventKind → Bool
  | .state s => Eggwork.isTerminal s
  | _ => false

structure ExecutionEvent where
  sequence : Nat
  kind : ExecutionEventKind
  metadata : EventMetadata
deriving DecidableEq, Repr

def ExecutionEvent.validate (e : ExecutionEvent) : Except ValidationError Unit := do
  e.metadata.validate
  if e.kind.payload > maxEventChunkBytes then
    .error (.tooLong "event payload" maxEventChunkBytes)
  else .ok ()

/-- The event every commit builds: no metadata. -/
def ExecutionEvent.plain (sequence : Nat) (kind : ExecutionEventKind) : ExecutionEvent :=
  ⟨sequence, kind, ⟨[]⟩⟩

end Eggwork
