import Eggwork.Core.Types
import Eggwork.Lib.Checks
import Mathlib.Algebra.Order.Ring.Int

/-! Host telemetry on the wire, and what a reader accepts of it.

A percentage or a load is an IEEE 754 single. Only comparisons of finite ones
matter, so a finite single is read as an integer number of the smallest
subnormal, `2 ^ (-149)`. -/
namespace Eggwork
open Lib

abbrev NodeId := IdType "node id"

/-- The bits of an `f32`. -/
structure F32 where
  bits : UInt32
deriving DecidableEq, Repr

namespace F32

def exponent (x : F32) : Nat := x.bits.toNat / 2 ^ 23 % 2 ^ 8
def fraction (x : F32) : Nat := x.bits.toNat % 2 ^ 23
def isNegative (x : F32) : Bool := decide (2 ^ 31 ≤ x.bits.toNat)

def isFinite (x : F32) : Bool := x.exponent != 255

/-- A finite value, in units of `2 ^ (-149)`. -/
def units (x : F32) : Int :=
  let magnitude := if x.exponent = 0 then x.fraction else (2 ^ 23 + x.fraction) * 2 ^ (x.exponent - 1)
  if x.isNegative then -magnitude else magnitude

/-- A whole number in those units. -/
def ofNat (n : Nat) : Int := n * 2 ^ 149

end F32

inductive TelemetrySource where
  | gregg
deriving DecidableEq, Repr

inductive TelemetryProviderState where
  | disabled | warming | ready | stale | unavailable | invalid
deriving DecidableEq, Repr

inductive TelemetryErrorCategory where
  | connection | timeout | httpStatus | malformed | schemaVersion | invalid | tooLarge | clockSkew
deriving DecidableEq, Repr

inductive TelemetryMetric (T : Type) where
  | unsupported
  | unknown
  | value (value : T)
deriving DecidableEq, Repr

structure TelemetryCpu where
  logicalCores : UInt32
  usagePct : F32
  iowaitPct : Option F32
deriving DecidableEq, Repr

structure TelemetryMemory where
  availableBytes : UInt64
  totalBytes : UInt64
  usedBytes : UInt64
deriving DecidableEq, Repr

structure TelemetryLoad where
  one : F32
  five : F32
  fifteen : F32
deriving DecidableEq, Repr

structure TelemetrySwap where
  usedBytes : UInt64
  totalBytes : UInt64
deriving DecidableEq, Repr

structure TelemetryDisk where
  availableBytes : UInt64
  totalBytes : UInt64
  volumeCount : UInt32
deriving DecidableEq, Repr

structure TelemetryDiskIo where
  readBytesPerSec : UInt64
  writeBytesPerSec : UInt64
deriving DecidableEq, Repr

structure TelemetryNetwork where
  rxBytesPerSec : UInt64
  txBytesPerSec : UInt64
deriving DecidableEq, Repr

structure HostTelemetry where
  observedAtUnixMs : UInt64
  sampleIntervalMs : UInt64
  cpu : TelemetryMetric TelemetryCpu
  memory : TelemetryMetric TelemetryMemory
  load : TelemetryMetric TelemetryLoad
  swap : TelemetryMetric TelemetrySwap
  disk : TelemetryMetric TelemetryDisk
  diskIo : TelemetryMetric TelemetryDiskIo
  network : TelemetryMetric TelemetryNetwork
deriving DecidableEq, Repr

def nodeTelemetrySchemaVersion : UInt16 := 1

structure NodeTelemetry where
  schemaVersion : UInt16
  nodeId : NodeId
  source : TelemetrySource
  state : TelemetryProviderState
  ageMs : Option Nat
  lastError : Option TelemetryErrorCategory
  observation : Option HostTelemetry
deriving DecidableEq, Repr

/-! ### Validation -/

def validatePercentage (value : F32) (field : String) : Except ValidationError Unit :=
  if !value.isFinite || !(decide (0 ≤ value.units) && decide (value.units ≤ F32.ofNat 100)) then .error (.outOfRange field)
  else .ok ()

def validateLoad (value : F32) (field : String) : Except ValidationError Unit :=
  if !value.isFinite || decide (value.units < 0) then .error (.outOfRange field) else .ok ()

def maxTelemetrySampleIntervalMs : UInt64 := 86400000

def validateCpu : TelemetryMetric TelemetryCpu → Except ValidationError Unit
  | .value cpu => do
    if cpu.logicalCores = 0 then throw (.outOfRange "telemetry cpu logical cores")
    validatePercentage cpu.usagePct "telemetry cpu usage"
    match cpu.iowaitPct with
    | some iowait => validatePercentage iowait "telemetry cpu iowait"
    | none => pure ()
  | _ => pure ()

def validateLoads : TelemetryMetric TelemetryLoad → Except ValidationError Unit
  | .value load => do
    validateLoad load.one "telemetry load one"
    validateLoad load.five "telemetry load five"
    validateLoad load.fifteen "telemetry load fifteen"
  | _ => pure ()

def HostTelemetry.validate (h : HostTelemetry) : Except ValidationError Unit := do
  if h.observedAtUnixMs = 0 then throw (.outOfRange "telemetry observation timestamp")
  if h.sampleIntervalMs = 0 ∨ h.sampleIntervalMs > maxTelemetrySampleIntervalMs then
    throw (.outOfRange "telemetry sample interval")
  validateCpu h.cpu
  match h.memory with
  | .value memory => if memory.usedBytes > memory.totalBytes then throw (.outOfRange "telemetry memory used bytes")
  | _ => pure ()
  validateLoads h.load
  match h.swap with
  | .value swap => if swap.usedBytes > swap.totalBytes then throw (.outOfRange "telemetry swap used bytes")
  | _ => pure ()

/-- Whether a state goes with having a sample. -/
def TelemetryProviderState.admits : TelemetryProviderState → Bool → Bool
  -- a ready or stale node always holds the sample it is reporting
  | ready, observed | stale, observed => observed
  | disabled, observed | warming, observed => !observed
  -- a failed provider may still be holding the last sample it took
  | unavailable, _ | invalid, _ => true

def NodeTelemetry.validate (n : NodeTelemetry) : Except ValidationError Unit := do
  if n.schemaVersion ≠ nodeTelemetrySchemaVersion then throw (.outOfRange "node telemetry schema version")
  if n.state.admits n.observation.isSome = false then throw (.outOfRange "node telemetry observation")
  if n.observation.isSome ≠ n.ageMs.isSome then throw (.outOfRange "node telemetry age")
  match n.observation with
  | some observation => observation.validate
  | none => pure ()

theorem NodeTelemetry.validate_ok {n : NodeTelemetry} :
    n.validate = .ok () ↔ n.schemaVersion = nodeTelemetrySchemaVersion ∧ n.state.admits n.observation.isSome = true ∧
      n.observation.isSome = n.ageMs.isSome ∧ ∀ h, n.observation = some h → h.validate = .ok () := by
  simp only [validate, guard_eq_ok, Decidable.not_not, Bool.not_eq_false]
  refine and_congr_right fun _ => and_congr_right fun _ => and_congr_right fun _ => ?_
  cases n.observation with
  | none | some h => simp

end Eggwork
