import Eggwork.Core.Telemetry

/-! What becomes of a provider's payload.

A metric keeps "not reported" apart from zero. `normalize` does the same for each
measurement that is a metric of its own, as far as the platform supports it. The
drives are summed up first, and in the sum a drive that reports no free space is one
that has none. -/
namespace Eggwork.Server
open List

structure ProviderCapabilities where
  cpuIowait : Bool
  loadAverage : Bool
  swap : Bool
deriving DecidableEq

structure ProviderMemory where
  totalBytes : UInt64
  usedBytes : UInt64
deriving DecidableEq

structure DrivePayload where
  totalBytes : UInt64
  availableBytes : Option UInt64
deriving DecidableEq

structure DiskIoPayload where
  aggregateReadBytesPerSec : UInt64
  aggregateWriteBytesPerSec : UInt64
deriving DecidableEq

structure NetworkPayload where
  aggregateRxBytesPerSec : UInt64
  aggregateTxBytesPerSec : UInt64
deriving DecidableEq

/-- The processor, the load and the swap of the provider have the fields of the node's own records. -/
structure ProviderSnapshot where
  observedAtUnixMs : UInt64
  sampleIntervalMs : UInt64
  capabilities : ProviderCapabilities
  cpu : TelemetryCpu
  memory : ProviderMemory
  load : Option TelemetryLoad
  swap : Option TelemetrySwap
deriving DecidableEq

structure StatusPayload where
  snapshot : ProviderSnapshot
  drives : Option (List DrivePayload)
  diskIo : Option DiskIoPayload
  network : Option NetworkPayload
deriving DecidableEq

/-- What a payload may leave out. -/
inductive Measurement where
  | iowait | load | swap | diskIo | network
  | available (drive : Nat)

/-- A measurement of zero, or none. -/
def reading {T : Type} (present : Bool) (zero : T) : Option T := if present then some zero else none

def DrivePayload.report (present : Bool) (drive : DrivePayload) : DrivePayload :=
  { drive with availableBytes := reading present 0 }

/-- The payload with one measurement reported as zero, or not reported. -/
def StatusPayload.report (present : Bool) (p : StatusPayload) : Measurement → StatusPayload
  | .iowait => { p with snapshot.cpu.iowaitPct := reading present ⟨0⟩ }
  | .load => { p with snapshot.load := reading present ⟨⟨0⟩, ⟨0⟩, ⟨0⟩⟩ }
  | .swap => { p with snapshot.swap := reading present ⟨0, 0⟩ }
  | .diskIo => { p with diskIo := reading present ⟨0, 0⟩ }
  | .network => { p with network := reading present ⟨0, 0⟩ }
  | .available drive => { p with drives := p.drives.map fun drives => drives.modify drive (.report present) }

end Eggwork.Server
