import Eggwork.Runner.Limits

/-! Two policies for one helper.

The runner trusts a helper for its file and for every directory above it. The
deployment checks look at the file and run it, and at no directory. -/
namespace Eggwork.Runner
open Lib Helper

inductive FileKind where
  | file | directory | symlink | other
deriving DecidableEq

structure Metadata where
  kind : FileKind
  uid : Nat
  mode : Nat
deriving DecidableEq

/-- `mode & mask != 0`. -/
def Metadata.has (m : Metadata) (mask : Nat) : Bool := m.mode &&& mask != 0

structure ProbeOutput where
  success : Bool
  /-- The text `from_utf8_lossy` makes of it. -/
  stdout : List Char

/-- What both policies see of a host. A canonical path is the names on the way to the
root, so that its parent is its tail. -/
structure Station where
  effectiveUid : Nat
  /-- An error says whether the path was not found. -/
  symlinkMetadata : HostPath → Except Bool Metadata
  canonicalize : HostPath → Option FsPath
  metadata : FsPath → Option Metadata
  runBounded : HostPath → Nat → Option ProbeOutput

namespace Station
variable (host : Station)

def foreign (m : Metadata) : Bool := m.uid != 0 && m.uid != host.effectiveUid

/-! ### The runner -/

def refusesDirectory (m : Metadata) : Bool := m.kind != .directory || host.foreign m || m.has 0o022

/-- Above the directory of the helper, a sticky directory of root may be open to all. -/
def refusesAncestor (m : Metadata) : Bool :=
  let sticky := m.kind == .directory && m.uid == 0 && m.has 0o1000
  m.kind != .directory || (host.foreign m && !sticky) || (m.has 0o022 && !sticky)

def verifyAncestors : FsPath → Except String Unit
  | [] => .ok ()
  | _ :: next =>
    match host.metadata next with
    | none => .error "sandbox helper ancestor is invalid"
    | some m =>
      if host.refusesAncestor m then .error "sandbox helper ancestor trust check failed" else verifyAncestors next

def verifyLocation (path : HostPath) : Except String Unit :=
  match path.parent.bind host.canonicalize with
  | none => .error "sandbox helper location is invalid"
  | some parent =>
    match host.metadata parent with
    | none => .error "sandbox helper location is invalid"
    | some m =>
      if host.refusesDirectory m then .error "sandbox helper directory trust check failed"
      else host.verifyAncestors parent

def verifyTrustedHelper (path : HostPath) : Except String Unit :=
  match host.symlinkMetadata path with
  | .error _ => .error "sandbox helper is unavailable"
  | .ok m =>
    if m.kind ≠ .file ∨ host.foreign m ∨ m.has 0o022 ∨ !m.has 0o111 then .error "sandbox helper trust check failed"
    else host.verifyLocation path

/-! ### The deployment -/

inductive HelperCompatibility where
  | compatible (version : List Char)
  | notConfigured
  | missing
  | untrusted (reason : String)
  | versionSkew (expected found : List Char)
deriving DecidableEq

/-- `char::is_control`. -/
def isControl (c : Char) : Bool := decide (c.toNat < 0x20) || (decide (0x7F ≤ c.toNat) && decide (c.toNat < 0xA0))

def checkVersion (expected : List Char) : Option ProbeOutput → HelperCompatibility
  | none => .untrusted "helper version probe failed"
  | some output =>
    if !output.success then .untrusted "helper version probe reported failure"
    else
      let found := trim output.stdout
      if found.isEmpty || decide (64 < (String.ofList found).utf8ByteSize) || found.any isControl then
        .untrusted "helper version output is invalid"
      else if found ≠ expected then .versionSkew expected found
      else .compatible found

def checkHelperCompatibilityWithTimeout (helper : Option HostPath) (expected : List Char) (timeout : Nat) :
    HelperCompatibility :=
  match helper with
  | none => .notConfigured
  | some path =>
    if timeout = 0 then .untrusted "helper version probe budget is exhausted"
    else match host.symlinkMetadata path with
      | .error notFound => if notFound then .missing else .untrusted "helper metadata is unreadable"
      | .ok m =>
        if m.kind ≠ .file then .untrusted "helper must be a regular file"
        else if host.foreign m ∨ m.has 0o022 then .untrusted "helper ownership or mode check failed"
        else if !m.has 0o111 then .untrusted "helper is not executable"
        else checkVersion expected (host.runBounded path timeout)

/-! ### What one says of the other -/

/-- The directories above one. -/
def ancestors : FsPath → List FsPath
  | [] => []
  | _ :: next => next :: ancestors next

/-- The directory of the helper is trusted, and so is every directory above it. -/
def placed (path : HostPath) : Bool :=
  (path.parent.bind host.canonicalize).any fun parent =>
    (host.metadata parent).any (!host.refusesDirectory ·) &&
      (ancestors parent).all fun above => (host.metadata above).any (!host.refusesAncestor ·)

variable {host} {path : HostPath}

theorem verifyAncestors_ok {l : FsPath} : host.verifyAncestors l = .ok () ↔
      ((ancestors l).all fun above => (host.metadata above).any (!host.refusesAncestor ·)) = true := by
  induction l with
  | nil => exact iff_of_true rfl rfl
  | cons name next ih =>
    rw [verifyAncestors, ancestors, List.all_cons, Bool.and_eq_true, ← ih]
    cases host.metadata next with
    | none => simp
    | some m => cases hm : host.refusesAncestor m <;> simp [hm]

theorem verifyLocation_ok : host.verifyLocation path = .ok () ↔ host.placed path = true := by
  unfold verifyLocation placed
  cases path.parent.bind host.canonicalize with
  | none => simp
  | some parent =>
    simp only [Option.any_some, Bool.and_eq_true, ← verifyAncestors_ok]
    cases host.metadata parent with
    | none => simp
    | some m => cases hm : host.refusesDirectory m <;> simp [hm]

theorem file_of_compatible {expected ver : List Char} {timeout : Nat}
    (h : host.checkHelperCompatibilityWithTimeout (some path) expected timeout = .compatible ver) :
    host.verifyTrustedHelper path = host.verifyLocation path := by
  unfold checkHelperCompatibilityWithTimeout at h
  unfold verifyTrustedHelper
  simp only at h
  split at h
  · cases h
  cases hfile : host.symlinkMetadata path with
  | error notFound =>
    rw [hfile] at h
    cases notFound <;> cases h
  | ok m =>
    simp only [hfile] at h ⊢
    split_ifs at h with hkind hown he
    rw [if_neg]
    simp_all

end Station

/-- A helper that is called compatible is accepted by the runner just where it is well placed. -/
theorem compatible_accepted_iff {host : Station} {path : HostPath} {expected version : List Char} {timeout : Nat}
    (h : host.checkHelperCompatibilityWithTimeout (some path) expected timeout = .compatible version) :
    host.verifyTrustedHelper path = .ok () ↔ host.placed path = true := by
  rw [Station.file_of_compatible h]
  exact Station.verifyLocation_ok

namespace Example

/-- A helper of root's in a directory of the given mode under the root. -/
def helperIn (mode : Nat) : Station where
  effectiveUid := 1000
  symlinkMetadata _ := .ok ⟨.file, 0, 0o755⟩
  canonicalize _ := some ["opt".toList]
  metadata l := some ⟨.directory, 0, if l = [] then 0o755 else mode⟩
  runBounded _ _ := some ⟨true, "1.0\n".toList⟩

def helperPath : HostPath := ⟨true, [[], "opt".toList, "helper".toList]⟩

theorem helperIn_compatible (mode : Nat) : (helperIn mode).checkHelperCompatibilityWithTimeout (some helperPath) "1.0".toList 5 =
    .compatible "1.0".toList := by
  rfl

end Example

open Example in
theorem compatible_accepted_placed : (helperIn 0o755).verifyTrustedHelper helperPath = .ok () :=
  (compatible_accepted_iff (helperIn_compatible 0o755)).mpr (by decide)

open Example in
/-- Anyone may replace the helper, and it is called compatible. -/
theorem compatible_and_refused :
    (helperIn 0o777).checkHelperCompatibilityWithTimeout (some helperPath) "1.0".toList 5 = .compatible "1.0".toList ∧
      (helperIn 0o777).verifyTrustedHelper helperPath = .error "sandbox helper directory trust check failed" :=
  ⟨helperIn_compatible _, by rfl⟩

end Eggwork.Runner
