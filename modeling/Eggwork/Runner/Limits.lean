import Eggwork.Lib.Resolution
import Eggwork.Runner.Launch
import Mathlib.Data.List.DropRight

/-! What the helper reads of its control group before it starts the target.

The files are texts, so that any content of them is covered: unreadable, not a
number, `max`. The rate of the processor is compared as a quotient rounded down of
a product that saturates, and what that lets pass is said in exact numbers
(`verifyResourceLimits_iff`). -/
namespace Eggwork.Runner.Helper
open Lib

/-! ### Texts -/

/-- `char::is_whitespace`. -/
def isWhitespace (c : Char) : Bool :=
  (9 ≤ c.toNat && c.toNat ≤ 13) || (0x2000 ≤ c.toNat && c.toNat ≤ 0x200A) ||
    [0x20, 0x85, 0xA0, 0x1680, 0x2028, 0x2029, 0x202F, 0x205F, 0x3000].contains c.toNat

def trim (text : List Char) : List Char := (text.dropWhile isWhitespace).rdropWhile isWhitespace

def splitWhitespace (text : List Char) : List (List Char) := (text.splitOnP isWhitespace).filter (· ≠ [])

/-- `str::parse` at an unsigned type of so many bits. -/
def parse (bits : Nat) (text : List Char) : Option Nat :=
  let digits := if text.head? = some '+' then text.tail else text
  let value := digits.foldl (fun n c => 10 * n + (c.toNat - '0'.toNat)) 0
  if digits ≠ [] ∧ digits.all Char.isDigit ∧ value < 2 ^ bits then some value else none

/-- `str::lines`: a return goes with the newline behind it, and nothing behind the last is no line. -/
def lines (text : List Char) : List (List Char) :=
  let pieces := text.splitOn '\n'
  pieces.dropLast.map (fun line => if line.getLast? = some '\r' then line.dropLast else line) ++
    (pieces.getLast?.filter (· ≠ [])).toList

/-! ### The control group -/

/-- What reading a file gives. -/
abbrev Files := HostPath → Option (List Char)

def cgroup (files : Files) : Option HostPath := do
  let membership ← files (.ofString "/proc/self/cgroup")
  let relative ← (lines membership).findSome? (·.dropPrefix? "0::".toList)
  return (HostPath.ofString "/sys/fs/cgroup").join (.ofString (String.ofList (relative.dropWhile (· == '/'))))

def limit (files : Files) (cgroup : HostPath) (bits : Nat) (name : String) : Option Nat := do
  let value ← files (cgroup.join (.ofString name))
  parse bits (trim value)

/-- Quota and period of the processor, in microseconds. -/
def cpuMax (files : Files) (cgroup : HostPath) : Option (Nat × Nat) := do
  let value ← files (cgroup.join (.ofString "cpu.max"))
  let quota :: period :: _ := splitWhitespace value | none
  return (← parse 64 quota, ← parse 64 period)

def verifyResourceLimits (files : Files) (spec : SandboxLaunchSpec) : Bool :=
  if spec.resourceMemoryBytes.isNone && spec.resourceCpuMillis.isNone && spec.resourcePids.isNone then true
  else
    match cgroup files with
    | none => false
    | some cgroup =>
      let swap := files (cgroup.join (.ofString "memory.swap.max"))
      -- a limit that cannot be read counts as exceeded
      let memory bytes := (limit files cgroup 64 "memory.max").all (· > bytes) || swap.all fun value => trim value != ['0']
      let pids count := (limit files cgroup 32 "pids.max").all (· > count)
      let cpu millis := (cpuMax files cgroup).all fun (quota, period) =>
        period == 0 || min (quota * 1000) (2 ^ 64 - 1) / period > millis
      !spec.resourceMemoryBytes.any (memory ·.toNat) && !spec.resourcePids.any (pids ·.toNat) &&
        !spec.resourceCpuMillis.any (cpu ·.toNat)

theorem rate_within {product period millis : Nat} :
    (period == 0) = false ∧ product / period ≤ millis ↔ 0 < period ∧ product < (millis + 1) * period := by
  rw [beq_eq_false_iff_ne, ← Nat.pos_iff_ne_zero, ← Nat.lt_succ_iff]
  exact and_congr_right fun hp => Nat.div_lt_iff_lt_mul hp

/-- **What the helper accepts.** Memory and processes are limited to what was asked
for, and swap is off. The processor is limited to less than one more than was asked
for, in thousandths, unless a thousand times its quota is past the range of `u64`. -/
theorem verifyResourceLimits_iff (files : Files) (spec : SandboxLaunchSpec) : verifyResourceLimits files spec = true ↔
    (spec.resourceMemoryBytes = none ∧ spec.resourceCpuMillis = none ∧ spec.resourcePids = none) ∨
    ∃ group, cgroup files = some group ∧ (∀ bytes, spec.resourceMemoryBytes = some bytes →
        (∃ actual, limit files group 64 "memory.max" = some actual ∧ actual ≤ bytes.toNat) ∧
          ∃ swap, files (group.join (.ofString "memory.swap.max")) = some swap ∧ trim swap = ['0']) ∧
      (∀ count, spec.resourcePids = some count →
        ∃ actual, limit files group 32 "pids.max" = some actual ∧ actual ≤ count.toNat) ∧
      ∀ millis, spec.resourceCpuMillis = some millis → ∃ rate, cpuMax files group = some rate ∧ 0 < rate.2 ∧
        min (rate.1 * 1000) (2 ^ 64 - 1) < (millis.toNat + 1) * rate.2 := by
  unfold verifyResourceLimits
  split
  · simp_all
  rename_i hrequested
  rw [or_iff_right (by simpa [and_assoc] using hrequested)]
  cases cgroup files with
  | none => simp
  | some group =>
    simp only [Bool.and_eq_true, Bool.not_eq_true', Option.any_eq_false, Option.all_eq_false, Bool.or_eq_false_iff,
      decide_eq_false_iff_not, gt_iff_lt, Nat.not_lt, bne_eq_false_iff_eq, rate_within, Option.some.injEq, exists_eq_left',
      and_assoc]

namespace Example

/-- A unit with this `cpu.max`. -/
def unit (text : String) : Files := fun path =>
  if path = .ofString "/proc/self/cgroup" then some "0::/unit\n".toList
  else if path = .ofString "/sys/fs/cgroup/unit/cpu.max" then some text.toList else none

def asking (cpuMillis : UInt64) : SandboxLaunchSpec := ⟨1, none, "/", "/", ["true"], [], none, some cpuMillis, none⟩

def rate (text : String) : Option (Nat × Nat) := (cgroup (unit text)).bind (cpuMax (unit text))

end Example

open Helper.Example

/-- Half a thousandth over the rate asked for, and five hundred times it. -/
theorem cpu_quota_passes : (verifyResourceLimits (unit "50050 100000\n") (asking 500) = true ∧
      rate "50050 100000\n" = some (50050, 100000) ∧ ¬ 50050 * 1000 ≤ 500 * 100000) ∧
    verifyResourceLimits (unit "9223372036854775808 18446744073709551615\n") (asking 1) = true ∧
      rate "9223372036854775808 18446744073709551615\n" = some (2 ^ 63, 2 ^ 64 - 1) ∧
      ¬ 2 ^ 63 * 1000 ≤ 1 * (2 ^ 64 - 1) := by
  decide

end Eggwork.Runner.Helper
