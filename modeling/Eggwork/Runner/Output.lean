import Eggwork.Runner.Result

/-! The output channel of a run and the loop that drains it, a poll at a time.

`Pipe` is what the loop sees of the runner: the bounded channel, whether every
sender is gone, and how the runner task finished. `Pipe.select` is the biased
`select!` with its two guards; with both branches disabled tokio panics, which is
the answer `disabled`. `Drain` holds the loop's three locals. -/
namespace Eggwork.Runner

def runnerChannelCapacity : Nat := 32

structure OutputChunk where
  stderr : Bool
  bytes : List UInt8
deriving DecidableEq, Repr

def OutputChunk.kind (chunk : OutputChunk) : ExecutionEventKind :=
  if chunk.stderr then .stderr chunk.bytes else .stdout chunk.bytes

/-- How awaiting the runner task ends. -/
inductive Joined where
  | ok (result : RunnerResult)
  | error (error : RunnerError)
  | panicked
deriving DecidableEq, Repr

structure Pipe where
  queue : List OutputChunk
  closed : Bool
  joined : Option Joined
deriving DecidableEq, Repr

inductive Polled where
  | output (chunk : OutputChunk)
  | closed
  | joined (how : Joined)
  | disabled
deriving DecidableEq, Repr

namespace Pipe

def channel : Pipe := ⟨[], false, none⟩

/-- `try_send`: refused by a full channel. -/
def send (p : Pipe) (chunk : OutputChunk) : Pipe :=
  if p.queue.length < runnerChannelCapacity then {p with queue := p.queue ++ [chunk]} else p

/-- The runner branch, when `recv` is disabled or has nothing. -/
def join (p : Pipe) (pending : Bool) : Option Polled :=
  if pending then p.joined.map .joined else none

/-- One completed `select!`; `none` while it waits. -/
def select (p : Pipe) (outputClosed pending : Bool) : Option (Polled × Pipe) :=
  if outputClosed then
    if pending then (p.join true).map (·, p) else some (.disabled, p)
  else
    match p.queue with
    | chunk :: rest => some (.output chunk, {p with queue := rest})
    | [] => if p.closed then some (.closed, p) else (p.join pending).map (·, p)

/-- `is_closed() && is_empty()`. -/
def drained (p : Pipe) : Bool := p.closed && p.queue.isEmpty

def tryRecv (p : Pipe) : Option OutputChunk × Pipe :=
  match p.queue with
  | chunk :: rest => (some chunk, {p with queue := rest})
  | [] => (none, p)

end Pipe

structure Drain where
  result : Option RunnerResult
  runnerError : Option RunnerError
  outputClosed : Bool
deriving DecidableEq, Repr

namespace Drain

def start : Drain := ⟨none, none, false⟩

/-- The guard of the runner branch. -/
def pending (d : Drain) : Bool := d.result.isNone && d.runnerError.isNone

def close (d : Drain) : Drain := {d with outputClosed := true}

def join (d : Drain) : Joined → Drain
  | .ok result => {d with result := some result}
  | .error error => {d with runnerError := some error}
  | .panicked => {d with runnerError := some (.wait "runner task failed")}

/-- The execution's result once the loop is left, before artifacts are captured. -/
def executionResult (d : Drain) (leaseExpired : Bool) (isolation : IsolationRequirement)
    (resources : ResourceRequirements) : ExecutionResult :=
  match d.result with
  | some result =>
    if leaseExpired then
      {result.executionResult with state := .interrupted, failure := some .leaseExpired, exitCode := none}
    else result.executionResult
  | none =>
    let failure := failureForRunnerError d.runnerError leaseExpired
    let terminal :=
      if leaseExpired then .interrupted else if failure = .interrupted then .cancelled else .failed
    failedResult terminal failure isolation resources

theorem executionResult_terminal (d : Drain) (leaseExpired : Bool) (isolation : IsolationRequirement)
    (resources : ResourceRequirements) :
    isTerminal (d.executionResult leaseExpired isolation resources).state = true := by
  unfold executionResult
  split
  · split
    · rfl
    · exact RunnerResult.executionResult_terminal _
  dsimp only [failedResult]
  split
  · rfl
  · split <;> rfl

end Drain
end Eggwork.Runner
