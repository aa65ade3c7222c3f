import Eggwork.Core.Spec

/-! What the runner hands back: a result that always names a terminal state, or
an error, and how the node turns either into the execution's result. -/
namespace Eggwork.Runner

inductive TerminationReason where
  | exited | timedOut | cancelled | outputLimit
deriving DecidableEq, Repr

inductive ResourceDimension where
  | memory | cpu | pids
deriving DecidableEq, Repr

structure CleanupDiagnostics where
  processGroupSignalError : Option String
  waitError : Option String
  stdinError : Option String
deriving DecidableEq, Repr

/-- A finished run. The two captures are here by their byte counts, the setup
outcome by the sandbox and resource reports made of it. -/
structure RunnerResult where
  termination : TerminationReason
  exitCode : Option Int
  stdoutBytes : Nat
  stderrBytes : Nat
  stdoutOmitted : Nat
  stderrOmitted : Nat
  cleanup : CleanupDiagnostics
  sandbox : SandboxResult
  resources : ResourceResult
  resourceLimitsExceeded : List ResourceDimension
  /-- In bytes. -/
  streamChunksDropped : Nat
deriving DecidableEq, Repr

inductive RunnerError where
  | invalidRequest (message : String)
  | invalidRoot (message : String)
  | invalidWorkingDirectory (message : String)
  | cancelledBeforeSpawn
  | setup (message : String)
  | requiredSetupUnavailable
  | unsupportedPlatform
  | spawn (message : String)
  | io (message : String)
  | wait (message : String)
deriving DecidableEq, Repr

def RunnerResult.executionResult (r : RunnerResult) : ExecutionResult where
  state :=
    if !r.resourceLimitsExceeded.isEmpty then .failed
    else match r.termination with
      | .exited => if r.exitCode = some 0 then .succeeded else .failed
      | .timedOut => .timedOut
      | .cancelled => .cancelled
      | .outputLimit => .failed
  exitCode := r.exitCode
  failure :=
    if !r.resourceLimitsExceeded.isEmpty then some .resourceLimit
    else match r.termination with
      | .outputLimit => some .outputLimit
      | .exited => if r.exitCode.isNone then some .internal else none
      | _ => none
  stdoutBytes := r.stdoutBytes
  stderrBytes := r.stderrBytes
  stdoutOmitted := r.stdoutOmitted
  stderrOmitted := r.stderrOmitted
  cleanupWarning := r.cleanup.processGroupSignalError.or (r.cleanup.waitError.or r.cleanup.stdinError)
  finalizationFailure := none
  artifactCount := 0
  sandbox := some r.sandbox
  resources := some r.resources

theorem RunnerResult.executionResult_terminal (r : RunnerResult) : isTerminal r.executionResult.state = true := by
  unfold executionResult
  split
  · rfl
  split
  · split <;> rfl
  all_goals rfl

def failureForRunnerError (error : Option RunnerError) (leaseExpired : Bool) : ExecutionFailure :=
  match error with
  | some (.spawn _) => .spawn
  | error =>
    if leaseExpired then .leaseExpired
    else if error = some .cancelledBeforeSpawn then .interrupted
    else .internal

def requested {α : Type} : Requirement α → ResourceDimensionResult
  | .notRequested => .notRequested
  | _ => .notApplied "requested resource enforcement failed before execution"

/-- The result of a run that has none of its own. -/
def failedResult (state : ExecutionState) (failure : ExecutionFailure) (isolation : IsolationRequirement)
    (resources : ResourceRequirements) : ExecutionResult where
  state := state
  exitCode := none
  failure := some failure
  stdoutBytes := 0
  stderrBytes := 0
  stdoutOmitted := 0
  stderrOmitted := 0
  cleanupWarning := none
  finalizationFailure := none
  artifactCount := 0
  sandbox := some (match isolation with
    | .none => .notRequested
    | .bestEffort => .notApplied "best-effort sandbox setup was unavailable"
    | .required => .failed "required sandbox setup failed")
  resources := some {
    memoryBytes := requested resources.memoryBytes
    cpuMillis := requested resources.cpuMillis
    pids := requested resources.pids }

end Eggwork.Runner
