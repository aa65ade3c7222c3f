import Eggwork.Core.Manifest
import Eggwork.Core.Telemetry

/-! The node's cache of host telemetry, and what it serves.

One task asks the provider again and again and records each outcome; a reader
takes what is cached and projects it on the wire. Instants and durations are
nanoseconds of the monotonic clock; the provider's samples carry wall-clock
milliseconds. -/
namespace Eggwork.Server.Telemetry
open List

inductive TelemetryError where
  | connection | timeout | httpStatus | malformed | schemaVersion | invalid | tooLarge | clockSkew
deriving DecidableEq, Repr

def TelemetryError.category : TelemetryError → TelemetryErrorCategory
  | connection => .connection
  | timeout => .timeout
  | httpStatus => .httpStatus
  | malformed => .malformed
  | schemaVersion => .schemaVersion
  | invalid => .invalid
  | tooLarge => .tooLarge
  | clockSkew => .clockSkew

inductive ProviderOutcome where
  | observed (observation : HostTelemetry)
  | warming
deriving DecidableEq, Repr

/-- `Duration::as_millis() as u64`. -/
def asMillis (duration : Nat) : Nat := duration / 1000000 % 2 ^ 64

def maxClockSkew : Nat := 30 * 1000000000
def maxBackoff : Nat := 300 * 1000000000

/-! ### The cache -/

structure CacheEntry where
  state : TelemetryProviderState
  observation : Option HostTelemetry
  receivedAt : Option Nat
  providerStale : Bool
  lastError : Option TelemetryErrorCategory
deriving DecidableEq, Repr

namespace CacheEntry

def disabled : CacheEntry := ⟨.disabled, none, none, false, none⟩

def recordObservation (observation : HostTelemetry) (providerStale : Bool) (now : Nat) (_ : CacheEntry) : CacheEntry :=
  ⟨.ready, some observation, some now, providerStale, none⟩

def recordWarming (entry : CacheEntry) : CacheEntry := { entry with state := .warming, lastError := none }

/-- The last observation is kept for context. -/
def recordFailure (category : TelemetryErrorCategory) (entry : CacheEntry) : CacheEntry :=
  { entry with state := .unavailable, lastError := some category }

def recordInvalid (entry : CacheEntry) : CacheEntry := { entry with state := .invalid, lastError := some .invalid }

end CacheEntry

structure TelemetrySnapshot where
  state : TelemetryProviderState
  observation : Option HostTelemetry
  ageMs : Option Nat
  lastError : Option TelemetryErrorCategory
deriving DecidableEq, Repr

/-- `elapsed` is zero for an instant that is not yet past. -/
def CacheEntry.snapshot (entry : CacheEntry) (freshness now : Nat) : TelemetrySnapshot :=
  let ageMs := entry.receivedAt.map fun receivedAt => min ((now - receivedAt) / 1000000) (2 ^ 64 - 1)
  let state :=
    if entry.state = .ready then
      let agedOut := ageMs.any fun age => decide (age > asMillis freshness)
      if entry.providerStale || agedOut then .stale else .ready
    else entry.state
  ⟨state, entry.observation, ageMs, entry.lastError⟩

/-! ### The polling owner -/

/-- One answer of the provider, with the two clocks when it is recorded; the wall
clock is `none` before 1970 and past a `u64`. -/
structure Attempt where
  outcome : Except TelemetryError ProviderOutcome
  now : Nat
  wallClock : Option Nat

variable {attempts : List Attempt}

def isProviderSampleStale (observation : HostTelemetry) (freshness : Nat) (wallClock : Option Nat) : Bool :=
  match wallClock with
  | none => false
  | some now =>
    if observation.observedAtUnixMs.toNat > saturating (now + asMillis maxClockSkew) then true
    else decide (now - observation.observedAtUnixMs.toNat > asMillis freshness)

/-- What `refresh_loop` has from one round to the next. -/
structure Refresher where
  entry : CacheEntry
  failures : Nat

def Refresher.start : Refresher := ⟨.disabled, 0⟩

def Refresher.round (freshness : Nat) (r : Refresher) (attempt : Attempt) : Refresher :=
  match attempt.outcome with
  | .ok (.observed observation) =>
    let providerStale := isProviderSampleStale observation freshness attempt.wallClock
    ⟨r.entry.recordObservation observation providerStale attempt.now, 0⟩
  | .ok .warming => ⟨r.entry.recordWarming, 0⟩
  | .error error =>
    let entry := if error = .invalid then r.entry.recordInvalid else r.entry.recordFailure error.category
    ⟨entry, min (r.failures + 1) (2 ^ 32 - 1)⟩

def backoff (refreshInterval failures : Nat) : Nat :=
  min (refreshInterval * 2 ^ min (failures - 1) 5) maxBackoff

/-- How long the loop sleeps before the next round. -/
def Refresher.delay (refreshInterval : Nat) (r : Refresher) : Nat :=
  if r.failures = 0 then refreshInterval else backoff refreshInterval r.failures

def refreshLoop (freshness : Nat) (attempts : List Attempt) : Refresher :=
  attempts.foldl (Refresher.round freshness) .start

def nodeTelemetry (nodeId : NodeId) (entry : CacheEntry) (freshness now : Nat) : NodeTelemetry :=
  let snapshot := entry.snapshot freshness now
  { schemaVersion := nodeTelemetrySchemaVersion
    nodeId
    source := .gregg
    state := snapshot.state
    ageMs := snapshot.ageMs
    lastError := snapshot.lastError
    observation := snapshot.observation }

/-! ### What is served -/

def isObserved : Except TelemetryError ProviderOutcome → Bool
  | .ok (.observed _) => true
  | _ => false

/-- The provider hands over validated observations only. -/
def Validated (attempts : List Attempt) : Prop :=
  ∀ attempt ∈ attempts, ∀ h, attempt.outcome = .ok (.observed h) → h.validate = .ok ()

def stateAfter : Option (Except TelemetryError ProviderOutcome) → TelemetryProviderState
  | none => .disabled
  | some (.ok (.observed _)) => .ready
  | some (.ok .warming) => .warming
  | some (.error error) => if error = .invalid then .invalid else .unavailable

/-- The entry after some attempts, as far as validation looks at it. -/
structure Recorded (attempts : List Attempt) (entry : CacheEntry) : Prop where
  state : entry.state = stateAfter (attempts.getLast?.map (·.outcome))
  observed : entry.observation.isSome = attempts.any fun attempt => isObserved attempt.outcome
  received : entry.receivedAt.isSome = entry.observation.isSome
  valid : ∀ h, entry.observation = some h → h.validate = .ok ()

theorem Recorded.round {r : Refresher} (h : Recorded attempts r.entry) (freshness : Nat) {attempt : Attempt}
    (hv : ∀ h, attempt.outcome = .ok (.observed h) → h.validate = .ok ()) :
    Recorded (attempts ++ [attempt]) (r.round freshness attempt).entry := by
  have hlast : ((attempts ++ [attempt]).getLast?.map (·.outcome)) = some attempt.outcome := by
    rw [getLast?_concat, Option.map_some]
  have hany : ((attempts ++ [attempt]).any fun attempt => isObserved attempt.outcome) =
      (r.entry.observation.isSome || isObserved attempt.outcome) := by
    rw [any_append, ← h.observed, any_cons, any_nil, Bool.or_false]
  unfold Refresher.round
  cases hout : attempt.outcome with
  | ok out =>
    rw [hout] at hlast hany
    cases out with
    | observed observation =>
      refine ⟨by rw [hlast]; rfl, by rw [hany, Bool.or_comm]; rfl, rfl, ?_⟩
      rintro _ ⟨⟩
      exact hv observation hout
    | warming =>
      exact ⟨by rw [hlast]; rfl, by rw [hany]; exact (Bool.or_false _).symm, h.received, h.valid⟩
  | error error =>
    rw [hout] at hlast hany
    have hsame : r.entry.observation.isSome = (r.entry.observation.isSome || isObserved (.error error)) := (Bool.or_false _).symm
    rw [← hany] at hsame
    dsimp only
    split
    · rename_i he
      exact ⟨by rw [hlast]; exact (if_pos he).symm, hsame, h.received, h.valid⟩
    · rename_i he
      exact ⟨by rw [hlast]; exact (if_neg he).symm, hsame, h.received, h.valid⟩

theorem refreshLoop_recorded (freshness : Nat) (hv : Validated attempts) :
    Recorded attempts (refreshLoop freshness attempts).entry := by
  induction attempts using reverseRecOn with
  | nil =>
    refine ⟨rfl, rfl, rfl, ?_⟩
    rintro _ ⟨⟩
  | append_singleton attempts attempt ih =>
    rw [refreshLoop, foldl_append]
    refine (ih fun a ha => hv a (mem_append_left _ ha)).round freshness (hv attempt ?_)
    exact mem_append_right _ (mem_singleton_self _)

theorem snapshot_ageMs (e : CacheEntry) (freshness now : Nat) :
    (e.snapshot freshness now).ageMs.isSome = e.receivedAt.isSome := by
  simp [CacheEntry.snapshot]

/-- Only a state of readiness depends on the time of the read. -/
theorem snapshot_admits (e : CacheEntry) (freshness now : Nat) (observed : Bool) :
    (e.snapshot freshness now).state.admits observed = e.state.admits observed := by
  simp only [CacheEntry.snapshot]
  split
  · rename_i hr
    rw [hr]
    split <;> rfl
  · rfl

/-- The last outcome says that the provider is warming up, after an observation was recorded. -/
def WarmsAgain (attempts : List Attempt) : Prop :=
  attempts.getLast?.map (·.outcome) = some (.ok .warming) ∧ ∃ attempt ∈ attempts, isObserved attempt.outcome = true

theorem admits_iff {e : CacheEntry} (h : Recorded attempts e) :
    e.state.admits e.observation.isSome = true ↔ ¬ WarmsAgain attempts := by
  rw [h.state, h.observed, WarmsAgain, ← any_eq_true]
  rcases hlast : attempts.getLast? with _ | last
  · rw [getLast?_eq_none_iff.mp hlast]
    simp [stateAfter, TelemetryProviderState.admits]
  have hm : last ∈ attempts := mem_of_getLast? hlast
  rw [Option.map_some]
  cases hout : last.outcome with
  | ok out =>
    cases out with
    | observed observation =>
      have hany : (attempts.any fun attempt => isObserved attempt.outcome) = true :=
        any_eq_true.mpr ⟨last, hm, by rw [hout]; rfl⟩
      simp [stateAfter, TelemetryProviderState.admits, hany]
    | warming => simp [stateAfter, TelemetryProviderState.admits]
  | error error =>
    simp only [stateAfter]
    split <;> simp [TelemetryProviderState.admits]

/-- What the node serves passes a reader's validation at any time, unless the provider,
having been observed, says last that it is warming up. -/
theorem telemetry_well_formed (nodeId : NodeId) (freshness now : Nat) {attempts : List Attempt} (hvalid : Validated attempts) :
    (nodeTelemetry nodeId (refreshLoop freshness attempts).entry freshness now).validate = .ok () ↔ ¬ WarmsAgain attempts := by
  have hrecorded := refreshLoop_recorded freshness hvalid
  rw [NodeTelemetry.validate_ok]
  simp only [nodeTelemetry, snapshot_admits, snapshot_ageMs, true_and]
  rw [← admits_iff hrecorded]
  exact ⟨fun h => h.1, fun h => ⟨h, hrecorded.received.symm, hrecorded.valid⟩⟩

namespace Example

def sample : HostTelemetry := ⟨1, 1000, .unsupported, .unknown, .unsupported, .unknown, .unsupported, .unsupported, .unsupported⟩

def seen : Attempt := ⟨.ok (.observed sample), 0, none⟩
def warmsUp : Attempt := ⟨.ok .warming, 1, none⟩
def fails : Attempt := ⟨.error .timeout, 2, none⟩

theorem validated : Validated [seen, warmsUp, fails] := by
  intro attempt ha h hout
  simp only [mem_cons, not_mem_nil, or_false] at ha
  rcases ha with rfl | rfl | rfl
  · cases hout
    decide
  · cases hout
  · cases hout

end Example

open Example List

/-- A failure after warming up again: the old sample is served with the failure. -/
theorem telemetry_well_formed_failing :
    (nodeTelemetry ⟨"node", by decide⟩ (refreshLoop 1000 [seen, warmsUp, fails]).entry 1000 5).validate = .ok () :=
  (telemetry_well_formed _ 1000 5 validated).mpr fun h => by cases h.1

/-- The provider restarts: the old sample is served as warming up. -/
theorem warming_keeps_sample : Validated [seen, warmsUp] ∧
      (nodeTelemetry ⟨"node", by decide⟩ (refreshLoop 1000 [seen, warmsUp]).entry 1000 5).validate =
        .error (.outOfRange "node telemetry observation") :=
  ⟨fun attempt hattempt => validated attempt (mem_append_left [fails] hattempt), by decide⟩

/-! ### Readiness and cadence -/

open CacheEntry

variable (freshness : Nat) (attempts)

/-- The failures since the provider last answered. -/
def failing : Nat := (attempts.reverse.takeWhile fun attempt => !attempt.outcome.isOk).length

theorem refreshLoop_concat (last : Attempt) :
    refreshLoop freshness (attempts ++ [last]) = (refreshLoop freshness attempts).round freshness last := foldl_concat ..

theorem refreshLoop_failures : (refreshLoop freshness attempts).failures = min (failing attempts) (2 ^ 32 - 1) := by
  induction attempts using reverseRecOn with
  | nil => rfl
  | append_singleton rest attempt ih =>
    rw [refreshLoop_concat, failing, reverse_concat, takeWhile_cons]
    rcases attempt with ⟨e | _ | _, now, wallClock⟩
    · show min ((refreshLoop freshness rest).failures + 1) _ = min (failing rest + 1) _
      omega
    · rfl
    · rfl

/-- **The polling cadence.** After any attempts the loop waits for the refresh interval
if the provider has just answered, and after `n` failures since for `2 ^ (n - 1)`
times it, at most 32 times and at most the maximal backoff. -/
theorem delay_of_failing (refreshInterval : Nat) :
    (refreshLoop freshness attempts).delay refreshInterval = if failing attempts = 0 then refreshInterval
      else min (refreshInterval * 2 ^ min (failing attempts - 1) 5) maxBackoff := by
  unfold Refresher.delay backoff
  rw [refreshLoop_failures]
  have hexp : min (min (failing attempts) (2 ^ 32 - 1) - 1) 5 = min (failing attempts - 1) 5 := by omega
  have hzero : min (failing attempts) (2 ^ 32 - 1) = 0 ↔ failing attempts = 0 := by omega
  simp only [hexp, hzero]

end Eggwork.Server.Telemetry
