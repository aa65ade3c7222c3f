import Eggwork.Lib.Transition
import Eggwork.Runner.Setup

/-! A call to `run` and its sandbox helper, as two parties.

The runner goes from `prepare` through the channel and the spawn of a leader to the
handshake: it accepts, reads a status byte, reads a second one, and may give up at
each wait. The helper connects, makes its checks, writes a byte, creates the target
and writes another. Every step of either is an event and any order that the two
programs allow is a run. Killing the leader stops the helper and not its child. -/
namespace Eggwork.Runner
open Lib List

variable {code : UInt8} {r : RunnerRequest} {setup : ExecutionSetup}

/-- The text of an error. -/
def RunnerError.text : RunnerError → String
  | .invalidRequest message => "invalid execution request: " ++ message
  | .invalidRoot message => "execution root is invalid: " ++ message
  | .invalidWorkingDirectory message => "working directory is invalid: " ++ message
  | .cancelledBeforeSpawn => "execution was cancelled before spawn"
  | .setup message => "sandbox or resource setup failed: " ++ message
  | .requiredSetupUnavailable => "required sandbox/resource setup has no configured backend"
  | .unsupportedPlatform => "process-tree control is unsupported on this platform"
  | .spawn message => "process spawn failed: " ++ message
  | .io message => "process I/O failed: " ++ message
  | .wait message => "process wait failed: " ++ message

/-! ### State -/

/-- What the runner spawned as the leader of its tree. -/
inductive Leader where
  | helper | direct
deriving DecidableEq, Repr

/-- A process that runs the request's command. -/
structure Target where
  leader : Leader
  alive : Bool
deriving DecidableEq, Repr

def Target.ended (t : Target) : Target := { t with alive := false }

inductive Phase where
  | starting
  | preparing
  | channeling (setup : SetupOutcome)
  /-- The command is chosen; it may still be wrapped for the resource backend. -/
  | wrapping (leader : Leader) (setup : SetupOutcome)
  | spawning (leader : Leader) (setup : SetupOutcome)
  | accepting (setup : SetupOutcome)
  | reading (setup : SetupOutcome)
  | confirming (setup : SetupOutcome)
  /-- The helper has refused and ends by itself. -/
  | leaving (setup : SetupOutcome)
  /-- The leader is about to be killed. -/
  | refusing (error : RunnerError) (fallback : Bool) (setup : SetupOutcome)
  | reaping (error : RunnerError) (fallback : Bool) (setup : SetupOutcome)
  /-- The tree is owned and its lifecycle runs. -/
  | running (leader : Leader)
  | returned (result : Except RunnerError Unit)
deriving DecidableEq, Repr

/-- How far the helper has come. -/
inductive HelperPhase where
  | absent | started | connected | loaded | limited | confined | announced | launched | reported | exited
deriving DecidableEq, Repr

inductive Check where
  | readSpec | verifyResourceLimits | restrict
deriving DecidableEq, Repr

structure RunState where
  phase : Phase
  helper : HelperPhase
  /-- The profile of the specification the helper reads. -/
  profile : Option String
  /-- Whether the specification carries the resource limits. -/
  limits : Bool
  /-- Every status byte the helper wrote. -/
  wrote : List UInt8
  /-- The checks the helper has passed. -/
  checks : List Check
  targets : List Target
deriving Repr

def RunState.initial : RunState := ⟨.starting, .absent, none, false, [], [], []⟩

/-! ### Events -/

inductive GiveUp where
  | cancelled | timedOut | channelFailed
deriving DecidableEq, Repr

inductive RunnerEvent where
  | start (cancelled : Bool) (host : Host)
  | prepare (probes : Probes)
  | channel (failure : Option RunnerError)
  | wrap (failure : Option RunnerError)
  | spawn (failure : Option String)
  | accept
  | giveUp (reason : GiveUp)
  | readStatus
  | kill
  | reap
  | finish (failure : Option RunnerError)

inductive HelperEvent where
  | connect (connected : Bool)
  | readSpec (failure : Option UInt8)
  | verifyResourceLimits (verified : Bool)
  | restrict (failure : Option UInt8)
  | announce (written : Bool)
  | spawn (spawned : Bool)
  | report (written : Bool)
  | childExits (resourceStatus : UInt8)

inductive Event where
  | runner (event : RunnerEvent)
  | helper (event : HelperEvent)
  | targetExits (i : Nat)

/-! ### The runner -/

inductive Handshake where
  | session
  | refused
  | beforeTarget (error : RunnerError)
  | afterTarget (error : RunnerError)
deriving DecidableEq, Repr

def GiveUp.error : GiveUp → RunnerError
  | .cancelled => .cancelledBeforeSpawn
  | .timedOut => .setup "sandbox status timed out"
  | .channelFailed => .setup "sandbox status channel failed"

/-- What the first status byte says; `none` when a second one is to follow. -/
def firstStatus (code : UInt8) : Option Handshake :=
  if code ∈ [0, 2, 3, 30, 31] then some .refused
  else if code ≥ 4 then
    some (.beforeTarget (.setup ("sandbox helper rejected its launch specification (status " ++ toString code.toNat ++ ")")))
  else if code = 1 then none
  else some (.beforeTarget (.setup "sandbox status was invalid"))

def secondStatus (code : UInt8) : Handshake :=
  if code = 1 then .session
  else if code = 0 then .afterTarget (.spawn "sandbox target could not start")
  else .afterTarget (.setup "sandbox status was invalid")

/-- What `run` does with the handshake's outcome. -/
def respond (r : RunnerRequest) (setup : SetupOutcome) : Handshake → Phase
  | .session => .running .helper
  | .refused => if r.isRequired then .refusing .requiredSetupUnavailable false setup else .leaving setup
  | .beforeTarget error => .refusing error (!r.isRequired && error != .cancelledBeforeSpawn) setup
  | .afterTarget error => .refusing error false setup

/-- The setup reported once the helper is given up. -/
def demote (r : RunnerRequest) (setup : SetupOutcome) (sandboxReason resourceReason : String) : SetupOutcome where
  sandbox := if r.sandbox.isNone then setup.sandbox else .notApplied sandboxReason
  resources := if setup.resources.isApplied then .notApplied resourceReason else setup.resources

/-- Whether a command is wrapped for the resource backend, which may fail. -/
def wraps (setup : SetupOutcome) : Bool := setup.resources == .applied "systemd-cgroup-v2"

def advance (r : RunnerRequest) (setup : ExecutionSetup) (s : RunState) : RunnerEvent → Option RunState
  | .start cancelled host =>
    match s.phase with
    | .starting =>
      if cancelled then some { s with phase := .returned (.error .cancelledBeforeSpawn) }
      else match r.validate host with
        | .error error => some { s with phase := .returned (.error error) }
        | .ok _ => some { s with phase := .preparing }
    | _ => none
  | .prepare probes =>
    match s.phase with
    | .preparing =>
      match setup.prepare probes r with
      | .error error => some { s with phase := .returned (.error error) }
      | .ok outcome =>
        if useHelper setup r outcome then some { s with phase := .channeling outcome }
        else some { s with phase := .wrapping .direct outcome }
    | _ => none
  | .channel failure =>
    match s.phase with
    | .channeling outcome =>
      match failure.elim (launchProfile r) .error with
      | .ok profile =>
        some { s with phase := .wrapping .helper outcome, profile, limits := outcome.resources.isApplied }
      | .error error =>
        if r.isRequired then some { s with phase := .returned (.error error) }
        else some { s with phase := .wrapping .direct (demote r outcome error.text error.text) }
    | _ => none
  | .wrap failure =>
    match s.phase with
    | .wrapping leader outcome =>
      match failure with
      | some error => if wraps outcome then some { s with phase := .returned (.error error) } else none
      | none => some { s with phase := .spawning leader outcome }
    | _ => none
  | .spawn failure =>
    match s.phase, failure with
    | .spawning _ _, some message => some { s with phase := .returned (.error (.spawn message)) }
    | .spawning .helper outcome, none => some { s with phase := .accepting outcome, helper := .started }
    | .spawning .direct _, none =>
      some { s with phase := .running .direct, targets := s.targets ++ [⟨.direct, true⟩] }
    | _, _ => none
  | .accept =>
    match s.phase with
    | .accepting outcome => if s.helper ∈ [.absent, .started] then none else some { s with phase := .reading outcome }
    | _ => none
  | .giveUp reason =>
    match s.phase with
    | .accepting outcome | .reading outcome => some { s with phase := respond r outcome (.beforeTarget reason.error) }
    | .confirming outcome => some { s with phase := respond r outcome (.afterTarget reason.error) }
    | _ => none
  | .readStatus =>
    match s.phase with
    | .reading outcome => s.wrote[0]?.map fun code =>
      match firstStatus code with
      | some handshake => { s with phase := respond r outcome handshake }
      | none => { s with phase := .confirming outcome }
    | .confirming outcome => s.wrote[1]?.map fun code => { s with phase := respond r outcome (secondStatus code) }
    | _ => none
  | .kill =>
    match s.phase with
    | .refusing error fallback outcome => some { s with phase := .reaping error fallback outcome, helper := .exited }
    | _ => none
  | .reap =>
    match s.phase with
    | .leaving outcome =>
      if s.helper = .exited then
        some { s with phase := .wrapping .direct (demote r outcome
          "Landlock helper could not enforce the requested profile" "resource helper could not verify the cgroup limits") }
      else none
    | .reaping error true outcome => some { s with phase := .wrapping .direct (demote r outcome error.text error.text) }
    | .reaping error false _ => some { s with phase := .returned (.error error) }
    | _ => none
  | .finish failure =>
    match s.phase with
    | .running _ =>
      some { s with
        phase := .returned (failure.elim (.ok ()) .error)
        helper := .exited
        targets := s.targets.map Target.ended }
    | _ => none

/-! ### The helper -/

/-- The codes `read_spec` and `restrict` fail with. -/
def readSpecCodes : List UInt8 := [4, 5, 6, 7, 8, 9, 10, 11, 12, 13, 14, 15, 16]

def restrictCodes : List UInt8 := [2, 30, 31]

def helperAdvance (s : RunState) : HelperEvent → Option RunState
  | .connect connected =>
    if s.helper = .started then some { s with helper := if connected then .connected else .exited } else none
  | .readSpec failure =>
    if s.helper = .connected then
      match failure with
      | none => some { s with helper := .loaded, checks := .readSpec :: s.checks }
      | some code => if code ∈ readSpecCodes then some { s with helper := .exited, wrote := s.wrote ++ [code] } else none
    else none
  | .verifyResourceLimits verified =>
    if s.helper = .loaded then
      if verified then
        -- without a profile there is nothing to restrict
        some { s with
          helper := if s.profile.isSome then .limited else .confined
          checks := .verifyResourceLimits :: s.checks }
      else some { s with helper := .exited, wrote := s.wrote ++ [2] }
    else none
  | .restrict failure =>
    if s.helper = .limited then
      match failure with
      | none => some { s with helper := .confined, checks := .restrict :: s.checks }
      | some code => if code ∈ restrictCodes then some { s with helper := .exited, wrote := s.wrote ++ [code] } else none
    else none
  | .announce written =>
    if s.helper = .confined then
      some (if written then { s with helper := .announced, wrote := s.wrote ++ [1] } else { s with helper := .exited })
    else none
  | .spawn spawned =>
    if s.helper = .announced then
      some (if spawned then { s with helper := .launched, targets := s.targets ++ [⟨.helper, true⟩] }
        else { s with helper := .exited, wrote := s.wrote ++ [0] })
    else none
  | .report written =>
    if s.helper = .launched then
      some (if written then { s with helper := .reported, wrote := s.wrote ++ [1] } else { s with helper := .exited })
    else none
  | .childExits resourceStatus =>
    if s.helper = .reported ∧ ∀ t ∈ s.targets, t.alive = false then
      some { s with helper := .exited, wrote := s.wrote ++ [resourceStatus] }
    else none

/-- One event of either party, or the end of a target. -/
def step (r : RunnerRequest) (setup : ExecutionSetup) (s : RunState) : Event → Option RunState
  | .runner event => advance r setup s event
  | .helper event => helperAdvance s event
  | .targetExits i => some { s with targets := s.targets.modify i Target.ended }

/-! ### What a step does -/

/-- No leader has been spawned for the command in hand. -/
def Phase.isEarly : Phase → Bool
  | .starting | .preparing | .channeling _ | .wrapping _ _ | .spawning _ _ => true
  | _ => false

def Phase.handshake? : Phase → Option SetupOutcome
  | .accepting outcome | .reading outcome | .confirming outcome => some outcome
  | _ => none

/-- The moves of the runner, and what it has heard when it makes one. -/
inductive Move (r : RunnerRequest) (setup : ExecutionSetup) (s : RunState) : RunState → Prop
  | stop {error : RunnerError} (hphase : s.phase.isEarly = true) :
      Move r setup s { s with phase := .returned (.error error) }
  | validated (hphase : s.phase = .starting) : Move r setup s { s with phase := .preparing }
  | prepared {probes : Probes} {outcome : SetupOutcome} (hphase : s.phase = .preparing)
      (hprepare : setup.prepare probes r = .ok outcome) (hhelper : useHelper setup r outcome = true) :
      Move r setup s { s with phase := .channeling outcome }
  | unaided {probes : Probes} {outcome : SetupOutcome} (hphase : s.phase = .preparing)
      (hprepare : setup.prepare probes r = .ok outcome) (hhelper : useHelper setup r outcome = false) :
      Move r setup s { s with phase := .wrapping .direct outcome }
  | channel {outcome : SetupOutcome} {profile : Option String} (hphase : s.phase = .channeling outcome)
      (hprofile : launchProfile r = .ok profile) :
      Move r setup s { s with phase := .wrapping .helper outcome, profile, limits := outcome.resources.isApplied }
  | unchanneled {outcome fallen : SetupOutcome} (hphase : s.phase = .channeling outcome)
      (hrequired : r.isRequired = false) : Move r setup s { s with phase := .wrapping .direct fallen }
  | wrap {leader : Leader} {outcome : SetupOutcome} (hphase : s.phase = .wrapping leader outcome) :
      Move r setup s { s with phase := .spawning leader outcome }
  | spawnHelper {outcome : SetupOutcome} (hphase : s.phase = .spawning .helper outcome) :
      Move r setup s { s with phase := .accepting outcome, helper := .started }
  | spawnDirect {outcome : SetupOutcome} (hphase : s.phase = .spawning .direct outcome) :
      Move r setup s { s with phase := .running .direct, targets := s.targets ++ [⟨.direct, true⟩] }
  | accept {outcome : SetupOutcome} (hphase : s.phase = .accepting outcome) :
      Move r setup s { s with phase := .reading outcome }
  | announced {outcome : SetupOutcome} (hphase : s.phase = .reading outcome) (hheard : s.wrote[0]? = some 1) :
      Move r setup s { s with phase := .confirming outcome }
  | confirmed {outcome : SetupOutcome} (hphase : s.phase = .confirming outcome) (hheard : s.wrote[1]? = some 1) :
      Move r setup s { s with phase := .running .helper }
  | refused {outcome : SetupOutcome} {code : UInt8} (hphase : s.phase = .reading outcome)
      (hheard : s.wrote[0]? = some code) (hcode : code ≠ 1) (hrequired : r.isRequired = false) :
      Move r setup s { s with phase := .leaving outcome }
  | refuse {outcome : SetupOutcome} {error : RunnerError} {fallback : Bool}
      (hphase : s.phase.handshake? = some outcome) (hrequired : fallback = true → r.isRequired = false) :
      Move r setup s { s with phase := .refusing error fallback outcome }
  | kill {outcome : SetupOutcome} {error : RunnerError} {fallback : Bool}
      (hphase : s.phase = .refusing error fallback outcome) :
      Move r setup s { s with phase := .reaping error fallback outcome, helper := .exited }
  | left {outcome fallen : SetupOutcome} (hphase : s.phase = .leaving outcome) (hhelper : s.helper = .exited) :
      Move r setup s { s with phase := .wrapping .direct fallen }
  | fallBack {outcome fallen : SetupOutcome} {error : RunnerError} (hphase : s.phase = .reaping error true outcome) :
      Move r setup s { s with phase := .wrapping .direct fallen }
  | fail {outcome : SetupOutcome} {error : RunnerError} (hphase : s.phase = .reaping error false outcome) :
      Move r setup s { s with phase := .returned (.error error) }
  | finish {leader : Leader} {result : Except RunnerError Unit} (hphase : s.phase = .running leader) :
      Move r setup s { s with
        phase := .returned result
        helper := .exited
        targets := s.targets.map Target.ended }

theorem firstStatus_eq_none : firstStatus code = none ↔ code = 1 := by
  unfold firstStatus
  constructor
  · intro h
    split at h
    · cases h
    split at h
    · cases h
    split at h
    · assumption
    · cases h
  · rintro rfl
    rfl

theorem firstStatus_ne_session : firstStatus code ≠ some .session := by
  unfold firstStatus
  repeat' split
  all_goals exact nofun

/-- Both words that end a handshake early name the wish of the request. -/
theorem respond_eq (r : RunnerRequest) (out : SetupOutcome) {handshake : Handshake} (h : handshake ≠ .session) :
    (handshake = .refused ∧ r.isRequired = false ∧ respond r out handshake = .leaving out) ∨
      ∃ error fallback, respond r out handshake = .refusing error fallback out ∧
        (fallback = true → r.isRequired = false) := by
  cases handshake with
  | session => exact absurd rfl h
  | refused =>
    cases hr : r.isRequired with
    | true => exact .inr ⟨_, false, by rw [respond, if_pos hr], nofun⟩
    | false => exact .inl ⟨rfl, rfl, by rw [respond, hr, if_neg nofun]⟩
  | beforeTarget error =>
    refine .inr ⟨error, _, rfl, fun hf => ?_⟩
    exact (Bool.not_eq_true' _).mp (Bool.and_eq_true_iff.mp hf).1
  | afterTarget error => exact .inr ⟨error, false, rfl, nofun⟩

/-- A handshake that ends without a session ends in one of two moves. -/
theorem Move.responds {s : RunState} {out : SetupOutcome} {handshake : Handshake}
    (hphase : s.phase.handshake? = some out) (hs : handshake ≠ .session)
    (hrefuse : handshake = .refused → s.phase = .reading out ∧ ∃ code, s.wrote[0]? = some code ∧ code ≠ 1) :
    Move r setup s { s with phase := respond r out handshake } := by
  rcases respond_eq r out hs with ⟨hword, hr, h⟩ | ⟨error, fallback, h, hr⟩
  · obtain ⟨hready, code, hh, hcode⟩ := hrefuse hword
    rw [h]
    exact .refused hready hh hcode hr
  · rw [h]
    exact .refuse hphase hr

theorem secondStatus_ne_refused : secondStatus code ≠ .refused := by
  unfold secondStatus
  repeat' split
  all_goals exact nofun

theorem secondStatus_eq_session (h : secondStatus code = .session) : code = 1 := by
  unfold secondStatus at h
  split at h
  · assumption
  · split at h <;> cases h

theorem advance_move {s t : RunState} {e : RunnerEvent} (h : advance r setup s e = some t) : Move r setup s t := by
  cases e with
  | start cancelled host =>
    simp only [advance] at h
    split at h
    · rename_i hphase
      split at h
      · cases h
        exact .stop (by rw [hphase]; rfl)
      split at h
      · cases h
        exact .stop (by rw [hphase]; rfl)
      · cases h
        exact .validated hphase
    · cases h
  | prepare probes =>
    simp only [advance] at h
    split at h
    · rename_i hphase
      split at h
      · cases h
        exact .stop (by rw [hphase]; rfl)
      rename_i out hprefix
      split at h
      · rename_i hhelp
        cases h
        exact .prepared hphase hprefix hhelp
      · rename_i hhelp
        cases h
        exact .unaided hphase hprefix (Bool.not_eq_true _ ▸ hhelp)
    · cases h
  | channel failure =>
    simp only [advance] at h
    split at h
    · rename_i out hphase
      split at h
      · rename_i profile hp
        cases h
        cases failure with
        | none => exact .channel hphase hp
        | some error => cases hp
      split at h
      · cases h
        exact .stop (by rw [hphase]; rfl)
      rename_i hr
      cases h
      exact .unchanneled hphase (Bool.not_eq_true _ ▸ hr)
    · cases h
  | wrap failure =>
    simp only [advance] at h
    split at h
    · rename_i leader out hphase
      split at h
      · split at h
        · cases h
          exact .stop (by rw [hphase]; rfl)
        · cases h
      · cases h
        exact .wrap hphase
    · cases h
  | spawn failure =>
    simp only [advance] at h
    split at h
    · rename_i hphase
      cases h
      exact .stop (by rw [hphase]; rfl)
    · rename_i hphase
      cases h
      exact .spawnHelper hphase
    · rename_i hphase
      cases h
      exact .spawnDirect hphase
    · cases h
  | accept =>
    simp only [advance] at h
    split at h
    · rename_i out hphase
      split at h
      · cases h
      · cases h
        exact .accept hphase
    · cases h
  | giveUp reason =>
    simp only [advance] at h
    split at h
    · rename_i out hphase
      cases h
      exact .responds (by rw [hphase]; rfl) nofun nofun
    · rename_i out hphase
      cases h
      exact .responds (by rw [hphase]; rfl) nofun nofun
    · rename_i out hphase
      cases h
      exact .responds (by rw [hphase]; rfl) nofun nofun
    · cases h
  | readStatus =>
    simp only [advance] at h
    split at h
    · rename_i out hphase
      obtain ⟨code, hh, h⟩ := Option.map_eq_some_iff.mp h
      split at h
      · rename_i handshake hs
        cases h
        refine .responds (by rw [hphase]; rfl) (fun he => firstStatus_ne_session (he ▸ hs)) fun _ => ⟨hphase, code, hh, ?_⟩
        rintro rfl
        cases hs
      · rename_i hs
        cases h
        exact .announced hphase (firstStatus_eq_none.mp hs ▸ hh)
    · rename_i out hphase
      obtain ⟨code, hh, rfl⟩ := Option.map_eq_some_iff.mp h
      by_cases hsession : secondStatus code = .session
      · rw [hsession]
        exact .confirmed hphase (secondStatus_eq_session hsession ▸ hh)
      · exact .responds (by rw [hphase]; rfl) hsession fun he => absurd he secondStatus_ne_refused
    · cases h
  | kill =>
    simp only [advance] at h
    split at h
    · rename_i hphase
      cases h
      exact .kill hphase
    · cases h
  | reap =>
    simp only [advance] at h
    split at h
    · rename_i out hphase
      split at h
      · rename_i hhelp
        cases h
        exact .left hphase hhelp
      · cases h
    · rename_i hphase
      cases h
      exact .fallBack hphase
    · rename_i hphase
      cases h
      exact .fail hphase
    · cases h
  | finish failure =>
    simp only [advance] at h
    split at h
    · rename_i hphase
      cases h
      exact .finish hphase
    · cases h

inductive HelperMove (s : RunState) : RunState → Prop
  | connect (hhelper : s.helper = .started) : HelperMove s { s with helper := .connected }
  | load (hhelper : s.helper = .connected) : HelperMove s { s with helper := .loaded, checks := .readSpec :: s.checks }
  | verify (hhelper : s.helper = .loaded) :
      HelperMove s { s with
        helper := if s.profile.isSome then .limited else .confined
        checks := .verifyResourceLimits :: s.checks }
  | restrict (hhelper : s.helper = .limited) :
      HelperMove s { s with helper := .confined, checks := .restrict :: s.checks }
  | announce (hhelper : s.helper = .confined) : HelperMove s { s with helper := .announced, wrote := s.wrote ++ [1] }
  | spawn (hhelper : s.helper = .announced) :
      HelperMove s { s with helper := .launched, targets := s.targets ++ [⟨.helper, true⟩] }
  | unspawned (hhelper : s.helper = .announced) : HelperMove s { s with helper := .exited, wrote := s.wrote ++ [0] }
  | report (hhelper : s.helper = .launched) : HelperMove s { s with helper := .reported, wrote := s.wrote ++ [1] }
  | refuse {code : UInt8} (hhelper : s.helper ∈ [.connected, .loaded, .limited]) (hcode : code ≠ 1) :
      HelperMove s { s with helper := .exited, wrote := s.wrote ++ [code] }
  | quit (hhelper : s.helper ∈ [.started, .confined, .launched]) : HelperMove s { s with helper := .exited }
  | finish {code : UInt8} (hhelper : s.helper = .reported) :
      HelperMove s { s with helper := .exited, wrote := s.wrote ++ [code] }

theorem helperAdvance_move {s t : RunState} {e : HelperEvent} (h : helperAdvance s e = some t) : HelperMove s t := by
  cases e with
  | connect connected =>
    obtain ⟨hhelp, h⟩ := Option.ite_none_right_eq_some.mp h
    cases h
    cases connected with
    | true => exact .connect hhelp
    | false => exact .quit (by rw [hhelp]; decide)
  | readSpec failure =>
    obtain ⟨hhelp, h⟩ := Option.ite_none_right_eq_some.mp h
    cases failure with
    | none =>
      cases h
      exact .load hhelp
    | some code =>
      obtain ⟨hcode, h⟩ := Option.ite_none_right_eq_some.mp h
      cases h
      exact .refuse (by rw [hhelp]; decide) (by rintro rfl; exact absurd hcode (by decide))
  | verifyResourceLimits verified =>
    obtain ⟨hhelp, h⟩ := Option.ite_none_right_eq_some.mp h
    cases verified with
    | true =>
      cases h
      exact .verify hhelp
    | false =>
      cases h
      exact .refuse (by rw [hhelp]; decide) (by decide)
  | restrict failure =>
    obtain ⟨hhelp, h⟩ := Option.ite_none_right_eq_some.mp h
    cases failure with
    | none =>
      cases h
      exact .restrict hhelp
    | some code =>
      obtain ⟨hcode, h⟩ := Option.ite_none_right_eq_some.mp h
      cases h
      exact .refuse (by rw [hhelp]; decide) (by rintro rfl; exact absurd hcode (by decide))
  | announce written =>
    obtain ⟨hhelp, h⟩ := Option.ite_none_right_eq_some.mp h
    cases h
    cases written with
    | true => exact .announce hhelp
    | false => exact .quit (by rw [hhelp]; decide)
  | spawn spawned =>
    obtain ⟨hhelp, h⟩ := Option.ite_none_right_eq_some.mp h
    cases h
    cases spawned with
    | true => exact .spawn hhelp
    | false => exact .unspawned hhelp
  | report written =>
    obtain ⟨hhelp, h⟩ := Option.ite_none_right_eq_some.mp h
    cases h
    cases written with
    | true => exact .report hhelp
    | false => exact .quit (by rw [hhelp]; decide)
  | childExits resourceStatus =>
    obtain ⟨⟨hhelp, _⟩, h⟩ := Option.ite_none_right_eq_some.mp h
    cases h
    exact .finish hhelp

/-! ### Return -/

/-- How many events the runner may still take. -/
def Phase.rank : Phase → Nat
  | .starting => 13
  | .preparing => 12
  | .channeling _ => 11
  | .wrapping .helper _ => 10
  | .spawning .helper _ => 9
  | .accepting _ => 8
  | .reading _ => 7
  | .confirming _ => 6
  | .refusing _ _ _ => 5
  | .leaving _ => 4
  | .reaping _ _ _ => 4
  | .wrapping .direct _ => 3
  | .spawning .direct _ => 2
  | .running _ => 1
  | .returned _ => 0

theorem Phase.rank_pos_of_isEarly {phase : Phase} (h : phase.isEarly = true) : 0 < phase.rank := by
  cases phase with
  | wrapping leader _ | spawning leader _ => cases leader <;> exact Nat.zero_lt_succ _
  | starting | preparing | channeling _ => exact Nat.zero_lt_succ _
  | _ => cases h

theorem Phase.rank_of_handshake {phase : Phase} {out : SetupOutcome} (h : phase.handshake? = some out) :
    5 < phase.rank := by
  cases phase with
  | accepting _ | reading _ | confirming _ => simp only [rank]; omega
  | _ => cases h

theorem Move.rank {s t : RunState} (h : Move r setup s t) : t.phase.rank < s.phase.rank := by
  cases h with
  | stop hphase => exact Phase.rank_pos_of_isEarly hphase
  | refuse hphase => exact Phase.rank_of_handshake hphase
  | wrap hphase =>
    rename_i leader out
    rw [hphase]
    cases leader <;> exact Nat.lt_succ_self _
  | validated hphase | prepared hphase | unaided hphase | channel hphase | unchanneled hphase | spawnHelper hphase
  | spawnDirect hphase | accept hphase | announced hphase | confirmed hphase | refused hphase | kill hphase
  | left hphase | fallBack hphase | fail hphase | finish hphase =>
    simp only [hphase, Phase.rank]
    omega

def Host.plain : Host := ⟨.ok, fun _ => true, fun root path => root ++ "/" ++ path, fun _ _ => true⟩

/-- The runner always has an event to take until it returns; a refusal it waits out ends with the helper. -/
theorem advance_enabled {s : RunState} (hl : ∀ out, s.phase = .leaving out → s.helper = .exited) :
    (∃ res, s.phase = .returned res) ∨ ∃ e t, advance r setup s e = some t := by
  cases hphase : s.phase with
  | returned res => exact .inl ⟨res, rfl⟩
  | starting => exact .inr ⟨.start true .plain, _, by simp only [advance, hphase]; rfl⟩
  | preparing =>
    refine .inr ⟨.prepare ⟨.ok (), .ok (), .ok ()⟩, ?_⟩
    simp only [advance, hphase]
    split
    · exact ⟨_, rfl⟩
    · split <;> exact ⟨_, rfl⟩
  | channeling out =>
    refine .inr ⟨.channel none, ?_⟩
    simp only [advance, hphase]
    split
    · exact ⟨_, rfl⟩
    · split <;> exact ⟨_, rfl⟩
  | wrapping leader out => exact .inr ⟨.wrap none, _, by simp only [advance, hphase]; rfl⟩
  | spawning leader out => exact .inr ⟨.spawn (some ""), _, by simp only [advance, hphase]; rfl⟩
  | accepting out | reading out | confirming out =>
    exact .inr ⟨.giveUp .timedOut, _, by simp only [advance, hphase]; rfl⟩
  | leaving out =>
    exact .inr ⟨.reap, _, by simp only [advance, hphase, hl out hphase]; rfl⟩
  | refusing error fallback out => exact .inr ⟨.kill, _, by simp only [advance, hphase]; rfl⟩
  | reaping error fallback out =>
    cases fallback <;> exact .inr ⟨.reap, _, by simp only [advance, hphase]; rfl⟩
  | running leader => exact .inr ⟨.finish none, _, by simp only [advance, hphase]; rfl⟩

/-! ### The bytes and the target -/

/-- How many targets the helper has started. -/
def RunState.started (s : RunState) : Nat := (s.targets.map Target.leader).count .helper

variable {s t : RunState}

theorem RunState.targets_eq_nil (hl : ∀ t ∈ s.targets, t.leader = .helper) (hs : s.started = 0) : s.targets = [] := by
  refine eq_nil_iff_forall_not_mem.mpr fun t ht => ?_
  refine not_mem_of_count_eq_zero hs ?_
  rw [← hl t ht]
  exact mem_map_of_mem ht

/-- What the helper has written and how many targets it has started, by its phase. -/
inductive Story : HelperPhase → List UInt8 → Nat → Prop
  | quiet {phase : HelperPhase} (h : phase ∈ [.absent, .started, .connected, .loaded, .limited, .confined]) :
      Story phase [] 0
  | announced : Story .announced [1] 0
  | launched : Story .launched [1] 1
  | reported : Story .reported [1, 1] 1
  | silent : Story .exited [] 0
  | refused {code : UInt8} (h : code ≠ 1) : Story .exited [code] 0
  /-- It ended after the announcement, and may have started the target unheard. -/
  | stopped {n : Nat} (h : n ≤ 1) : Story .exited [1] n
  | unspawned : Story .exited [1, 0] 0
  | ended {rest : List UInt8} : Story .exited (1 :: 1 :: rest) 1

namespace Story
variable {phase : HelperPhase} {wrote : List UInt8} {n : Nat}

/-- Before its announcement the helper has done nothing that shows. -/
theorem eq_of_quiet (h : Story phase wrote n)
    (hq : phase ∈ [.absent, .started, .connected, .loaded, .limited, .confined]) : wrote = [] ∧ n = 0 := by
  cases h with
  | quiet => exact ⟨rfl, rfl⟩
  | _ => exact absurd hq (by decide)

theorem proceed {next : HelperPhase} (h : Story phase wrote n)
    (hq : phase ∈ [.absent, .started, .connected, .loaded, .limited, .confined])
    (hn : next ∈ [.absent, .started, .connected, .loaded, .limited, .confined]) : Story next wrote n := by
  obtain ⟨rfl, rfl⟩ := h.eq_of_quiet hq
  exact .quiet hn

theorem announce (h : Story .confined wrote n) : Story .announced (wrote ++ [1]) n := by
  obtain ⟨rfl, rfl⟩ := h.eq_of_quiet (by decide)
  exact .announced

theorem refuse (h : Story phase wrote n) (hphase : phase ∈ [.connected, .loaded, .limited]) (hcode : code ≠ 1) :
    Story .exited (wrote ++ [code]) n := by
  obtain ⟨rfl, rfl⟩ := h.eq_of_quiet (by revert hphase; cases phase <;> decide)
  exact .refused hcode

theorem spawn (h : Story .announced wrote n) : Story .launched wrote (n + 1) := by
  cases h with
  | quiet h => exact absurd h (by decide)
  | announced => exact .launched

theorem fail (h : Story .announced wrote n) : Story .exited (wrote ++ [0]) n := by
  cases h with
  | quiet h => exact absurd h (by decide)
  | announced => exact .unspawned

theorem report (h : Story .launched wrote n) : Story .reported (wrote ++ [1]) n := by
  cases h with
  | quiet h => exact absurd h (by decide)
  | launched => exact .reported

theorem finish (h : Story .reported wrote n) : Story .exited (wrote ++ [code]) n := by
  cases h with
  | quiet h => exact absurd h (by decide)
  | reported => exact .ended

/-- A helper that is killed leaves its words and its child. -/
theorem exit (h : Story phase wrote n) : Story .exited wrote n := by
  cases h with
  | quiet h => exact .silent
  | announced => exact .stopped (Nat.zero_le 1)
  | launched => exact .stopped le_rfl
  | reported => exact .ended
  | silent => exact .silent
  | refused h => exact .refused h
  | stopped h => exact .stopped h
  | unspawned => exact .unspawned
  | ended => exact .ended

theorem le_one (h : Story phase wrote n) : n ≤ 1 := by
  cases h with
  | stopped h => exact h
  | _ => decide

/-- The second byte tells of a target. -/
theorem confirmed (h : Story phase wrote n) (hh : wrote[1]? = some 1) :
    n = 1 ∧ (phase = .reported ∨ phase = .exited) := by
  cases h with
  | reported => exact ⟨rfl, .inl rfl⟩
  | ended => exact ⟨rfl, .inr rfl⟩
  | _ => cases hh

theorem refusal (h : Story phase wrote n) (hh : wrote[0]? = some code) (hcode : code ≠ 1) :
    n = 0 ∧ phase = .exited := by
  cases h with
  | refused h => exact ⟨rfl, rfl⟩
  | quiet h | silent => cases hh
  | _ => exact absurd (Option.some.inj hh).symm hcode

end Story

theorem map_leader_ended (targets : List Target) :
    (targets.map Target.ended).map Target.leader = targets.map Target.leader := by
  rw [map_map]
  rfl

theorem map_leader_modify (targets : List Target) (i : Nat) :
    (targets.modify i Target.ended).map Target.leader = targets.map Target.leader := by
  refine ext_getElem? fun j => ?_
  rw [List.getElem?_map, List.getElem?_map, List.getElem?_modify, Option.map_eq_map, Option.map_map]
  congr 1
  funext t
  simp only [Function.comp]
  split <;> rfl

theorem leaders_modify {targets : List Target} {i : Nat} (h : ∀ p ∈ targets, p.leader = .helper) :
    ∀ p ∈ targets.modify i Target.ended, p.leader = .helper := by
  intro p hp
  have hl : p.leader ∈ (targets.modify i Target.ended).map Target.leader := mem_map_of_mem hp
  rw [map_leader_modify] at hl
  obtain ⟨p', hp', he⟩ := mem_map.mp hl
  rw [← he]
  exact h p' hp'

theorem HelperMove.story (h : HelperMove s t) (hs : Story s.helper s.wrote s.started) :
    Story t.helper t.wrote t.started := by
  cases h with
  | connect hhelp | load hhelp => exact hs.proceed (by rw [hhelp]; decide) (by simp)
  | verify hhelp => exact hs.proceed (by rw [hhelp]; decide) (by dsimp only; split <;> decide)
  | restrict hhelp => exact hs.proceed (by rw [hhelp]; decide) (by simp)
  | announce hhelp => exact (hhelp ▸ hs).announce
  | refuse hhelp hcode => exact hs.refuse hhelp hcode
  | quit hhelp => exact hs.exit
  | spawn hhelp =>
    rw [hhelp] at hs
    simp only [RunState.started, map_append, count_append]
    exact hs.spawn
  | unspawned hhelp => exact (hhelp ▸ hs).fail
  | report hhelp => exact (hhelp ▸ hs).report
  | finish hhelp => exact (hhelp ▸ hs).finish

/-- The helper is still to be spawned. -/
def Phase.precedesHelper : Phase → Bool
  | .starting | .preparing | .channeling _ | .wrapping .helper _ | .spawning .helper _ => true
  | _ => false

/-- What holds between the two parties in every state. -/
structure Coherent (s : RunState) : Prop where
  story : Story s.helper s.wrote s.started
  absent : s.phase.precedesHelper = true → s.helper = .absent

theorem Move.coherent (h : Move r setup s t) (hs : Coherent s) : Coherent t := by
  cases h with
  | validated hphase | prepared hphase | channel hphase =>
    exact ⟨hs.story, fun _ => hs.absent (by rw [hphase]; rfl)⟩
  | wrap hphase =>
    rename_i leader out
    refine ⟨hs.story, fun hn => hs.absent ?_⟩
    rw [hphase]
    cases leader with
    | helper => rfl
    | direct => cases hn
  | spawnHelper hphase =>
    have ha := hs.absent (by rw [hphase]; rfl)
    exact ⟨hs.story.proceed (by rw [ha]; decide) (by simp), nofun⟩
  | spawnDirect hphase =>
    refine ⟨?_, nofun⟩
    have hstored := hs.story
    simp only [RunState.started, map_append, count_append]
    exact hstored
  | kill hphase => exact ⟨hs.story.exit, nofun⟩
  | finish hphase =>
    refine ⟨?_, nofun⟩
    simp only [RunState.started, map_leader_ended]
    exact hs.story.exit
  | stop | unaided | unchanneled | accept | announced | confirmed | refused | refuse | left | fallBack | fail =>
    exact ⟨hs.story, nofun⟩

theorem HelperMove.phase (h : HelperMove s t) : t.phase = s.phase := by
  cases h <;> rfl

theorem HelperMove.live (h : HelperMove s t) : s.helper ≠ .absent ∧ s.helper ≠ .exited := by
  cases h with
  | refuse hhelp | quit hhelp =>
    revert hhelp
    cases s.helper <;> decide
  | connect hhelp | load hhelp | verify hhelp | restrict hhelp | announce hhelp | spawn hhelp
  | unspawned hhelp | report hhelp | finish hhelp =>
    rw [hhelp]
    decide

/-- A word once written stays. -/
theorem HelperMove.wrote (h : HelperMove s t) : s.wrote <+: t.wrote := by
  cases h with
  | announce | unspawned | report | refuse | finish => exact prefix_append _ _
  | connect | load | verify | restrict | spawn | quit => exact prefix_refl _

theorem HelperMove.leaders (h : HelperMove s t) (hs : ∀ p ∈ s.targets, p.leader = .helper) :
    ∀ p ∈ t.targets, p.leader = .helper := by
  cases h with
  | spawn hhelp =>
    intro p hp
    rcases mem_append.mp hp with hp | hp
    · exact hs p hp
    · rw [mem_singleton.mp hp]
  | _ => exact hs

theorem HelperMove.coherent (h : HelperMove s t) (hs : Coherent s) : Coherent t := by
  refine ⟨h.story hs.story, fun hphase => absurd (hs.absent ?_) h.live.1⟩
  rwa [← h.phase]

theorem step_coherent {e : Event} (h : step r setup s e = some t) (hs : Coherent s) : Coherent t := by
  cases e with
  | runner e => exact (advance_move h).coherent hs
  | helper e => exact (helperAdvance_move h).coherent hs
  | targetExits i =>
    cases h
    refine ⟨?_, hs.absent⟩
    simp only [RunState.started, map_leader_modify]
    exact hs.story

theorem initial_coherent : Coherent .initial := ⟨.quiet (by decide), fun _ => rfl⟩

/-- A handshake whose helper has made its checks and is about to announce the target. -/
def Example.opened : List Event :=
  [.runner (.start false .plain), .runner (.prepare ⟨.ok (), .ok (), .ok ()⟩), .runner (.channel none),
    .runner (.wrap none), .runner (.spawn none), .helper (.connect true), .runner .accept, .helper (.readSpec none),
    .helper (.verifyResourceLimits true), .helper (.restrict none)]

end Eggwork.Runner
