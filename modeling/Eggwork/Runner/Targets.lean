import Eggwork.Runner.Handshake

/-! The targets of one call.

`start_kill` stops the leader alone: it is meant for a helper that has started
nothing. In every run that keeps to that a call creates at most one target and
leaves none behind an error; the refusal paths do not see to it themselves. -/
namespace Eggwork.Runner
open Lib List

/-- The leader is killed only while no target exists. -/
def SparesTargets (s : RunState) : Event → Prop
  | .runner .kill => s.targets = []
  | _ => True

instance (s : RunState) (e : Event) : Decidable (SparesTargets s e) := by
  unfold SparesTargets
  split <;> infer_instance

/-- The helper can start nothing more. -/
def RunState.Over (s : RunState) : Prop := s.helper = .absent ∨ s.helper = .exited

/-- Where the targets are, by the runner's phase. -/
def Placed (s : RunState) : Phase → Prop
  | .starting | .preparing | .channeling _ | .wrapping .helper _ | .spawning .helper _ => s.targets = []
  | .accepting _ | .reading _ | .confirming _ | .refusing _ _ _ => ∀ t ∈ s.targets, t.leader = .helper
  | .leaving _ | .reaping _ _ _ | .wrapping .direct _ | .spawning .direct _ => s.targets = [] ∧ s.Over
  | .running .helper => (∀ t ∈ s.targets, t.leader = .helper) ∧ s.wrote[1]? = some 1
  | .running .direct => s.targets.length = 1 ∧ s.Over
  | .returned _ => s.targets.length ≤ 1 ∧ (∀ t ∈ s.targets, t.alive = false) ∧ s.Over

structure Sole (s : RunState) : Prop where
  coherent : Coherent s
  placed : Placed s s.phase

theorem Coherent.length_le_one {s : RunState} (hs : Coherent s) (hlease : ∀ t ∈ s.targets, t.leader = .helper) :
    s.targets.length ≤ 1 := by
  have hstage : s.started = s.targets.length := by
    rw [RunState.started, count_eq_length.mpr, length_map]
    intro l hl
    obtain ⟨t, ht, rfl⟩ := mem_map.mp hl
    exact (hlease t ht).symm
  rw [← hstage]
  exact hs.story.le_one

namespace Sole
variable {r : RunnerRequest} {setup : ExecutionSetup} {s t : RunState}

theorem length_le_one (hs : Sole s) : s.targets.length ≤ 1 := by
  have hp := hs.placed
  have hnil : s.targets = [] → s.targets.length ≤ 1 := fun h => by rw [h]; decide
  cases hphase : s.phase with
  | starting | preparing | channeling _ =>
    rw [hphase] at hp
    exact hnil hp
  | wrapping leader _ | spawning leader _ =>
    rw [hphase] at hp
    cases leader with
    | helper => exact hnil hp
    | direct => exact hnil hp.1
  | accepting _ | reading _ | confirming _ | refusing _ _ _ =>
    rw [hphase] at hp
    exact hs.coherent.length_le_one hp
  | leaving _ | reaping _ _ _ =>
    rw [hphase] at hp
    exact hnil hp.1
  | running leader =>
    rw [hphase] at hp
    cases leader with
    | helper => exact hs.coherent.length_le_one hp.1
    | direct => exact hp.1.le
  | returned res =>
    rw [hphase] at hp
    exact hp.1

/-- Before the leader is spawned there is no target, and none to come but its own. -/
theorem early (hs : Sole s) (hphase : s.phase.isEarly = true) : s.targets = [] ∧ s.Over := by
  have hp := hs.placed
  have ha := hs.coherent.absent
  cases he : s.phase with
  | starting | preparing | channeling _ =>
    rw [he] at hp ha
    exact ⟨hp, .inl (ha rfl)⟩
  | wrapping leader _ | spawning leader _ =>
    rw [he] at hp ha
    cases leader with
    | helper => exact ⟨hp, .inl (ha rfl)⟩
    | direct => exact hp
  | _ =>
    rw [he] at hphase
    cases hphase

theorem leaders (hs : Sole s) {out : SetupOutcome} (hphase : s.phase.handshake? = some out) :
    ∀ t ∈ s.targets, t.leader = .helper := by
  have hp := hs.placed
  cases he : s.phase with
  | accepting _ | reading _ | confirming _ =>
    rw [he] at hp
    exact hp
  | _ =>
    rw [he] at hphase
    cases hphase

theorem returned_nil (hnil : s.targets = []) (hover : s.Over) :
    s.targets.length ≤ 1 ∧ (∀ t ∈ s.targets, t.alive = false) ∧ s.Over := by
  rw [hnil]
  exact ⟨by decide, nofun, hover⟩

theorem of_move (hs : Sole s) (h : Move r setup s t)
    (hspared : ∀ error fallback out, s.phase = .refusing error fallback out → s.targets = []) : Sole t := by
  refine ⟨h.coherent hs.coherent, ?_⟩
  have hp := hs.placed
  cases h with
  | stop hphase => exact returned_nil (hs.early hphase).1 (hs.early hphase).2
  | validated hphase | prepared hphase | channel hphase => exact (hs.early (by rw [hphase]; rfl)).1
  | unaided hphase | unchanneled hphase => exact hs.early (by rw [hphase]; rfl)
  | wrap hphase =>
    rename_i leader out
    rw [hphase] at hp
    cases leader <;> exact hp
  | spawnHelper hphase =>
    rw [hphase] at hp
    rw [show s.targets = [] from hp]
    exact nofun
  | spawnDirect hphase =>
    rw [hphase] at hp
    refine ⟨?_, hp.2⟩
    rw [hp.1]
    rfl
  | accept hphase | announced hphase => exact hs.leaders (by rw [hphase]; rfl)
  | confirmed hphase hh => exact ⟨hs.leaders (by rw [hphase]; rfl), hh⟩
  | refused hphase hh hcode =>
    obtain ⟨hstage, hhelp⟩ := hs.coherent.story.refusal hh hcode
    exact ⟨RunState.targets_eq_nil (hs.leaders (by rw [hphase]; rfl)) hstage, .inr hhelp⟩
  | refuse hphase => exact hs.leaders hphase
  | kill hphase => exact ⟨hspared _ _ _ hphase, .inr rfl⟩
  | left hphase | fallBack hphase =>
    rw [hphase] at hp
    exact hp
  | fail hphase =>
    rw [hphase] at hp
    exact returned_nil hp.1 hp.2
  | finish hphase =>
    refine ⟨by rw [length_map]; exact hs.length_le_one, ?_, .inr rfl⟩
    intro t ht
    obtain ⟨t', _, rfl⟩ := mem_map.mp ht
    rfl

/-- A helper that can still move belongs to a handshake or to the session it led to. -/
theorem of_helperMove (hs : Sole s) (h : HelperMove s t) : Sole t := by
  have hover : ¬ s.Over := fun hover => hover.elim h.live.1 h.live.2
  have hp := hs.placed
  refine ⟨h.coherent hs.coherent, ?_⟩
  rw [h.phase]
  cases hphase : s.phase with
  | starting | preparing | channeling _ => exact absurd (hs.early (by rw [hphase]; rfl)).2 hover
  | wrapping leader _ | spawning leader _ => exact absurd (hs.early (by rw [hphase]; rfl)).2 hover
  | accepting _ | reading _ | confirming _ | refusing _ _ _ =>
    rw [hphase] at hp
    exact h.leaders hp
  | leaving _ | reaping _ _ _ =>
    rw [hphase] at hp
    exact absurd hp.2 hover
  | running leader =>
    rw [hphase] at hp
    cases leader with
    | helper =>
      obtain ⟨rest, hw⟩ := h.wrote
      refine ⟨h.leaders hp.1, ?_⟩
      rw [← hw, List.getElem?_append_left (List.getElem?_eq_some_iff.mp hp.2).1]
      exact hp.2
    | direct => exact absurd hp.2 hover
  | returned res =>
    rw [hphase] at hp
    exact absurd hp.2.2 hover

theorem of_targetExits {i : Nat} (hs : Sole s) (hc : Coherent { s with targets := s.targets.modify i Target.ended }) :
    Sole { s with targets := s.targets.modify i Target.ended } := by
  have hnil : s.targets.modify i Target.ended = [] ↔ s.targets = [] := by
    rw [← length_eq_zero_iff, length_modify, length_eq_zero_iff]
  refine ⟨hc, ?_⟩
  have hplain := hs.placed
  show Placed _ s.phase
  revert hplain
  cases s.phase with
  | starting | preparing | channeling _ => exact hnil.mpr
  | wrapping leader _ | spawning leader _ =>
    cases leader with
    | helper => exact hnil.mpr
    | direct => exact And.imp_left hnil.mpr
  | accepting _ | reading _ | confirming _ | refusing _ _ _ => exact leaders_modify
  | leaving _ | reaping _ _ _ => exact And.imp_left hnil.mpr
  | running leader =>
    cases leader with
    | helper => exact And.imp_left leaders_modify
    | direct => exact And.imp_left fun hlen => (length_modify ..).trans hlen
  | returned res =>
    rintro ⟨hlen, ha, hover⟩
    refine ⟨(length_modify ..).le.trans hlen, fun p hp => ?_, hover⟩
    obtain ⟨j, hj⟩ := List.getElem?_of_mem hp
    rw [List.getElem?_modify] at hj
    obtain ⟨p', hp', rfl⟩ := Option.map_eq_some_iff.mp hj
    have hdead := ha p' (mem_of_getElem? hp')
    split
    · rfl
    · exact hdead

theorem eq_kill {e : RunnerEvent} {error : RunnerError} {fallback : Bool} {out : SetupOutcome}
    (hphase : s.phase = .refusing error fallback out) (h : advance r setup s e = some t) : e = .kill := by
  cases e with
  | kill => rfl
  | _ => simp only [advance, hphase, reduceCtorEq] at h

theorem of_step {e : Event} (hspared : SparesTargets s e) (h : step r setup s e = some t) (hs : Sole s) : Sole t := by
  cases e with
  | targetExits i =>
    have hc := step_coherent h hs.coherent
    cases h
    exact hs.of_targetExits hc
  | helper e => exact hs.of_helperMove (helperAdvance_move h)
  | runner e =>
    refine hs.of_move (advance_move h) fun error fallback out hphase => ?_
    rw [eq_kill hphase h] at hspared
    exact hspared

end Sole

/-- In every run that kills a leader only while no target exists, a call creates at
most one target, and one that returns an error leaves none running. -/
theorem sole_target {r : RunnerRequest} {setup : ExecutionSetup} {s : RunState}
    (h : Steps (step r setup) SparesTargets .initial s) :
    s.targets.length ≤ 1 ∧ ∀ error, s.phase = .returned (.error error) → ∀ t ∈ s.targets, t.alive = false := by
  have hs : Sole s := h.invariant Sole Sole.of_step ⟨initial_coherent, rfl⟩
  refine ⟨hs.length_le_one, fun error hphase => ?_⟩
  have hplaced := hs.placed
  rw [hphase] at hplaced
  exact hplaced.2.1

open Example in
theorem sole_target_session : ∃ s, Steps (step (sandboxed []) .trustedLandlockSetup) SparesTargets .initial s ∧
      s.targets = [⟨.helper, false⟩] ∧ s.targets.length ≤ 1 := by
  have hfollow : (follow (step (sandboxed []) .trustedLandlockSetup) SparesTargets .initial
      (opened ++ [.helper (.announce true), .helper (.spawn true), .runner .readStatus, .helper (.report true),
        .runner .readStatus, .runner (.finish none)])).any (fun s => s.targets == [⟨.helper, false⟩]) = true := by
    decide
  obtain ⟨s, hrun, htargets⟩ := follow_reaches hfollow
  exact ⟨s, hrun, beq_iff_eq.mp htargets, (sole_target hrun).1⟩

open Example

/-- The kill comes too late twice. A read times out, the helper starts the target
before it is killed, and the fallback starts a second one; a call is cancelled between
the two bytes and returns while the target runs on. -/
theorem late_kill : (∃ s, Steps (step (sandboxed []) .trustedLandlockSetup) Free .initial s ∧
      s.targets = [⟨.helper, true⟩, ⟨.direct, true⟩]) ∧
    ∃ s, Steps (step (sandboxed []) .trustedLandlockSetup) Free .initial s ∧
      s.phase = .returned (.error .cancelledBeforeSpawn) ∧ s.targets = [⟨.helper, true⟩] := by
  have hsecond : (follow (step (sandboxed []) .trustedLandlockSetup) Free .initial
      (opened ++ [.runner (.giveUp .timedOut), .helper (.announce true), .helper (.spawn true), .runner .kill,
        .runner .reap, .runner (.wrap none), .runner (.spawn none)])).any
          (fun s => s.targets == [⟨.helper, true⟩, ⟨.direct, true⟩]) = true := by
    decide
  have hleft : (follow (step (sandboxed []) .trustedLandlockSetup) Free .initial
      (opened ++ [.helper (.announce true), .runner .readStatus, .helper (.spawn true),
        .runner (.giveUp .cancelled), .runner .kill, .runner .reap])).any
          (fun s => s.phase == .returned (.error .cancelledBeforeSpawn) && s.targets == [⟨.helper, true⟩]) = true := by
    decide
  obtain ⟨s, hrun, htargets⟩ := follow_reaches hsecond
  obtain ⟨s', hrun', hend⟩ := follow_reaches hleft
  rw [Bool.and_eq_true, beq_iff_eq, beq_iff_eq] at hend
  exact ⟨⟨s, hrun, beq_iff_eq.mp htargets⟩, s', hrun', hend.1, hend.2⟩

end Eggwork.Runner
