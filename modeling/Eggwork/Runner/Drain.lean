import Eggwork.Runner.Output

/-! What the drain loop's locals say of its channel.

`Drain.Sound` is the loop's invariant: the channel is known to be closed only when
it is closed and empty, and then the runner is still awaited; the runner is no
longer awaited only with a result. A sound loop never polls with both branches
disabled. Once the channel is closed and the runner is done every poll completes,
and `Drain.rounds` bounds how many are left. -/
namespace Eggwork.Runner

variable {d : Drain} {polls : Nat}

def Joined.failed : Joined → Bool
  | .ok _ => false
  | _ => true

/-- No more output, and the runner has finished. -/
def Pipe.done (p : Pipe) : Bool := p.closed && p.joined.isSome

theorem Pipe.select_cases {p p' : Pipe} {outputClosed pending : Bool} {polled : Polled}
    (h : p.select outputClosed pending = some (polled, p')) :
    (∃ chunk, polled = .output chunk ∧ outputClosed = false ∧ p.queue = chunk :: p'.queue ∧
        p' = {p with queue := p'.queue}) ∨
      (p' = p ∧ polled = .closed ∧ outputClosed = false ∧ p.drained = true) ∨
      (p' = p ∧ ∃ how, polled = .joined how ∧ pending = true ∧ p.joined = some how) ∨
      (p' = p ∧ polled = .disabled ∧ outputClosed = true ∧ pending = false) := by
  have hjoin : ∀ {pending}, (p.join pending).map (·, p) = some (polled, p') →
      p' = p ∧ ∃ how, polled = .joined how ∧ pending = true ∧ p.joined = some how := by
    intro pending h
    obtain ⟨a, ha, he⟩ := Option.map_eq_some_iff.mp h
    cases he
    unfold Pipe.join at ha
    split at ha
    · rename_i hpending
      obtain ⟨how, hhow, rfl⟩ := Option.map_eq_some_iff.mp ha
      exact ⟨rfl, how, rfl, hpending, hhow⟩
    · cases ha
  unfold Pipe.select at h
  split at h
  · rename_i hc
    split at h
    · rename_i hpending
      obtain ⟨hp, how, hpolled, _, hhow⟩ := hjoin h
      exact .inr (.inr (.inl ⟨hp, how, hpolled, hpending, hhow⟩))
    · rename_i hpending
      cases h
      exact .inr (.inr (.inr ⟨rfl, rfl, hc, Bool.not_eq_true _ ▸ hpending⟩))
  · rename_i hopen
    have hopen : outputClosed = false := Bool.not_eq_true _ ▸ hopen
    split at h
    · rename_i chunk rest hq
      cases h
      exact .inl ⟨chunk, rfl, hopen, hq, rfl⟩
    rename_i hq
    split at h
    · rename_i hc
      cases h
      exact .inr (.inl ⟨rfl, rfl, hopen, by rw [Pipe.drained, hc, hq]; rfl⟩)
    · exact .inr (.inr (.inl (hjoin h)))

namespace Drain
open Bool

variable {p p' : Pipe}

structure Sound (d : Drain) (p : Pipe) : Prop where
  closed : d.outputClosed = true → p.drained = true ∧ d.pending = true
  joined : d.pending = false → d.result.isSome = true

theorem Sound.start : Sound start Pipe.channel := ⟨fun h => (by cases h), fun h => (by cases h)⟩

/-- Both branches are never disabled. -/
theorem Sound.enabled (h : d.Sound p) : ¬ (d.outputClosed = true ∧ d.pending = false) := by
  rintro ⟨hc, hp⟩
  rw [(h.closed hc).2] at hp
  cases hp

theorem Sound.close (h : d.Sound p) (hd : p.drained = true) (hr : d.result.isSome = false) : d.close.Sound p := by
  refine ⟨fun _ => ⟨hd, ?_⟩, h.joined⟩
  cases hp : d.pending with
  | true => exact hp
  | false =>
    rw [h.joined hp] at hr
    cases hr

/-- The loop goes on with a result while the channel is not drained. -/
theorem Sound.joined_open (hclosed : d.outputClosed = true → p.drained = true) (hd : p.drained = false)
    (hr : d.result.isSome = true) : d.Sound p := by
  refine ⟨fun hc => ?_, fun _ => hr⟩
  rw [hclosed hc] at hd
  cases hd

theorem join_outputClosed (d : Drain) (how : Joined) : (d.join how).outputClosed = d.outputClosed := by
  cases how <;> rfl

theorem join_pending (d : Drain) (how : Joined) : (d.join how).pending = false := by
  cases how <;> simp [join, pending]

theorem join_result (d : Drain) (how : Joined) : (d.join how).result.isSome = true ∨ how.failed = true := by
  cases how <;> first
    | exact .inl rfl
    | exact .inr rfl

/-- How many polls are left once the channel is closed and the runner is done. -/
def rounds (d : Drain) (p : Pipe) : Nat :=
  p.queue.length + (if d.outputClosed then 0 else 1) + (if d.pending then 1 else 0)

/-- Polls made since the channel is closed and the runner is done leave room for those to come. -/
def Bounded (d : Drain) (p : Pipe) (polls : Nat) : Prop :=
  if p.done then polls + d.rounds p ≤ runnerChannelCapacity + 2 else polls = 0

theorem Bounded.le (h : d.Bounded p polls) : polls ≤ runnerChannelCapacity + 2 := by
  unfold Bounded at h
  split at h <;> omega

theorem Bounded.poll {d' : Drain} (h : d.Bounded p polls) (hdone : p'.done = p.done)
    (hr : d.rounds p = d'.rounds p' + 1) : d'.Bounded p' (if p.done then polls + 1 else polls) := by
  unfold Bounded at h ⊢
  rw [hdone]
  split
  · rename_i hp
    rw [if_pos hp] at h
    omega
  · rename_i hp
    rwa [if_neg hp] at h

theorem Bounded.of_queue (hroom : p.queue.length ≤ runnerChannelCapacity) : d.Bounded p 0 := by
  unfold Bounded rounds
  split
  · split <;> split <;> omega
  · rfl

theorem rounds_output {chunk : OutputChunk} (hq : p.queue = chunk :: p'.queue) : d.rounds p = d.rounds p' + 1 := by
  unfold rounds
  rw [hq, List.length_cons]
  omega

theorem rounds_close (hopen : d.outputClosed = false) : d.rounds p = d.close.rounds p + 1 := by
  unfold rounds
  rw [hopen, show d.close.outputClosed = true from rfl, show d.close.pending = d.pending from rfl]
  simp only [false_eq_true, if_false, if_true]
  omega

theorem rounds_join (how : Joined) (hp : d.pending = true) : d.rounds p = (d.join how).rounds p + 1 := by
  unfold rounds
  rw [join_outputClosed, join_pending, hp]
  simp only [false_eq_true, if_false, if_true]

/-- Once the channel is closed and the runner is done, a poll does not wait. -/
theorem select_completes (hdone : p.done = true) (h : d.Sound p) : (p.select d.outputClosed d.pending).isSome = true := by
  obtain ⟨hclosed, hj⟩ := and_eq_true_iff.mp hdone
  obtain ⟨how, hhow⟩ := Option.isSome_iff_exists.mp hj
  unfold Pipe.select
  split
  · rename_i hc
    rw [if_pos (h.closed hc).2]
    simp [Pipe.join, hhow]
  · split
    · rfl
    · rfl

end Drain

/-! ### What the runner does to its channel -/

theorem Pipe.drained_closed {p : Pipe} (h : p.drained = true) : p.closed = true := (Bool.and_eq_true_iff.mp h).1

theorem Pipe.drained_queue {p : Pipe} (h : p.drained = true) : p.queue = [] :=
  List.isEmpty_iff.mp (Bool.and_eq_true_iff.mp h).2

/-- A change of the channel that keeps what every stage says. -/
structure Pipe.Later (p p' : Pipe) : Prop where
  queue : p'.queue = p.queue
  closed : p.closed = true → p'.closed = true
  joined : ∀ how, p.joined = some how → p'.joined = some how

variable {p p' : Pipe}

theorem Pipe.Later.drained (h : p.Later p') (hp : p.drained = true) : p'.drained = true := by
  rw [Pipe.drained, h.closed (Pipe.drained_closed hp), h.queue, Pipe.drained_queue hp]
  rfl

theorem Pipe.Later.done (h : p.Later p') (hp : p.done = true) : p'.done = true := by
  obtain ⟨hc, hj⟩ := Bool.and_eq_true_iff.mp hp
  obtain ⟨how, hhow⟩ := Option.isSome_iff_exists.mp hj
  rw [Pipe.done, h.closed hc, h.joined how hhow]
  rfl

theorem Pipe.Later.bounded (h : p.Later p') (hroom : p.queue.length ≤ runnerChannelCapacity) (hb : d.Bounded p polls) :
    d.Bounded p' polls := by
  have hr : d.rounds p' = d.rounds p := by
    unfold Drain.rounds
    rw [h.queue]
  by_cases hdone : p.done = true
  · unfold Drain.Bounded at hb ⊢
    rw [if_pos hdone] at hb
    rw [if_pos (h.done hdone), hr]
    exact hb
  · unfold Drain.Bounded at hb
    rw [if_neg hdone] at hb
    rw [hb]
    exact .of_queue (h.queue ▸ hroom)

theorem Pipe.Later.sound (h : p.Later p') (hd : d.Sound p) : d.Sound p' :=
  ⟨fun hc => ⟨h.drained (hd.closed hc).1, (hd.closed hc).2⟩, hd.joined⟩

end Eggwork.Runner
