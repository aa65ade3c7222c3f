import Eggwork.Blob.Recovery
import Eggwork.Blob.Turns

/-! Uploads that are given up.

An upload is a future, and its client may go away in the middle of the body. The
clean-up of a part is code after the transfer: a future that is dropped inside the
transfer does not reach it, and the part stays until the store is opened again
(`abandoned_part`). Uploads that are dropped elsewhere, or not at all, leave nothing:
whenever none is under way, all bytes under the root are those the rows and the
quarantine account for (`uploads_leave_no_part`). -/
namespace Eggwork.Blob
open Lib Function

/-- Bytes in the files under the root. -/
def Root.bytes (r : Root) : Nat :=
  r.files.total List.length + r.parts.total List.length + r.quarantine.total List.length

def Call.isUpload : Call → Bool
  | putStream .. => true
  | _ => false

/-- The operations an upload waits at while it has a part. -/
def Op.transfers : Op → Bool
  | .nextChunk | .writePart .. | .syncPart _ => true
  | _ => false

/-- Uploads whose unlinks and probes do not fail, and none of which is dropped while it has a part. -/
def unabandoned (p : Pool effects State) : Move Choice Empty Call → Bool
  | .call k => k.isUpload
  | .run t choice => (p.next t).all (fun o => !o.isTrusted) || choice.fault.isNone
  | .drop t => (p.next t).all fun o => !o.transfers
  | .world _ => true

abbrev Unabandoned (p : Pool effects State) (move : Move Choice Empty Call) : Prop := unabandoned p move = true

/-! ### The store between uploads -/

/-- The shelf in a run of uploads: as the upload that has the lock leaves it, or as it is. -/
structure Tidy {store : BlobStore} (m : Shelf store) (base : String → Option Bytes) (s : State) (locals : Nat → Local) : Prop
    extends Turns (fun s => Image s.toRoot m.rows m.files base) (Stands m base) s locals where
  apart : ∀ t, (locals t).stage.isConnected = false

section
variable {store : BlobStore} {m m' : Shelf store} {base : String → Option Bytes} {s s' : State} {t : Nat} {c : Choice}
  {o : Op} {g' : Local} {locals : Nat → Local}

theorem Tidy.run (h : Tidy m base s locals) (ho : o.isInTurn Op.uploads (locals t) = true)
    (hfault : o.isTrusted = true → c.fault = none) (hdoes : Does store s t c o (locals t) g' s') :
    Tidy m base s' (update locals t g') := by
  have hu : o.transacts = false := by
    cases o with
    | lockWrite => rfl
    | _ => simp_all [Op.isInTurn, Op.uploads]
  refine ⟨h.toTurns.run ho hdoes (fun hf => hf) fun _ hbusy => hbusy.step ?_ hdoes, fun t' => ?_⟩
  · cases hc : o.isTrusted with
    | true => exact .inl (hfault hc)
    | false => exact .inr ⟨hc, h.apart t⟩
  by_cases ht : t' = t
  · rw [ht, update_self]
    exact hdoes.unconnected hu (h.apart t)
  · rw [update_of_ne ht]
    exact h.apart t'

/-- An upload is over, and with the lock it gives back its shelf. -/
theorem Tidy.release (h : Tidy m base s locals) (hover : s.writeLock = some t → Image s.toRoot m'.rows m'.files base)
    (hnot : s.writeLock ≠ some t → m' = m) : Tidy m' base (s.release t) (update locals t .idle) := by
  refine ⟨h.toTurns.release hover (fun ht hf => ?_) fun ht stage hbusy => ?_, fun t' => ?_⟩
  · rw [hnot ht]
    exact hf
  · rw [hnot ht]
    cases stage with
    | collecting time => cases time <;> exact hbusy
    | _ => exact hbusy
  · by_cases ht : t' = t
    · rw [ht, update_self]
      rfl
    · rw [update_of_ne ht]
      exact h.apart t'

theorem tidy_invariant : Invariant store (fun g o => o.isInTurn Op.uploads g) Unabandoned fun s locals => ∃ m : Shelf store, Tidy m base s locals where
  conforms {p k} hrule := by
    cases k with
    | putStream => exact putStream_serial.discard fun _ _ h => h.isFinal
    | _ => cases hrule
  run {p locals t c o g s} _ hn ho hrule hdoes h := by
    obtain ⟨m, h⟩ := h
    refine ⟨m, h.run ho (fun hc => ?_) hdoes⟩
    simpa [Unabandoned, unabandoned, hn, hc] using hrule
  ended {s locals} t hf h := by
    obtain ⟨m, h⟩ := h
    by_cases ht : s.writeLock = some t
    · obtain ⟨m', hm'⟩ := (h.busy ht).2.settled hf
      exact ⟨m', h.release (fun _ => hm') fun hne => absurd ht hne⟩
    · exact ⟨m, h.release (fun he => absurd he ht) fun _ => rfl⟩
  drop {p locals t o} hp hn ha hrule h := by
    obtain ⟨m, h⟩ := h
    refine ⟨m, h.release (fun hl => ?_) fun _ => rfl⟩
    obtain ⟨hlocal, hs⟩ := h.busy hl
    have hkept : (!o.transfers) = true := by simpa [Unabandoned, unabandoned, hn] using hrule
    cases o with
    | lockWrite =>
      rw [hp.idle_of_lockWrite hn] at hlocal
      cases hlocal
    | readFile digest =>
      obtain ⟨expected, hstage⟩ := hp.measured_of_readFile hn
      rw [hstage] at hs
      exact hs.1
    | nextChunk | writePart | syncPart => cases hkept
    | _ => cases ha

theorem Root.Intact.total_files {r : Root} (h : r.Intact store) : r.files.total List.length = r.used :=
  Table.total_congr fun d => (h.agree d).symm

/-- Uploads into an intact store none of which is dropped while it has a part, and whose unlinks and probes do not fail:
whenever none is under way there is no part, and the bytes under the root are at most those of the rows and the quarantine. -/
theorem uploads_leave_no_part {r : Root} {p : Pool effects State} (hr : r.Intact store) (hparts : r.parts = .empty)
    (hrun : Steps (machine store).step Unabandoned (Pool.start r.boot) p) (hdone : ∀ program ∈ p.tasks, program.isDone = true) :
    p.shared.parts = .empty ∧ p.shared.toRoot.bytes ≤ p.shared.used + p.shared.quarantine.total List.length := by
  obtain ⟨m, hm⟩ := hr.refines
  have hstart : Tidy m r.parts.get? r.boot fun _ => .idle :=
    ⟨⟨fun _ => holds_idle, fun _ => rfl, fun _ => ⟨hm.rows, hm.files, rfl⟩, fun h => (nomatch h)⟩, fun _ => rfl⟩
  obtain ⟨locals, hplaced, m, h⟩ := tidy_invariant.holds hrun ⟨m, hstart⟩
  have hsettled : ∃ m' : Shelf store, Image p.shared.toRoot m'.rows m'.files r.parts.get? := by
    cases hlock : p.shared.writeLock with
    | none => exact ⟨m, h.free hlock⟩
    | some t =>
      -- even if nobody has given the lock back, the call that has it is over
      refine (h.busy hlock).2.settled ?_
      cases hget : p.tasks[t]? with
      | none =>
        rw [hplaced.unborn (List.getElem?_eq_none_iff.mp hget)]
        rfl
      | some program =>
        have hconforms := hplaced.conforms hget
        have hover := hdone program (List.mem_of_getElem? hget)
        cases program with
        | done => exact hconforms
        | _ => cases hover
  obtain ⟨m', hm'⟩ := hsettled
  have hempty : p.shared.parts = .empty := Table.eq_empty (hm'.parts.trans (by rw [hparts]))
  have hintact : p.shared.toRoot.Intact store := Refines.intact ⟨hm'.rows, hm'.files⟩
  refine ⟨hempty, ?_⟩
  rw [Root.bytes, hintact.total_files, hempty]
  exact le_rfl

end

namespace Example

/-- Uploads whose steps do not fail. -/
abbrev Uploading (_ : Pool effects State) (move : Move Choice Empty Call) : Prop :=
  (match move with
    | .call k => k.isUpload
    | .run _ choice => choice.fault.isNone
    | _ => true) = true

/-- An upload of one byte, as far as it gets in some steps. -/
def upload (steps : Nat) : List (Move Choice Empty Call) :=
  .call (.putStream Sample.blob 1 [some [1]]) :: List.replicate steps (.run 0 {})

def isOver (p : Pool effects State) : Bool := p.tasks.all Program.isDone

end Example

open Example

theorem uploads_leave_no_part_returned :
    ∃ p : Pool effects State, Steps (machine store).step Unabandoned (Pool.start empty.boot) p ∧
      p.shared.files.get? Sample.blob = some [1] ∧ p.shared.parts = .empty := by
  have hfollow : (follow (machine store).step Unabandoned (Pool.start empty.boot) (upload 12)).any
      (fun p => isOver p && decide (p.shared.files.get? Sample.blob = some [1])) = true := by
    decide
  obtain ⟨p, hrun, hp⟩ := follow_reaches hfollow
  rw [Bool.and_eq_true, decide_eq_true_eq] at hp
  exact ⟨p, hrun, hp.2, (uploads_leave_no_part empty_intact rfl hrun (List.all_eq_true.mp hp.1)).1⟩

/-- An upload whose client goes away after the first chunk leaves its part. -/
theorem abandoned_part :
    ∃ p : Pool effects State, Steps (machine store).step Example.Uploading (Pool.start empty.boot) p ∧
      (∀ program ∈ p.tasks, program.isDone = true) ∧ p.shared.parts ≠ .empty ∧
      p.shared.used + p.shared.quarantine.total List.length < p.shared.toRoot.bytes := by
  have hfollow : (follow (machine store).step Example.Uploading (Pool.start empty.boot)
      (upload 7 ++ [.drop 0])).any (fun p => isOver p && decide (p.shared.parts ≠ .empty) &&
        decide (p.shared.used + p.shared.quarantine.total List.length < p.shared.toRoot.bytes)) = true := by
    decide
  obtain ⟨p, hrun, hp⟩ := follow_reaches hfollow
  rw [Bool.and_eq_true, Bool.and_eq_true, decide_eq_true_eq, decide_eq_true_eq] at hp
  exact ⟨p, hrun, List.all_eq_true.mp hp.1.1, hp.1.2, hp.2⟩

end Eggwork.Blob
