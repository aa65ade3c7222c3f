import Eggwork.Blob.Collection
import Eggwork.Blob.Contents

/-! Calls that take turns.

Uploads and collections do everything under the write lock. As long as only such
calls are about, the store is in the stage of the call that has the lock, and
otherwise nothing is under way: what holds of the store can be said with that one
stage in hand (`Turns`), and has to survive the steps of one call only. -/
namespace Eggwork.Blob
open Lib Function

/-- Steps of a kind, made under the write lock. -/
def Op.isInTurn (kind : Op → Bool) (g : Local) : Op → Bool
  | .lockWrite => true
  | o => g.locked && kind o

section
variable {store : BlobStore} {kind : Op → Bool} {α : Type}

theorem advance_locked {g g' : Local} {o : Op} {a : o.Answer} (hl : g.locked = true)
    (h : (protocol store).advance g o a = some g') : g'.locked = true := by
  cases o with
  | lockWrite =>
    obtain ⟨_, ⟨⟩⟩ := Option.ite_none_right_eq_some.mp h
    rfl
  | listParts | listFiles | knownDigests => cases h
  | _ =>
    obtain ⟨stage, _, rfl⟩ := Option.map_eq_some_iff.mp h
    exact hl

theorem Op.isInTurn_of_locked {g : Local} {o : Op} (hl : g.locked = true) (ho : kind o = true) : o.isInTurn kind g = true := by
  cases o with
  | lockWrite => rfl
  | _ => exact (Bool.and_eq_true _ _).mpr ⟨hl, ho⟩

/-- A call that takes the lock first does the rest in turn. -/
theorem conforms_inTurn {post : α → Local → Prop} {next : Unit → Program effects α}
    (h : (protocol store).Conforms post .idle (.perform Op.lockWrite next))
    (huses : ∀ a, (next a).Uses (fun o : Op => kind o = true) fun _ => True) :
    ((protocol store).restrict fun g o => o.isInTurn kind g).Conforms post .idle (.perform Op.lockWrite next) := by
  intro a
  obtain ⟨g, hm, hn⟩ := h a
  cases hm
  refine ⟨⟨true, .idle⟩, rfl, ?_⟩
  exact Protocol.Conforms.restrict_of_closed (fun g => g.locked = true) advance_locked Op.isInTurn_of_locked rfl hn (huses a)

theorem putStream_serial {digest : BlobDigest} {declared : Nat} {input : List (Option Bytes)} :
    ((protocol store).restrict fun g o => o.isInTurn Op.uploads g).Conforms (Uploaded digest) .idle
      (putStream store digest declared input).run := by
  have hconforms : (protocol store).Conforms (Uploaded digest) .idle (putStream store digest declared input).run :=
    putStream_conforms
  have huses : (putStream store digest declared input).run.Uses (fun o : Op => o.uploads = true) fun _ => True :=
    uses_putStream
  unfold putStream at hconforms huses ⊢
  by_cases hlen : declared > maxBlobBytes
  · rw [if_pos hlen]
    rfl
  · rw [if_neg hlen] at hconforms huses ⊢
    exact conforms_inTurn hconforms huses.2

theorem garbageCollect_serial {now limit : Nat} {dryRun : Bool} :
    ((protocol store).restrict fun g o => o.isInTurn (Op.sweeps now) g).Conforms (fun _ g => g.stage.isFinal = true) .idle
      (garbageCollect now limit dryRun).run :=
  conforms_inTurn garbageCollect_conforms uses_garbageCollect.2

end

/-- What holds of the store when nobody has the lock, and in the stage of the call that has it. -/
structure Turns (Free : State → Prop) (Busy : State → Stage → Prop) (s : State) (locals : Nat → Local) : Prop where
  held : Held s locals
  idle : ∀ {t}, (locals t).locked = false → locals t = .idle
  free : s.writeLock = none → Free s
  busy : ∀ {t}, s.writeLock = some t → (locals t).locked = true ∧ Busy s (locals t).stage

section
variable {store : BlobStore} {kind : Op → Bool} {Free Free' : State → Prop} {Busy Busy' : State → Stage → Prop} {s s' : State} {t : Nat}
  {c : Choice} {o : Op} {g' : Local} {ls : Nat → Local}

theorem Does.keeps_lock {g : Local} (hdoes : Does store s t c o g g' s') (hl : g.locked = true) :
    g'.locked = true ∧ s'.writeLock = s.writeLock := by
  cases hdoes with
  | lockWrite => cases hl
  | _ => exact ⟨hl, rfl⟩

theorem Does.takes_lock (hdoes : Does store s t c o .idle g' s') (ho : o.isInTurn kind .idle = true) :
    s.writeLock = none ∧ g' = ⟨true, .idle⟩ ∧ s' = { s with writeLock := some t } := by
  cases o with
  | lockWrite =>
    cases hdoes with
    | same hne => exact absurd rfl hne.1
    | refer _ hr => cases hr
    | lockWrite hf => exact ⟨hf, rfl, rfl⟩
  | _ => cases ho

/-- A call without the lock takes it; one that has it moves on. -/
theorem Turns.run (h : Turns Free Busy s ls) (ho : o.isInTurn kind (ls t) = true)
    (hdoes : Does store s t c o (ls t) g' s') (hl : Free s → Busy { s with writeLock := some t } .idle)
    (hstep : (ls t).locked = true → Busy s (ls t).stage → Busy s' g'.stage) : Turns Free Busy s' (update ls t g') := by
  obtain ⟨hl', hbusy', htaken⟩ : g'.locked = true ∧ Busy s' g'.stage ∧ s'.writeLock = some t := by
    cases hlocal : (ls t).locked with
    | false =>
      rw [h.idle hlocal] at ho hdoes
      obtain ⟨hf, rfl, rfl⟩ := hdoes.takes_lock ho
      exact ⟨rfl, hl (h.free hf), rfl⟩
    | true =>
      obtain ⟨hl', hsame⟩ := hdoes.keeps_lock hlocal
      have hown := (h.held t).write hlocal
      exact ⟨hl', hstep hlocal (h.busy hown).2, hsame.trans hown⟩
  refine ⟨h.held.run hdoes, fun {t'} hu => ?_, fun hn => ?_, fun {t'} hlock' => ?_⟩
  · by_cases ht : t' = t
    · rw [ht, update_self, hl'] at hu
      cases hu
    · rw [update_of_ne ht] at hu ⊢
      exact h.idle hu
  · rw [htaken] at hn
    cases hn
  · rw [htaken] at hlock'
    cases hlock'
    rw [update_self]
    exact ⟨hl', hbusy'⟩

theorem Turns.release (h : Turns Free Busy s ls) (hown : s.writeLock = some t → Free' (s.release t))
    (hf : s.writeLock ≠ some t → Free s → Free' (s.release t))
    (hbusy : s.writeLock ≠ some t → ∀ stage, Busy s stage → Busy' (s.release t) stage) :
    Turns Free' Busy' (s.release t) (update ls t .idle) := by
  have hl : (s.release t).writeLock = if s.writeLock = some t then none else s.writeLock := rfl
  refine ⟨h.held.release t, fun {t'} hu => ?_, fun hn => ?_, fun {t'} htaken => ?_⟩
  · by_cases ht : t' = t
    · rw [ht, update_self]
    · rw [update_of_ne ht] at hu ⊢
      exact h.idle hu
  · by_cases ht : s.writeLock = some t
    · exact hown ht
    · rw [hl, if_neg ht] at hn
      exact hf ht (h.free hn)
  by_cases ht : s.writeLock = some t
  · rw [hl, if_pos ht] at htaken
    cases htaken
  rw [hl, if_neg ht] at htaken
  rw [update_of_ne (by rintro rfl; exact ht htaken)]
  exact ⟨(h.busy htaken).1, hbusy ht _ (h.busy htaken).2⟩

end
end Eggwork.Blob
