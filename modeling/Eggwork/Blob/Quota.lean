import Eggwork.Blob.Steps
import Mathlib.Algebra.Order.BigOperators.Group.List
import Mathlib.Algebra.Order.Group.Nat

/-! The quota of the blob store.

An upload is admitted against the bytes of the rows there are, and charged after a
long transfer. In between rows may go, but only the holder of the write lock adds
one; so the bytes counted at admission are an upper bound until it is charged. A
collection commits tables it has read before; no one else has changed them since. -/
namespace Eggwork.Blob
open Lib Function

/-- The bytes an upload in progress was admitted against. -/
def Stage.counts? : Stage → Option Nat
  | counted _ used | filling _ used _ _ | placed _ used _ _ => some used
  | _ => none

/-- The tables a collection will commit. -/
def Stage.tables? : Stage → Option Tables
  | collecting _ tables => some tables
  | _ => none

theorem used_le_of_sublist {r r' : Tables} (h : r'.blobs.rows.Sublist r.blobs.rows) : r'.used ≤ r.used :=
  (h.map _).sum_le_sum (by simp)

theorem deleteRow_sublist (r : Tables) (digest : BlobDigest) : (r.deleteRow digest).blobs.rows.Sublist r.blobs.rows :=
  List.filter_sublist

structure Budget (store : BlobStore) (s : State) (locals : Nat → Local) : Prop where
  held : Held s locals
  within : s.used ≤ store.quotaBytes
  counted : ∀ {t n}, (locals t).stage.counts? = some n → s.used ≤ n ∧ n < 2 ^ 63
  sparing : ∀ {t tables}, (locals t).stage.tables? = some tables → tables.blobs.rows.Sublist s.blobs.rows

section
variable {store : BlobStore} {s s' : State} {t : Nat} {c : Choice} {o : Op} {g g' : Local} {ls : Nat → Local}

theorem Does.blobs (h : Does store s t c o g g' s') : s'.blobs = s.blobs ∨ s.connects t = true := by
  cases h with
  | refer _ _ hconn | deleteRow hconn | touch _ _ hconn | insertRow _ _ hconn | commit hconn =>
    exact .inr hconn
  | _ => exact .inl rfl

theorem charge_within {used size quota : Nat} (hused : used < 2 ^ 63) (hsize : size ≤ maxBlobBytes)
    (h : saturating (used + size) ≤ quota) : used + size ≤ quota := by
  unfold saturating at h
  unfold maxBlobBytes at hsize
  omega

theorem used_insert {r : Tables} {digest : BlobDigest} {row : BlobRow} {blobs : Table BlobDigest BlobRow}
    (h : r.blobs.insert digest row = some blobs) : Tables.used { r with blobs } = r.used + row.sizeBytes := by
  simp [Tables.used, (Table.insert_eq_some.mp h).2]

theorem used_touch (r : Tables) (digest : BlobDigest) (now : Nat) :
    Tables.used { r with blobs := r.blobs.update digest fun row => { row with lastUsed := now } } = r.used := by
  simp only [Tables.used, Table.update, List.map_map]
  congr 1
  apply List.map_congr_left
  intro e _
  simp only [Function.comp]
  split <;> rfl

/-- The bytes of the rows grow by a charge only, and the charged upload was counted. -/
theorem Budget.used_le (h : Budget store s ls) (hdoes : Does store s t c o (ls t) g s') :
    s'.used ≤ s.used ∨ ((ls t).stage.isGuarded = true ∧ g.stage.counts? = none ∧ s'.used ≤ store.quotaBytes) := by
  generalize hl : ls t = gt at hdoes
  cases hdoes with
  | deleteRow hconn => exact .inl (used_le_of_sublist (deleteRow_sublist s.toTables _))
  | touch now _ hconn => exact .inl (used_touch s.toTables _ now).le
  | insertRow hlen hq hconn hi =>
    refine .inr ⟨rfl, rfl, ?_⟩
    obtain ⟨hused, hn⟩ := h.counted (by rw [hl]; rfl)
    have hc := charge_within hn hlen hq
    exact (used_insert (r := s.toTables) hi).trans_le ((Nat.add_le_add_right hused _).trans hc)
  | commit hconn => exact .inl (used_le_of_sublist (h.sparing (by rw [hl]; rfl)))
  | _ => exact .inl le_rfl

theorem Budget.counted_self (h : Budget store s ls) (hdoes : Does store s t c o (ls t) g s') {n : Nat}
    (hn : g.stage.counts? = some n) : s.used ≤ n ∧ n < 2 ^ 63 := by
  generalize hl : ls t = gt at hdoes
  cases hdoes with
  | same ho => exact h.counted (by rw [hl]; exact hn)
  | count hsum =>
    cases hn
    exact ⟨le_rfl, hsum⟩
  | createPart | writePart | renamePart => exact h.counted (by rw [hl]; exact hn)
  | _ => cases hn

theorem Budget.sparing_self (h : Budget store s ls) (hdoes : Does store s t c o (ls t) g s') {ts : Tables}
    (ht : g.stage.tables? = some ts) : ts.blobs.rows.Sublist s'.blobs.rows := by
  generalize hl : ls t = gt at hdoes
  cases hdoes with
  | same ho => exact h.sparing (by rw [hl]; exact ht)
  | beginImmediate hconn =>
    cases ht
    exact List.Sublist.refl _
  | @deleteExpired _ ts _ _ hmay =>
    cases ht
    have hold : ts.blobs.rows.Sublist s.blobs.rows := h.sparing (t := t) (by rw [hl]; rfl)
    exact hold
  | unlink hf | unlinked hf =>
    cases ht
    exact (deleteRow_sublist _ _).trans (h.sparing (by rw [hl]; rfl))
  | _ => cases ht

theorem Budget.run (h : Budget store s ls) (hdoes : Does store s t c o (ls t) g s') :
    Budget store s' (update ls t g) := by
  have hused := h.used_le hdoes
  refine ⟨h.held.run hdoes, ?_, fun {t' n} hn => ?_, fun {t' ts} htable => ?_⟩
  · rcases hused with hle | ⟨_, _, hle⟩
    · exact hle.trans h.within
    · exact hle
  · by_cases ht : t' = t
    · rw [ht, update_self] at hn
      obtain ⟨hle, hb⟩ := h.counted_self hdoes hn
      rcases hused with hused | ⟨_, hnone, _⟩
      · exact ⟨hused.trans hle, hb⟩
      · rw [hnone] at hn
        cases hn
    · rw [update_of_ne ht] at hn
      obtain ⟨hle, hb⟩ := h.counted hn
      rcases hused with hused | ⟨hg, _, _⟩
      · exact ⟨hused.trans hle, hb⟩
      -- the one that is charged has the write lock, so it is the one that was counted
      have hne : (ls t').stage.isGuarded = true := by
        cases hstage : (ls t').stage <;> rw [hstage] at hn <;> first | rfl | cases hn
      exact absurd (h.held.guarded_unique ((h.held t).guarded hg) hne) ht
  · by_cases ht : t' = t
    · rw [ht, update_self] at htable
      exact h.sparing_self hdoes htable
    rw [update_of_ne ht] at htable
    rcases hdoes.blobs with he | hconn
    · rw [he]
      exact h.sparing htable
    have hne : (ls t').stage.isConnected = true := by
      cases hstage : (ls t').stage <;> rw [hstage] at htable <;> first | rfl | cases htable
    exact absurd (h.held.connected_unique hconn hne) ht

/-- A call that is over is owed nothing. -/
theorem Budget.release (h : Budget store s ls) (t : Nat) : Budget store (s.release t) (update ls t .idle) := by
  refine ⟨h.held.release t, h.within, fun {t' n} hn => ?_, fun {t' ts} hstage => ?_⟩
  · by_cases ht : t' = t
    · rw [ht, update_self] at hn
      cases hn
    · rw [update_of_ne ht] at hn
      exact h.counted hn
  · by_cases ht : t' = t
    · rw [ht, update_self] at hstage
      cases hstage
    · rw [update_of_ne ht] at hstage
      exact h.sparing hstage

theorem budget_invariant {Rule : Pool effects State → Move Choice Empty Call → Prop} :
    Invariant store (fun _ _ => true) Rule (Budget store) where
  conforms _ := (Call.conforms _).restrict ((Program.uses_all _).mono (fun _ _ => rfl) fun _ _ => trivial)
  run _ _ _ _ hdoes h := h.run hdoes
  ended t _ h := h.release t
  drop _ _ _ _ h := h.release _

/-- The rows of the store stay within its quota, whatever is called and however the calls take turns. -/
theorem used_within {r : Root} {p : Pool effects State} (hrun : Steps (machine store).step Free (Pool.start r.boot) p)
    (hr : r.used ≤ store.quotaBytes) : p.shared.used ≤ store.quotaBytes := by
  obtain ⟨ls, _, hb⟩ := budget_invariant.holds hrun ⟨fun _ => holds_idle, hr, nofun, nofun⟩
  exact hb.within

end
end Eggwork.Blob
