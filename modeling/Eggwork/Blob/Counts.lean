import Eggwork.Blob.Store

/-! The count each row keeps of its references.

Two triggers keep it, while references come by upserts and go by owner, by time and
with their blob. After any sequence of operations it is exact (`run_counts`): to ask
for a count of zero is to ask for a blob without a reference. -/
namespace Eggwork.Blob
open Lib List Option Table Nat

def Tables.referenceCount (r : Tables) (digest : BlobDigest) : Nat := r.references.rows.countP (·.1.2.2 == digest)

/-- The tables with the column `reference_count`. -/
structure Counted extends Tables where
  counts : Table BlobDigest Nat

/-- The statements the calls are made of. -/
inductive Statement where
  | insertRow (digest : BlobDigest) (row : BlobRow)
  | deleteRow (digest : BlobDigest)
  | deleteUnreferenced (digest : BlobDigest)
  | touchRow (digest : BlobDigest) (now : Nat)
  | retain (kind : OwnerKind) (entry : String × BlobDigest) (expires : Option Nat)
  | setReferenceExpiry (kind : OwnerKind) (owner : String) (expires : Option Nat)
  | deleteReferences (p : ReferenceKey → Bool)

namespace Statement

def exec (r : Tables) : Statement → Option Tables
  | .insertRow digest row => (r.blobs.insert digest row).map fun blobs => { r with blobs }
  | .deleteRow digest => some (r.deleteRow digest)
  | .deleteUnreferenced digest => some (r.deleteUnreferenced digest)
  | .touchRow digest now => some { r with blobs := r.blobs.update digest fun row => { row with lastUsed := now } }
  | .retain kind entry expires => r.retain kind [entry] expires
  | .setReferenceExpiry kind owner expires => some (r.setReferenceExpiry kind owner expires)
  | .deleteReferences p => some { r with references := r.references.delete p }

/-- The trigger of a deletion, for each row deleted. -/
def released (counts : Table BlobDigest Nat) (rows : List (ReferenceKey × Option Nat)) : Table BlobDigest Nat :=
  rows.foldl (fun counts row => counts.update row.1.2.2 (· - 1)) counts

def count (c : Counted) : Statement → Table BlobDigest Nat
  | .insertRow digest _ => c.counts.put digest 0
  -- the cascade fires the trigger when the row is gone
  | .deleteRow digest => released (c.counts.delete (· == digest)) (c.references.select (·.2.2 == digest))
  | .deleteUnreferenced digest => if c.isReferenced digest then c.counts else c.counts.delete (· == digest)
  -- an upsert that finds its row inserts nothing
  | .retain kind entry _ =>
    if (c.references.get? (kind, entry)).isSome then c.counts else c.counts.update entry.2 (· + 1)
  | .deleteReferences p => released c.counts (c.references.select p)
  | .touchRow .. | .setReferenceExpiry .. => c.counts

end Statement

/-- The calls that write, with what they find out on the way. One that fails before it writes is none of them. -/
inductive Operation where
  | put (digest : BlobDigest) (row : BlobRow)
  /-- Without a time the blob was found corrupt. -/
  | verify (digest : BlobDigest) (now : Option Nat)
  | retain (kind : OwnerKind) (entries : List (String × BlobDigest)) (expires : Option Nat)
  | setReferenceExpiry (kind : OwnerKind) (owner : String) (expires : Option Nat)
  | releaseReferences (kind : OwnerKind) (owner : String)
  | garbageCollect (expired : List ReferenceKey) (unlinked : List BlobDigest)
  | reopen (missing : List BlobDigest)

def Operation.transactions : Operation → List (List Statement)
  | .put digest row => [[.insertRow digest row]]
  | .verify digest (some now) => [[.touchRow digest now]]
  | .verify digest none => [[.deleteRow digest]]
  | .retain kind entries expires => [entries.map (.retain kind · expires)]
  | .setReferenceExpiry kind owner expires => [[.setReferenceExpiry kind owner expires]]
  | .releaseReferences kind owner => [[.deleteReferences (ownedBy kind owner)]]
  | .garbageCollect expired unlinked => [.deleteReferences expired.contains :: unlinked.map .deleteUnreferenced]
  | .reopen missing => missing.map ([.deleteRow ·])

namespace Counted

def empty : Counted := ⟨⟨.empty, .empty⟩, .empty⟩

def step (c : Counted) (s : Statement) : Option Counted := (s.exec c.toTables).map (⟨·, s.count c⟩)

/-- All of it, or nothing. -/
def transact (c : Counted) (statements : List Statement) : Counted := (statements.foldlM step c).getD c

def run (operations : List Operation) : Counted := (operations.flatMap Operation.transactions).foldl transact empty

/-- The query of `dry_run_gc`. -/
def previewCandidates (c : Counted) (limit : Nat) : List (BlobDigest × BlobRow) :=
  (sortBy (fun entry => entry.2.lastUsed) (c.blobs.rows.filter fun entry => c.counts.get? entry.1 == some 0)).take limit

/-- The counts are exact, and no reference is without its blob. -/
structure Exact (c : Counted) : Prop where
  counts : ∀ digest, c.counts.get? digest = if (c.blobs.get? digest).isSome then some (c.referenceCount digest) else none
  backed : ∀ digest, (c.blobs.get? digest).isSome = false → c.referenceCount digest = 0

end Counted

theorem get?_released (counts : Table BlobDigest Nat) (rows : List (ReferenceKey × Option Nat)) (digest : BlobDigest) :
    (Statement.released counts rows).get? digest = (counts.get? digest).map (· - rows.countP (·.1.2.2 == digest)) := by
  induction rows generalizing counts with
  | nil => simp [Statement.released]
  | cons row rows ih =>
    rw [Statement.released, foldl_cons]
    refine (ih _).trans ?_
    rw [Table.get?_update, countP_cons]
    split
    · rename_i he
      simp [he, Function.comp_def, Nat.sub_sub, Nat.add_comm]
    · rename_i hne
      simp [Ne.symm hne]

theorem referenceCount_delete (r : Tables) (p : ReferenceKey → Bool) (digest : BlobDigest) :
    { r with references := r.references.delete p : Tables }.referenceCount digest =
      r.referenceCount digest - (r.references.select p).countP (·.1.2.2 == digest) := by
  have hs := countP_eq_countP_filter_add r.references.rows (·.1.2.2 == digest) fun row => p row.1
  simp only [Tables.referenceCount, delete, select]
  omega

theorem referenceCount_eq_zero {r : Tables} {digest : BlobDigest} :
    r.referenceCount digest = 0 ↔ r.isReferenced digest = false := by
  simp [Tables.referenceCount, Tables.isReferenced]

theorem referenceCount_put (r : Tables) (key : ReferenceKey) (expires : Option Nat) (digest : BlobDigest) :
    { r with references := r.references.put key expires : Tables }.referenceCount digest =
      r.referenceCount digest + if (r.references.get? key).isNone ∧ key.2.2 = digest then 1 else 0 := by
  have hperm : ∀ (t : Table ReferenceKey (Option Nat)) v, (∀ k, t.get? k = if k = key then some v else r.references.get? k) →
      t.rows.Perm ((r.references.delete (· == key)).rows ++ [(key, v)]) := by
    intro t v ht
    refine rows_perm_append (by simp [get?_delete]) fun k => ?_
    by_cases hk : k = key <;> simp [ht, get?_delete, hk]
  unfold Tables.referenceCount
  cases hkey : r.references.get? key with
  | none =>
    rw [(rows_perm_append hkey (r.references.get?_put key expires)).countP_eq]
    simp [countP_singleton]
  | some old =>
    have hold := hperm r.references old fun k => by by_cases hk : k = key <;> simp [hk, hkey]
    rw [(hperm _ expires (r.references.get?_put key expires)).countP_eq, hold.countP_eq]
    simp [countP_singleton]

namespace Counted.Exact
variable {c : Counted} (h : c.Exact)
include h

theorem deleteReferences (p : ReferenceKey → Bool) :
    Exact ⟨{ c.toTables with references := c.references.delete p }, Statement.released c.counts (c.references.select p)⟩ where
  counts digest := by
    rw [get?_released, h.counts, referenceCount_delete]
    exact apply_ite (Option.map _) _ _ _
  backed digest hnone := by
    rw [referenceCount_delete, h.backed digest hnone, Nat.zero_sub]

theorem deleteRow (digest : BlobDigest) : Exact ⟨c.deleteRow digest,
    Statement.released (c.counts.delete (· == digest)) (c.references.select (·.2.2 == digest))⟩ where
  counts digest' := by
    have hc := (h.deleteReferences (·.2.2 == digest)).counts digest'
    rw [get?_released] at hc ⊢
    rw [get?_delete, Tables.deleteRow, get?_delete]
    split
    · rfl
    · exact hc
  backed digest' hnone := by
    rw [Tables.deleteRow, get?_delete] at hnone
    split at hnone
    · rename_i he
      simp_all [Tables.deleteRow, Tables.referenceCount, delete, countP_eq_zero]
    · exact (h.deleteReferences (·.2.2 == digest)).backed digest' hnone

theorem retain (kind : OwnerKind) {entry : String × BlobDigest} (hentry : (c.blobs.get? entry.2).isSome = true)
    (expires : Option Nat) : Exact ⟨{ c.toTables with references := c.references.put (kind, entry) expires },
      if (c.references.get? (kind, entry)).isSome then c.counts else c.counts.update entry.2 (· + 1)⟩ where
  counts digest := by
    rw [referenceCount_put]
    split
    · rename_i hold
      simp [h.counts, isNone_eq_false_iff.mpr hold]
    · rename_i hnew
      rw [get?_update, h.counts, h.counts, not_isSome_iff_eq_none.mp hnew]
      by_cases he : digest = entry.2
      · simp [he, hentry]
      · simp [he, Ne.symm he]
  backed digest hnone := by
    have hne : entry.2 ≠ digest := by
      rintro rfl
      exact absurd hentry (by rw [hnone]; exact Bool.false_ne_true)
    rw [referenceCount_put, h.backed digest hnone, if_neg fun he => hne he.2]

theorem step {d : Counted} {s : Statement} (hstep : c.step s = some d) : d.Exact := by
  obtain ⟨tables, hexec, rfl⟩ := map_eq_some_iff.mp hstep
  cases s with
  | insertRow digest row =>
    obtain ⟨blobs, hi, rfl⟩ := map_eq_some_iff.mp hexec
    have hfree := (insert_eq_some.mp hi).1
    refine ⟨fun digest' => ?_, fun digest' hnone => ?_⟩
    · show (c.counts.put digest 0).get? digest' = if (blobs.get? digest').isSome then some (c.referenceCount digest') else none
      rw [get?_put, get?_insert hi, h.counts]
      split
      · rename_i he
        rw [he, h.backed digest (by rw [hfree]; rfl)]
        rfl
      · rfl
    · have hnone' : (blobs.get? digest').isSome = false := hnone
      rw [get?_insert hi] at hnone'
      split at hnone'
      · cases hnone'
      · exact h.backed digest' hnone'
  | deleteRow digest =>
    cases hexec
    exact h.deleteRow digest
  | deleteUnreferenced digest =>
    cases hexec
    cases hr : c.isReferenced digest with
    | true => simpa [Statement.count, Tables.deleteUnreferenced, hr] using h
    | false =>
      have hnil : c.references.select (·.2.2 == digest) = [] := by simpa [select, Tables.isReferenced] using hr
      have hremoved := h.deleteRow digest
      rw [hnil] at hremoved
      simpa [Statement.count, Tables.deleteUnreferenced, hr, Statement.released] using hremoved
  | touchRow digest now =>
    cases hexec
    have hkeys : ∀ digest', ((c.blobs.update digest fun row => { row with lastUsed := now }).get? digest').isSome =
        (c.blobs.get? digest').isSome := by
      intro digest'
      rw [get?_update]
      split <;> simp_all
    exact ⟨fun digest' => hkeys digest' ▸ h.counts digest', fun digest' hnone => h.backed digest' (hkeys digest' ▸ hnone)⟩
  | retain kind entry expires =>
    rw [Statement.exec, Tables.retain] at hexec
    split at hexec <;> cases hexec
    rename_i hentry
    exact h.retain kind (by simpa using hentry) expires
  | setReferenceExpiry kind owner expires =>
    cases hexec
    have hc : ∀ digest, (c.toTables.setReferenceExpiry kind owner expires).referenceCount digest = c.referenceCount digest := by
      intro digest
      simp [Tables.referenceCount, Tables.setReferenceExpiry, updateWhere, countP_map, Function.comp_def]
    exact ⟨fun digest => (hc digest).symm ▸ h.counts digest, fun digest hnone => (hc digest).trans (h.backed digest hnone)⟩
  | deleteReferences p =>
    cases hexec
    exact h.deleteReferences p

theorem transact (statements : List Statement) : (c.transact statements).Exact := by
  have hfold : ∀ d, statements.foldlM Counted.step c = some d → d.Exact := by
    induction statements generalizing c with
    | nil =>
      rintro d ⟨⟩
      exact h
    | cons s statements ih =>
      intro d hd
      obtain ⟨e, hstep, hrest⟩ := bind_eq_some_iff.mp hd
      exact ih (h.step hstep) d hrest
  unfold Counted.transact
  cases hd : statements.foldlM Counted.step c with
  | none => exact h
  | some d => exact hfold d hd

theorem previewCandidates (limit : Nat) : c.previewCandidates limit = c.unreferencedCandidates limit := by
  unfold Counted.previewCandidates Tables.unreferencedCandidates
  congr 2
  refine filter_congr fun entry he => ?_
  have hzero : c.toTables.referenceCount entry.1 = 0 ↔ _ := referenceCount_eq_zero
  rw [h.counts, mem_rows.mp he]
  cases hr : c.isReferenced entry.1 <;> simp_all

end Counted.Exact

/-- **The counts are exact.** After any operations, each row counts the references to
its digest, so that the preview selects what a collection does. -/
theorem run_counts (operations : List Operation) : (∀ digest, (Counted.run operations).counts.get? digest =
      if ((Counted.run operations).blobs.get? digest).isSome then some ((Counted.run operations).referenceCount digest)
      else none) ∧
    ∀ limit, (Counted.run operations).previewCandidates limit = (Counted.run operations).unreferencedCandidates limit := by
  have hexact : (Counted.run operations).Exact := by
    refine foldlRecOn _ Counted.transact ⟨fun _ => rfl, fun _ _ => rfl⟩ fun c hc statements _ => hc.transact statements
  exact ⟨hexact.counts, hexact.previewCandidates⟩

end Eggwork.Blob
