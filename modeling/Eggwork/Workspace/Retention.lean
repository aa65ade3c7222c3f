import Eggwork.Workspace.Collection
import Eggwork.Workspace.Materialize

/-! Retention across calls, failures and crashes.

A pin is a blob reference without an expiry. `mark_active` pins, `mark_terminal`
and the recovery at start unpin, each with two writes to two databases. A pin is
found again at the next start through its row, which has no expiry either; that is
the invariant, and it breaks where the row is given its expiry and the references
are not. -/
namespace Eggwork.Workspace
open Lib Effect List Table

variable {now expires : Nat} {workspace : WorkspaceId} {rows : Rows}

section
variable {m : Manager} {fates : Fates} {d d' : Disk}

/-- Every pin has a row that is pinned too, with a tree that keeps it from being swept. -/
structure Kept (m : Manager) (d : Disk) : Prop where
  wellFormed : WellFormed m d
  backed : ∀ id row, d.workspaces.get? id = some row → row.expires = none →
    (d.directories.get? row.storageKey).isSome = true
  pinned : ∀ owner digest, d.references.get? (.workspace, owner, digest) = some none →
    ∃ id row, id.value = owner ∧ d.workspaces.get? id = some row ∧ row.expires = none

/-- A step that moves no pinned row, keeps their trees and pins nothing. -/
theorem Kept.mono (hd : Kept m d) (hwf : WellFormed m d')
    (hrows : ∀ id row, row.expires = none → (d'.workspaces.get? id = some row ↔ d.workspaces.get? id = some row))
    (ht : ∀ id row, d.workspaces.get? id = some row → row.expires = none →
      (d.directories.get? row.storageKey).isSome = true → (d'.directories.get? row.storageKey).isSome = true)
    (hrefs : ∀ owner digest, d'.references.get? (.workspace, owner, digest) = some none →
      d.references.get? (.workspace, owner, digest) = some none) : Kept m d' where
  wellFormed := hwf
  backed id row hr hp := by
    have hold := (hrows id row hp).mp hr
    exact ht id row hold hp (hd.backed id row hold hp)
  pinned owner digest hpin := by
    obtain ⟨id, row, hid, hr, hp⟩ := hd.pinned owner digest (hrefs owner digest hpin)
    exact ⟨id, row, hid, (hrows id row hp).mpr hr, hp⟩

theorem Kept.directories {directories : Table String FileSystem} (hd : Kept m d)
    (h : ∀ id row, d.workspaces.get? id = some row → row.expires = none →
      (d.directories.get? row.storageKey).isSome = true → (directories.get? row.storageKey).isSome = true) :
    Kept m { d with directories } :=
  hd.mono ⟨hd.wellFormed.unique, hd.wellFormed.valid⟩ (fun _ _ _ => Iff.rfl) h fun _ _ => id

theorem Kept.references {references : Table ReferenceKey (Option Nat)} (hd : Kept m d)
    (h : ∀ owner digest, references.get? (.workspace, owner, digest) = some none →
      d.references.get? (.workspace, owner, digest) = some none) : Kept m { d with references } :=
  hd.mono ⟨hd.wellFormed.unique, hd.wellFormed.valid⟩ (fun _ _ _ => Iff.rfl) (fun _ _ _ _ => id) h

theorem Kept.removeDirectory {name : String} (hd : Kept m d)
    (h : ∀ id row, d.workspaces.get? id = some row → row.expires = none → row.storageKey ≠ name) :
    Kept m (d.removeDirectory name) := by
  refine hd.directories fun id row hr hpin hsome => ?_
  rw [get?_delete, if_neg]
  · exact hsome
  · rw [beq_iff_eq]
    exact h id row hr hpin

theorem Kept.putDirectory (hd : Kept m d) (name : String) (tree : FileSystem) : Kept m (d.putDirectory name tree) := by
  refine hd.directories fun id row hr hpin hsome => ?_
  rw [get?_put]
  split
  · rfl
  · exact hsome

theorem Kept.releaseReferences (hd : Kept m d) (kind : OwnerKind) (owner : String) :
    Kept m (d.releaseReferences kind owner) := by
  refine hd.references fun owner' digest hpin => ?_
  rw [get?_delete] at hpin
  split at hpin
  · cases hpin
  · exact hpin

theorem Kept.retained (hd : Kept m d) (kind : OwnerKind) (owner : String) (digests : List BlobDigest) (expires : Nat) :
    Kept m (d.retained kind owner digests (some expires)) := by
  refine hd.references fun owner' digest hpin => ?_
  rw [get?_foldl_put] at hpin
  split at hpin
  · cases hpin
  · exact hpin

/-! ### Collection -/

theorem isExpired_of_none {row : WorkspaceRow} (h : row.expires = none) : isExpired now row = false := by
  rw [isExpired, h]
  rfl

/-- Rows of which only expired ones are gone. -/
structure Trimmed (rows rows' : Rows) : Prop where
  sublist : rows'.rows.Sublist rows.rows
  kept : ∀ id row, row.expires = none → rows.get? id = some row → rows'.get? id = some row

theorem Trimmed.deleteWhere {rows' : Rows} (h : Trimmed rows rows') {p : WorkspaceId → WorkspaceRow → Bool}
    (hp : ∀ id row, rows.get? id = some row → row.expires = none → p id row = false) :
    Trimmed rows (rows'.deleteWhere p) where
  sublist := filter_sublist.trans h.sublist
  kept id row hpin hr := by
    rw [get?_deleteWhere, h.kept id row hpin hr, Option.filter_some, hp id row hr hpin]
    rfl

theorem Kept.trimmed (hd : Kept m d) (h : Trimmed d.workspaces rows) : Kept m { d with workspaces := rows } := by
  refine hd.mono (hd.wellFormed.of_sublist h.sublist) (fun id row hpin => ⟨fun hr => ?_, h.kept id row hpin⟩)
    (fun _ _ _ _ => id) fun _ _ => id
  exact mem_rows.mp (h.sublist.subset (mem_rows.mpr hr))

/-- One candidate, whatever becomes of its steps. -/
theorem collectOne_keeps (fates : Fates) (n : Nat) {c : WorkspaceId × WorkspaceRow} {s : Disk} (hs : Kept m s)
    (hrows : Trimmed s.workspaces rows) (hc : s.workspaces.get? c.1 = some c.2) (he : isExpired now c.2 = true) :
    Kept m (collectOne m fates now (rows, n) c s).2 ∧ (collectOne m fates now (rows, n) c s).2.workspaces = s.workspaces ∧
      ∀ rows' n', (collectOne m fates now (rows, n) c s).1 = .ok (rows', n') → Trimmed s.workspaces rows' := by
  unfold collectOne
  split
  · have hremoved : Kept m (s.removeDirectory c.2.storageKey) := by
      refine hs.removeDirectory fun id row hr hpin hk => ?_
      obtain rfl := hs.wellFormed.entry_eq (a := (id, row)) (b := c) hr hc hk
      rw [isExpired_of_none hpin] at he
      cases he
    have hd : Trimmed s.workspaces (rows.deleteWhere fun id row => id == c.1 && isExpired now row) := by
      refine hrows.deleteWhere fun id row _ hpin => ?_
      rw [isExpired_of_none hpin, Bool.and_false]
    simp only [bind_apply, attempt]
    cases fates (.removeDirectory c.2.storageKey) with
    | fails error | crashes =>
      refine ⟨hs, rfl, fun rows' n' h => ?_⟩
      cases h
    | happens =>
      cases fates (.collectDelete c.1) with
      | fails error | crashes =>
        refine ⟨hremoved, rfl, fun rows' n' h => ?_⟩
        cases h
      | happens =>
        refine ⟨hremoved, rfl, fun rows' n' h => ?_⟩
        cases h
        exact hd
  · refine ⟨hs, rfl, fun rows' n' h => ?_⟩
    cases h
    exact hrows

theorem collect_keeps (fates : Fates) {cs : List (WorkspaceId × WorkspaceRow)} {s : Disk} (hs : Kept m s)
    (hc : ∀ c ∈ cs, s.workspaces.get? c.1 = some c.2 ∧ isExpired now c.2 = true) (n : Nat)
    (hrows : Trimmed s.workspaces rows) : Kept m (cs.foldlM (collectOne m fates now) (rows, n) s).2 ∧
      (cs.foldlM (collectOne m fates now) (rows, n) s).2.workspaces = s.workspaces ∧
      ∀ rows' n', (cs.foldlM (collectOne m fates now) (rows, n) s).1 = .ok (rows', n') →
        Trimmed s.workspaces rows' := by
  induction cs generalizing rows n s with
  | nil =>
    refine ⟨hs, rfl, fun rows' n' h => ?_⟩
    cases h
    exact hrows
  | cons c rest ih =>
    obtain ⟨hcand, he⟩ := hc c mem_cons_self
    obtain ⟨hkept, hsame, hn⟩ := collectOne_keeps fates n hs hrows hcand he
    rw [foldlM_cons, bind_apply]
    rcases hone : collectOne m fates now (rows, n) c s with ⟨_ | ⟨rows', n'⟩, t⟩
    · rw [hone] at hkept hsame
      refine ⟨hkept, hsame, fun rows' n' h => ?_⟩
      cases h
    rw [hone] at hkept hsame hn
    simp only at hsame
    rw [← hsame]
    exact ih hkept (hsame ▸ fun c hc' => hc c (mem_cons_of_mem _ hc')) n' (hsame ▸ hn rows' n' rfl)

theorem collect_commit {x : Action (Rows × Nat)} (report : Nat → CollectReport) (hkept : Kept m (x d).2)
    (hsame : (x d).2.workspaces = d.workspaces)
    (hrows : ∀ rows n, (x d).1 = .ok (rows, n) → Trimmed d.workspaces rows) :
    Kept m ((do
      let (rows, deleted) ← x
      commit (fates .collectCommit) fun d => { d with workspaces := rows }
      return report deleted : Action CollectReport) d).2 := by
  rw [bind_apply]
  rcases hr : x d with ⟨_ | ⟨rows, n⟩, t⟩
  · rw [hr] at hkept
    exact hkept
  rw [hr] at hkept hsame hrows
  have hc : Kept m { t with workspaces := rows } := hkept.trimmed (hsame ▸ hrows rows n rfl)
  simp only [bind_apply]
  cases fates .collectCommit with
  | happens => exact hc
  | fails error | crashes => exact hkept

theorem garbageCollect_kept (fates : Fates) (now limit : Nat) (dryRun : Bool) :
    Keeps (Kept m) (garbageCollect m fates now limit dryRun) := by
  intro d hd
  have hwho : Trimmed d.workspaces d.workspaces := ⟨List.Sublist.refl _, fun _ _ _ => id⟩
  unfold garbageCollect
  rw [bind_apply]
  cases fates .collectBegin with
  | fails error | crashes => exact hd
  | happens =>
    rw [attempt, commit_happens rfl]
    simp only [get_bind, id]
    cases dryRun with
    | true =>
      refine collect_commit (fun deleted => ⟨_, _, deleted⟩) hd rfl fun rows n h => ?_
      cases h
      exact hwho
    | false =>
      obtain ⟨hkept, hsame, hrows⟩ := collect_keeps fates hd
        (fun c hc => mem_expired.mp (mem_of_mem_take hc) : ∀ c ∈ window now limit d, _) 0 hwho
      exact collect_commit (fun deleted => ⟨_, _, deleted⟩) hkept hsame hrows

/-! ### Start -/

theorem isStage_of_valid {key : String} (h : m.validStorageKey key = true) : isStage key = false := by
  rw [Bool.eq_false_iff]
  intro hstage
  obtain ⟨rest, hk⟩ := isPrefixOf_iff_prefix.mp (Bool.and_eq_true_iff.mp h).1
  obtain ⟨rest', hkey'⟩ := isPrefixOf_iff_prefix.mp hstage
  have hhead := congrArg List.head? (hk.trans hkey'.symm)
  simp at hhead

theorem sweep_kept (hd : Kept m d) {name : String}
    (h : isStage name = true ∨ name ∉ d.workspaces.rows.map fun e => e.2.storageKey) :
    Kept m (d.removeDirectory name) := by
  refine hd.removeDirectory fun id row hr _ hk => ?_
  have hm := mem_rows.mpr hr
  rcases h with hstage | hu
  · have hv := isStage_of_valid (hd.wellFormed.valid _ hm)
    rw [hk, hstage] at hv
    cases hv
  · exact hu (mem_map.mpr ⟨_, hm, hk⟩)

/-- A row without its tree is not pinned. -/
theorem forget_kept (hd : Kept m d) {key : String} (h : (d.directories.get? key).isSome = false) :
    Kept m (forget fates key d).2 := by
  have hgone : Kept m { d with workspaces := d.workspaces.deleteWhere fun _ row => row.storageKey == key } := by
    refine hd.trimmed (Trimmed.deleteWhere ⟨List.Sublist.refl _, fun _ _ _ => id⟩ fun id row hr hpin => ?_)
    rw [beq_eq_false_iff_ne]
    rintro rfl
    rw [hd.backed id row hr hpin] at h
    cases h
  unfold forget
  cases fates (.forget key) with
  | happens => exact hgone
  | fails error | crashes => exact hd

theorem reconcile_kept (fates : Fates) : Keeps (Kept m) (reconcile m fates) := by
  intro d hd
  have hv : (d.workspaces.rows.map fun e => e.2.storageKey).filter m.validStorageKey =
      d.workspaces.rows.map fun e => e.2.storageKey := by
    refine filter_eq_self.mpr fun key hk => ?_
    obtain ⟨e, he, rfl⟩ := mem_map.mp hk
    exact hd.wellFormed.valid e he
  have hinv : ((d.workspaces.rows.map fun e => e.2.storageKey).filter fun key => !m.validStorageKey key) = [] := by
    refine filter_eq_nil_iff.mpr fun key hk => ?_
    obtain ⟨e, he, rfl⟩ := mem_map.mp hk
    rw [hd.wellFormed.valid e he]
    nofun
  unfold reconcile
  rw [bind_apply]
  cases fates .known with
  | fails error | crashes => exact hd
  | happens =>
    rw [attempt, commit_happens rfl]
    -- no key is malformed, so the first loop is empty
    simp only [get_bind, id, hinv, hv, List.forM, pure_bind_apply]
    refine Keeps.bind_of_imp (I := fun s => Kept m s ∧ s.workspaces = d.workspaces) (fun _ => And.left)
      (.forM fun name hname => ?_) (fun _ s hs => Keeps.forM (fun key _ => ?_) s hs.1) d ⟨hd, rfl⟩
    · refine .commit fun s hs => ⟨sweep_kept hs.1 ?_, hs.2⟩
      have hswept := (mem_filter.mp hname).2
      rw [Bool.or_eq_true, Bool.not_eq_true', contains_eq_mem, decide_eq_false_iff_not, ← hs.2] at hswept
      exact hswept
    intro s hs
    rw [get_bind]
    split
    · rename_i hn
      exact forget_kept hs ((Bool.not_eq_true' _).mp hn)
    · exact hs

/-! ### Materialization -/

section
variable {req : MaterializeRequest}

/-- On the way to its row, a call's target is no row's tree. -/
structure Pending (m : Manager) (req : MaterializeRequest) (d : Disk) : Prop where
  kept : Kept m d
  unused : ∀ id row, d.workspaces.get? id = some row → row.storageKey ≠ req.target

theorem isStage_stage (req : MaterializeRequest) : isStage req.stage = true := by
  rw [isStage, MaterializeRequest.stage, String.toList_append, isPrefixOf_iff_prefix]
  exact prefix_append _ _

theorem validStorageKey_target (h : m.isUuid req.nonce = true) : m.validStorageKey req.target = true := by
  rw [Manager.validStorageKey, MaterializeRequest.target, String.toList_append, Bool.and_eq_true,
    isPrefixOf_iff_prefix]
  refine ⟨prefix_append _ _, ?_⟩
  have hn : ("workspace-".toList ++ req.nonce.toList).drop 10 = req.nonce.toList := drop_left' (by decide)
  rw [hn, String.ofList_toList]
  exact h

theorem Pending.removeDirectory (hd : Pending m req d) {name : String} (hname : name = req.stage ∨ name = req.target) :
    Pending m req (d.removeDirectory name) := by
  refine ⟨hd.kept.removeDirectory fun id row hr _ => ?_, hd.unused⟩
  rcases hname with rfl | rfl
  · rintro hk
    have hv := isStage_of_valid (hd.kept.wellFormed.valid _ (mem_rows.mpr hr))
    rw [hk, isStage_stage] at hv
    cases hv
  · exact hd.unused id row hr

theorem Pending.putDirectory (hd : Pending m req d) (name : String) (tree : FileSystem) :
    Pending m req (d.putDirectory name tree) := ⟨hd.kept.putDirectory name tree, hd.unused⟩

theorem discard_pending {dir : String} (h : dir = req.stage ∨ dir = req.target) :
    Keeps (Pending m req) (discard fates req dir) :=
  .bind (.ignore (.commit fun _ hs => hs.removeDirectory h)) fun _ =>
    .ignore (.commit fun _ hs => ⟨hs.kept.releaseReferences _ _, hs.unused⟩)

theorem buildTree_pending : Keeps (Pending m req) (buildTree m fates req) := by
  refine .bind (.commit fun s hs => hs.putDirectory _ _) fun _ => .bind (.attempt _) fun _ => .bind (.get _) fun tree => ?_
  cases tree with
  | error error => exact .fail _
  | ok tree => exact .commit fun s hs => hs.putDirectory _ tree

theorem Pending.rename (hd : Pending m req d) (h : d.rename req.stage req.target = some d') : Pending m req d' := by
  obtain ⟨tree, _, rfl⟩ := Option.map_eq_some_iff.mp h
  exact (hd.removeDirectory (.inl rfl)).putDirectory _ tree

theorem storeManifest_pending (digest : BlobDigest) : Keeps (Pending m req) (storeManifest fates req digest) := by
  refine .guard (.bind (.attempt _) fun _ => .bind (.get _) fun old => .bind (.commit fun s hs => ?_) fun _ =>
    .commit? fun s t hs hr => ?_)
  · exact ⟨hs.kept.mono ⟨hs.kept.wellFormed.unique, hs.kept.wellFormed.valid⟩ (fun _ _ _ => Iff.rfl) (fun _ _ _ _ => id)
      fun _ _ => id, hs.unused⟩
  · obtain ⟨_, rfl⟩ := Disk.retain_eq_some.mp hr
    exact ⟨hs.kept.retained _ _ _ _, hs.unused⟩

theorem Pending.insertRow (hd : Pending m req d) (hn : m.isUuid req.nonce = true) {row : WorkspaceRow}
    (hk : row.storageKey = req.target) (hexpired : row.expires ≠ none)
    (h : d.insertRow req.workspaceId row = some d') : Kept m d' := by
  unfold Disk.insertRow at h
  split at h
  · cases h
  obtain ⟨rows, hi, rfl⟩ := Option.map_eq_some_iff.mp h
  obtain ⟨hf, hrows⟩ := insert_eq_some.mp hi
  refine hd.kept.mono ⟨?_, ?_⟩ (fun id row' hpin => ?_) (fun _ _ _ _ => id) fun _ _ => id
  · rw [hrows, map_append, nodup_append']
    refine ⟨hd.kept.wellFormed.unique, nodup_singleton _, fun key hold hnew => ?_⟩
    obtain ⟨e, hentry, rfl⟩ := mem_map.mp hold
    exact hd.unused e.1 e.2 (mem_rows.mp hentry) ((mem_singleton.mp hnew).trans hk)
  · intro e hentry
    rw [hrows] at hentry
    rcases mem_append.mp hentry with hold | hnew
    · exact hd.kept.wellFormed.valid e hold
    · rw [mem_singleton.mp hnew, hk]
      exact validStorageKey_target hn
  · show rows.get? id = some row' ↔ _
    rw [get?_insert hi]
    split
    · rename_i hid
      rw [hid, hf]
      constructor
      · intro he
        cases he
        exact absurd hpin hexpired
      · intro he
        cases he
    · rfl

/-- An insert that fails is cleaned up; one that goes through keeps its pins. -/
theorem insert_kept (hd : Pending m req d) (hn : m.isUuid req.nonce = true) {row : WorkspaceRow}
    (hk : row.storageKey = req.target) (he : row.expires ≠ none) :
    Kept m (orUndo (commit? (fates .insert) .metadata (Disk.insertRow req.workspaceId row))
      (discard fates req req.target) d).2 := by
  rw [orUndo]
  rcases hr : commit? (fates .insert) WorkspaceError.metadata (Disk.insertRow req.workspaceId row) d with
    ⟨(error | _) | a, t⟩
  · rw [(commit?_error hr).1]
    exact ((discard_pending (.inr rfl)).bind (fun _ => .fail error) d hd).kept
  · rw [(commit?_error hr).1]
    exact hd.kept
  · exact hd.insertRow hn hk he (commit?_ok.mp hr).2

theorem publishTree_kept (hn : m.isUuid req.nonce = true) (digest : BlobDigest) (hd : Pending m req d) :
    Kept m (publishTree m fates req digest d).2 := by
  have hkept : ∀ s, Pending m req s → Kept m s := fun _ => Pending.kept
  refine Keeps.bind_of_imp hkept (.orUndo buildTree_pending (discard_pending (.inl rfl))) (fun _ =>
    Keeps.bind_of_imp hkept (.orUndo (.commit? fun _ _ hs => hs.rename) (discard_pending (.inl rfl))) fun _ =>
      Keeps.bind_of_imp hkept (.orUndo (.attempt _) (discard_pending (.inr rfl))) fun _ s hs => ?_) d hd
  rw [bind_pure_state]
  exact insert_kept hs hn rfl nofun

theorem materialize_kept (hn : m.isUuid req.nonce = true) (hd : Pending m req d) :
    Kept m (materialize m fates req d).2 := by
  have hkept : ∀ s, Pending m req s → Kept m s := fun _ => Pending.kept
  refine Keeps.bind_of_imp hkept (.of_reads checkManifest_reads) (fun digest =>
    Keeps.bind_of_imp hkept (.attempt _) fun _ s hs => ?_) d hd
  rw [get_bind]
  cases s.workspaces.get? req.workspaceId with
  | some row => exact Keeps.guard (.bind (.get _) fun _ => .guard (.pure _)) s hs.kept
  | none =>
    refine Keeps.bind_of_imp hkept (.of_reads checkQuota_reads) (fun _ =>
      Keeps.bind_of_imp hkept (.of_reads checkBlobs_reads) fun _ =>
        Keeps.bind_of_imp hkept (.commit? fun s t hs hr => ?_) fun _ =>
          Keeps.bind_of_imp hkept (storeManifest_pending digest) fun _ s hs => ?_) s hs
    · obtain ⟨_, rfl⟩ := Disk.retain_eq_some.mp hr
      exact ⟨hs.kept.retained _ _ _ _, hs.unused⟩
    · exact publishTree_kept hn digest hs

end

/-! ### Activation and release -/

/-- The references of an owner, some of them without an expiry. -/
def Pins (d : Disk) (owner : String) : Prop := ∃ digest, d.references.get? (.workspace, owner, digest) = some none

theorem WellFormed.of_keys (hd : WellFormed m d)
    (h : (d'.workspaces.rows.map fun e => e.2.storageKey) = d.workspaces.rows.map fun e => e.2.storageKey) :
    WellFormed m d' := by
  refine ⟨h ▸ hd.unique, fun e hentry => ?_⟩
  have hk : e.2.storageKey ∈ d.workspaces.rows.map fun e => e.2.storageKey :=
    h ▸ mem_map.mpr ⟨e, hentry, rfl⟩
  obtain ⟨old, hold, he⟩ := mem_map.mp hk
  exact he ▸ hd.valid old hold

theorem WellFormed.setExpiry (hd : WellFormed m d) (id : WorkspaceId) (expires : Option Nat) :
    WellFormed m (d.setExpiry id expires) := by
  refine hd.of_keys ?_
  rw [Disk.setExpiry, update, map_map]
  refine map_congr_left fun e _ => ?_
  simp only [Function.comp]
  split <;> rfl

theorem get?_setExpiry (workspace : WorkspaceId) (expires : Option Nat) (id : WorkspaceId) :
    (d.setExpiry workspace expires).workspaces.get? id =
      if id = workspace then (d.workspaces.get? workspace).map fun row => { row with expires } else d.workspaces.get? id :=
  get?_update ..

theorem get?_setReferenceExpiry (kind : OwnerKind) (owner : String) (expires : Nat) (k : ReferenceKey) :
    (d.setReferenceExpiry kind owner expires).references.get? k =
      (d.references.get? k).map fun old => if ownedBy kind owner k then some expires else old := get?_updateWhere ..

theorem get?_clearReferenceExpiry (kind : OwnerKind) (owner : String) (k : ReferenceKey) :
    (d.clearReferenceExpiry kind owner).references.get? k =
      (d.references.get? k).map fun old => if ownedBy kind owner k then none else old := get?_updateWhere ..

theorem pin_of_setReferenceExpiry {owner other : String} {digest : BlobDigest}
    (h : (d.setReferenceExpiry .workspace owner expires).references.get? (.workspace, other, digest) = some none) :
    other ≠ owner ∧ d.references.get? (.workspace, other, digest) = some none := by
  rw [get?_setReferenceExpiry] at h
  obtain ⟨old, hold, he⟩ := Option.map_eq_some_iff.mp h
  by_cases hown : other = owner
  · simp [ownedBy, hown] at he
  · simp only [ownedBy, hown, and_false, decide_false, Bool.false_eq_true, if_false] at he
    exact ⟨hown, he ▸ hold⟩

/-- The row update of `mark_active` is committed. -/
structure Activates (m : Manager) (fates : Fates) (workspace : WorkspaceId) (now : Nat) (d : Disk) : Prop where
  query : fates .activeQuery = .happens
  row : ∃ row, d.workspaces.get? workspace = some row ∧ isLive now row = true ∧ m.validStorageKey row.storageKey = true ∧
    (d.directories.get? row.storageKey).isSome = true
  stat : fates .activeStat = .happens
  update : fates .activeUpdate = .happens

theorem markActive_of_activates (h : Activates m fates workspace now d) : markActive m fates workspace now d =
      commit (fates .clearExpiry) (Disk.clearReferenceExpiry .workspace workspace.value) (d.setExpiry workspace none) := by
  obtain ⟨row, hr, hl, hv, htree⟩ := h.row
  have hq : attempt (fates .activeQuery) d = (.ok (), d) := attempt_ok.mpr ⟨h.query, rfl⟩
  have hstat : attempt (fates .activeStat) d = (.ok (), d) := attempt_ok.mpr ⟨h.stat, rfl⟩
  simp only [markActive, bind_apply, hq, get_apply, hr, Option.filter_some, hl, if_true, hv, hstat, htree,
    Bool.not_true, Bool.false_eq_true, if_false, commit_happens h.update]

/-- Otherwise nothing is written. -/
theorem markActive_of_not (h : ¬ Activates m fates workspace now d) :
    ∃ stop, markActive m fates workspace now d = (.error stop, d) := by
  unfold markActive
  rw [bind_apply]
  cases hq : fates .activeQuery with
  | fails error | crashes => exact ⟨_, rfl⟩
  | happens =>
    rw [attempt, commit_happens rfl]
    simp only [get_bind, id]
    cases hr : ((d.workspaces.get? workspace).filter (isLive now)).filter fun row => m.validStorageKey row.storageKey with
    | none => exact ⟨_, rfl⟩
    | some row =>
      obtain ⟨hl, hv⟩ := Option.filter_eq_some_iff.mp hr
      obtain ⟨hr, hl⟩ := Option.filter_eq_some_iff.mp hl
      simp only [bind_apply]
      cases hstat : fates .activeStat with
      | fails error | crashes => exact ⟨_, rfl⟩
      | happens =>
        cases htree : (d.directories.get? row.storageKey).isSome with
        | false =>
          simp only [attempt, commit, id, get_apply, htree]
          exact ⟨_, rfl⟩
        | true =>
          simp only [attempt, commit_happens rfl, id, get_apply, htree, Bool.not_true, Bool.false_eq_true, if_false]
          cases hu : fates .activeUpdate with
          | fails error | crashes => exact ⟨_, rfl⟩
          | happens => exact absurd ⟨hq, ⟨row, hr, hl, hv, htree⟩, hstat, hu⟩ h

theorem Kept.activate (hd : Kept m d) {row : WorkspaceRow} (hr : d.workspaces.get? workspace = some row)
    (htree : (d.directories.get? row.storageKey).isSome = true) {references : Table ReferenceKey (Option Nat)}
    (hrefs : ∀ owner digest, references.get? (.workspace, owner, digest) = some none → owner ≠ workspace.value →
      d.references.get? (.workspace, owner, digest) = some none) :
    Kept m { d.setExpiry workspace none with references } := by
  have hact : (d.setExpiry workspace none).workspaces.get? workspace = some { row with expires := none } := by
    rw [get?_setExpiry, if_pos rfl, hr]
    rfl
  refine ⟨(hd.wellFormed.setExpiry workspace none).of_keys rfl, fun id row' hrow' hp => ?_, fun owner digest hpin => ?_⟩
  · replace hrow' : (d.setExpiry workspace none).workspaces.get? id = some row' := hrow'
    by_cases hid : id = workspace
    · rw [hid, hact] at hrow'
      cases hrow'
      exact htree
    · rw [get?_setExpiry, if_neg hid] at hrow'
      exact hd.backed id row' hrow' hp
  · by_cases hown : owner = workspace.value
    · exact ⟨workspace, _, hown.symm, hact, rfl⟩
    obtain ⟨id, row', hid, hrow', hp⟩ := hd.pinned owner digest (hrefs owner digest hpin hown)
    refine ⟨id, row', hid, ?_, hp⟩
    rw [get?_setExpiry, if_neg]
    · exact hrow'
    · rintro rfl
      exact hown hid.symm

theorem markActive_kept (fates : Fates) (workspace : WorkspaceId) (now : Nat) :
    Keeps (Kept m) (markActive m fates workspace now) := by
  intro d hd
  by_cases hact : Activates m fates workspace now d
  · obtain ⟨row, hr, _, _, htree⟩ := hact.row
    rw [markActive_of_activates hact]
    have hhalf : Kept m (d.setExpiry workspace none) := hd.activate hr htree fun _ _ hpin _ => hpin
    cases fates .clearExpiry with
    | fails error | crashes => exact hhalf
    | happens =>
      refine hd.activate hr htree fun owner digest hpin hown => ?_
      have hget := (get?_clearReferenceExpiry (d := d) .workspace workspace.value (.workspace, owner, digest)).symm.trans hpin
      simpa [ownedBy, hown] using hget
  · obtain ⟨stop, hrun⟩ := markActive_of_not hact
    rw [hrun]
    exact hd

/-- A row is given an expiry, when it has no pins left. -/
theorem Kept.expire (hd : Kept m d) {references : Table ReferenceKey (Option Nat)}
    (hrefs : ∀ owner digest, references.get? (.workspace, owner, digest) = some none →
      owner ≠ workspace.value ∧ d.references.get? (.workspace, owner, digest) = some none) :
    Kept m { d.setExpiry workspace (some expires) with references } := by
  refine ⟨(hd.wellFormed.setExpiry workspace _).of_keys rfl, fun id row hrow hp => ?_, fun owner digest hpin => ?_⟩
  · replace hrow : (d.setExpiry workspace (some expires)).workspaces.get? id = some row := hrow
    rw [get?_setExpiry] at hrow
    split at hrow
    · obtain ⟨old, _, rfl⟩ := Option.map_eq_some_iff.mp hrow
      cases hp
    · exact hd.backed id row hrow hp
  · obtain ⟨hown, hold⟩ := hrefs owner digest hpin
    obtain ⟨id, row, hid, hrow, hp⟩ := hd.pinned owner digest hold
    refine ⟨id, row, hid, ?_, hp⟩
    rw [get?_setExpiry, if_neg]
    · exact hrow
    · rintro rfl
      exact hown hid.symm

theorem markTerminal_kept (hd : Kept m d) (expires : Nat)
    (hrule : Pins d workspace.value → fates .terminalUpdate = .happens → fates .setExpiry = .happens) :
    Kept m (markTerminal fates workspace expires d).2 := by
  unfold markTerminal
  rw [bind_apply]
  cases hupdate : fates .terminalUpdate with
  | fails error | crashes => exact hd
  | happens =>
    have hu : fates .setExpiry ≠ .happens → Kept m (d.setExpiry workspace (some expires)) := by
      refine fun hf => hd.expire fun owner digest hpin => ⟨?_, hpin⟩
      rintro rfl
      exact hf (hrule ⟨digest, hpin⟩ hupdate)
    rw [commit_happens rfl]
    simp only
    cases he : fates .setExpiry with
    | fails error | crashes =>
      refine hu fun h => ?_
      rw [he] at h
      cases h
    | happens => exact hd.expire fun owner digest hpin => pin_of_setReferenceExpiry (d := d) hpin

/-! ### Recovery -/

/-- No reference of a workspace is without an expiry. -/
def Unpinned (d : Disk) : Prop := ∀ owner digest, d.references.get? (.workspace, owner, digest) ≠ some none

/-- The loop of the recovery pins nothing, and when it comes to its end the owners it went over have no pins. -/
theorem recover_loop (fates : Fates) (expires : Nat) (ids : List WorkspaceId) (s : Disk) :
    ∃ references, ((ids.forM fun id =>
        commit (fates (.recoverExpiry id)) (Disk.setReferenceExpiry .workspace id.value expires) : Action Unit) s).2 =
          { s with references } ∧ (∀ owner digest, references.get? (.workspace, owner, digest) = some none →
        s.references.get? (.workspace, owner, digest) = some none) ∧
      ((∀ id ∈ ids, fates (.recoverExpiry id) = .happens) → ∀ id ∈ ids, ∀ digest,
        references.get? (.workspace, id.value, digest) ≠ some none) := by
  induction ids generalizing s with
  | nil => exact ⟨s.references, rfl, fun _ _ => id, fun _ => forall_mem_nil _⟩
  | cons id rest ih =>
    rw [List.forM, bind_apply]
    cases hfate : fates (.recoverExpiry id) with
    | fails error =>
      refine ⟨s.references, rfl, fun _ _ h => h, fun hall => ?_⟩
      cases hfate.symm.trans (hall id mem_cons_self)
    | crashes =>
      refine ⟨s.references, rfl, fun _ _ h => h, fun hall => ?_⟩
      cases hfate.symm.trans (hall id mem_cons_self)
    | happens =>
      obtain ⟨references, hr, hpins, hgone⟩ := ih (s.setReferenceExpiry .workspace id.value expires)
      refine ⟨references, hr, fun owner digest hpin => (pin_of_setReferenceExpiry (hpins owner digest hpin)).2, ?_⟩
      intro hall id' hid' digest hpin
      rcases mem_cons.mp hid' with rfl | hrest
      · exact (pin_of_setReferenceExpiry (hpins _ _ hpin)).1 rfl
      · exact hgone (fun id hid => hall id (mem_cons_of_mem _ hid)) id' hrest digest hpin

/-- What a start does to the references of a row without expiry is to give them one. -/
def Releases (fates : Fates) (d : Disk) : Prop :=
  ∀ id row, d.workspaces.get? id = some row → row.expires = none → fates (.recoverExpiry id) = .happens

theorem mem_unexpiring {id : WorkspaceId} : id ∈ (d.workspaces.rows.filter fun e => e.2.expires.isNone).map Prod.fst ↔
      ∃ row, d.workspaces.get? id = some row ∧ row.expires = none := by
  simp only [mem_map, mem_filter, Option.isNone_iff_eq_none]
  constructor
  · rintro ⟨⟨_, row⟩, ⟨hm, hpin⟩, rfl⟩
    exact ⟨row, mem_rows.mp hm, hpin⟩
  · rintro ⟨row, hr, hpin⟩
    exact ⟨(id, row), ⟨mem_rows.mpr hr, hpin⟩, rfl⟩

/-- A recovery writes nothing, or every row has an expiry after it; then pins are left where a release failed. -/
theorem recoverRetention_cases (fates : Fates) (expires : Nat) (d : Disk) :
    (recoverRetention fates expires d).1 ≠ .ok () ∧ (recoverRetention fates expires d).2 = d ∨
      fates .recoverUpdate = .happens ∧ ∃ references, (recoverRetention fates expires d).2 = { d with
          workspaces := d.workspaces.updateWhere (fun _ row => row.expires.isNone) fun row => { row with expires := some expires }
          references } ∧
      (∀ owner digest, references.get? (.workspace, owner, digest) = some none →
        d.references.get? (.workspace, owner, digest) = some none) ∧
      (Releases fates d → ∀ id row, d.workspaces.get? id = some row → row.expires = none → ∀ digest,
        references.get? (.workspace, id.value, digest) ≠ some none) := by
  unfold recoverRetention
  rw [bind_apply]
  cases hq : fates .recoverQuery with
  | fails error | crashes =>
    refine .inl ⟨fun h => ?_, rfl⟩
    cases h
  | happens =>
    rw [attempt, commit_happens rfl]
    simp only [get_bind, id]
    rw [bind_apply]
    cases hu : fates .recoverUpdate with
    | fails error | crashes =>
      refine .inl ⟨fun h => ?_, rfl⟩
      cases h
    | happens =>
      rw [commit_happens rfl]
      obtain ⟨references, hrun, hpins, hgone⟩ := recover_loop fates expires
        ((d.workspaces.rows.filter fun e => e.2.expires.isNone).map Prod.fst)
        { d with
          workspaces := d.workspaces.updateWhere (fun _ row => row.expires.isNone) fun row => { row with expires := some expires } }
      refine .inr ⟨rfl, references, hrun, hpins, fun hr id row hrow hpin => ?_⟩
      refine hgone (fun id hid => ?_) id (mem_unexpiring.mpr ⟨row, hrow, hpin⟩)
      obtain ⟨row, hrow, hpin⟩ := mem_unexpiring.mp hid
      exact hr id row hrow hpin

/-- With every release made, a recovery that writes leaves no pin. -/
theorem Kept.unpinned (hd : Kept m d) {refs : Table ReferenceKey (Option Nat)}
    (hpins : ∀ owner digest, refs.get? (.workspace, owner, digest) = some none →
      d.references.get? (.workspace, owner, digest) = some none)
    (hgone : ∀ id row, d.workspaces.get? id = some row → row.expires = none → ∀ digest,
      refs.get? (.workspace, id.value, digest) ≠ some none) (owner : String) (digest : BlobDigest) :
    refs.get? (.workspace, owner, digest) ≠ some none := by
  intro hpin
  obtain ⟨id, row, rfl, hr, hp⟩ := hd.pinned owner digest (hpins owner digest hpin)
  exact hgone id row hr hp digest hpin

theorem recoverRetention_kept (hd : Kept m d) (expires : Nat)
    (hrule : ¬ Unpinned d → fates .recoverUpdate = .happens → Releases fates d) :
    Kept m (recoverRetention fates expires d).2 := by
  rcases recoverRetention_cases fates expires d with ⟨_, hsame⟩ | ⟨hupdate, references, hrun, hpins, hgone⟩
  · rw [hsame]
    exact hd
  have hu : ∀ owner digest, references.get? (.workspace, owner, digest) ≠ some none := by
    by_cases hp : Unpinned d
    · exact fun owner digest hpin => hp owner digest (hpins owner digest hpin)
    · exact hd.unpinned hpins (hgone (hrule hp hupdate))
  rw [hrun]
  refine ⟨hd.wellFormed.of_keys ?_, fun id row hrow hp => ?_, fun owner digest hpin => ?_⟩
  · rw [updateWhere, map_map]
    refine map_congr_left fun e _ => ?_
    simp only [Function.comp]
    split <;> rfl
  · obtain ⟨old, _, rfl⟩ := Option.map_eq_some_iff.mp ((get?_updateWhere ..).symm.trans hrow)
    cases he : old.expires <;> simp [he] at hp
  · exact absurd hpin (hu owner digest)

/-- A recovery that completes leaves no pin. -/
theorem recoverRetention_unpinned (hd : Kept m d) (h : recoverRetention fates expires d = (.ok (), d')) :
    Unpinned d' := by
  obtain ⟨_, s, hq, hf⟩ := bind_ok.mp h
  rw [(attempt_ok.mp hq).2, get_bind] at hf
  obtain ⟨_, _, _, hloop⟩ := bind_ok.mp hf
  have hr : Releases fates d := fun id row hrow hpin =>
    happens_of_forM_ok hloop id (mem_unexpiring.mpr ⟨row, hrow, hpin⟩)
  rcases recoverRetention_cases fates expires d with ⟨hstop, _⟩ | ⟨_, references, hrun, hpins, hgone⟩
  · rw [h] at hstop
    exact absurd rfl hstop
  rw [h] at hrun
  rw [show d' = _ from hrun]
  exact hd.unpinned hpins (hgone hr)

/-! ### Calls one after another -/

inductive Call where
  | materialize (req : MaterializeRequest)
  | markActive (workspace : WorkspaceId) (now : Nat)
  | markTerminal (workspace : WorkspaceId) (expires : Nat)
  | garbageCollect (now limit : Nat) (dryRun : Bool)
  | start (now : Nat)

/-- The nonce of a call is a UUID that no tree has. -/
def isFresh (m : Manager) (req : MaterializeRequest) (d : Disk) : Bool :=
  m.isUuid req.nonce && (d.directories.get? req.stage).isNone && (d.directories.get? req.target).isNone &&
    d.workspaces.rows.all fun entry => entry.2.storageKey != req.target

/-- A call, with the fates of its steps. -/
def play (m : Manager) (d : Disk) : Call × Fates → Option Disk
  | (.materialize req, fates) => if isFresh m req d then some (materialize m fates req d).2 else none
  | (.markActive workspace now, fates) => some (markActive m fates workspace now d).2
  | (.markTerminal workspace expires, fates) => some (markTerminal fates workspace expires d).2
  | (.garbageCollect now limit dryRun, fates) => some (garbageCollect m fates now limit dryRun d).2
  | (.start now, fates) => some (start m fates now d).2

/-- Neither of the two calls that release a workspace stops between its writes while
there is something to release. -/
def SparesReleases (d : Disk) : Call × Fates → Prop
  | (.markTerminal workspace _, fates) =>
    Pins d workspace.value → fates .terminalUpdate = .happens → fates .setExpiry = .happens
  | (.start _, fates) => ¬ Unpinned d → fates .recoverUpdate = .happens → Releases fates d
  | _ => True

theorem reconcile_trims (fates : Fates) (d : Disk) :
    Keeps (fun s => s.workspaces.rows.Sublist d.workspaces.rows ∧ s.references = d.references) (reconcile m fates) := by
  have hf : ∀ key, Keeps (fun s : Disk => s.workspaces.rows.Sublist d.workspaces.rows ∧ s.references = d.references)
      (forget fates key) := fun key => .commit fun s hs => ⟨filter_sublist.trans hs.1, hs.2⟩
  refine .bind (.attempt _) fun _ => .bind (.get _) fun keys => .bind (.forM fun key _ => hf key) fun _ =>
    .bind (.get _) fun names => .bind (.forM fun name _ => .commit fun s hs => hs) fun _ =>
      .forM fun key _ => .bind (.get _) fun found => ?_
  split
  · exact hf key
  · exact .pure _

/-- What a start finds once it has reconciled trees and rows. -/
theorem start_kept (hd : Kept m d) (now : Nat)
    (hrule : ¬ Unpinned d → fates .recoverUpdate = .happens → Releases fates d) : Kept m (start m fates now d).2 := by
  refine Keeps.bind_of_imp (I := fun s => Kept m s ∧ s.workspaces.rows.Sublist d.workspaces.rows ∧
    s.references = d.references) (fun _ => And.left) ?_ (fun _ => Keeps.bind_of_imp (fun _ => And.left) (.attempt _)
      fun _ s hs => ?_) d ⟨hd, List.Sublist.refl _, rfl⟩
  · exact fun s hs => ⟨reconcile_kept fates s hs.1, reconcile_trims fates d s hs.2⟩
  obtain ⟨hkept, hrows, hrefs⟩ := hs
  refine recoverRetention_kept hkept _ fun hpin hu id row hr => ?_
  have hb : ¬ Unpinned d := by
    rw [Unpinned, ← hrefs]
    exact hpin
  exact hrule hb hu id row (mem_rows.mp (hrows.subset (mem_rows.mpr hr)))

theorem play_kept {c : Call × Fates} (hrule : SparesReleases d c) (hstep : play m d c = some d') (hd : Kept m d) :
    Kept m d' := by
  obtain ⟨c, fates⟩ := c
  cases c with
  | materialize req =>
    obtain ⟨hf, ⟨⟩⟩ := Option.ite_none_right_eq_some.mp hstep
    simp only [isFresh, Bool.and_eq_true, all_eq_true, bne_iff_ne] at hf
    exact materialize_kept hf.1.1.1 ⟨hd, fun id row hr => hf.2 _ (mem_rows.mpr hr)⟩
  | markActive workspace now =>
    cases hstep
    exact markActive_kept fates workspace now d hd
  | markTerminal workspace expires =>
    cases hstep
    exact markTerminal_kept hd expires hrule
  | garbageCollect now limit dryRun =>
    cases hstep
    exact garbageCollect_kept fates now limit dryRun d hd
  | start now =>
    cases hstep
    exact start_kept hd now hrule

/-- A node that has never run, with some blobs. -/
def blank (blobs : Blobs) : Disk := ⟨Table.empty, Table.empty, blobs, Table.empty, Table.empty⟩

theorem blank_kept (m : Manager) (blobs : Blobs) : Kept m (blank blobs) where
  wellFormed := ⟨nodup_nil, nofun⟩
  backed := nofun
  pinned := nofun

end

/-- In every run whose releases are not cut in two, a start that completes leaves no reference pinned. -/
theorem recovery_unpins {m : Manager} {blobs : Blobs} {d d' : Disk} {fates : Fates} {now : Nat}
    (h : Steps (play m) SparesReleases (blank blobs) d) (hstart : start m fates now d = (.ok (), d')) : Unpinned d' := by
  have hkept : Kept m d := h.invariant (Kept m) play_kept (blank_kept m blobs)
  obtain ⟨_, s, hreconcile, hrest⟩ := bind_ok.mp hstart
  have hs : Kept m s := by
    have := reconcile_kept fates d hkept
    rw [hreconcile] at this
    exact this
  obtain ⟨_, t, hrecover, hlast⟩ := bind_ok.mp hrest
  rw [(attempt_ok.mp hrecover).2] at hlast
  exact recoverRetention_unpinned hs hlast

namespace Example

/-- No step fails. -/
def smooth : Fates := fun _ => .happens

/-- A workspace in use. -/
def pinned : Disk := (markActive manager smooth request.workspaceId 1 (materialize manager smooth request (blank Sample.threeBytes)).2).2

theorem pinned_reached : Steps (play manager) SparesReleases (blank Sample.threeBytes) pinned := by
  have hb : play manager (blank Sample.threeBytes) (.materialize request, smooth) =
      some (materialize manager smooth request (blank Sample.threeBytes)).2 := by
    have hf : isFresh manager request (blank Sample.threeBytes) = true := by decide
    rw [play, if_pos hf]
  have hact : play manager (materialize manager smooth request (blank Sample.threeBytes)).2
      (.markActive request.workspaceId 1, smooth) = some pinned := rfl
  refine .tail (.tail (.refl _) ?_ hb) ?_ hact <;> trivial

def hasPin (d : Disk) : Bool := d.references.rows.any fun entry => decide (entry.1.1 = .workspace) && entry.2.isNone

theorem not_unpinned {d : Disk} (h : hasPin d = true) : ¬ Unpinned d := by
  intro hu
  obtain ⟨⟨⟨kind, owner, digest⟩, expires⟩, hm, he⟩ := any_eq_true.mp h
  simp only [Bool.and_eq_true, decide_eq_true_eq, Option.isNone_iff_eq_none] at he
  obtain ⟨rfl, rfl⟩ := he
  exact hu owner digest (mem_rows.mp hm)

/-- The release of a workspace stops between its writes. -/
def cutRelease : List (Call × Fates) :=
  [(.materialize request, smooth), (.markActive request.workspaceId 1, smooth),
    (.markTerminal request.workspaceId 50, fun p => if p = .setExpiry then .crashes else .happens)]

end Example

open Example in
theorem recovery_unpins_active : ¬ Unpinned pinned ∧ ∃ d', start manager smooth 2 pinned = (.ok (), d') ∧ Unpinned d' := by
  have hstart := eq_of_isOk (show (start manager smooth 2 pinned).1.isOk = true by with_unfolding_all decide)
  exact ⟨not_unpinned (by with_unfolding_all decide), _, hstart, recovery_unpins pinned_reached hstart⟩

open Example in
/-- The row has its expiry and the references have none: the next start goes over the
rows without one, completes, and leaves the references as they are. -/
theorem cut_release_pins : ∃ d d', Steps (play manager) Free (blank Sample.threeBytes) d ∧
    start manager smooth 60 d = (.ok (), d') ∧ ¬ Unpinned d' := by
  have hfollow : (follow (play manager) Free (blank Sample.threeBytes) cutRelease).any
      (fun d => (start manager smooth 60 d).1.isOk && hasPin (start manager smooth 60 d).2) = true := by
    with_unfolding_all decide
  obtain ⟨d, hrun, hd⟩ := follow_reaches hfollow
  obtain ⟨hok, hpin⟩ := Bool.and_eq_true_iff.mp hd
  exact ⟨d, _, hrun, eq_of_isOk hok, not_unpinned hpin⟩

end Eggwork.Workspace
