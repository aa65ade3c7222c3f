import Eggwork.Blob.Quota
import Eggwork.Workspace.Footprint
import Eggwork.Workspace.Materialize

/-! Workspaces stay within their quota.

A materialization counts what is stored, and inserts its row much later. What it
has counted stays an upper bound as long as it has the materialize lock, because
every other statement keeps the sum of the rows or lowers it: a collection
writes back what it has read with rows left out, and keeps the connection. -/
namespace Eggwork.Workspace
open Lib Function Option List Bool Except

variable {req : MaterializeRequest} {workspace : WorkspaceId}

def Disk.rowBytes (rows : Table WorkspaceId WorkspaceRow) : Nat := rows.total WorkspaceRow.logicalBytes

variable {d d' : Disk}

namespace Quota

inductive Stage where
  | idle
  | admitted (used : Nat)
  | collecting (rows : Table WorkspaceId WorkspaceRow)

def Stage.isCollecting : Stage → Bool
  | collecting _ => true
  | _ => false

/-- Whether a row fits beside what was counted. -/
def fits (m : Manager) (used : Nat) (row : WorkspaceRow) : Bool :=
  decide (saturating (used + row.logicalBytes) ≤ m.quotaBytes ∧ row.logicalBytes ≤ maxWorkspaceLogicalBytes)

@[simp] def next (m : Manager) (g : Guards) (stage : Stage) : (o : Op) → o.Answer → Option Stage
  | .used, .ok used => if g.locked && !stage.isCollecting then some (.admitted used) else none
  | .insertWorkspace _ row, _ =>
    match stage with
    | .admitted used => if fits m used row then some .idle else none
    | _ => none
  | .activate .., _ | .setExpiry .., _ | .unlockMetadata, _ => if stage.isCollecting then none else some stage
  | .beginCollect .., .ok found => if g.connected then some (.collecting found.2) else none
  | .commitWorkspaces rows, _ =>
    match stage with
    | .collecting before => if Disk.rowBytes rows ≤ Disk.rowBytes before then some .idle else none
    | _ => none
  | _, _ => some stage

/-- The operations that matter to no stage. -/
def isInert : Op → Bool
  | .lockMaterialize | .lockMetadata | .unlockMetadata => false
  | .used | .insertWorkspace .. | .activate .. | .setExpiry .. | .beginCollect .. | .commitWorkspaces _ => false
  | _ => true

section Conformance
variable {m : Manager} {g : Guards} {stage : Stage} {α : Type}

theorem next_inert {o : Op} (h : isInert o = true) (answer : o.Answer) : next m g stage o answer = some stage := by
  cases o <;> first | rfl | cases h

theorem conforms_inert {p : Program effects α} (h : p.Uses (fun o : Op => isInert o = true) Empty.elim) :
    (guarded (next m)).Conforms (fun _ g' => g' = (g, stage)) (g, stage) p := by
  refine Protocol.Conforms.of_uses (fun o ho answer => guarded_advance.mpr ⟨?_, next_inert ho answer⟩) (fun name => name.elim) h
  exact Guards.advance_of_not_writesLocks (by cases o <;> first | rfl | cases ho)

abbrev Inert (p : Program effects α) : Prop := p.Uses (fun o : Op => isInert o = true) Empty.elim

theorem inert_checkBlobs (es : List WorkspaceEntry) : Inert (Calls.checkBlobs es).run := by
  induction es with
  | nil => trivial
  | cons entry rest ih =>
    cases entry with
    | directory | symlink => exact ih
    | file path digest sizeBytes executable =>
      unfold Calls.checkBlobs
      split
      · trivial
      refine .bindLift ⟨rfl, fun _ => trivial⟩ fun size => ?_
      cases size with
      | error e => trivial
      | ok size =>
        dsimp only
        split
        · trivial
        refine .bindLift ⟨rfl, fun _ => trivial⟩ fun verified => ?_
        cases verified with
        | error e => trivial
        | ok _ => exact ih

theorem inert_dropManifest (key : ManifestKey) : Inert (Calls.dropManifest key) :=
  ⟨rfl, fun _ => ⟨rfl, fun _ => trivial⟩⟩

theorem inert_isAvailable (es : List WorkspaceEntry) : Inert (Calls.isAvailable es) := by
  induction es with
  | nil => trivial
  | cons entry rest ih =>
    cases entry with
    | directory | symlink => exact ih
    | file path digest sizeBytes executable =>
      refine ⟨rfl, fun size => ?_⟩
      cases size with
      | error e => trivial
      | ok size =>
        show Inert (if size = sizeBytes.toNat then Calls.isAvailable rest else return false)
        split
        · exact ih
        · trivial

theorem inert_lookupManifest (principalId : PrincipalId) (digest : BlobDigest) :
    Inert (Calls.lookupManifest principalId digest).run := by
  refine .bindExcept ⟨rfl, fun _ => trivial⟩ fun row => ?_
  cases row with
  | none => trivial
  | some row =>
    refine .bindLift ⟨rfl, fun _ => trivial⟩ fun now => ?_
    have hdrop : Inert (do
        (Calls.always (Calls.dropManifest (principalId, digest)) : Calls.Io Unit)
        return (none : Option WorkspaceManifest)).run :=
      .bindLift (inert_dropManifest _) fun _ => trivial
    split
    · trivial
    split
    · exact hdrop
    refine .bindLift (inert_isAvailable _) fun available => ?_
    cases available with
    | true => trivial
    | false => exact hdrop

theorem storeManifest_conforms (hstage : stage.isCollecting = false) (principalId : PrincipalId) (manifest : WorkspaceManifest)
    (digest : BlobDigest) : (guarded (next m)).Conforms (fun _ g' => g'.1.locked = g.locked ∧ g'.2 = stage) (g, stage)
      (Calls.storeManifest principalId manifest digest).run := by
  unfold Calls.storeManifest
  by_cases hv : manifest.validate.isOk = true
  · rw [hv]
    refine .asks (.stays fun _ => rfl) fun now => ?_
    refine .asks (.leadsTo (fun _ => ({ g with connected := true }, stage)) fun _ => rfl) fun _ => ?_
    refine .tries (.stays fun _ => rfl) (fun _ => ⟨rfl, rfl⟩) fun old => ?_
    refine .tries (.stays fun _ => rfl) (fun _ => ⟨rfl, rfl⟩) fun _ => ?_
    refine .asks (.leadsTo (fun _ => ({ g with connected := false }, stage)) fun _ => ?_) fun _ => ?_
    · simp [guarded, Guards.advance, hstage]
    refine Protocol.Conforms.mono (conforms_inert ⟨rfl, fun _ => trivial⟩) ?_
    rintro _ _ rfl
    exact ⟨rfl, rfl⟩
  · rw [not_eq_true] at hv
    rw [hv]
    exact ⟨rfl, rfl⟩

theorem inert_releaseExpired (now : Nat) (keys : List ManifestKey) (deleted : Nat) :
    Inert (Calls.releaseExpired now keys deleted).run := by
  induction keys generalizing deleted with
  | nil => trivial
  | cons key rest ih =>
    refine .bindExcept ⟨rfl, fun _ => trivial⟩ fun gone => ?_
    cases gone with
    | true => exact .bindLift ⟨rfl, fun _ => trivial⟩ fun _ => ih _
    | false => exact ih _

theorem inert_releaseOrphans (owners : List String) : Inert (Calls.releaseOrphans owners) := by
  induction owners with
  | nil => trivial
  | cons owner rest ih =>
    refine ⟨rfl, fun retained => ?_⟩
    cases retained with
    | true => exact ih
    | false => exact ⟨rfl, fun _ => ih⟩

theorem inert_dropInvalid (rows : List (ManifestKey × RetainedManifest)) : Inert (Calls.dropInvalid rows) := by
  induction rows with
  | nil => trivial
  | cons e rest ih =>
    unfold Calls.dropInvalid
    split
    · exact .bind (inert_dropManifest _) fun _ => ih
    · exact ih

theorem manifestGarbageCollect_conforms (now limit : Nat) (dryRun : Bool) :
    (guarded (next m)).Conforms (fun out g' => (∀ a, out = .ok a → g' = (Guards.none, .idle))) (Guards.none, .idle)
      (Calls.manifestGarbageCollect now limit dryRun).run := by
  refine .asks (.leadsTo (fun _ => (⟨false, true⟩, .idle)) fun _ => rfl) fun _ => ?_
  refine .tries (.stays fun _ => rfl) (fun _ a h => nomatch h) fun expired => ?_
  cases dryRun with
  | true =>
    exact .asks (.leadsTo (fun _ => (Guards.none, .idle)) fun _ => rfl) fun _ a _ => rfl
  | false =>
    refine .tries (conforms_inert (inert_releaseExpired ..)) (fun _ a h => nomatch h) fun deleted => ?_
    exact .asks (.leadsTo (fun _ => (Guards.none, .idle)) fun _ => rfl) fun _ a _ => rfl

theorem reconcileManifests_conforms (now limit : Nat) :
    (guarded (next m)).Conforms (fun _ _ => True) (Guards.none, .idle) (Calls.reconcileManifests now limit).run := by
  refine .tries (.stays fun _ => rfl) (fun _ => trivial) fun rows => ?_
  refine .asks (conforms_inert (inert_dropInvalid rows)) fun _ => ?_
  refine (manifestGarbageCollect_conforms now _ false).bindExcept (fun _ _ _ => trivial) fun a g' hg => ?_
  obtain rfl := hg a rfl
  refine .asks (.stays fun _ => rfl) fun cursor => ?_
  refine .tries (.stays fun _ => rfl) (fun _ => trivial) fun orphans => ?_
  refine .asks (conforms_inert (inert_releaseOrphans orphans)) fun _ => ?_
  exact fun _ => ⟨_, rfl, trivial⟩

/-! #### Workspaces -/

theorem markTerminal_conforms (workspace : WorkspaceId) (exp : Nat) :
    (guarded (next m)).Conforms (fun _ _ => True) (Guards.none, .idle) (Calls.markTerminal workspace exp).run :=
  .tries (.stays fun _ => rfl) (fun _ => trivial) fun _ _ => ⟨_, rfl, trivial⟩

theorem markActive_conforms (workspace : WorkspaceId) :
    (guarded (next m)).Conforms (fun _ _ => True) (Guards.none, .idle) (Calls.markActive m workspace).run := by
  refine .tries (.stays fun _ => rfl) (fun _ => trivial) fun found => ?_
  cases found.filter m.validStorageKey with
  | none => trivial
  | some key =>
    refine .tries (.stays fun _ => rfl) (fun _ => trivial) fun present => ?_
    cases present with
    | false => trivial
    | true =>
      refine .tries (.stays fun _ => rfl) (fun _ => trivial) fun hit => ?_
      cases hit with
      | false => trivial
      | true => exact fun _ => ⟨_, rfl, trivial⟩

theorem rowBytes_deleteWhere_le (rows : Table WorkspaceId WorkspaceRow) (p : WorkspaceId → WorkspaceRow → Bool) :
    Disk.rowBytes (rows.deleteWhere p) ≤ Disk.rowBytes rows :=
  (filter_sublist.map _).sum_le_sum (by simp)

/-- What the loop over the candidates ends with. -/
def Lighter (rows : Table WorkspaceId WorkspaceRow) : Except WorkspaceError (Table WorkspaceId WorkspaceRow × Nat) → Prop
  | .ok open_ => Disk.rowBytes open_.1 ≤ Disk.rowBytes rows
  | .error _ => True

theorem collectAll_conforms (now : Nat) (cs : List (WorkspaceId × WorkspaceRow))
    (open_ : Table WorkspaceId WorkspaceRow × Nat) :
    (guarded (next m)).Conforms (fun out g' => g' = (g, stage) ∧ Lighter open_.1 out) (g, stage)
      (Calls.collectAll m now cs open_).run := by
  induction cs generalizing open_ with
  | nil => exact ⟨rfl, le_rfl⟩
  | cons candidate rest ih =>
    unfold Calls.collectAll
    split
    · refine .tries (.stays fun _ => rfl) (fun _ => ⟨rfl, trivial⟩) fun _ => ?_
      refine .tries (.stays fun _ => rfl) (fun _ => ⟨rfl, trivial⟩) fun _ => ?_
      refine (ih _).mono fun out g' h => ⟨h.1, ?_⟩
      cases out with
      | error e => trivial
      | ok last => exact le_trans h.2 (rowBytes_deleteWhere_le open_.1 _)
    · exact ih open_

/-- Where the begin of a collection leads. -/
def began : Except WorkspaceError (List (WorkspaceId × WorkspaceRow) × Table WorkspaceId WorkspaceRow) → Stage
  | .ok found => .collecting found.2
  | .error _ => .idle

theorem garbageCollect_conforms (now limit : Nat) (dryRun : Bool) :
    (guarded (next m)).Conforms (fun _ _ => True) (Guards.none, .idle) (Calls.garbageCollect m now limit dryRun).run := by
  refine .asks (.leadsTo (fun _ => (⟨false, true⟩, .idle)) fun _ => rfl) fun _ => ?_
  refine .tries (.leadsTo (fun answer => (⟨false, true⟩, began answer)) ?_) (fun _ => trivial) ?_
  · rintro (e | found) <;> rfl
  rintro ⟨cs, rows⟩
  have hc (rows' : Table WorkspaceId WorkspaceRow) (hle : Disk.rowBytes rows' ≤ Disk.rowBytes rows)
      (report : CollectReport) : (guarded (next m)).Conforms (fun _ _ => True) (⟨false, true⟩, .collecting rows)
        (do Calls.attempt (Calls.op (.commitWorkspaces rows')); return report : Calls.Io CollectReport).run := by
    refine .tries (.leadsTo (fun _ => (⟨false, true⟩, .idle)) fun _ => ?_) (fun _ => trivial) fun _ => trivial
    simp [guarded, Guards.advance, hle]
  cases dryRun with
  | true => exact hc rows le_rfl _
  | false =>
    refine (collectAll_conforms now cs (rows, 0)).bindExcept ?_ ?_
    · exact fun _ _ _ => trivial
    · rintro ⟨rows', deleted⟩ _ ⟨rfl, hlig⟩
      exact hc rows' hlig _

theorem discard_inert (req : MaterializeRequest) (dir : String) (error : WorkspaceError) :
    Inert (Calls.discard req dir error).run :=
  .bindLift ⟨rfl, fun _ => trivial⟩ fun _ => .bindLift ⟨rfl, fun _ => trivial⟩ fun _ => trivial

theorem orDiscard_inert (req : MaterializeRequest) (dir : String)
    {step : Program effects (Except WorkspaceError Unit)} (hstep : Inert step) :
    Inert (Calls.orDiscard req dir step).run := by
  refine .bindLift hstep fun out => ?_
  cases out with
  | ok _ => trivial
  | error e => exact discard_inert req dir e

theorem insert_conforms {used : Nat} {dir : String} {row : WorkspaceRow} (hfits : fits m used row = true) :
    (guarded (next m)).Conforms (fun _ _ => True) (g, .admitted used)
      (Calls.orDiscard req dir (Calls.op (.insertWorkspace workspace row))).run := by
  refine .asks (.leadsTo (fun _ => (g, .idle)) fun _ => ?_) fun out => ?_
  · simp [guarded, Guards.advance, hfits]
  cases out with
  | ok _ => trivial
  | error e => exact (conforms_inert (discard_inert req dir e)).mono fun _ _ _ => trivial

theorem publishTree_conforms {used : Nat} {digest : BlobDigest} {exp : Nat}
    (hb : req.manifest.logicalBytes ≤ maxWorkspaceLogicalBytes)
    (hq : saturating (used + req.manifest.logicalBytes) ≤ m.quotaBytes) :
    (guarded (next m)).Conforms (fun _ _ => True) (g, .admitted used) (Calls.publishTree req digest exp).run := by
  refine .asks (.stays fun _ => rfl) fun nonce => ?_
  refine .tries (conforms_inert (orDiscard_inert _ _ ⟨rfl, fun _ => trivial⟩)) (fun _ => trivial) fun _ => ?_
  refine .tries (conforms_inert (orDiscard_inert _ _ ⟨rfl, fun _ => trivial⟩)) (fun _ => trivial) fun _ => ?_
  refine .tries (conforms_inert (orDiscard_inert _ _ ⟨rfl, fun _ => trivial⟩)) (fun _ => trivial) fun _ => ?_
  exact (insert_conforms (decide_eq_true ⟨hq, hb⟩)).bindExcept (fun _ _ _ => trivial) fun _ _ _ => trivial

theorem inert_reuse (req : MaterializeRequest) (digest : BlobDigest) (row : WorkspaceRow) : Inert (Calls.reuse m req digest row).run := by
  refine .bindLift ⟨rfl, fun _ => trivial⟩ fun now => ?_
  split
  · trivial
  refine .bindLift ⟨rfl, fun _ => trivial⟩ fun isDir => ?_
  split <;> trivial

/-- Where the sum of the rows leads. -/
def counted : Except WorkspaceError Nat → Stage
  | .ok used => .admitted used
  | .error _ => .idle

theorem create_conforms {digest : BlobDigest} (hb : req.manifest.logicalBytes ≤ maxWorkspaceLogicalBytes) :
    (guarded (next m)).Conforms (fun _ _ => True) (⟨true, false⟩, .idle) (Calls.create m req digest).run := by
  refine .tries (.stays fun _ => rfl) (fun _ => trivial) fun row => ?_
  cases row with
  | some row => exact (conforms_inert (inert_reuse req digest row)).mono fun _ _ _ => trivial
  | none =>
    refine .tries (.leadsTo (fun answer => (⟨true, false⟩, counted answer)) ?_) (fun _ => trivial) fun used => ?_
    · rintro (e | used) <;> rfl
    split
    · trivial
    rename_i hq
    refine .tries (conforms_inert (inert_checkBlobs _)) (fun _ => trivial) fun _ => ?_
    refine .asks (.stays fun _ => rfl) fun now => ?_
    refine .tries (.stays fun _ => rfl) (fun _ => trivial) fun _ => ?_
    refine (storeManifest_conforms rfl _ _ _).bindExcept (fun _ _ _ => trivial) ?_
    rintro _ ⟨g', _⟩ ⟨_, rfl⟩
    exact publishTree_conforms hb (not_lt.mp hq)

theorem materialize_conforms (req : MaterializeRequest) :
    (guarded (next m)).Conforms (fun _ _ => True) (Guards.none, .idle) (Calls.materialize m req).run := by
  unfold Calls.materialize
  cases hv : req.manifest.validate with
  | error e => trivial
  | ok _ =>
    by_cases hq : req.manifest.logicalBytes > m.quotaBytes
    · simp only [hq, isOk]
      trivial
    simp only [hq]
    cases m.digest req.manifest with
    | none => trivial
    | some digest =>
      refine .asks (.leadsTo (fun _ => (⟨true, false⟩, .idle)) fun _ => rfl) fun _ => ?_
      exact create_conforms (logicalBytes_le hv)

theorem materializeDerived_conforms (req : MaterializeRequest) (patch : WorkspaceManifestPatch) :
    (guarded (next m)).Conforms (fun _ _ => True) (Guards.none, .idle) (Calls.materializeDerived m req patch).run := by
  unfold Calls.materializeDerived
  split
  · trivial
  refine .tries (conforms_inert (inert_lookupManifest _ _)) (fun _ => trivial) fun base => ?_
  cases base with
  | none => trivial
  | some base =>
    dsimp only
    split
    · trivial
    · exact materialize_conforms _

theorem conforms (k : ManagerCall) : (guarded (next m)).Conforms (fun _ _ => True) (Guards.none, .idle) (k.program m) := by
  cases k with
  | materialize req => exact (materialize_conforms req).discard fun _ _ _ => trivial
  | materializeDerived req patch => exact (materializeDerived_conforms req patch).discard fun _ _ _ => trivial
  | markActive workspace => exact (markActive_conforms workspace).discard fun _ _ _ => trivial
  | markTerminal workspace exp => exact (markTerminal_conforms workspace exp).discard fun _ _ _ => trivial
  | garbageCollect now limit dryRun => exact (garbageCollect_conforms now limit dryRun).discard fun _ _ _ => trivial
  | storeManifest principalId manifest digest =>
    refine fun _ => ⟨(⟨true, false⟩, .idle), rfl, ?_⟩
    exact (storeManifest_conforms rfl principalId manifest digest).discard fun _ _ _ => trivial
  | lookupManifest principalId digest =>
    exact (conforms_inert (inert_lookupManifest principalId digest)).discard fun _ _ _ => trivial
  | manifestGarbageCollect now limit dryRun =>
    exact (manifestGarbageCollect_conforms now limit dryRun).discard fun _ _ _ => trivial
  | reconcileManifests now limit => exact (reconcileManifests_conforms now limit).discard fun _ _ _ => trivial
  | blobGarbageCollect now => exact fun _ => ⟨_, rfl, trivial⟩

end Conformance
/-! ### What a step does to the sum of the rows -/

section
variable {m : Manager} {s s' : Site} {t : Nat} {c : Choice}

theorem used_setExpiry (d : Disk) (workspace : WorkspaceId) (exp : Option Nat) :
    (d.setExpiry workspace exp).used = d.used := by
  simp only [Disk.used, Disk.setExpiry, Table.update, List.map_map]
  congr 1
  apply List.map_congr_left
  intro e _
  simp only [Function.comp]
  split <;> rfl

theorem used_insertRow {row : WorkspaceRow} (h : d.insertRow workspace row = some d') :
    d'.used = d.used + row.logicalBytes := by
  unfold Disk.insertRow at h
  split at h
  · cases h
  · obtain ⟨rows, hi, rfl⟩ := map_eq_some_iff.mp h
    simp [Disk.used, (Table.insert_eq_some.mp hi).2]

theorem used_activate {key : String} {hit : Bool} (h : d.activate workspace key = (hit, d')) : d'.used = d.used := by
  unfold Disk.activate at h
  split at h
  · cases h
    exact used_setExpiry d workspace none
  · cases h
    rfl

theorem used_of_write {out : Except WorkspaceError (α × Disk)} {answer : Except WorkspaceError α} {bound : Nat}
    (h : s.attempt c out = (answer, s')) (hb : s.used ≤ bound)
    (hok : ∀ a d, out = .ok (a, d) → d.used ≤ bound) : s'.used ≤ bound := by
  rcases attempt_eq h with ⟨a, d, _, hd, rfl⟩ | ⟨_, _, rfl, _⟩
  · exact hok a d hd
  · exact hb

/-! ### The invariant -/

/-- What a stage says of the rows. -/
def Sound (s : Site) (g : Guards) : Stage → Prop
  | .idle => True
  | .admitted used => g.locked = true ∧ s.used ≤ used ∧ used < 2 ^ 63
  | .collecting rows => g.connected = true ∧ Disk.rowBytes rows ≤ s.used

structure Budget (m : Manager) (s : Site) (locals : Nat → Guards × Stage) : Prop where
  within : s.used ≤ m.quotaBytes
  sound : ∀ t, Sound s (locals t).1 (locals t).2

variable {ls : Nat → Guards × Stage} {o : Op} {answer : o.Answer} {g guards : Guards} {stage stage' : Stage}

theorem used_eq_of_frame (hp : perform m s t c o = some (answer, s')) (ho : o.writesRows = false) : s'.used = s.used := by
  simp only [Disk.used, (perform_frame hp).rows ho]

/-- An admitted row that is inserted now stays within the quota. -/
theorem charge_within {used bytes quota : Nat} (hused : used < 2 ^ 63) (hb : bytes ≤ maxWorkspaceLogicalBytes)
    (h : saturating (used + bytes) ≤ quota) : used + bytes ≤ quota := by
  unfold saturating at h
  unfold maxWorkspaceLogicalBytes at hb
  omega

/-- The sum grows by an admitted row only, and the call that inserts it has the lock. -/
theorem used_le (hs : Sound s g stage) (hw : s.used ≤ m.quotaBytes)
    (hp : perform m s t c o = some (answer, s')) (hn : next m g stage o answer = some stage') :
    s'.used ≤ s.used ∨ (g.locked = true ∧ s'.used ≤ m.quotaBytes) := by
  cases ho : o.writesRows with
  | false => exact .inl (used_eq_of_frame hp ho).le
  | true =>
    cases o with
    | insertWorkspace workspace row =>
      simp only [next] at hn
      split at hn
      · rename_i used
        obtain ⟨hl, hused, hbound⟩ := hs
        obtain ⟨hfits, hn⟩ := ite_none_right_eq_some.mp hn
        obtain ⟨hq, hb⟩ := of_decide_eq_true hfits
        have hc := charge_within hbound hb hq
        refine .inr ⟨hl, used_of_write (sql_eq hp).2 hw fun a d hd => ?_⟩
        split at hd
        · rename_i d' hi
          cases hd
          have hsum := used_insertRow hi
          omega
        · cases hd
      · cases hn
    | activate workspace key =>
      refine .inl (used_of_write (sql_eq hp).2 le_rfl fun a d hd => ?_)
      exact (used_activate (ok.inj hd)).le
    | setExpiry workspace exp =>
      refine .inl (used_of_write (sql_eq hp).2 le_rfl fun a d hd => ?_)
      cases hd
      exact (used_setExpiry _ _ _).le
    | commitWorkspaces rows =>
      simp only [next] at hn
      split at hn
      · rename_i before
        obtain ⟨hle, hn⟩ := ite_none_right_eq_some.mp hn
        refine .inl (used_of_write (sql_eq hp).2 le_rfl fun a d hd => ?_)
        cases hd
        exact le_trans hle hs.2
      · cases hn
    | _ => cases ho

/-- What a stage says, once the guards are no fewer and the rows add up to the same. -/
theorem Sound.weaken (h : Sound s g stage) (hl : g.locked = true → guards.locked = true)
    (hconn : g.connected = true → guards.connected = true) (hused : s'.used = s.used) : Sound s' guards stage := by
  cases stage with
  | idle => trivial
  | admitted used => exact ⟨hl h.1, hused.trans_le h.2.1, h.2.2⟩
  | collecting rows => exact ⟨hconn h.1, h.2.trans hused.ge⟩

theorem Sound.lower (h : Sound s g stage) (hstage : stage.isCollecting = false) (hl : guards.locked = g.locked)
    (hused : s'.used ≤ s.used) : Sound s' guards stage := by
  cases stage with
  | idle => trivial
  | admitted used => exact ⟨hl.trans h.1, hused.trans h.2.1, h.2.2⟩
  | collecting rows => cases hstage

/-- The sum, as a statement answers it. -/
theorem counted_sound {answer : Except WorkspaceError Nat} {used : Nat} (hp : perform m s t c .used = some (answer, s'))
    (hok : answer = .ok used) : used = s.used ∧ used < 2 ^ 63 := by
  subst hok
  have hsql := (sql_eq hp).2
  split at hsql
  · rename_i hs
    rcases attempt_eq hsql with ⟨a, d, ha, hd, _⟩ | ⟨_, ha, _⟩
    · cases ha
      cases hd
      exact ⟨rfl, hs⟩
    · cases ha
  · rcases attempt_eq hsql with ⟨_, _, _, hd, _⟩ | ⟨_, ha, _⟩
    · cases hd
    · cases ha

theorem begun_rows {now limit : Nat} {answer : Op.Answer (.beginCollect now limit)}
    {found : List (WorkspaceId × WorkspaceRow) × Table WorkspaceId WorkspaceRow}
    (hp : perform m s t c (.beginCollect now limit) = some (answer, s')) (hok : answer = .ok found) :
    found = ((expired now s.toDisk).take limit, s.workspaces) := by
  subst hok
  rcases attempt_eq (sql_eq hp).2 with ⟨a, d, ha, hd, _⟩ | ⟨_, ha, _⟩
  · cases ha
    cases hd
    rfl
  · cases ha

theorem outside (h : (if stage.isCollecting then none else some stage) = some stage') :
    stage.isCollecting = false ∧ stage' = stage := by
  split at h
  · cases h
  · rename_i hstage
    exact ⟨eq_false_iff.mpr hstage, (some.inj h).symm⟩

theorem Sound.run (hs : Sound s g stage) (hp : perform m s t c o = some (answer, s'))
    (hg : g.advance o = some guards) (hn : next m g stage o answer = some stage') : Sound s' guards stage' := by
  have hsame (ho : o.writesRows = false) : s'.used = s.used := used_eq_of_frame hp ho
  cases o with
  | used =>
    cases hg
    cases answer with
    | error e =>
      cases hn
      exact hs.weaken id id (hsame rfl)
    | ok used =>
      obtain ⟨hl, ⟨⟩⟩ := ite_none_right_eq_some.mp hn
      obtain ⟨rfl, hsmall⟩ := counted_sound hp rfl
      exact ⟨(and_eq_true_iff.mp hl).1, (hsame rfl).le, hsmall⟩
  | beginCollect now limit =>
    cases hg
    cases answer with
    | error e =>
      cases hn
      exact hs.weaken id id (hsame rfl)
    | ok found =>
      obtain ⟨hconn, ⟨⟩⟩ := ite_none_right_eq_some.mp hn
      have hf := begun_rows hp rfl
      exact ⟨hconn, (congrArg (fun f => Disk.rowBytes f.2) hf).trans_le (hsame rfl).ge⟩
  | insertWorkspace workspace row =>
    simp only [next] at hn
    split at hn
    · obtain ⟨_, ⟨⟩⟩ := ite_none_right_eq_some.mp hn
      trivial
    · cases hn
  | commitWorkspaces rows =>
    simp only [next] at hn
    split at hn
    · obtain ⟨_, ⟨⟩⟩ := ite_none_right_eq_some.mp hn
      trivial
    · cases hn
  | activate workspace key =>
    cases hg
    obtain ⟨hstage, rfl⟩ := outside hn
    refine hs.lower hstage rfl (used_of_write (sql_eq hp).2 le_rfl fun a d hd => ?_)
    exact (used_activate (ok.inj hd)).le
  | setExpiry workspace exp =>
    cases hg
    obtain ⟨hstage, rfl⟩ := outside hn
    refine hs.lower hstage rfl (used_of_write (sql_eq hp).2 le_rfl fun a d hd => ?_)
    cases hd
    exact (used_setExpiry _ _ _).le
  | unlockMetadata =>
    obtain ⟨hstage, rfl⟩ := outside hn
    obtain ⟨_, ⟨⟩⟩ := ite_none_right_eq_some.mp hg
    exact hs.lower hstage rfl (hsame rfl).le
  | lockMaterialize | lockMetadata =>
    cases hg
    cases hn
    exact hs.weaken (fun h => by simp [h]) (fun h => by simp [h]) (hsame rfl)
  | _ =>
    cases hg
    cases hn
    exact hs.weaken id id (hsame rfl)

theorem Budget.run (h : Budget m s ls) (hheld : Held s ls) (hp : perform m s t c o = some (answer, s'))
    (hg : (ls t).1.advance o = some guards) (hn : next m (ls t).1 (ls t).2 o answer = some stage) :
    Budget m s' (update ls t (guards, stage)) := by
  have hused := used_le (h.sound t) h.within hp hn
  refine ⟨?_, fun t' => ?_⟩
  · rcases hused with hle | ⟨_, hle⟩
    · exact hle.trans h.within
    · exact hle
  by_cases he : t' = t
  · subst he
    rw [update_self]
    exact (h.sound t').run hp hg hn
  rw [update_of_ne he]
  have hne := h.sound t'
  cases hstage : (ls t').2 with
  | idle => trivial
  | admitted used =>
    rw [hstage] at hne
    obtain ⟨hl, hle, hb⟩ := hne
    rcases hused with hless | ⟨hmine, _⟩
    · exact ⟨hl, hless.trans hle, hb⟩
    · have hsame : some t' = some t := ((hheld t').1 hl).symm.trans ((hheld t).1 hmine)
      exact absurd (some.inj hsame) he
  | collecting rows =>
    rw [hstage] at hne
    obtain ⟨hconn, hle⟩ := hne
    cases ho : o.writesRows with
    | false => exact ⟨hconn, hle.trans (used_eq_of_frame hp ho).ge⟩
    | true => exact absurd (hheld.connects (connects_of_writesRows ho hp) hconn) he

theorem invariant (m : Manager) : Invariant m (next m) (fun _ => True) .idle Free (Budget m) where
  final_idle := trivial
  conforms := fun {_ k} _ => conforms k
  run _ _ hheld hp hg hn hI := hI.run hheld hp hg hn
  ended {s ls t} _ hI := by
    refine ⟨hI.within, fun t' => ?_⟩
    by_cases he : t' = t
    · rw [he, update_self]
      trivial
    · rw [update_of_ne he]
      exact (hI.sound t').weaken id id rfl
  drop _ _ := trivial
  world _ hI := ⟨hI.within, fun t => (hI.sound t).weaken id id rfl⟩

end
end Quota

/-- Within its quota at the start, each of the two stores is within it in every state of
every run, whatever calls are made, fail or are dropped. -/
theorem quotas_hold (store : Blob.BlobStore) (m : Manager) :
    (∀ {r : Blob.Root} {p}, Steps (Blob.machine store).step Free (Pool.start r.boot) p →
      r.used ≤ store.quotaBytes → p.shared.used ≤ store.quotaBytes) ∧
    ∀ {d : Disk} {clock : Nat} {p}, Steps (machine m).step Free (Pool.start (d.boot clock)) p →
      d.used ≤ m.quotaBytes → p.shared.used ≤ m.quotaBytes := by
  refine ⟨fun hrun hstart => Blob.used_within hrun hstart, fun hrun hstart => ?_⟩
  obtain ⟨_, _, _, hbudget⟩ := (Quota.invariant m).holds hrun ⟨hstart, fun _ => trivial⟩
  exact hbudget.within

open Example

/-- An upload of a byte that is indexed, and a materialization that inserts its row. -/
theorem quotas_hold_filled :
    (∃ p, Steps (Blob.machine Blob.Example.store).step Free (Pool.start Blob.Example.empty.boot) p ∧
      p.shared.used = 1 ∧ p.shared.used ≤ 100) ∧ ∃ p, Steps (machine manager).step Free (Pool.start (disk.boot 0)) p ∧
      (p.shared.workspaces.get? request.workspaceId).isSome = true ∧ p.shared.used ≤ 1000 := by
  have hupload : (follow (Blob.machine Blob.Example.store).step Free (Pool.start Blob.Example.empty.boot)
      (.call (.putStream Sample.blob 1 [some [1]]) :: List.replicate 12 (.run 0 {}))).any
      (fun p => decide (p.shared.used = 1)) = true := by
    decide
  have hmaterialize : (follow (machine manager).step Free (Pool.start (disk.boot 0))
      (.call (.materialize request) :: List.replicate 20 (.run 0 { uuid := "1" }))).any
      (fun p => (p.shared.workspaces.get? request.workspaceId).isSome) = true := by
    with_unfolding_all decide
  obtain ⟨p, hp, hused⟩ := follow_reaches hupload
  obtain ⟨q, hq, hinserted⟩ := follow_reaches hmaterialize
  exact ⟨⟨p, hp, of_decide_eq_true hused, (quotas_hold Blob.Example.store manager).1 hp (by decide)⟩,
    q, hq, hinserted, (quotas_hold Blob.Example.store manager).2 hq (by decide)⟩

end Eggwork.Workspace
