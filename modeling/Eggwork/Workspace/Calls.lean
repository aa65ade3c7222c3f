import Eggwork.Workspace.Manager

/-! The calls of the workspace manager side by side.

The same calls as programs of single steps, so that others may come in between:
a call takes the connection for one statement, unless it says that it keeps it,
and materializations take turns at their lock. The clock is read where the source
reads it, and only goes forward. The blob store is what its callers see of it:
contents and references, a collection of blobs being one step. -/
namespace Eggwork.Workspace
open Lib

/-- The disk, the clock and what the process holds; a lock holds the task that has it. -/
structure Site extends Disk where
  clock : Nat
  materializeLock : Option Nat
  metadata : Option Nat
  sweepCursor : Option String

abbrev ManifestKey := PrincipalId × BlobDigest

/-! ### Statements -/

namespace Disk

def used (d : Disk) : Nat := (d.workspaces.rows.map fun entry => entry.2.logicalBytes).sum

/-- `UPDATE … WHERE` the id and the storage key are those; whether a row was. -/
def activate (workspace : WorkspaceId) (key : String) (d : Disk) : Bool × Disk :=
  if (d.workspaces.get? workspace).any fun row => row.storageKey == key then (true, d.setExpiry workspace none)
  else (false, d)

/-- `set_reference_expiry` and `clear_reference_expiry`. -/
def expireReferences (kind : OwnerKind) (owner : String) (expires : Option Nat) (d : Disk) : Disk :=
  { d with references := d.references.updateWhere (fun k _ => ownedBy kind owner k) fun _ => expires }

def isExpiredManifest (now : Nat) (row : RetainedManifest) : Bool := row.expires.any (· ≤ now)

def expiredManifests (now limit : Nat) (d : Disk) : List ManifestKey :=
  ((sortBy (fun entry => entry.2.expires.getD 0) (d.manifests.rows.filter fun entry => isExpiredManifest now entry.2)).take
    limit).map Prod.fst

def listManifests (limit : Nat) (d : Disk) : List (ManifestKey × RetainedManifest) :=
  (sortBy (fun entry => entry.1.1.value) (sortBy (fun entry => entry.1.2.value) d.manifests.rows)).take limit

/-- The row a reference owner of manifests names. -/
def isRetained (owner : String) (d : Disk) : Bool :=
  d.manifests.rows.any fun entry => manifestOwnerId entry.1.1 entry.1.2 == owner

def referenceOwners (kind : OwnerKind) (after : Option String) (limit : Nat) (d : Disk) : List String :=
  let owners := (d.references.rows.filter fun entry => decide (entry.1.1 = kind)).map fun entry => entry.1.2.1
  (sortBy id (owners.filter fun owner => after.all (· < owner)).dedup).take limit

def mayCollect (now : Nat) (chosen : List ReferenceKey) (removed : List BlobDigest) (d : Disk) : Bool :=
  (chosen.all fun k => (d.references.get? k).any fun expires => expires.any (· ≤ now)) &&
    removed.all fun digest => (d.references.delete chosen.contains).rows.all fun entry => entry.1.2.2 != digest

def collectBlobs (chosen : List ReferenceKey) (removed : List BlobDigest) (d : Disk) : Disk :=
  { d with
    references := d.references.delete chosen.contains
    blobs := fun digest => if removed.contains digest then none else d.blobs digest }

end Disk

/-! ### Operations -/

inductive Op where
  | lockMaterialize
  | lockMetadata
  | unlockMetadata
  | now
  -- rows of workspaces
  | lookup (workspace : WorkspaceId)
  | used
  | insertWorkspace (workspace : WorkspaceId) (row : WorkspaceRow)
  | findLive (workspace : WorkspaceId)
  | activate (workspace : WorkspaceId) (key : String)
  | setExpiry (workspace : WorkspaceId) (expires : Nat)
  | beginCollect (now limit : Nat)
  | deleteWorkspace
  | commitWorkspaces (rows : Table WorkspaceId WorkspaceRow)
  -- directories
  | isDir (name : String)
  | stat (name : String)
  | drawUuid
  | buildTree (stage : String) (manifest : WorkspaceManifest)
  | rename (stage target : String)
  | syncRoot
  | removeDirectory (name : String)
  -- the blob store
  | storedSize (digest : BlobDigest)
  | verifyExisting (digest : BlobDigest)
  | retain (kind : OwnerKind) (owner : String) (digests : List BlobDigest) (expires : Option Nat)
  | expireReferences (kind : OwnerKind) (owner : String) (expires : Option Nat)
  | releaseReferences (kind : OwnerKind) (owner : String)
  | referenceOwners (after : Option String) (limit : Nat)
  | collectBlobs (now : Nat)
  -- rows of manifests
  | findManifest (key : ManifestKey)
  | putManifest (key : ManifestKey) (row : RetainedManifest)
  | deleteManifest (key : ManifestKey)
  | expiredManifests (now limit : Nat)
  | deleteExpiredManifest (key : ManifestKey) (now : Nat)
  | listManifests (limit : Nat)
  | isRetained (owner : String)
  | readCursor
  | writeCursor (cursor : Option String)

@[reducible] def Op.Answer : Op → Type
  | .lockMaterialize | .lockMetadata | .unlockMetadata | .collectBlobs _ | .writeCursor _ => Unit
  | .now => Nat
  | .drawUuid => String
  | .isDir _ | .isRetained _ => Bool
  | .readCursor => Option String
  | .lookup _ => Except WorkspaceError (Option WorkspaceRow)
  | .used | .storedSize _ => Except WorkspaceError Nat
  | .findLive _ => Except WorkspaceError (Option String)
  | .activate .. | .stat _ | .deleteExpiredManifest .. => Except WorkspaceError Bool
  | .beginCollect .. => Except WorkspaceError (List (WorkspaceId × WorkspaceRow) × Table WorkspaceId WorkspaceRow)
  | .referenceOwners .. => Except WorkspaceError (List String)
  | .findManifest _ => Except WorkspaceError (Option RetainedManifest)
  | .expiredManifests .. => Except WorkspaceError (List ManifestKey)
  | .listManifests _ => Except WorkspaceError (List (ManifestKey × RetainedManifest))
  | _ => Except WorkspaceError Unit

/-- The operations a suspended future can be dropped at. -/
def Op.awaits : Op → Bool
  | .lockMaterialize | .verifyExisting _ | .buildTree .. => true
  | _ => false

abbrev effects : Effects := ⟨Op, Op.Answer, Empty⟩

structure Choice where
  fault : Option WorkspaceError := none
  uuid : String := ""
  chosen : List ReferenceKey := []
  removed : List BlobDigest := []

namespace Site

/-- A step that may fail, and then leaves the disk as it was. -/
def attempt {α : Type} (s : Site) (choice : Choice) (outcome : Except WorkspaceError (α × Disk)) : Except WorkspaceError α × Site :=
  match choice.fault, outcome with
  | some error, _ => (.error error, s)
  | none, .ok (answer, d) => (.ok answer, { s with toDisk := d })
  | none, .error error => (.error error, s)

def reads {α : Type} (s : Site) (choice : Choice) (answer : α) : Except WorkspaceError α × Site :=
  s.attempt choice (.ok (answer, s.toDisk))

def writes (s : Site) (choice : Choice) (d : Disk) : Except WorkspaceError Unit × Site := s.attempt choice (.ok ((), d))

/-- The connection is free, or the task's own. -/
def connects (s : Site) (t : Nat) : Bool := s.metadata.all (· == t)

/-- A statement on the manager's database. -/
def sql {α : Type} (s : Site) (t : Nat) (outcome : α × Site) : Option (α × Site) := if s.connects t then some outcome else none

end Site

def perform (m : Manager) (s : Site) (t : Nat) (choice : Choice) : (o : Op) → Option (o.Answer × Site)
  | .lockMaterialize => if s.materializeLock.isNone then some ((), { s with materializeLock := some t }) else none
  | .lockMetadata => if s.metadata.isNone then some ((), { s with metadata := some t }) else none
  | .unlockMetadata => some ((), { s with metadata := none })
  | .now => some (s.clock, s)
  | .lookup workspace => s.sql t (s.reads choice (s.workspaces.get? workspace))
  -- `SUM` over integers fails when it overflows
  | .used => s.sql t (if s.toDisk.used < 2 ^ 63 then s.reads choice s.toDisk.used else s.attempt choice (.error .metadata))
  | .insertWorkspace workspace row => s.sql t <| s.attempt choice <|
    match s.toDisk.insertRow workspace row with
    | some d => .ok ((), d)
    | none => .error .metadata
  | .findLive workspace =>
    s.sql t (s.reads choice (((s.workspaces.get? workspace).filter (isLive s.clock)).map (·.storageKey)))
  | .activate workspace key => s.sql t (s.attempt choice (.ok (s.toDisk.activate workspace key)))
  | .setExpiry workspace expires => s.sql t (s.writes choice (s.toDisk.setExpiry workspace (some expires)))
  | .beginCollect now limit => s.sql t (s.reads choice ((expired now s.toDisk).take limit, s.workspaces))
  | .deleteWorkspace => s.sql t (s.reads choice ())
  | .commitWorkspaces rows => s.sql t (s.writes choice { s.toDisk with workspaces := rows })
  | .isDir name => some ((s.directories.get? name).isSome, s)
  | .stat name => some <|
    if (s.directories.get? name).isSome then s.reads choice true else s.attempt choice (.error (.io .notFound))
  | .drawUuid => some (choice.uuid, s)
  | .buildTree stage manifest => some <| s.attempt choice <|
    match materializeTree s.blobs [stage.toList] manifest m.root with
    | .ok tree => .ok ((), s.toDisk.putDirectory stage tree)
    | .error error => .error error
  | .rename stage target => some <| s.attempt choice <|
    match s.toDisk.rename stage target with
    | some d => .ok ((), d)
    | none => .error (.io .notFound)
  | .syncRoot => some (s.reads choice ())
  | .removeDirectory name => some (s.writes choice (s.toDisk.removeDirectory name))
  | .storedSize digest => some <|
    match s.blobs digest with
    | some content => s.reads choice content.length
    | none => s.attempt choice (.error .blob)
  | .verifyExisting _ => some (s.reads choice ())
  | .retain kind owner digests expires => some <| s.attempt choice <|
    match s.toDisk.retain kind owner digests expires with
    | some d => .ok ((), d)
    | none => .error .blob
  | .expireReferences kind owner expires => some (s.writes choice (s.toDisk.expireReferences kind owner expires))
  | .releaseReferences kind owner => some (s.writes choice (s.toDisk.releaseReferences kind owner))
  | .referenceOwners after limit => some (s.reads choice (s.toDisk.referenceOwners .manifest after limit))
  | .collectBlobs now =>
    if s.toDisk.mayCollect now choice.chosen choice.removed then
      some ((), { s with toDisk := s.toDisk.collectBlobs choice.chosen choice.removed })
    else none
  | .findManifest key => s.sql t (s.reads choice (s.manifests.get? key))
  | .putManifest key row => s.sql t (s.writes choice { s.toDisk with manifests := s.manifests.put key row })
  | .deleteManifest key => s.sql t (s.writes choice { s.toDisk with manifests := s.manifests.delete (· == key) })
  | .expiredManifests now limit => s.sql t (s.reads choice (s.toDisk.expiredManifests now limit))
  | .deleteExpiredManifest key now => s.sql t <| s.attempt choice <| .ok <|
    if (s.manifests.get? key).any (Disk.isExpiredManifest now) then
      (true, { s.toDisk with manifests := s.manifests.delete (· == key) })
    else (false, s.toDisk)
  | .listManifests limit => s.sql t (s.reads choice (s.toDisk.listManifests limit))
  | .isRetained owner => s.sql t (choice.fault.isNone && s.toDisk.isRetained owner, s)
  | .readCursor => some (s.sweepCursor, s)
  | .writeCursor cursor => some ((), { s with sweepCursor := cursor })

/-- The guards of a call go when it returns or is dropped. -/
def Site.release (s : Site) (t : Nat) : Site :=
  { s with
    materializeLock := if s.materializeLock = some t then none else s.materializeLock
    metadata := if s.metadata = some t then none else s.metadata }

/-! ### Programs -/

namespace Calls

abbrev Io := ExceptT WorkspaceError (Program effects)

abbrev op (o : Op) : Program effects o.Answer := Program.op (E := effects) o

/-- A step whose error the call returns. -/
abbrev attempt {α : Type} (p : Program effects (Except WorkspaceError α)) : Io α := ExceptT.mk p

/-- A step that has no error, or whose error the call handles itself. -/
abbrev always {α : Type} (p : Program effects α) : Io α := ExceptT.lift p

/-! #### Retention -/

section
variable (m : Manager)

def markTerminal (workspace : WorkspaceId) (expires : Nat) : Io Unit := do
  attempt (op (.setExpiry workspace expires))
  attempt (op (.expireReferences .workspace workspace.value (some expires)))

def markActive (workspace : WorkspaceId) : Io Unit := do
  match (← attempt (op (.findLive workspace))).filter m.validStorageKey with
  | none => throw .notFound
  | some key =>
    if !(← attempt (op (.stat key))) then throw .notFound
    if !(← attempt (op (.activate workspace key))) then throw .notFound
    attempt (op (.expireReferences .workspace workspace.value none))

/-- The loop over the candidates; the rows are those of the open transaction. -/
def collectAll (now : Nat) :
    List (WorkspaceId × WorkspaceRow) → Table WorkspaceId WorkspaceRow × Nat → Io (Table WorkspaceId WorkspaceRow × Nat)
  | [], rows => return rows
  | (workspace, row) :: rest, (rows, deleted) => do
    if m.validStorageKey row.storageKey then
      attempt (op (.removeDirectory row.storageKey))
      attempt (op .deleteWorkspace)
      collectAll now rest (rows.deleteWhere fun id row => id == workspace && isExpired now row, deleted + 1)
    else collectAll now rest (rows, deleted)

def garbageCollect (now limit : Nat) (dryRun : Bool) : Io CollectReport := do
  always (op .lockMetadata)
  let (candidates, rows) ← attempt (op (.beginCollect now limit))
  let (rows, deleted) ← if dryRun then pure (rows, 0) else collectAll m now candidates (rows, 0)
  attempt (op (.commitWorkspaces rows))
  return ⟨candidates.length, candidates.foldl (fun sum entry => saturating (sum + entry.2.logicalBytes)) 0, deleted⟩

/-! #### Retained manifests -/

/-- Row first, references after; the connection is kept from the query to the upsert. -/
def storeManifest (principalId : PrincipalId) (manifest : WorkspaceManifest) (digest : BlobDigest) : Io Unit := do
  if !manifest.validate.isOk then throw .invalidManifest
  let now ← always (op .now)
  let freshExpiry := saturating (now + defaultRetentionMillis)
  always (op .lockMetadata)
  let existing ← attempt (op (.findManifest (principalId, digest)))
  let expires := ((existing.bind (·.expires)).map (max · freshExpiry)).getD freshExpiry
  attempt (op (.putManifest (principalId, digest) ⟨manifest, manifest.logicalBytes, some expires⟩))
  always (op .unlockMetadata)
  attempt (op (.retain .manifest (manifestOwnerId principalId digest) (digestsOf manifest) (some expires)))

def dropManifest (key : ManifestKey) : Program effects Unit := do
  let _ ← op (.deleteManifest key)
  let _ ← op (.releaseReferences .manifest (manifestOwnerId key.1 key.2))

/-- Whether every file of a manifest is stored with its size. -/
def isAvailable : List WorkspaceEntry → Program effects Bool
  | [] => return true
  | .file _ digest sizeBytes _ :: rest => do
    match ← op (.storedSize digest) with
    | .ok size => if size = sizeBytes.toNat then isAvailable rest else return false
    | .error _ => return false
  | _ :: rest => isAvailable rest

def lookupManifest (principalId : PrincipalId) (digest : BlobDigest) : Io (Option WorkspaceManifest) := do
  match ← attempt (op (.findManifest (principalId, digest))) with
  | none => return none
  | some row =>
    if row.expires.any (· ≤ (← always (op .now))) then return none
    if !row.manifest.validate.isOk then
      always (dropManifest (principalId, digest))
      return none
    if ← always (isAvailable row.manifest.entries) then return some row.manifest
    always (dropManifest (principalId, digest))
    return none

/-- References go only with a row this pass has deleted. -/
def releaseExpired (now : Nat) : List ManifestKey → Nat → Io Nat
  | [], deleted => return deleted
  | key :: rest, deleted => do
    if ← attempt (op (.deleteExpiredManifest key now)) then
      let _ ← always (op (.releaseReferences .manifest (manifestOwnerId key.1 key.2)))
      releaseExpired now rest (deleted + 1)
    else releaseExpired now rest deleted

def manifestGarbageCollect (now limit : Nat) (dryRun : Bool) : Io (Nat × Nat) := do
  always (op .lockMetadata)
  let expired ← attempt (op (.expiredManifests now limit))
  if dryRun then
    always (op .unlockMetadata)
    return (expired.length, 0)
  let deleted ← releaseExpired now expired 0
  always (op .unlockMetadata)
  return (expired.length, deleted)

/-- The sweep over a page of owners. -/
def releaseOrphans : List String → Program effects Unit
  | [] => return ()
  | owner :: rest => do
    if ← op (.isRetained owner) then releaseOrphans rest
    else
      let _ ← op (.releaseReferences .manifest owner)
      releaseOrphans rest

def dropInvalid : List (ManifestKey × RetainedManifest) → Program effects Unit
  | [] => return ()
  | (key, row) :: rest => do
    if !row.manifest.validate.isOk then dropManifest key
    dropInvalid rest

def reconcileManifests (now limit : Nat) : Io Unit := do
  let limit := min (max limit 1) 1024
  let rows ← attempt (op (.listManifests limit))
  always (dropInvalid rows)
  let _ ← manifestGarbageCollect now limit false
  let cursor ← always (op .readCursor)
  let orphans ← attempt (op (.referenceOwners cursor limit))
  always (releaseOrphans orphans)
  always (op (.writeCursor (if orphans.length ≥ limit then orphans.getLast? else none)))

/-! #### Materialization -/

variable (req : MaterializeRequest)

def checkBlobs : List WorkspaceEntry → Io Unit
  | [] => return ()
  | .file _ digest sizeBytes _ :: rest => do
    if sizeBytes.toNat > maxBlobBytes then throw .blobSizeMismatch
    match ← always (op (.storedSize digest)) with
    | .ok size => if size ≠ sizeBytes.toNat then throw .blobSizeMismatch
    | .error _ => throw .invalidBlob
    match ← always (op (.verifyExisting digest)) with
    | .ok () => checkBlobs rest
    | .error _ => throw .invalidBlob
  | _ :: rest => checkBlobs rest

/-- What every failure after the references are taken does: errors of the clean-up are dropped. -/
def discard (directory : String) (error : WorkspaceError) : Io Unit := do
  let _ ← always (op (.removeDirectory directory))
  let _ ← always (op (.releaseReferences .workspace req.workspaceId.value))
  throw error

/-- A step of the publication, undone when it fails. -/
def orDiscard (directory : String) (step : Program effects (Except WorkspaceError Unit)) : Io Unit := do
  match ← always step with
  | .ok () => return ()
  | .error error => discard req directory error

def reuse (digest : BlobDigest) (row : WorkspaceRow) : Io ReadyWorkspace := do
  let now ← always (op .now)
  if row.executionId ≠ req.executionId ∨ row.generation ≠ req.generation ∨ row.principalId ≠ req.principalId ∨
      row.manifestDigest ≠ digest ∨ isExpired now row = true then throw .conflict
  let isDir ← always (op (.isDir row.storageKey))
  if !m.validStorageKey row.storageKey || !isDir then throw .notFound
  return ⟨row.storageKey, row.logicalBytes, digest⟩

def publishTree (digest : BlobDigest) (expires : Nat) : Io ReadyWorkspace := do
  let nonce ← always (op .drawUuid)
  let req := { req with nonce }
  orDiscard req req.stage (op (.buildTree req.stage req.manifest))
  orDiscard req req.stage (op (.rename req.stage req.target))
  orDiscard req req.target (op .syncRoot)
  orDiscard req req.target (op (.insertWorkspace req.workspaceId {
    executionId := req.executionId
    generation := req.generation
    principalId := req.principalId
    manifestDigest := digest
    storageKey := req.target
    logicalBytes := req.manifest.logicalBytes
    expires := some expires }))
  return ⟨req.target, req.manifest.logicalBytes, digest⟩

/-- Everything under the materialize lock. -/
def create (digest : BlobDigest) : Io ReadyWorkspace := do
  match ← attempt (op (.lookup req.workspaceId)) with
  | some row => reuse m req digest row
  | none =>
    let used ← attempt (op .used)
    if saturating (used + req.manifest.logicalBytes) > m.quotaBytes then throw .quotaExceeded
    checkBlobs req.manifest.entries
    let now ← always (op .now)
    let expires := saturating (now + defaultRetentionMillis)
    attempt (op (.retain .workspace req.workspaceId.value (digestsOf req.manifest) (some expires)))
    storeManifest req.principalId req.manifest digest
    publishTree req digest expires

/-- The time and the nonce of the request are not used: both are found out on the way. -/
def materialize : Io ReadyWorkspace := do
  if !req.manifest.validate.isOk then throw .invalidManifest
  if req.manifest.logicalBytes > m.quotaBytes then throw .quotaExceeded
  match m.digest req.manifest with
  | none => throw .json
  | some digest =>
    always (op .lockMaterialize)
    create m req digest

def materializeDerived (patch : WorkspaceManifestPatch) : Io ReadyWorkspace := do
  if !patch.validate.isOk then throw .invalidPatch
  match ← lookupManifest req.principalId patch.baseManifestDigest with
  | none => throw .baseMissing
  | some base =>
    match patch.applyTo base with
    | .error _ => throw .invalidManifest
    | .ok manifest => materialize m { req with manifest }

end
end Calls

/-! ### The manager as a machine -/

inductive ManagerCall where
  | materialize (req : MaterializeRequest)
  | materializeDerived (req : MaterializeRequest) (patch : WorkspaceManifestPatch)
  | markActive (workspace : WorkspaceId)
  | markTerminal (workspace : WorkspaceId) (expires : Nat)
  | garbageCollect (now limit : Nat) (dryRun : Bool)
  /-- The registration of a manifest, as a materialization makes it under its lock. -/
  | storeManifest (principalId : PrincipalId) (manifest : WorkspaceManifest) (digest : BlobDigest)
  | lookupManifest (principalId : PrincipalId) (digest : BlobDigest)
  | manifestGarbageCollect (now limit : Nat) (dryRun : Bool)
  | reconcileManifests (now limit : Nat)
  | blobGarbageCollect (now : Nat)

open Calls in
/-- The steps of a call; what it returns goes to its caller. -/
def ManagerCall.program (m : Manager) : ManagerCall → Program effects Unit
  | materialize req => (Calls.materialize m req).run.discard
  | materializeDerived req patch => (Calls.materializeDerived m req patch).run.discard
  | markActive workspace => (Calls.markActive m workspace).run.discard
  | markTerminal workspace expires => (Calls.markTerminal workspace expires).run.discard
  | garbageCollect now limit dryRun => (Calls.garbageCollect m now limit dryRun).run.discard
  | storeManifest principalId manifest digest => do
    op .lockMaterialize
    (Calls.storeManifest principalId manifest digest).run.discard
  | lookupManifest principalId digest => (Calls.lookupManifest principalId digest).run.discard
  | manifestGarbageCollect now limit dryRun => (Calls.manifestGarbageCollect now limit dryRun).run.discard
  | reconcileManifests now limit => (Calls.reconcileManifests now limit).run.discard
  | blobGarbageCollect now => op (.collectBlobs now)

/-- Time passes. -/
def Site.wait (s : Site) (millis : Nat) : Site := { s with clock := s.clock + millis }

def machine (m : Manager) : Machine effects Site Choice Nat ManagerCall where
  program := ManagerCall.program m
  perform := perform m
  release := Site.release
  awaits := Op.awaits
  occurs s millis := some (s.wait millis)

/-- A process over a disk, before it is called. -/
def Disk.boot (d : Disk) (clock : Nat) : Site :=
  { d with clock, materializeLock := none, metadata := none, sweepCursor := none }

end Eggwork.Workspace
