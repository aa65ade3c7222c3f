import Eggwork.Blob.Store
import Eggwork.Core.Patch
import Eggwork.Lib.Effect
import Eggwork.Workspace.Tree
import Mathlib.Data.List.Dedup

/-! The workspace manager over its two databases and its directories.

Rows of workspaces and manifests are in one database, blob references in another,
trees in the file system: no transaction spans them. Every operation is a program
of atomic steps (`Effect`), one for each statement, transaction or file system call
of the source, and the fates say which of them fails or never comes back. -/
namespace Eggwork.Workspace
open Lib

def defaultRetentionMillis : Nat := 30 * 24 * 60 * 60 * 1000

/-! ### What is durable -/

/-- A row of `workspaces`; its only state is `Ready`. -/
structure WorkspaceRow where
  executionId : ExecutionId
  generation : ExecutionGeneration
  principalId : PrincipalId
  manifestDigest : BlobDigest
  storageKey : String
  logicalBytes : Nat
  expires : Option Nat
deriving DecidableEq

structure RetainedManifest where
  manifest : WorkspaceManifest
  logicalBytes : Nat
  expires : Option Nat

structure Disk where
  workspaces : Table WorkspaceId WorkspaceRow
  manifests : Table (PrincipalId × BlobDigest) RetainedManifest
  blobs : Blobs
  references : Table ReferenceKey (Option Nat)
  /-- The directories in the root, each with its tree. -/
  directories : Table String FileSystem

namespace Disk

def setReferenceExpiry (kind : OwnerKind) (owner : String) (expires : Nat) (d : Disk) : Disk :=
  { d with references := d.references.updateWhere (fun k _ => ownedBy kind owner k) fun _ => some expires }

def clearReferenceExpiry (kind : OwnerKind) (owner : String) (d : Disk) : Disk :=
  { d with references := d.references.updateWhere (fun k _ => ownedBy kind owner k) fun _ => none }

def releaseReferences (kind : OwnerKind) (owner : String) (d : Disk) : Disk :=
  { d with references := d.references.delete (ownedBy kind owner) }

/-- One transaction of existence checks and upserts. -/
def retain (kind : OwnerKind) (owner : String) (digests : List BlobDigest) (expires : Option Nat) (d : Disk) :
    Option Disk :=
  if digests.all fun digest => (d.blobs digest).isSome then
    some { d with references := digests.foldl (fun t digest => t.put (kind, owner, digest) expires) d.references }
  else none

def setExpiry (workspace : WorkspaceId) (expires : Option Nat) (d : Disk) : Disk :=
  { d with workspaces := d.workspaces.update workspace fun row => { row with expires } }

/-- `remove_dir_all`; a directory that is not there is no error to the callers. -/
def removeDirectory (name : String) (d : Disk) : Disk := { d with directories := d.directories.delete (· == name) }

def putDirectory (name : String) (tree : FileSystem) (d : Disk) : Disk :=
  { d with directories := d.directories.put name tree }

def rename (stage target : String) (d : Disk) : Option Disk :=
  (d.directories.get? stage).map fun tree => (d.removeDirectory stage).putDirectory target tree

/-- `INSERT INTO workspaces`: the id is the primary key and the storage key is unique. -/
def insertRow (workspace : WorkspaceId) (row : WorkspaceRow) (d : Disk) : Option Disk :=
  if d.workspaces.rows.any fun entry => entry.2.storageKey == row.storageKey then none
  else (d.workspaces.insert workspace row).map fun workspaces => { d with workspaces }

end Disk

/-! ### Steps and fates -/

/-- The steps that can fail. -/
inductive Point where
  -- materialize
  | lookup | used | stored (digest : BlobDigest) | verify (digest : BlobDigest) | retain
  | manifestQuery | manifestInsert | manifestRetain
  | stage | tree | rename | syncRoot | insert | discard (directory : String) | release
  -- mark_active, mark_terminal
  | activeQuery | activeStat | activeUpdate | clearExpiry
  | terminalUpdate | setExpiry
  -- recover_retention, garbage_collect, reconcile
  | recoverQuery | recoverUpdate | recoverExpiry (workspace : WorkspaceId)
  | collectBegin | removeDirectory (key : String) | collectDelete (workspace : WorkspaceId) | collectCommit
  | known | forget (key : String) | sweep (name : String) | recoverStore
deriving DecidableEq

abbrev Fates := Point → Fate WorkspaceError

abbrev Action := Effect Disk WorkspaceError

/-- What the manager is opened with. The digest and the UUID parser are not modelled
further; the digest is `none` where the manifest does not serialize. -/
structure Manager where
  quotaBytes : Nat
  digest : WorkspaceManifest → Option BlobDigest
  isUuid : String → Bool
  /-- The root of the host with nothing in it. -/
  root : FileSystem

def Manager.validStorageKey (m : Manager) (key : String) : Bool :=
  "workspace-".toList.isPrefixOf key.toList && m.isUuid (String.ofList (key.toList.drop 10))

open Effect

section
variable (m : Manager) (fates : Fates)

/-! ### Retention -/

def isLive (now : Nat) (row : WorkspaceRow) : Bool := row.expires.all (now < ·)

def markTerminal (workspace : WorkspaceId) (expires : Nat) : Action Unit := do
  commit (fates .terminalUpdate) (Disk.setExpiry workspace (some expires))
  commit (fates .setExpiry) (Disk.setReferenceExpiry .workspace workspace.value expires)

def markActive (workspace : WorkspaceId) (now : Nat) : Action Unit := do
  attempt (fates .activeQuery)
  let row ← get fun d => (d.workspaces.get? workspace).filter (isLive now)
  match row.filter fun row => m.validStorageKey row.storageKey with
  | none => fail .notFound
  | some row =>
    attempt (fates .activeStat)
    if !(← get fun d => (d.directories.get? row.storageKey).isSome) then fail (.io .notFound)
    commit (fates .activeUpdate) (Disk.setExpiry workspace none)
    commit (fates .clearExpiry) (Disk.clearReferenceExpiry .workspace workspace.value)

def recoverRetention (expires : Nat) : Action Unit := do
  attempt (fates .recoverQuery)
  let ids ← get fun d => (d.workspaces.rows.filter fun entry => entry.2.expires.isNone).map Prod.fst
  commit (fates .recoverUpdate) fun d =>
    { d with workspaces := d.workspaces.updateWhere (fun _ row => row.expires.isNone) fun row =>
      { row with expires := some expires } }
  ids.forM fun id => commit (fates (.recoverExpiry id)) (Disk.setReferenceExpiry .workspace id.value expires)

/-! ### Garbage collection -/

structure CollectReport where
  candidates : Nat
  bytes : Nat
  deleted : Nat
deriving DecidableEq

def isExpired (now : Nat) (row : WorkspaceRow) : Bool := row.expires.any (· ≤ now)

/-- The expired workspaces, the earliest first. -/
def expired (now : Nat) (d : Disk) : List (WorkspaceId × WorkspaceRow) :=
  sortBy (fun entry => entry.2.expires.getD 0) (d.workspaces.rows.filter fun entry => isExpired now entry.2)

/-- One candidate: the directory goes at once, the row in the open transaction. -/
def collectOne (now : Nat) (open_ : Table WorkspaceId WorkspaceRow × Nat) (candidate : WorkspaceId × WorkspaceRow) :
    Action (Table WorkspaceId WorkspaceRow × Nat) :=
  if m.validStorageKey candidate.2.storageKey then do
    commit (fates (.removeDirectory candidate.2.storageKey)) (Disk.removeDirectory candidate.2.storageKey)
    attempt (fates (.collectDelete candidate.1))
    pure (open_.1.deleteWhere fun id row => id == candidate.1 && isExpired now row, open_.2 + 1)
  else pure open_

def garbageCollect (now limit : Nat) (dryRun : Bool) : Action CollectReport := do
  attempt (fates .collectBegin)
  let candidates ← get fun d => (expired now d).take limit
  let rows ← get fun d => d.workspaces
  let (rows, deleted) ← if dryRun then pure (rows, 0) else candidates.foldlM (collectOne m fates now) (rows, 0)
  commit (fates .collectCommit) fun d => { d with workspaces := rows }
  return ⟨candidates.length, candidates.foldl (fun sum entry => saturating (sum + entry.2.logicalBytes)) 0, deleted⟩

/-! ### Start -/

def forget (key : String) : Action Unit :=
  commit (fates (.forget key)) fun d => { d with workspaces := d.workspaces.deleteWhere fun _ row => row.storageKey == key }

def isStage (name : String) : Bool := ".staging-".toList.isPrefixOf name.toList

/-- `reconcile`, when the manager is opened: rows without a tree and trees without a row go. -/
def reconcile : Action Unit := do
  attempt (fates .known)
  let keys ← get fun d => d.workspaces.rows.map fun entry => entry.2.storageKey
  (keys.filter fun key => !m.validStorageKey key).forM (forget fates)
  let known := keys.filter m.validStorageKey
  let names ← get fun d => d.directories.rows.map Prod.fst
  (names.filter fun name => isStage name || !known.contains name).forM fun name =>
    commit (fates (.sweep name)) (Disk.removeDirectory name)
  known.forM fun key => do
    if !(← get fun d => (d.directories.get? key).isSome) then forget fates key

/-- What a start of the node does to workspaces; the execution store is recovered in between. -/
def start (now : Nat) : Action Unit := do
  reconcile m fates
  attempt (fates .recoverStore)
  recoverRetention fates (saturating (now + defaultRetentionMillis))

/-! ### Materialization -/

structure MaterializeRequest where
  workspaceId : WorkspaceId
  executionId : ExecutionId
  generation : ExecutionGeneration
  principalId : PrincipalId
  manifest : WorkspaceManifest
  now : Nat
  /-- The UUID drawn for the tree's names. -/
  nonce : String

structure ReadyWorkspace where
  root : String
  logicalBytes : Nat
  manifestDigest : BlobDigest

variable (req : MaterializeRequest)

def MaterializeRequest.stage : String := ".staging-" ++ req.nonce
def MaterializeRequest.target : String := "workspace-" ++ req.nonce
def MaterializeRequest.expires : Nat := saturating (req.now + defaultRetentionMillis)

def digestsOf (manifest : WorkspaceManifest) : List BlobDigest :=
  (manifest.entries.filterMap fun
    | .file _ digest _ _ => some digest
    | _ => none).dedup

def checkManifest : Action BlobDigest := do
  if !req.manifest.validate.isOk then fail .invalidManifest
  if req.manifest.logicalBytes > m.quotaBytes then fail .quotaExceeded
  match m.digest req.manifest with
  | none => fail .json
  | some digest => pure digest

/-- The id is taken: the same request gets what it got before. -/
def reuse (digest : BlobDigest) (row : WorkspaceRow) : Action ReadyWorkspace := do
  if row.executionId ≠ req.executionId ∨ row.generation ≠ req.generation ∨ row.principalId ≠ req.principalId ∨
      row.manifestDigest ≠ digest ∨ isExpired req.now row = true then fail .conflict
  let isDir ← get fun d => (d.directories.get? row.storageKey).isSome
  if !m.validStorageKey row.storageKey || !isDir then fail .notFound
  return ⟨row.storageKey, row.logicalBytes, digest⟩

def checkQuota : Action Unit := do
  attempt (fates .used)
  let used ← get fun d => (d.workspaces.rows.map fun entry => entry.2.logicalBytes).sum
  if saturating (used + req.manifest.logicalBytes) > m.quotaBytes then fail .quotaExceeded

def asInvalidBlob : Fate WorkspaceError → Fate WorkspaceError
  | .fails _ => .fails .invalidBlob
  | fate => fate

def checkBlob : WorkspaceEntry → Action Unit
  | .file _ digest sizeBytes _ => do
    if sizeBytes.toNat > maxBlobBytes then fail .blobSizeMismatch
    attempt (asInvalidBlob (fates (.stored digest)))
    match ← get fun d => d.blobs digest with
    | none => fail .invalidBlob
    | some content => if content.length ≠ sizeBytes.toNat then fail .blobSizeMismatch
    attempt (asInvalidBlob (fates (.verify digest)))
  | _ => pure ()

def manifestOwnerId (principalId : PrincipalId) (digest : BlobDigest) : String := principalId.value ++ ":" ++ digest.value

def storeManifest (digest : BlobDigest) : Action Unit := do
  if !req.manifest.validate.isOk then fail .invalidManifest
  attempt (fates .manifestQuery)
  let existing ← get fun d => d.manifests.get? (req.principalId, digest)
  let expires := ((existing.bind (·.expires)).map (max · req.expires)).getD req.expires
  commit (fates .manifestInsert) fun d =>
    { d with manifests := d.manifests.put (req.principalId, digest) ⟨req.manifest, req.manifest.logicalBytes, some expires⟩ }
  commit? (fates .manifestRetain) .blob
    (Disk.retain .manifest (manifestOwnerId req.principalId digest) (digestsOf req.manifest) (some expires))

/-- Write the tree under the stage. The stage is there, with part of the tree, when a later write fails. -/
def buildTree : Action Unit := do
  commit (fates .stage) (Disk.putDirectory req.stage m.root)
  attempt (fates .tree)
  match ← get fun d => materializeTree d.blobs [req.stage.toList] req.manifest m.root with
  | .error error => fail error
  | .ok tree => commit .happens (Disk.putDirectory req.stage tree)

/-- What every failure after the references are taken does: errors of the clean-up are dropped. -/
def discard (directory : String) : Action Unit := do
  ignore (commit (fates (.discard directory)) (Disk.removeDirectory directory))
  ignore (commit (fates .release) (Disk.releaseReferences .workspace req.workspaceId.value))

def publishTree (digest : BlobDigest) : Action ReadyWorkspace := do
  orUndo (buildTree m fates req) (discard fates req req.stage)
  orUndo (commit? (fates .rename) (.io .notFound) (Disk.rename req.stage req.target)) (discard fates req req.stage)
  orUndo (attempt (fates .syncRoot)) (discard fates req req.target)
  orUndo (commit? (fates .insert) .metadata (Disk.insertRow req.workspaceId {
    executionId := req.executionId
    generation := req.generation
    principalId := req.principalId
    manifestDigest := digest
    storageKey := req.target
    logicalBytes := req.manifest.logicalBytes
    expires := some req.expires })) (discard fates req req.target)
  return ⟨req.target, req.manifest.logicalBytes, digest⟩

def materialize : Action ReadyWorkspace := do
  let digest ← checkManifest m req
  attempt (fates .lookup)
  match ← get fun d => d.workspaces.get? req.workspaceId with
  | some row => reuse m req digest row
  | none =>
    checkQuota m fates req
    req.manifest.entries.forM (checkBlob fates)
    commit? (fates .retain) .blob
      (Disk.retain .workspace req.workspaceId.value (digestsOf req.manifest) (some req.expires))
    storeManifest fates req digest
    publishTree m fates req digest

end

namespace Example

def manager : Manager := ⟨1000, fun _ => some Sample.blob, fun _ => true, Sample.emptyHost⟩

def execution : ExecutionId := ⟨"run", by decide⟩
def principal : PrincipalId := ⟨"ana", by decide⟩

/-- One step fails. -/
def failing (p : Point) : Fates := fun q => if q = p then .fails .metadata else .happens

end Example

end Eggwork.Workspace
