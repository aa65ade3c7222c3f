import Eggwork.Artifact.Store
import Eggwork.Blob.Store

/-! Capturing the outputs of a run.

A capture uploads every file it finds, then retains all the blobs in one
transaction of the blob store, and only then inserts the records into its own
database. The two databases have a collector each. Calls on the blob store are the
programs of the blob store, made a step at a time among everything else
(`onBlobs`); the file system under the workspace is not modelled, so what is found
and read there is decided from outside. -/
namespace Eggwork.Artifact
open Lib
open Blob (Bytes BlobStore)
open Store (Codec)

def maxArtifactTotalBytes : Nat := 2 * 1024 * 1024 * 1024

/-- The record of an artifact but for its id and its time. -/
structure Draft where
  executionId : ExecutionId
  generation : ExecutionGeneration
  path : RelativePath
  kind : ArtifactType
  digest : BlobDigest
  sizeBytes : Nat
  executable : Bool
  expiresUnixMs : Nat

def Draft.record (d : Draft) (artifactId : ArtifactId) (createdUnixMs : Nat) : ArtifactRecord where
  artifactId := artifactId
  executionId := d.executionId
  generation := d.generation
  path := d.path
  kind := d.kind
  digest := d.digest
  sizeBytes := d.sizeBytes
  executable := d.executable
  createdUnixMs := createdUnixMs
  expiresUnixMs := d.expiresUnixMs

/-- What the process works on: the blob store, the rows, the time. -/
structure Shop (C : Codec ArtifactRecord) where
  blobs : Blob.State
  artifacts : ArtifactStore C
  clock : Nat
  /-- Every record there ever was an id for. -/
  made : List ArtifactRecord

inductive Op where
  | blob (o : Blob.Op)
  /-- The guards of a call on the blob store go when it returns. -/
  | returned
  | retainPerOwner (entries : List (String × BlobDigest)) (expires : Option Nat)
  -- the workspace
  | discoverOutputs (outputs : List DeclaredOutput)
  | openFileBeneath (path : RelativePath)
  | read
  | seek
  -- records
  | newRecord (draft : Draft)
  | insertMany (records : List ArtifactRecord) (principal : PrincipalId)
  | garbageCollect (now limit : Nat) (dryRun : Bool)

@[reducible] def Op.Answer : Op → Type
  | .blob o => o.Answer
  | .returned => Unit
  | .retainPerOwner .. => Except Blob.BlobError Unit
  -- the files, by path and whether they are executable, and the directories
  | .discoverOutputs _ => Except ArtifactError (List (RelativePath × Bool) × List RelativePath)
  -- whether it is a file, and executable
  | .openFileBeneath _ => Except ArtifactError (Bool × Bool)
  -- the chunks up to the end of the file; one that is `none` is a failed read
  | .read => List (Option Bytes)
  | .seek => Except ArtifactError Unit
  | .newRecord _ => Except ArtifactError (ArtifactId × Nat)
  | .insertMany .. => Except ArtifactError Unit
  | .garbageCollect .. => Except ArtifactError ArtifactGcReport

def Op.awaits : Op → Bool
  | .blob o => o.awaits
  | .discoverOutputs _ | .read | .seek => true
  | _ => false

abbrev effects : Effects := ⟨Op, Op.Answer, Empty⟩

def blobs : Embedding Blob.effects effects := ⟨.blob, fun _ answer => answer, fun name => name⟩

structure Choice where
  blob : Blob.Choice := {}
  fault : Option ArtifactError := none
  uuid : String := ""
  found : List (RelativePath × Bool) × List RelativePath := ([], [])
  opened : Bool × Bool := (true, false)
  chunks : List (Option Bytes) := []

section
variable {C : Codec ArtifactRecord}

/-- A step that reads, unless it fails. -/
def Choice.reads {α : Type} (choice : Choice) (s : Shop C) (answer : α) : Option (Except ArtifactError α × Shop C) :=
  match choice.fault with
  | some error => some (.error error, s)
  | none => some (.ok answer, s)

/-- A step of the blob store. -/
def Shop.onBlobs {α : Type} (s : Shop C) (outcome : Option (α × Blob.State)) : Option (α × Shop C) :=
  outcome.map fun answer => (answer.1, { s with blobs := answer.2 })

def perform (s : Shop C) (t : Nat) (choice : Choice) : (o : Op) → Option (o.Answer × Shop C)
  | .blob o => s.onBlobs (Blob.perform s.blobs t choice.blob o)
  | .returned => some ((), { s with blobs := s.blobs.release t })
  | .retainPerOwner entries expires => s.onBlobs (Blob.perform s.blobs t choice.blob (.retain .artifact entries expires))
  | .discoverOutputs _ => choice.reads s choice.found
  | .openFileBeneath _ => choice.reads s choice.opened
  | .read => some (choice.chunks, s)
  | .seek => choice.reads s ()
  | .newRecord draft =>
    match IdType.new "artifact id" choice.uuid with
    | .error _ => some (.error .invalidTree, s)
    | .ok id => some (.ok (id, s.clock), { s with made := draft.record id s.clock :: s.made })
  | .insertMany records principal =>
    match choice.fault, s.artifacts.insertMany records principal with
    | some error, _ => some (.error error, s)
    | none, none => some (.error .sql, s)
    | none, some artifacts => some (.ok (), { s with artifacts })
  | .garbageCollect now limit dryRun =>
    match choice.fault with
    | some error => some (.error error, s)
    | none =>
      let (report, artifacts) := s.artifacts.garbageCollect now limit dryRun
      some (.ok report, { s with artifacts })

end

/-! ### Calls -/

abbrev Io := ExceptT ArtifactError (Program effects)

abbrev op (o : Op) : Program effects o.Answer := Program.op (E := effects) o

/-- A step whose error the call returns. -/
abbrev attempt {α : Type} (p : Program effects (Except ArtifactError α)) : Io α := ExceptT.mk p

abbrev always {α : Type} (p : Program effects α) : Io α := ExceptT.lift p

/-- A call on the blob store; its errors become one of this store's. -/
def onBlobs {α : Type} (call : Blob.Io α) : Io α := ExceptT.mk do
  let outcome ← call.run.embed blobs
  op .returned
  return outcome.mapError fun _ => .blob

def hashFile (remainingBytes : Nat) : List (Option Bytes) → Nat → Bytes → Except ArtifactError (Nat × Bytes)
  | [], size, hashed => .ok (size, hashed)
  | none :: _, _, _ => .error .io
  | some bytes :: rest, size, hashed =>
    let size := saturating (size + bytes.length)
    if size > maxBlobBytes ∨ size > remainingBytes then .error .limit
    else hashFile remainingBytes rest size (hashed ++ bytes)

section
variable (store : BlobStore)

/-- The file is read twice, and may have changed in between: the upload checks the digest. -/
def captureBlob (relative : RelativePath) (remainingBytes : Nat) : Io (BlobDigest × Nat × Bool) := do
  let (isFile, executable) ← attempt (op (.openFileBeneath relative))
  if !isFile then throw .unsupportedType
  let chunks ← always (op .read)
  let (size, hashed) ← attempt (pure (hashFile remainingBytes chunks 0 []))
  attempt (op .seek)
  let input ← always (op .read)
  onBlobs (Blob.putStream store (store.sha256 hashed) size input)
  return (store.sha256 hashed, size, executable)

/-- The loop over the files that were found. -/
def captureFiles (executionId : ExecutionId) (generation : ExecutionGeneration) (expiresUnixMs : Nat) :
    List (RelativePath × Bool) → Nat → List ArtifactRecord → List WorkspaceEntry → Io (List ArtifactRecord × List WorkspaceEntry)
  | [], _, records, entries => return (records, entries)
  | (path, _) :: files, total, records, entries => do
    let (digest, sizeBytes, executable) ← captureBlob store path (maxArtifactTotalBytes - total)
    let draft : Draft := ⟨executionId, generation, path, .file, digest, sizeBytes, executable, expiresUnixMs⟩
    let (artifactId, createdUnixMs) ← attempt (op (.newRecord draft))
    captureFiles executionId generation expiresUnixMs files (saturating (total + sizeBytes))
      (records ++ [draft.record artifactId createdUnixMs])
      (entries ++ [.file path digest (.ofNat sizeBytes) executable])

/-- `retain_per_owner("artifact", …)`; an empty list is not looked at further. -/
def retainPerOwner (entries : List (String × BlobDigest)) (expires : Option Nat) : Io Unit := do
  if entries.isEmpty then return ()
  match ← always (op (.retainPerOwner entries expires)) with
  | .ok () => return ()
  | .error _ => throw .blob

def checkTree (entries : List WorkspaceEntry) : Io Unit :=
  match WorkspaceManifest.validate ⟨1, entries⟩ with
  | .ok () => return ()
  | .error _ => throw .invalidTree

/-- What a record's blob is retained under. -/
def ownerEntry (record : ArtifactRecord) : String × BlobDigest := (record.artifactId.value, record.digest)

def captureDeclared (outputs : List DeclaredOutput) (executionId : ExecutionId) (generation : ExecutionGeneration)
    (principal : PrincipalId) (expiresUnixMs : Nat) : Io Nat := do
  let (files, directories) ← attempt (op (.discoverOutputs outputs))
  checkTree (files.map (fun file => .file file.1 (store.sha256 []) 0 file.2) ++ directories.map .directory)
  let (records, entries) ← captureFiles store executionId generation expiresUnixMs files 0 [] []
  checkTree (entries ++ directories.map .directory)
  -- the references come before the records can be seen
  retainPerOwner (records.map ownerEntry) (some expiresUnixMs)
  attempt (op (.insertMany records principal))
  return files.length

end

/-! ### The process as a machine -/

inductive Call where
  | captureDeclared (outputs : List DeclaredOutput) (executionId : ExecutionId) (generation : ExecutionGeneration)
      (principal : PrincipalId) (expiresUnixMs : Nat)
  | blobGarbageCollect (now limit : Nat) (dryRun : Bool)
  | garbageCollect (now limit : Nat) (dryRun : Bool)

def Call.program (store : BlobStore) : Call → Program effects Unit
  | captureDeclared outputs executionId generation principal expiresUnixMs =>
    (Artifact.captureDeclared store outputs executionId generation principal expiresUnixMs).run.discard
  | blobGarbageCollect now limit dryRun => (onBlobs (Blob.garbageCollect now limit dryRun)).run.discard
  | garbageCollect now limit dryRun => (op (.garbageCollect now limit dryRun)).discard

/-- Time passes by itself. -/
def machine (C : Codec ArtifactRecord) (store : BlobStore) : Machine effects (Shop C) Choice Nat Call where
  program := Call.program store
  perform := perform
  release s t := { s with blobs := s.blobs.release t }
  awaits := Op.awaits
  occurs s millis := some { s with clock := s.clock + millis }

end Eggwork.Artifact
