import Eggwork.Core.Manifest
import Eggwork.Lib.Pool
import Eggwork.Lib.Sorting

/-! The blob store: content under its digest.

A blob is a row of the metadata database and a file under the root, and no
transaction spans the two. Every call is a program of the steps the source makes,
one statement or one file system call each; the choice says which of them fails,
and which of its equals a statement without an order picks. Uploads and
collections take turns at the write lock. A collection keeps the connection to
itself until it returns, everyone else for one statement. -/
namespace Eggwork
open Lib

def maxBlobBytes : Nat := 256 * 1024 * 1024

inductive OwnerKind where
  | workspace | manifest | artifact
deriving DecidableEq, Repr

abbrev ReferenceKey := OwnerKind × String × BlobDigest

def ownedBy (kind : OwnerKind) (owner : String) (k : ReferenceKey) : Bool := decide (k.1 = kind ∧ k.2.1 = owner)

namespace Blob

abbrev Bytes := List UInt8

inductive BlobError where
  | tooLarge | quotaExceeded | lengthMismatch | digestMismatch | corruptExisting | notFound
  | io | metadata | body | worker
deriving DecidableEq, Repr, Inhabited

/-- What the store is opened with. The hash is not modelled further. -/
structure BlobStore where
  quotaBytes : Nat
  sha256 : Bytes → BlobDigest

structure BlobRow where
  sizeBytes : Nat
  lastUsed : Nat
deriving DecidableEq, Repr

/-- The two tables, in the database or in an open transaction. -/
structure Tables where
  blobs : Table BlobDigest BlobRow
  references : Table ReferenceKey (Option Nat)
deriving DecidableEq

/-- What is durable. `files` are those at the path of a digest. -/
structure Root extends Tables where
  files : Table BlobDigest Bytes
  parts : Table String Bytes
  quarantine : Table String Bytes

/-- The root and the locks of the process; a lock holds the task that has it. -/
structure State extends Root where
  writeLock : Option Nat
  metadata : Option Nat

/-! ### Statements -/

namespace Tables

def used (r : Tables) : Nat := (r.blobs.rows.map fun entry => entry.2.sizeBytes).sum

/-- `DELETE FROM blobs`; the references go with the row. -/
def deleteRow (r : Tables) (digest : BlobDigest) : Tables where
  blobs := r.blobs.delete (· == digest)
  references := r.references.delete fun k => k.2.2 == digest

def isReferenced (r : Tables) (digest : BlobDigest) : Bool := r.references.rows.any fun entry => entry.1.2.2 == digest

def deleteUnreferenced (r : Tables) (digest : BlobDigest) : Tables :=
  if r.isReferenced digest then r else r.deleteRow digest

/-- `None` where a digest has no row. -/
def retain (r : Tables) (kind : OwnerKind) (entries : List (String × BlobDigest)) (expires : Option Nat) : Option Tables :=
  if entries.all fun entry => (r.blobs.get? entry.2).isSome then
    some { r with references := entries.foldl (fun t entry => t.put (kind, entry) expires) r.references }
  else none

def setReferenceExpiry (r : Tables) (kind : OwnerKind) (owner : String) (expires : Option Nat) : Tables :=
  { r with references := r.references.updateWhere (fun k _ => ownedBy kind owner k) fun _ => expires }

def releaseReferences (r : Tables) (kind : OwnerKind) (owner : String) : Tables :=
  { r with references := r.references.delete (ownedBy kind owner) }

def isExpired (now : Nat) (expires : Option Nat) : Bool := expires.any (· ≤ now)

def expired (r : Tables) (now : Nat) : List ReferenceKey :=
  (r.references.rows.filter fun entry => isExpired now entry.2).map Prod.fst

/-- Which references a `DELETE … LIMIT` without an order may remove. -/
def mayDelete (r : Tables) (now limit : Nat) (chosen : List ReferenceKey) : Bool :=
  decide chosen.Nodup && chosen.all (r.expired now).contains && chosen.length == min limit (r.expired now).length

/-- Unreferenced blobs, coldest first. -/
def unreferencedCandidates (r : Tables) (limit : Nat) : List (BlobDigest × BlobRow) :=
  (sortBy (fun entry => entry.2.lastUsed) (r.blobs.rows.filter fun entry => !r.isReferenced entry.1)).take limit

end Tables

/-! ### Operations -/

/-- How an unlink ends. -/
inductive Removal where
  | removed | absent | failed
deriving DecidableEq, Repr, Inhabited

inductive Op where
  | lockWrite
  | lockMetadata
  -- files
  | isStored (digest : BlobDigest)
  | createDirectory
  | createPart
  | nextChunk
  | writePart (part : String) (bytes : Bytes)
  | syncPart (part : String)
  | renamePart (part : String) (digest : BlobDigest)
  | syncDirectory
  | removePart (part : String)
  | removeFile (digest : BlobDigest)
  | readFile (digest : BlobDigest)
  | quarantine (digest : BlobDigest)
  | listParts
  | listFiles
  -- single statements
  | used
  | sizeBytes (digest : BlobDigest)
  | isIndexed (digest : BlobDigest)
  | insertRow (digest : BlobDigest) (sizeBytes : Nat)
  | deleteRow (digest : BlobDigest)
  | touchRow (digest : BlobDigest)
  | knownDigests
  | retain (kind : OwnerKind) (entries : List (String × BlobDigest)) (expires : Option Nat)
  | setReferenceExpiry (kind : OwnerKind) (owner : String) (expires : Option Nat)
  | releaseReferences (kind : OwnerKind) (owner : String)
  -- the transaction of a collection
  | beginImmediate
  | statement
  | deleteExpired (now limit : Nat)
  | commit (tables : Tables)

@[reducible] def Op.Answer : Op → Type
  | .lockWrite | .lockMetadata | .nextChunk => Unit
  | .isStored _ | .isIndexed _ => Bool
  | .removePart _ | .removeFile _ => Removal
  | .createPart => Except BlobError String
  | .readFile _ => Except BlobError Bytes
  | .listParts => Except BlobError (List String)
  | .listFiles | .knownDigests => Except BlobError (List BlobDigest)
  | .used => Except BlobError Nat
  | .sizeBytes _ => Except BlobError (Option Nat)
  | .beginImmediate => Except BlobError Tables
  | .deleteExpired .. => Except BlobError (Table ReferenceKey (Option Nat))
  | _ => Except BlobError Unit

/-- The operations a suspended future can be dropped at. -/
def Op.awaits : Op → Bool
  | .lockWrite | .nextChunk | .writePart .. | .syncPart _ | .readFile _ => true
  | _ => false

abbrev effects : Effects := ⟨Op, Op.Answer, Empty⟩

structure Choice where
  fault : Option BlobError := none
  /-- How much of a write that fails is written. -/
  written : Nat := 0
  now : Nat := 0
  uuid : String := ""
  chosen : List ReferenceKey := []

/-- An operation as the outside lets it end: one that fails so leaves no trace. -/
def State.attempt {α : Type} (s : State) (choice : Choice) (outcome : Except BlobError (α × State)) :
    Except BlobError α × State :=
  match choice.fault, outcome with
  | some error, _ => (.error error, s)
  | none, .ok (answer, t) => (.ok answer, t)
  | none, .error error => (.error error, s)

/-- The connection is free, or the task's own. -/
def State.connects (s : State) (t : Nat) : Bool := s.metadata.all (· == t)

def State.sql {α : Type} (s : State) (t : Nat) (choice : Choice) (outcome : Except BlobError (α × State)) :
    Option (Except BlobError α × State) :=
  if s.connects t then some (s.attempt choice outcome) else none

def State.withTables (s : State) (tables : Tables) : State :=
  { s with blobs := tables.blobs, references := tables.references }

def partName (uuid : String) : String := ".part-" ++ uuid

def perform (s : State) (t : Nat) (choice : Choice) : (o : Op) → Option (o.Answer × State)
  | .lockWrite => if s.writeLock.isNone then some ((), { s with writeLock := some t }) else none
  | .lockMetadata => if s.metadata.isNone then some ((), { s with metadata := some t }) else none
  -- `exists` and `is_file` answer no also where the stat fails
  | .isStored digest => some (choice.fault.isNone && (s.files.get? digest).isSome, s)
  | .createDirectory => some (s.attempt choice (.ok ((), s)))
  | .createPart => some <| s.attempt choice <|
    match s.parts.insert (partName choice.uuid) [] with
    | some parts => .ok (partName choice.uuid, { s with parts })
    | none => .error .io
  | .nextChunk => some ((), s)
  | .writePart part bytes =>
    match choice.fault with
    | some error => some (.error error, { s with parts := s.parts.update part (· ++ bytes.take choice.written) })
    | none => some (.ok (), { s with parts := s.parts.update part (· ++ bytes) })
  | .syncPart _ => some (s.attempt choice (.ok ((), s)))
  | .renamePart part digest => some <| s.attempt choice <|
    match s.parts.get? part with
    | some bytes => .ok ((), { s with parts := s.parts.delete (· == part), files := s.files.put digest bytes })
    | none => .error .io
  | .syncDirectory => some (s.attempt choice (.ok ((), s)))
  | .removePart part =>
    if choice.fault.isSome then some (.failed, s)
    else if (s.parts.get? part).isSome then some (.removed, { s with parts := s.parts.delete (· == part) })
    else some (.absent, s)
  | .removeFile digest =>
    if choice.fault.isSome then some (.failed, s)
    else if (s.files.get? digest).isSome then some (.removed, { s with files := s.files.delete (· == digest) })
    else some (.absent, s)
  | .readFile digest => some <| s.attempt choice <|
    match s.files.get? digest with
    | some bytes => .ok (bytes, s)
    | none => .error .io
  | .quarantine digest => some <| s.attempt choice <|
    match s.files.get? digest with
    | some bytes => .ok ((), { s with
        files := s.files.delete (· == digest)
        quarantine := s.quarantine.put (digest.value ++ "-" ++ choice.uuid) bytes })
    | none => .error .io
  | .listParts => some (s.attempt choice (.ok (s.parts.rows.map Prod.fst, s)))
  | .listFiles => some (s.attempt choice (.ok (s.files.rows.map Prod.fst, s)))
  -- `SUM` over integers fails when it overflows
  | .used => s.sql t choice (if s.used < 2 ^ 63 then .ok (s.used, s) else .error .metadata)
  | .sizeBytes digest => s.sql t choice (.ok ((s.blobs.get? digest).map (·.sizeBytes), s))
  | .isIndexed digest =>
    if s.connects t then some (choice.fault.isNone && (s.blobs.get? digest).isSome, s) else none
  | .insertRow digest sizeBytes => s.sql t choice <|
    match s.blobs.insert digest ⟨sizeBytes, choice.now⟩ with
    | some blobs => .ok ((), { s with blobs })
    | none => .error .metadata
  | .deleteRow digest => s.sql t choice (.ok ((), s.withTables (s.deleteRow digest)))
  | .touchRow digest => s.sql t choice (.ok ((), { s with
      blobs := s.blobs.update digest fun row => { row with lastUsed := choice.now } }))
  | .knownDigests => s.sql t choice (.ok (s.blobs.rows.map Prod.fst, s))
  | .retain kind entries expires => s.sql t choice <|
    match s.toTables.retain kind entries expires with
    | some tables => .ok ((), s.withTables tables)
    | none => .error .notFound
  | .setReferenceExpiry kind owner expires =>
    s.sql t choice (.ok ((), s.withTables (s.toTables.setReferenceExpiry kind owner expires)))
  | .releaseReferences kind owner =>
    s.sql t choice (.ok ((), s.withTables (s.toTables.releaseReferences kind owner)))
  | .beginImmediate => s.sql t choice (.ok (s.toTables, s))
  | .statement => s.sql t choice (.ok ((), s))
  | .deleteExpired now limit =>
    if s.mayDelete now limit choice.chosen then
      s.sql t choice (.ok (s.references.delete choice.chosen.contains, s))
    else none
  | .commit tables => s.sql t choice (.ok ((), s.withTables tables))

/-- The guards of a call go when it returns or is dropped. -/
def State.release (s : State) (t : Nat) : State :=
  { s with
    writeLock := if s.writeLock = some t then none else s.writeLock
    metadata := if s.metadata = some t then none else s.metadata }

/-! ### Calls -/

/-- A part of a call: its steps, and the error it returns with. -/
abbrev Io := ExceptT BlobError (Program effects)

abbrev op (o : Op) : Program effects o.Answer := Program.op (E := effects) o

/-- A step whose error the call returns. -/
abbrev attempt {α : Type} (p : Program effects (Except BlobError α)) : Io α := ExceptT.mk p

/-- A step that has no error, or whose error the call handles itself. -/
abbrev always {α : Type} (p : Program effects α) : Io α := ExceptT.lift p

section
variable (store : BlobStore)

def BlobStore.isCorrupt (digest : BlobDigest) (expected : Nat) (content : Bytes) : Bool :=
  content.length != expected || decide (store.sha256 content ≠ digest)

def verifyExisting (digest : BlobDigest) : Io Unit := do
  match ← attempt (op (.sizeBytes digest)) with
  | none => throw .notFound
  | some expected =>
    let content ← attempt (op (.readFile digest))
    if store.isCorrupt digest expected content then
      attempt (op (.quarantine digest))
      attempt (op (.deleteRow digest))
      throw .corruptExisting
    else attempt (op (.touchRow digest))

/-- The quota check of `prepare_upload` and `put_stream`. -/
def checkQuota (declaredLength : Nat) : Io Unit := do
  let used ← attempt (op .used)
  if saturating (used + declaredLength) > store.quotaBytes then throw .quotaExceeded

def prepareUpload (digest : BlobDigest) (declaredLength : Nat) : Io Bool := do
  if declaredLength > maxBlobBytes then throw .tooLarge
  if ← always (op (.isStored digest)) then
    verifyExisting store digest
    return false
  checkQuota store declaredLength
  return true

/-- Write the body to the part file. A chunk that is `none` is an error of the body; the hasher is what it
was fed. -/
def receive (part : String) (declaredLength : Nat) : List (Option Bytes) → Nat → Bytes → Io (Nat × Bytes)
  | [], size, hashed => do
    always (op .nextChunk)
    return (size, hashed)
  | chunk :: input, size, hashed => do
    always (op .nextChunk)
    match chunk with
    | none => throw .body
    | some bytes =>
      let size := size + bytes.length
      if size ≥ 2 ^ 64 ∨ size > maxBlobBytes ∨ size > declaredLength then throw .tooLarge
      attempt (op (.writePart part bytes))
      receive part declaredLength input size (hashed ++ bytes)

/-- The inner block of `put_stream`. -/
def transfer (digest : BlobDigest) (declaredLength : Nat) (part : String) (input : List (Option Bytes)) : Io Unit := do
  let (size, hashed) ← receive part declaredLength input 0 []
  if size ≠ declaredLength then throw .lengthMismatch
  if store.sha256 hashed ≠ digest then throw .digestMismatch
  attempt (op (.syncPart part))
  attempt (op (.renamePart part digest))
  attempt (op .syncDirectory)
  attempt (op (.insertRow digest size))

/-- What `put_stream` does after an error: a file without a row must not stay. -/
def undo (digest : BlobDigest) (part : String) : Program effects Unit := do
  let _ ← op (.removePart part)
  if ← op (.isStored digest) then
    if !(← op (.isIndexed digest)) then
      let _ ← op (.removeFile digest)

def putStream (digest : BlobDigest) (declaredLength : Nat) (input : List (Option Bytes)) : Io Unit := do
  if declaredLength > maxBlobBytes then throw .tooLarge
  always (op .lockWrite)
  if ← always (op (.isStored digest)) then verifyExisting store digest
  else
    checkQuota store declaredLength
    attempt (op .createDirectory)
    let part ← attempt (op .createPart)
    match ← always (transfer store digest declaredLength part input).run with
    | .ok () => return ()
    | .error error =>
      always (undo digest part)
      throw error

end

/-! #### Collection -/

structure GcReport where
  expiredReferences : Nat
  expiredReferencesRemoved : Nat
  candidateBlobs : Nat
  candidateBytes : Nat
  removedBlobs : Nat
  removedBytes : Nat
deriving DecidableEq, Repr

/-- What the loop over the candidates carries round. -/
structure Sweep where
  tables : Tables
  removedBlobs : Nat
  removedBytes : Nat

/-- Unlink the candidates, deleting their rows in the open transaction; the first unlink that fails ends
the loop, and what it did so far is committed. -/
def unlinkAll : List (BlobDigest × BlobRow) → Sweep → Io (Sweep × Option BlobError)
  | [], sweep => return (sweep, none)
  | (digest, row) :: rest, sweep => do
    match ← always (op (.removeFile digest)) with
    | .removed =>
      attempt (op .statement)
      unlinkAll rest
        ⟨sweep.tables.deleteUnreferenced digest, sweep.removedBlobs + 1, saturating (sweep.removedBytes + row.sizeBytes)⟩
    | .absent =>
      attempt (op .statement)
      unlinkAll rest { sweep with tables := sweep.tables.deleteUnreferenced digest }
    | .failed => return (sweep, some .io)

def sumBytes (candidates : List (BlobDigest × BlobRow)) : Nat :=
  candidates.foldl (fun sum entry => saturating (sum + entry.2.sizeBytes)) 0

def garbageCollect (now limit : Nat) (dryRun : Bool) : Io GcReport := do
  always (op .lockWrite)
  always (op .lockMetadata)
  let tables ← attempt (op .beginImmediate)
  attempt (op .statement)
  let expiredReferences := (tables.expired now).length
  attempt (op .statement)
  let candidates := tables.unreferencedCandidates limit
  if dryRun then
    attempt (op (.commit tables))
    return ⟨expiredReferences, 0, candidates.length, sumBytes candidates, 0, 0⟩
  let references ← attempt (op (.deleteExpired now limit))
  let expiredReferencesRemoved := tables.references.rows.length - references.rows.length
  let tables := { tables with references }
  attempt (op .statement)
  let candidates := tables.unreferencedCandidates limit
  let (sweep, unlinkError) ← unlinkAll candidates ⟨tables, 0, 0⟩
  attempt (op (.commit sweep.tables))
  match unlinkError with
  | some error => throw error
  | none =>
    return ⟨expiredReferences, expiredReferencesRemoved, candidates.length, sumBytes candidates, sweep.removedBlobs,
      sweep.removedBytes⟩

/-! #### Start -/

def removed (removal : Program effects Removal) : Io Unit := do
  match ← always removal with
  | .removed => return ()
  | .absent | .failed => throw .io

/-- `remove_stale_parts`, when the store is opened: parts go, rows without a file go, files without a row go. -/
def removeStaleParts : Io Unit := do
  (← attempt (op .listParts)).forM fun part => removed (op (.removePart part))
  let known ← attempt (op .knownDigests)
  known.forM fun digest => do
    if !(← always (op (.isStored digest))) then attempt (op (.deleteRow digest))
  ((← attempt (op .listFiles)).filter fun digest => !known.contains digest).forM fun digest =>
    removed (op (.removeFile digest))

/-! ### The store as a machine -/

inductive Call where
  | putStream (digest : BlobDigest) (declaredLength : Nat) (input : List (Option Bytes))
  | verifyExisting (digest : BlobDigest)
  | prepareUpload (digest : BlobDigest) (declaredLength : Nat)
  | garbageCollect (now limit : Nat) (dryRun : Bool)
  | retain (kind : OwnerKind) (entries : List (String × BlobDigest)) (expires : Option Nat)
  | setReferenceExpiry (kind : OwnerKind) (owner : String) (expires : Nat)
  | clearReferenceExpiry (kind : OwnerKind) (owner : String)
  | releaseReferences (kind : OwnerKind) (owner : String)

/-- The steps of a call; what it returns goes to its caller. -/
def Call.program (store : BlobStore) : Call → Program effects Unit
  | putStream digest declaredLength input => (Blob.putStream store digest declaredLength input).run.discard
  | verifyExisting digest => (Blob.verifyExisting store digest).run.discard
  | prepareUpload digest declaredLength => (Blob.prepareUpload store digest declaredLength).run.discard
  | garbageCollect now limit dryRun => (Blob.garbageCollect now limit dryRun).run.discard
  | retain kind entries expires => (op (.retain kind entries expires)).discard
  | setReferenceExpiry kind owner expires => (op (.setReferenceExpiry kind owner (some expires))).discard
  | clearReferenceExpiry kind owner => (op (.setReferenceExpiry kind owner none)).discard
  | releaseReferences kind owner => (op (.releaseReferences kind owner)).discard

def machine (store : BlobStore) : Machine effects State Choice Empty Call where
  program := Call.program store
  perform := perform
  release := State.release
  awaits := Op.awaits
  occurs _ := Empty.elim

/-- A process over a root, before it is called. -/
def Root.boot (r : Root) : State := { r with writeLock := none, metadata := none }

namespace Example

def blank : BlobDigest := ⟨"".pushn '0' 64, by decide⟩

/-- A hash that tells the empty content from all other. -/
def store : BlobStore := ⟨100, fun content => if content.isEmpty then blank else Sample.blob⟩

def empty : Root := ⟨⟨.empty, .empty⟩, .empty, .empty, .empty⟩

end Example

end Blob
end Eggwork
