import Eggwork.Core.Manifest
import Eggwork.Lib.Sorting
import Eggwork.Store.Operations
import Mathlib.Data.String.Basic

/-! Records of captured outputs.

A record is readable by its principal until it expires; the collector then deletes
its row. Neither has anything to do with the bytes, which are the blob store's. -/
namespace Eggwork.Artifact
open Lib List Table
open Store (Codec)

abbrev ArtifactId := IdType "artifact id"

inductive ArtifactType where
  | file
deriving DecidableEq, Repr

structure ArtifactRecord where
  artifactId : ArtifactId
  executionId : ExecutionId
  generation : ExecutionGeneration
  path : RelativePath
  kind : ArtifactType
  digest : BlobDigest
  sizeBytes : Nat
  executable : Bool
  createdUnixMs : Nat
  expiresUnixMs : Nat
deriving DecidableEq, Repr

inductive ArtifactError where
  | missingRequired | unsupportedType | limit | invalidTree | io | blob | sql | json | worker
deriving DecidableEq, Repr, Inhabited

structure ArtifactRow (C : Codec ArtifactRecord) where
  executionId : ExecutionId
  generation : Int
  principalId : PrincipalId
  recordJson : C.Blob
  createdUnixMs : Nat
  expiresUnixMs : Nat

/-- The rows by `artifact_id`. The table's other constraint follows: the encoded record tells the id. -/
abbrev ArtifactStore (C : Codec ArtifactRecord) := Table ArtifactId (ArtifactRow C)

structure ArtifactGcReport where
  candidateArtifacts : Nat
  deletedArtifacts : Nat
deriving DecidableEq, Repr

namespace ArtifactStore

variable {C : Codec ArtifactRecord}

def rowOf (principal : PrincipalId) (record : ArtifactRecord) : ArtifactRow C where
  executionId := record.executionId
  generation := record.generation.asI64
  principalId := principal
  recordJson := C.encode record
  createdUnixMs := record.createdUnixMs
  expiresUnixMs := record.expiresUnixMs

/-- All rows, or none if an id is taken. -/
def insertMany (st : ArtifactStore C) (records : List ArtifactRecord) (principal : PrincipalId) :
    Option (ArtifactStore C) :=
  records.foldlM (fun t record => t.insert record.artifactId (rowOf principal record)) st

def list (st : ArtifactStore C) (now : Nat) (id : ExecutionId) (generation : ExecutionGeneration)
    (principal : PrincipalId) : Except ArtifactError (List ArtifactRecord) :=
  let selected := st.rows.filter fun entry =>
    decide (entry.2.executionId = id ∧ entry.2.generation = generation.asI64 ∧
      entry.2.principalId = principal ∧ now < entry.2.expiresUnixMs)
  (sortBy (fun entry => entry.2.createdUnixMs) (sortBy (fun entry => entry.1.value) selected)).mapM fun entry =>
    match C.decode entry.2.recordJson with
    | some record => .ok record
    | none => .error .sql

def get (st : ArtifactStore C) (now : Nat) (id : ArtifactId) (principal : PrincipalId) :
    Except ArtifactError ArtifactRecord :=
  let row := (st.get? id).filter fun row => decide (row.principalId = principal ∧ now < row.expiresUnixMs)
  match row with
  | none => .error .missingRequired
  | some row =>
    match C.decode row.recordJson with
    | some record => .ok record
    | none => .error .json

def isExpired (now : Nat) (row : ArtifactRow C) : Bool := decide (row.expiresUnixMs ≤ now)

def candidates (st : ArtifactStore C) (now limit : Nat) : List (ArtifactId × ArtifactRow C) :=
  (sortBy (fun entry => entry.2.expiresUnixMs) (st.rows.filter fun entry => isExpired now entry.2)).take limit

def garbageCollect (st : ArtifactStore C) (now limit : Nat) (dryRun : Bool) : ArtifactGcReport × ArtifactStore C :=
  let count := (st.rows.filter fun entry => isExpired now entry.2).length
  let chosen := st.candidates now limit
  let candidateArtifacts := min chosen.length count
  if dryRun then (⟨candidateArtifacts, 0⟩, st)
  else
    (⟨candidateArtifacts, candidateArtifacts⟩,
      Table.delete st fun id => (chosen.map Prod.fst).contains id)

/-! ### What the rows are -/

section
variable {st st' : ArtifactStore C} {id : ArtifactId} {row : ArtifactRow C} {principal : PrincipalId} {record : ArtifactRecord} {now : Nat}

theorem get?_insertMany {recs : List ArtifactRecord} (h : st.insertMany recs principal = some st') (hr : get? st' id = some row) :
    get? st id = some row ∨ ∃ record ∈ recs, row = rowOf principal record := by
  induction recs generalizing st with
  | nil =>
    cases h
    exact .inl hr
  | cons first rest ih =>
    obtain ⟨st₁, hi, hrest⟩ := Option.bind_eq_some_iff.mp h
    rcases ih hrest with hold | ⟨record, hrecord, he⟩
    · rw [get?_insert hi] at hold
      split at hold
      · cases hold
        exact .inr ⟨first, mem_cons_self, rfl⟩
      · exact .inl hold
    · exact .inr ⟨record, mem_cons_of_mem _ hrecord, he⟩

theorem get?_garbageCollect {limit : Nat} {dryRun : Bool} (hr : get? (st.garbageCollect now limit dryRun).2 id = some row) :
    get? st id = some row := by
  unfold garbageCollect at hr
  cases dryRun with
  | true => exact hr
  | false =>
    simp only [Bool.false_eq_true, if_false, get?_delete] at hr
    split at hr
    · cases hr
    · exact hr

theorem mem_list {execution : ExecutionId} {gen : ExecutionGeneration} {recs : List ArtifactRecord}
    (h : st.list now execution gen principal = .ok recs) (hrecord : record ∈ recs) :
    ∃ id row, get? st id = some row ∧ now < row.expiresUnixMs ∧ C.decode row.recordJson = some record := by
  obtain ⟨⟨id, row⟩, he, hd⟩ := mem_of_mapM_ok h hrecord
  have hd : C.decode row.recordJson = some record := by
    split at hd
    · rename_i found hf
      cases hd
      exact hf
    · cases hd
  obtain ⟨hr, hs⟩ := mem_filter.mp (mem_sortBy.mp (mem_sortBy.mp he))
  exact ⟨id, row, mem_rows.mp hr, (of_decide_eq_true hs).2.2.2, hd⟩

theorem get_eq_ok (h : st.get now id principal = .ok record) :
    ∃ row, get? st id = some row ∧ now < row.expiresUnixMs ∧ C.decode row.recordJson = some record := by
  unfold get at h
  cases hr : (get? st id).filter fun row => decide (row.principalId = principal ∧ now < row.expiresUnixMs) with
  | none =>
    rw [hr] at h
    cases h
  | some row =>
    rw [hr] at h
    obtain ⟨hget, hs⟩ := Option.filter_eq_some_iff.mp hr
    refine ⟨row, hget, (of_decide_eq_true hs).2, ?_⟩
    dsimp only at h
    split at h
    · rename_i found hd
      cases h
      exact hd
    · cases h

end
end ArtifactStore

end Eggwork.Artifact
