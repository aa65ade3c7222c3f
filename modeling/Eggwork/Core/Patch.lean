import Eggwork.Core.Manifest
import Eggwork.Lib.Sorting
import Mathlib.Data.String.Basic

/-! Manifest patches.

`applyTo` runs the patch over an ordered map of the base's entries and validates
what comes out. `patchedTree` is the tree it is to produce: the base's entries the
patch does not name, and the patch's own. The order of neither list shows in the
result, since the map tells paths apart and validation does not see order. -/
namespace Eggwork
open Lib List

variable {entry : WorkspaceEntry} {entries entries' : List WorkspaceEntry}

/-- The bytes hashed before a canonical manifest. -/
def manifestPrefix : List UInt8 := "eggwork-workspace-manifest\x00canonical-json-v1\x00".toUTF8.toList

inductive WorkspacePatchEntry where
  | remove (path : RelativePath)
  | directory (path : RelativePath)
  | file (path : RelativePath) (digest : BlobDigest) (sizeBytes : UInt64) (executable : Bool)
deriving DecidableEq, Repr

def WorkspacePatchEntry.path : WorkspacePatchEntry → RelativePath
  | remove path | directory path | file path _ _ _ => path

structure WorkspaceManifestPatch where
  schemaVersion : UInt16
  baseManifestDigest : BlobDigest
  entries : List WorkspacePatchEntry
deriving DecidableEq, Repr

/-- The loop over a patch's paths with the set of those seen. -/
def checkDistinct : (seen paths : List String) → Except ValidationError Unit
  | _, [] => .ok ()
  | seen, path :: paths =>
    if path ∈ seen then .error (.invalidSyntax "duplicate workspace patch path") else checkDistinct (path :: seen) paths

def WorkspaceManifestPatch.paths (p : WorkspaceManifestPatch) : List String := p.entries.map fun entry => entry.path.value

def WorkspaceManifestPatch.validate (p : WorkspaceManifestPatch) : Except ValidationError Unit := do
  if p.schemaVersion ≠ 1 then throw (.outOfRange "workspace patch schema version")
  if p.entries.length > maxWorkspaceEntries then throw (.tooMany "workspace patch entries" maxWorkspaceEntries)
  checkDistinct [] p.paths

abbrev Tree := Table String WorkspaceEntry

def Tree.of (entries : List WorkspaceEntry) : Tree :=
  Table.collect (fun entry => entry.path.value) id entries

/-- One operation of a patch on the map. -/
def Tree.patch (tree : Tree) : WorkspacePatchEntry → Tree
  | .remove path => tree.delete fun key => key == path.value
  | .directory path => tree.put path.value (.directory path)
  | .file path digest sizeBytes executable => tree.put path.value (.file path digest sizeBytes executable)

def WorkspaceManifestPatch.applyTo (p : WorkspaceManifestPatch) (base : WorkspaceManifest) :
    Except ValidationError WorkspaceManifest := do
  p.validate
  let tree := p.entries.foldl Tree.patch (Tree.of base.entries)
  let finalManifest : WorkspaceManifest := ⟨1, tree.values⟩
  finalManifest.validate
  return finalManifest

section Digest
variable {E : Type} (toVec : WorkspaceManifest → Except E (List UInt8)) (hash : List UInt8 → BlobDigest)

/-- The hash of the encoding of the manifest with its entries sorted by path. -/
def WorkspaceManifest.digest (m : WorkspaceManifest) : Except E BlobDigest := do
  let normalized : WorkspaceManifest := { m with entries := sortBy (fun entry => entry.path.value) m.entries }
  let encoded ← toVec normalized
  return hash (manifestPrefix ++ encoded)

end Digest

/-! ### The tree of a patch -/

/-- The entry an operation leaves at its path. -/
def WorkspacePatchEntry.upserted : WorkspacePatchEntry → Option WorkspaceEntry
  | .remove _ => none
  | .directory path => some (.directory path)
  | .file path digest sizeBytes executable => some (.file path digest sizeBytes executable)

/-- The base's entries but those the patch names, and what the patch upserts. -/
def patchedTree (base : WorkspaceManifest) (p : WorkspaceManifestPatch) : List WorkspaceEntry :=
  base.entries.filter (fun entry => entry.path.value ∉ p.paths) ++ p.entries.filterMap WorkspacePatchEntry.upserted

theorem WorkspacePatchEntry.upserted_path {op : WorkspacePatchEntry} (h : op.upserted = some entry) : entry.path = op.path := by
  cases op <;> cases h <;> rfl

theorem upserted_sublist (ops : List WorkspacePatchEntry) :
    ((ops.filterMap WorkspacePatchEntry.upserted).map fun entry => entry.path.value).Sublist
      (ops.map fun op => op.path.value) := by
  induction ops with
  | nil => exact .slnil
  | cons op ops ih =>
    cases hop : op.upserted with
    | none =>
      rw [filterMap_cons_none hop]
      exact ih.cons _
    | some entry =>
      rw [filterMap_cons_some hop, map_cons, map_cons, op.upserted_path hop]
      exact ih.cons_cons _

theorem Tree.get?_patch (tree : Tree) (op : WorkspacePatchEntry) (path : String) :
    (tree.patch op).get? path = if path = op.path.value then op.upserted else tree.get? path := by
  cases op with
  | remove _ =>
    rw [Tree.patch, Table.get?_delete]
    simp only [beq_iff_eq]
    rfl
  | directory _ | file _ _ _ _ => exact Table.get?_put _ _ _ _

theorem Tree.get?_foldl_patch {ops : List WorkspacePatchEntry} (hn : (ops.map fun op => op.path.value).Nodup)
    (tree : Tree) {path : String} : (ops.foldl Tree.patch tree).get? path = some entry ↔
      (∃ op ∈ ops, op.path.value = path ∧ op.upserted = some entry) ∨
        (path ∉ ops.map (fun op => op.path.value) ∧ tree.get? path = some entry) := by
  induction ops generalizing tree with
  | nil => simp
  | cons op ops ih =>
    rw [map_cons, nodup_cons] at hn
    rw [foldl_cons, ih hn.2, Tree.get?_patch, map_cons, mem_cons]
    simp only [mem_cons, exists_eq_or_imp, not_or]
    by_cases hpath : path = op.path.value
    · subst hpath
      have hl : ¬ ∃ later ∈ ops, later.path.value = op.path.value ∧ later.upserted = some entry :=
        fun hl => hn.1 (mem_map.mpr (hl.imp fun _ h => ⟨h.1, h.2.1⟩))
      simp [hn.1, hl]
    · rw [if_neg hpath]
      simp only [hpath, Ne.symm hpath, not_false_eq_true, false_and, false_or, true_and]

theorem Tree.get?_of (hn : (entries.map fun entry => entry.path.value).Nodup) {path : String} :
    (Tree.of entries).get? path = some entry ↔ entry ∈ entries ∧ entry.path.value = path := by
  rw [Tree.of, Table.collect_eq_some _ _ hn]
  constructor
  · rintro ⟨_, he, rfl, hpath⟩
    exact ⟨he, hpath⟩
  · exact fun h => ⟨entry, h.1, rfl, h.2⟩

section
variable {base : WorkspaceManifest} {p : WorkspaceManifestPatch}

theorem mem_patchedTree : entry ∈ patchedTree base p ↔
      (∃ op ∈ p.entries, op.upserted = some entry) ∨ (entry.path.value ∉ p.paths ∧ entry ∈ base.entries) := by
  rw [patchedTree, mem_append, mem_filter, mem_filterMap, decide_eq_true_eq, or_comm, and_comm]

theorem patchedTree_nodup (hbase : (base.entries.map fun entry => entry.path.value).Nodup) (hp : p.paths.Nodup) :
    ((patchedTree base p).map fun entry => entry.path.value).Nodup := by
  have hups := upserted_sublist p.entries
  rw [patchedTree, map_append, nodup_append']
  refine ⟨(filter_sublist.map _).nodup hbase, hups.nodup hp, ?_⟩
  intro path hold hnew
  obtain ⟨entry, he, rfl⟩ := mem_map.mp hold
  exact absurd (hups.subset hnew) (decide_eq_true_eq.mp (mem_filter.mp he).2)

theorem patch_values (hbase : (base.entries.map fun entry => entry.path.value).Nodup) (hp : p.paths.Nodup) :
    (p.entries.foldl Tree.patch (Tree.of base.entries)).values =
      sortBy (fun entry => entry.path.value) (patchedTree base p) := by
  refine Table.values_eq (patchedTree_nodup hbase hp) fun {path entry} => ?_
  rw [Tree.get?_foldl_patch hp, Tree.get?_of hbase, mem_patchedTree]
  constructor
  · rintro (⟨op, hop, rfl, he⟩ | ⟨hpath, he, rfl⟩)
    · exact ⟨.inl ⟨op, hop, he⟩, by rw [op.upserted_path he]⟩
    · exact ⟨.inr ⟨hpath, he⟩, rfl⟩
  · rintro ⟨⟨op, hop, he⟩ | ⟨hpath, he⟩, rfl⟩
    · exact .inl ⟨op, hop, by rw [op.upserted_path he], he⟩
    · exact .inr ⟨hpath, he, rfl⟩

end

/-! ### Order does not show -/

theorem Admitted.perm (h : Admitted entries) (hperm : entries.Perm entries') : Admitted entries' where
  portable := fun entry he => h.portable entry (hperm.mem_iff.mpr he)
  pathBytes := (hperm.map _).sum_nat ▸ h.pathBytes
  fileBytes := (hperm.map _).sum_nat ▸ h.fileBytes
  unlinked := fun entry he => h.unlinked entry (hperm.mem_iff.mpr he)
  distinct := (hperm.map _).nodup_iff.mp h.distinct

theorem Parented.perm (h : Parented entries) (hperm : entries.Perm entries') : Parented entries' := by
  intro entry he ancestor ha
  obtain ⟨parent, hp, hd⟩ := h entry (hperm.mem_iff.mpr he) ancestor ha
  exact ⟨parent, hperm.mem_iff.mp hp, hd⟩

theorem validate_perm {ver : UInt16} (hperm : entries.Perm entries') :
    (WorkspaceManifest.mk ver entries).validate = .ok () ↔ (WorkspaceManifest.mk ver entries').validate = .ok () := by
  have hi {l l' : List WorkspaceEntry} (hl : l.Perm l') (h : Accepted ⟨ver, l⟩) : Accepted ⟨ver, l'⟩ :=
    ⟨h.version, hl.length_eq ▸ h.count, h.admitted.perm hl, h.parented.perm hl⟩
  rw [validate_ok, validate_ok]
  exact ⟨hi hperm, hi hperm.symm⟩

theorem checkDistinct_eq (seen paths : List String) : checkDistinct seen paths =
      if (∀ path ∈ paths, path ∉ seen) ∧ paths.Nodup then .ok ()
      else .error (.invalidSyntax "duplicate workspace patch path") := by
  induction paths generalizing seen with
  | nil => simp [checkDistinct]
  | cons path paths ih =>
    rw [checkDistinct, ih]
    by_cases hseen : path ∈ seen
    · rw [if_pos hseen, if_neg fun h => h.1 path mem_cons_self hseen]
    rw [if_neg hseen]
    refine if_congr ?_ rfl rfl
    rw [forall_mem_cons, nodup_cons]
    constructor
    · rintro ⟨hf, hn⟩
      have hpath : path ∉ paths := fun hm => hf path hm mem_cons_self
      exact ⟨⟨hseen, fun other hne hold => hf other hne (mem_cons_of_mem _ hold)⟩, hpath, hn⟩
    rintro ⟨⟨_, hf⟩, hpath, hn⟩
    refine ⟨fun other hne hm => ?_, hn⟩
    rcases mem_cons.mp hm with rfl | hold
    · exact hpath hne
    · exact hf other hne hold

section
variable {base : WorkspaceManifest} {p : WorkspaceManifestPatch}

theorem WorkspaceManifestPatch.validate_nodup (h : p.validate = .ok ()) : p.paths.Nodup := by
  unfold WorkspaceManifestPatch.validate at h
  simp only [guard_eq_ok, checkDistinct_eq] at h
  by_contra hd
  rw [if_neg fun hn => hd hn.2] at h
  cases h.2.2

theorem WorkspaceManifestPatch.validate_perm {entries : List WorkspacePatchEntry} (hperm : entries.Perm p.entries) :
    { p with entries }.validate = p.validate := by
  have hp : (WorkspaceManifestPatch.paths { p with entries }).Perm p.paths := hperm.map _
  unfold WorkspaceManifestPatch.validate
  rw [checkDistinct_eq, checkDistinct_eq]
  simp only [hperm.length_eq, hp.nodup_iff, not_mem_nil, not_false_eq_true, implies_true, true_and]

theorem patchedTree_perm {entries : List WorkspacePatchEntry} (hperm : entries.Perm p.entries) :
    (patchedTree base { p with entries }).Perm (patchedTree base p) := by
  have hp : (WorkspaceManifestPatch.paths { p with entries }).Perm p.paths := hperm.map _
  unfold patchedTree
  simp only [hp.mem_iff]
  exact (hperm.filterMap _).append_left _

theorem applyTo_eq (hbase : base.validate = .ok ()) (hp : p.validate = .ok ()) : p.applyTo base =
      (WorkspaceManifest.mk 1 (sortBy (fun entry => entry.path.value) (patchedTree base p))).validate.map
        fun _ => ⟨1, sortBy (fun entry => entry.path.value) (patchedTree base p)⟩ := by
  have hn := (validate_ok.mp hbase).admitted.nodup
  unfold WorkspaceManifestPatch.applyTo
  simp only [hp, patch_values hn (WorkspaceManifestPatch.validate_nodup hp)]
  rfl

theorem applyTo_error {e : ValidationError} (hp : p.validate = .error e) : p.applyTo base = .error e := by
  unfold WorkspaceManifestPatch.applyTo
  rw [hp]
  rfl

theorem applyTo_ok {m : WorkspaceManifest} (hbase : base.validate = .ok ()) :
    p.applyTo base = .ok m ↔ p.validate = .ok () ∧ (WorkspaceManifest.mk 1 (patchedTree base p)).validate = .ok () ∧
      m = ⟨1, sortBy (fun entry => entry.path.value) (patchedTree base p)⟩ := by
  cases hp : p.validate with
  | error e =>
    rw [applyTo_error hp]
    exact ⟨fun h => (nomatch h), fun h => (nomatch h.1)⟩
  | ok _ =>
    rw [applyTo_eq hbase hp, ← validate_perm (sortBy_perm (fun entry : WorkspaceEntry => entry.path.value) _)]
    cases (WorkspaceManifest.mk 1 (sortBy (fun entry => entry.path.value) (patchedTree base p))).validate with
    | error e => exact ⟨fun h => (nomatch h), fun h => (nomatch h.2.1)⟩
    | ok _ => exact ⟨fun h => ⟨rfl, rfl, (Except.ok.inj h).symm⟩, fun h => congrArg _ h.2.2.symm⟩

theorem applyTo_perm (hbase : base.validate = .ok ()) {entries : List WorkspacePatchEntry}
    (hperm : entries.Perm p.entries) : { p with entries }.applyTo base = p.applyTo base := by
  have hv := WorkspaceManifestPatch.validate_perm hperm
  cases hp : p.validate with
  | error e => rw [applyTo_error hp, applyTo_error (hv.trans hp)]
  | ok _ =>
    have hn := patchedTree_nodup (validate_ok.mp hbase).admitted.nodup (WorkspaceManifestPatch.validate_nodup hp)
    have htree : (patchedTree base { p with entries }).Perm (patchedTree base p) := patchedTree_perm hperm
    have hs := sortBy_eq_of_perm (eq_of_key_eq hn) htree.symm
    rw [applyTo_eq hbase hp, applyTo_eq hbase (hv.trans hp), hs]

end

/-- Applying a patch is submitting the tree it describes: the order of the patch
does not show, it goes through exactly if patch and tree are valid, and the result
has the digest of the tree listed in any order. -/
theorem patch_as_submission {E : Type} (toVec : WorkspaceManifest → Except E (List UInt8))
    (hash : List UInt8 → BlobDigest) (base : WorkspaceManifest) (hbase : base.validate = .ok ())
    (p : WorkspaceManifestPatch) :
    (∀ entries, entries.Perm p.entries → { p with entries }.applyTo base = p.applyTo base) ∧
    ∀ entries, entries.Perm (patchedTree base p) →
      ((∃ m, p.applyTo base = .ok m) ↔ p.validate = .ok () ∧ (WorkspaceManifest.mk 1 entries).validate = .ok ()) ∧
      ∀ m, p.applyTo base = .ok m → m.digest toVec hash = (WorkspaceManifest.mk 1 entries).digest toVec hash := by
  refine ⟨fun entries hperm => applyTo_perm hbase hperm, fun entries hperm => ⟨?_, fun m hm => ?_⟩⟩
  · simp only [applyTo_ok hbase, exists_and_left, exists_eq, and_true]
    rw [validate_perm hperm]
  obtain ⟨hpatch, _, rfl⟩ := (applyTo_ok hbase).mp hm
  have hnodup := patchedTree_nodup (validate_ok.mp hbase).admitted.nodup (WorkspaceManifestPatch.validate_nodup hpatch)
  have hsorted : sortBy (fun entry => entry.path.value) (sortBy (fun entry => entry.path.value) (patchedTree base p)) =
      sortBy (fun entry : WorkspaceEntry => entry.path.value) entries :=
    (sortBy_eq_of_perm (eq_of_key_eq hnodup) (sortBy_perm _ _).symm).symm.trans
      (sortBy_eq_of_perm (eq_of_key_eq hnodup) hperm.symm)
  unfold WorkspaceManifest.digest
  simp only [hsorted]

namespace Sample

def patch : WorkspaceManifestPatch := ⟨1, blob, [.remove sourceMain, .file sourceNotes blob 4 true]⟩

end Sample

open Sample in
theorem patch_as_submission_removed :
    manifest.validate = .ok () ∧ patch.applyTo manifest = .ok ⟨1, [.directory source, .file sourceNotes blob 4 true]⟩ ∧
      (WorkspaceManifest.mk 1 [.directory source, .file sourceNotes blob 4 true]).digest (E := Unit)
          (fun m => .ok [m.entries.length.toUInt8]) (fun _ => blob) =
        (WorkspaceManifest.mk 1 (patchedTree manifest patch)).digest (fun m => .ok [m.entries.length.toUInt8]) fun _ => blob := by
  have hbase : manifest.validate = .ok () := by with_unfolding_all decide
  have happly : patch.applyTo manifest = .ok ⟨1, [.directory source, .file sourceNotes blob 4 true]⟩ := by with_unfolding_all decide
  exact ⟨hbase, happly, ((patch_as_submission _ _ manifest hbase patch).2 _ (.refl _)).2 _ happly⟩

end Eggwork
