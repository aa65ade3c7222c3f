import Eggwork.Core.Manifest
import Eggwork.Lib.FileSystem
import Eggwork.Lib.Sorting
import Mathlib.Data.String.Basic

/-! Materialization of a workspace tree.

`materializeTree` creates a fresh stage, then one node for each entry in the byte
order of the paths, and syncs every directory. An ancestor is a proper initial
part of a path, so it sorts first whatever stands next to the slash, and
validation has listed it: no parent is missing and no name is taken. -/
namespace Eggwork
open Lib List

variable {node : FsNode} {ancestor : String}

inductive WorkspaceError where
  | invalidManifest | invalidPatch | baseMissing | invalidBlob | blobSizeMismatch | quotaExceeded | conflict | notFound
  | metadata | blob
  | io (error : FsError)
  | json | worker
deriving DecidableEq, Repr

/-- A file system call, its error passed on. -/
def io {α : Type} (x : Except FsError α) : Except WorkspaceError α := x.mapError .io

abbrev Blobs := BlobDigest → Option (List UInt8)

def fileMode (executable : Bool) : UInt32 := if executable then 0o700 else 0o600

section
variable (blobs : Blobs) (stage : FsPath)

def materializeEntry (fs : FileSystem) (entry : WorkspaceEntry) : Except WorkspaceError FileSystem := do
  let path := stage ++ components entry.path.value
  match entry with
  | .directory _ =>
    let fs ← io (fs.createDir path)
    io (fs.setPermissions path 0o700)
  | .file _ digest sizeBytes executable =>
    match blobs digest with
    | none => throw (.io .notFound)
    | some content =>
      let fs ← io (fs.createNew path (fileMode executable))
      let fs ← io (fs.write path content)
      if content.length ≠ sizeBytes.toNat then throw .blobSizeMismatch
      io (fs.sync path)
      io (fs.setPermissions path (fileMode executable))
  | .symlink _ _ => throw .invalidManifest

/-- The directories of the tree, the deepest first. -/
def directoriesOf (m : WorkspaceManifest) : List FsPath :=
  (sortBy (fun path => OrderDual.toDual path.length) (stage :: m.entries.filterMap fun
    | .directory path => some (stage ++ components path.value)
    | _ => none))

def materializeTree (m : WorkspaceManifest) (fs : FileSystem) : Except WorkspaceError FileSystem := do
  let fs ← io (fs.createDir stage)
  let fs ← io (fs.setPermissions stage 0o700)
  let fs ← (sortBy (fun entry => entry.path.value) m.entries).foldlM (materializeEntry blobs stage) fs
  (directoriesOf stage m).forM fun directory => io (fs.sync directory)
  return fs

end

/-! ### What a tree holds -/

def WorkspaceEntry.image (blobs : Blobs) : WorkspaceEntry → Option FsNode
  | .directory _ => some (.directory 0o700)
  | .file _ digest _ executable => (blobs digest).map (.file (fileMode executable))
  | .symlink _ _ => none

variable {entry : WorkspaceEntry} {entries : List WorkspaceEntry}

/-- The blob of the entry is stored with the declared size. -/
def Stored (blobs : Blobs) : WorkspaceEntry → Prop
  | .file _ digest sizeBytes _ => ∃ content, blobs digest = some content ∧ content.length = sizeBytes.toNat
  | _ => True

/-- The two ways a host compares names. -/
inductive CaseRule where
  | sensitive | asciiInsensitive
deriving DecidableEq, Repr

def CaseRule.fold : CaseRule → Char → Char
  | sensitive => id
  | asciiInsensitive => Char.toLower

theorem CaseRule.fold_slash (rule : CaseRule) : rule.fold '/' = '/' := by
  cases rule <;> decide

theorem CaseRule.fold_lower (rule : CaseRule) (c : Char) : (rule.fold c).toLower = c.toLower := by
  cases rule with
  | sensitive => rfl
  | asciiInsensitive =>
    rw [CaseRule.fold]
    delta Char.toLower
    split
    · rename_i hu
      refine dif_neg fun ha => ?_
      have hfrom : 65 ≤ c.val.toNat := UInt32.le_iff_toNat_le.mp hu.1
      have hto : c.val.toNat ≤ 90 := UInt32.le_iff_toNat_le.mp hu.2
      have hb : (c.val.toNat + 32) % 2 ^ 32 ≤ 90 := UInt32.le_iff_toNat_le.mp ha.2
      omega
    · rfl

theorem map_intercalate (f : Char → Char) (sep : List Char) (parts : List (List Char)) :
    (sep.intercalate parts).map f = (sep.map f).intercalate (parts.map fun part => part.map f) := by
  induction parts with
  | nil => rfl
  | cons part rest ih =>
    cases rest with
    | nil => simp
    | cons next rest =>
      rw [map_cons, map_cons] at *
      rw [intercalate_cons_cons, intercalate_cons_cons, map_append, map_append, ih]

theorem CaseRule.lower_eq (rule : CaseRule) {path path' : String}
    (h : (components path).map (fun part => part.map rule.fold) = (components path').map fun part => part.map rule.fold) :
    asciiLower path = asciiLower path' := by
  have hfold (path : String) : path.toList.map rule.fold =
      ['/'].intercalate ((components path).map fun part => part.map rule.fold) := by
    have hs : ['/'].map rule.fold = ['/'] := by rw [map_singleton, rule.fold_slash]
    have hpath : path.toList = ['/'].intercalate (path.toList.splitOn '/') := (intercalate_splitOn _).symm
    conv => lhs; rw [hpath, map_intercalate, hs]
    rfl
  have hlow (path : String) : path.toList.map Char.toLower = (path.toList.map rule.fold).map Char.toLower := by
    rw [map_map]
    exact map_congr_left fun c _ => (rule.fold_lower c).symm
  unfold asciiLower
  rw [hlow path, hlow path', hfold path, hfold path', h]

theorem lt_of_isAncestor {path : String} (h : IsAncestor ancestor path) : ancestor < path := by
  obtain ⟨rest, hpath⟩ := isAncestor_iff.mp h
  rw [String.lt_iff_toList_lt, hpath]
  generalize ancestor.toList = text
  induction text with
  | nil => exact nil_lt_cons _ _
  | cons c text ih => exact cons_lt_cons_self.mpr ih

theorem parent_before {seen rest : List WorkspaceEntry} (hp : Parented entries)
    (hs : sortBy (fun entry => entry.path.value) entries = seen ++ entry :: rest)
    (ha : IsAncestor ancestor entry.path.value) :
    ∃ parent ∈ seen, parent.isDirectory = true ∧ parent.path.value = ancestor := by
  have hall : ∀ e, e ∈ seen ++ entry :: rest ↔ e ∈ entries := fun e => hs ▸ mem_sortBy
  obtain ⟨parent, hparent, hd, rfl⟩ := hp entry ((hall entry).mp (by simp)) ancestor ha
  have hlt := lt_of_isAncestor ha
  rcases mem_append.mp ((hall parent).mpr hparent) with hseen | hl
  · exact ⟨parent, hseen, hd, rfl⟩
  have hpair := hs ▸ sortBy_pairwise (fun entry : WorkspaceEntry => entry.path.value) entries
  have hle : entry.path.value ≤ parent.path.value := by
    rcases mem_cons.mp hl with rfl | hrest
    · exact le_refl _
    · exact rel_of_pairwise_cons (pairwise_append.mp hpair).2.1 hrest
  exact absurd hlt (not_lt.mpr hle)

/-! ### One entry -/

section
variable {blobs : Blobs} {stage : FsPath} {base fs fs' : FileSystem} {seen : List WorkspaceEntry} {entry : WorkspaceEntry}

/-- The stage and the nodes of the entries, each under its path. -/
def declared (blobs : Blobs) (stage : FsPath) (entries : List WorkspaceEntry) : List (FsPath × FsNode) :=
  (stage, .directory 0o700) ::
    entries.filterMap fun entry => (entry.image blobs).map fun node => (stage ++ components entry.path.value, node)

theorem declared_append (h : entry.image blobs = some node) :
    declared blobs stage (seen ++ [entry]) = declared blobs stage seen ++ [(stage ++ components entry.path.value, node)] := by
  simp [declared, h]

theorem image_of_stored (hlink : entry.isSymlink = false) (hst : Stored blobs entry) :
    ∃ node, entry.image blobs = some node := by
  cases entry with
  | directory path => exact ⟨_, rfl⟩
  | file path digest sizeBytes executable =>
    obtain ⟨content, hb, _⟩ := hst
    exact ⟨_, by rw [WorkspaceEntry.image, hb]; rfl⟩
  | symlink path tgt => cases hlink

theorem materializeEntry_becomes (hi : entry.image blobs = some node) (hst : Stored blobs entry)
    (hp : fs.enter (stage ++ components entry.path.value).dropLast = .ok ())
    (hf : fs.find? (stage ++ components entry.path.value) = none) :
    ∃ fs', materializeEntry blobs stage fs entry = .ok fs' ∧
      fs.Becomes (stage ++ components entry.path.value) node fs' := by
  have hpath : stage ++ components entry.path.value ≠ [] := append_ne_nil_of_right_ne_nil _ (components_ne_nil _)
  cases entry with
  | directory path =>
    cases hi
    obtain ⟨fs₁, hc, hmade⟩ :=
      fs.create_becomes (.directory (0o777 &&& ~~~ fs.umask)) hp hpath hf
    obtain ⟨fs₂, hmode, hset⟩ := hmade.change (FsNode.withMode 0o700)
    exact ⟨fs₂, bind_eq_ok.mpr ⟨fs₁, congrArg io hc, congrArg io hmode⟩, hset⟩
  | file path digest sizeBytes executable =>
    obtain ⟨content, hb, hsize⟩ := hst
    rw [WorkspaceEntry.image, hb] at hi
    cases hi
    obtain ⟨fs₁, hc, hmade⟩ :=
      fs.create_becomes (.file (fileMode executable &&& ~~~ fs.umask) []) hp hpath hf
    obtain ⟨fs₂, hw, hfull⟩ := hmade.change (FsNode.write content)
    obtain ⟨fs₃, hmode, hset⟩ := hfull.change (FsNode.withMode (fileMode executable))
    refine ⟨fs₃, ?_, hset⟩
    unfold materializeEntry
    simp only [hb]
    refine bind_eq_ok.mpr ⟨fs₁, congrArg io hc, bind_eq_ok.mpr ⟨fs₂, congrArg io hw, ?_⟩⟩
    exact guard_eq_ok.mpr ⟨not_not.mpr hsize,
      bind_eq_ok.mpr ⟨(), congrArg io (FileSystem.sync_ok hfull.found), congrArg io hmode⟩⟩
  | symlink path tgt => cases hi

end

/-! ### The whole tree -/

/-- What materialization starts from: a valid manifest with its blobs, and a host
with room for the stage and nothing at or below it. -/
structure Ready (rule : CaseRule) (blobs : Blobs) (stage : FsPath) (m : WorkspaceManifest) (fs : FileSystem) : Prop where
  fold : fs.fold = rule.fold
  valid : m.validate = .ok ()
  stored : ∀ entry ∈ m.entries, Stored blobs entry
  named : stage ≠ []
  room : fs.enter stage.dropLast = .ok ()
  fresh : ∀ k, fs.key stage <+: k → fs.nodes.get? k = none

section
variable {rule : CaseRule} {blobs : Blobs} {stage : FsPath} {m : WorkspaceManifest} {base fs : FileSystem}

theorem key_ne_stage (path : String) : base.key (stage ++ components path) ≠ base.key stage := by
  rw [base.key_append]
  intro he
  exact components_ne_nil path (map_eq_nil_iff.mp (append_right_eq_self.mp he))

theorem Ready.key_inj (h : Ready rule blobs stage m base) {other : WorkspaceEntry} (he : entry ∈ m.entries)
    (hne : other ∈ m.entries)
    (hk : base.key (stage ++ components entry.path.value) = base.key (stage ++ components other.path.value)) :
    entry = other := by
  rw [FileSystem.key, FileSystem.key, map_append, map_append, append_cancel_left_eq, h.fold] at hk
  exact inj_on_of_nodup_map (validate_ok.mp h.valid).admitted.distinct he hne (rule.lower_eq hk)

theorem mem_declared {path : FsPath} :
    (path, node) ∈ declared blobs stage entries ↔ (path = stage ∧ node = .directory 0o700) ∨
      ∃ entry ∈ entries, path = stage ++ components entry.path.value ∧ entry.image blobs = some node := by
  rw [declared, mem_cons, mem_filterMap, Prod.mk.injEq]
  refine or_congr_right (exists_congr fun entry => and_congr_right fun _ => ?_)
  rw [Option.map_eq_some_iff]
  constructor
  · rintro ⟨_, hi, he⟩
    cases he
    exact ⟨rfl, hi⟩
  · rintro ⟨rfl, hi⟩
    exact ⟨node, hi, rfl⟩

theorem Ready.free (h : Ready rule blobs stage m base) {seen : List WorkspaceEntry}
    (hb : base.Extends (declared blobs stage seen) fs) (hseen : ∀ e ∈ seen, e ∈ m.entries)
    (he : entry ∈ m.entries) (hnew : entry ∉ seen) : fs.find? (stage ++ components entry.path.value) = none := by
  rw [FileSystem.find?, hb.key, Option.eq_none_iff_forall_ne_some]
  rintro ⟨path, node⟩ hsome
  rcases hb.get?.mp hsome with hbase | ⟨hd, hk⟩
  · have hn := h.fresh (base.key (stage ++ components entry.path.value)) (base.key_append .. ▸ prefix_append _ _)
    rw [hn] at hbase
    cases hbase
  · rcases mem_declared.mp hd with ⟨rfl, _⟩ | ⟨other, hne, rfl, _⟩
    · exact key_ne_stage _ hk
    · exact hnew (h.key_inj he (hseen other hne) hk ▸ hne)

theorem Ready.enter (h : Ready rule blobs stage m base) {seen rest : List WorkspaceEntry}
    (hb : base.Extends (declared blobs stage seen) fs)
    (hs : sortBy (fun entry => entry.path.value) m.entries = seen ++ entry :: rest) :
    fs.enter (stage ++ components entry.path.value).dropLast = .ok () := by
  rw [dropLast_append_of_ne_nil (components_ne_nil _)]
  by_cases htop : (components entry.path.value).dropLast = []
  · rw [htop, append_nil]
    exact FileSystem.enter_ok (hb.found (mem_declared.mpr (.inl ⟨rfl, rfl⟩)))
  obtain ⟨ancestor, ha, hpart⟩ := exists_parent htop
  obtain ⟨parent, hp, hd, rfl⟩ := parent_before (validate_ok.mp h.valid).parented hs ha
  rw [← hpart]
  have hi : (_, FsNode.directory 0o700) ∈ declared blobs stage _ := mem_declared.mpr (.inr ⟨parent, hp, rfl, ?_⟩)
  · exact FileSystem.enter_ok (hb.found hi)
  cases parent with
  | directory path => rfl
  | file path digest sizeBytes executable | symlink path tgt => cases hd

/-- The loop over the sorted entries runs to its end, whatever part of it is left. -/
theorem Ready.run (h : Ready rule blobs stage m base) {seen rest : List WorkspaceEntry}
    (hs : sortBy (fun entry => entry.path.value) m.entries = seen ++ rest) (hb : base.Extends (declared blobs stage seen) fs) :
    ∃ fs', rest.foldlM (materializeEntry blobs stage) fs = .ok fs' ∧ base.Extends (declared blobs stage (seen ++ rest)) fs' := by
  induction rest generalizing seen fs with
  | nil => exact ⟨fs, rfl, by rwa [append_nil]⟩
  | cons entry rest ih =>
    have ha := validate_ok.mp h.valid
    have hall : ∀ e ∈ seen ++ entry :: rest, e ∈ m.entries := fun e he => mem_sortBy.mp (hs ▸ he)
    have hentry : entry ∈ m.entries := hall entry (by simp)
    have hnew : entry ∉ seen := by
      have hn : (seen ++ entry :: rest).Nodup :=
        hs ▸ (sortBy_perm _ _).nodup_iff.mpr (ha.admitted.distinct.of_map _)
      exact fun hm => (nodup_append'.mp hn).2.2 hm mem_cons_self
    obtain ⟨node, hi⟩ := image_of_stored (ha.admitted.unlinked entry hentry) (h.stored entry hentry)
    have hf := h.free hb (fun e he => hall e (mem_append_left _ he)) hentry hnew
    obtain ⟨fs₁, hmade, hbecomes⟩ :=
      materializeEntry_becomes hi (h.stored entry hentry) (h.enter hb hs) hf
    rw [append_cons] at hs ⊢
    obtain ⟨fs', hrest, hend⟩ := ih hs (declared_append hi ▸ hb.step hf hbecomes)
    exact ⟨fs', by rw [foldlM_cons, hmade]; exact hrest, hend⟩

theorem Ready.staged (h : Ready rule blobs stage m base) :
    ∃ fs₁ fs₂, base.createDir stage = .ok fs₁ ∧ fs₁.setPermissions stage 0o700 = .ok fs₂ ∧
      base.Extends (declared blobs stage []) fs₂ := by
  have hf : base.find? stage = none := h.fresh _ (prefix_refl _)
  obtain ⟨fs₁, hc, hmade⟩ :=
    base.create_becomes (.directory (0o777 &&& ~~~ base.umask)) h.room h.named hf
  obtain ⟨fs₂, hmode, hset⟩ := hmade.change (FsNode.withMode 0o700)
  exact ⟨fs₁, fs₂, hc, hmode, (FileSystem.Extends.refl base).step hf hset⟩

theorem mem_directoriesOf {path : FsPath} (h : path ∈ directoriesOf stage m) :
    (path, .directory 0o700) ∈ declared blobs stage m.entries := by
  rcases mem_cons.mp (mem_sortBy.mp h) with rfl | hl
  · exact mem_declared.mpr (.inl ⟨rfl, rfl⟩)
  obtain ⟨entry, he, hsome⟩ := mem_filterMap.mp hl
  cases entry with
  | directory p => exact mem_declared.mpr (.inr ⟨_, he, (Option.some.inj hsome).symm, rfl⟩)
  | file p digest sizeBytes executable | symlink p tgt => cases hsome

theorem declared_perm {entries' : List WorkspaceEntry} (h : entries.Perm entries') :
    (declared blobs stage entries).Perm (declared blobs stage entries') :=
  (h.filterMap _).cons _

theorem Ready.materialized (h : Ready rule blobs stage m base) :
    ∃ fs', materializeTree blobs stage m base = .ok fs' ∧ base.Extends (declared blobs stage m.entries) fs' := by
  obtain ⟨fs₁, fs₂, hc, hmode, hs⟩ := h.staged
  obtain ⟨fs₃, hr, hb⟩ := h.run (nil_append _).symm hs
  have hend : base.Extends (declared blobs stage m.entries) fs₃ := hb.perm (declared_perm (sortBy_perm _ _))
  refine ⟨fs₃, bind_eq_ok.mpr ⟨fs₁, congrArg io hc, bind_eq_ok.mpr ⟨fs₂, congrArg io hmode,
    bind_eq_ok.mpr ⟨fs₃, hr, bind_eq_ok.mpr ⟨(), ?_, rfl⟩⟩⟩⟩, hend⟩
  exact forM_eq_ok.mpr fun dir hd =>
    congrArg io (FileSystem.sync_ok (hend.found (mem_directoriesOf hd)))

end

/-- Materialization refines the manifest: with the blobs stored and a fresh stage, no
parent is missing and no path taken, and what is new on the host is exactly the stage
and one node for each entry. -/
theorem materialize_refines (rule : CaseRule) (blobs : Blobs) (stage : FsPath) (m : WorkspaceManifest) (fs : FileSystem)
    (h : Ready rule blobs stage m fs) : ∃ fs', materializeTree blobs stage m fs = .ok fs' ∧
      (fs'.nodes.rows.map Prod.snd).Perm (fs.nodes.rows.map Prod.snd ++ declared blobs stage m.entries) ∧
      fs'.find? stage = some (stage, .directory 0o700) ∧ (∀ path, .directory path ∈ m.entries →
        fs'.find? (stage ++ components path.value) = some (stage ++ components path.value, .directory 0o700)) ∧
      ∀ path digest sizeBytes executable, .file path digest sizeBytes executable ∈ m.entries →
        ∃ content, blobs digest = some content ∧ fs'.find? (stage ++ components path.value) =
          some (stage ++ components path.value, .file (if executable then 0o700 else 0o600) content) := by
  obtain ⟨fs', htree, hbuilt⟩ := h.materialized
  refine ⟨fs', htree, hbuilt.nodes, hbuilt.found (mem_declared.mpr (.inl ⟨rfl, rfl⟩)), fun path hpath => ?_, ?_⟩
  · exact hbuilt.found (mem_declared.mpr (.inr ⟨_, hpath, rfl, rfl⟩))
  intro path digest sizeBytes executable hfile
  obtain ⟨content, hcontent, _⟩ := h.stored _ hfile
  refine ⟨content, hcontent, hbuilt.found (mem_declared.mpr (.inr ⟨_, hfile, rfl, ?_⟩))⟩
  rw [WorkspaceEntry.image, hcontent]
  rfl

namespace Sample

/-- A host with nothing on it. -/
def emptyHost : FileSystem := ⟨Char.toLower, 0o022, Table.empty⟩

/-- Every digest names the same three bytes. -/
def threeBytes : Blobs := fun _ => some [1, 2, 3]

def stagePath : FsPath := [".staging".toList]

theorem ready_manifest : Ready .asciiInsensitive threeBytes stagePath manifest emptyHost where
  fold := rfl
  valid := by with_unfolding_all decide
  stored := by
    intro entry he
    simp only [manifest, mem_cons, not_mem_nil, or_false] at he
    rcases he with rfl | rfl | rfl
    · exact ⟨_, rfl, rfl⟩
    · exact ⟨_, rfl, rfl⟩
    · trivial
  named := cons_ne_nil _ _
  room := rfl
  fresh := fun _ _ => rfl

end Sample

open Sample in
theorem materialize_refines_manifest : ∃ fs', materializeTree threeBytes stagePath manifest emptyHost = .ok fs' ∧
      fs'.find? [".staging".toList, "src".toList] = some ([".staging".toList, "src".toList], .directory 0o700) := by
  obtain ⟨fs', htree, _, _, hdirectories, _⟩ :=
    materialize_refines .asciiInsensitive threeBytes stagePath manifest emptyHost ready_manifest
  exact ⟨fs', htree, hdirectories source (by decide)⟩

end Eggwork
