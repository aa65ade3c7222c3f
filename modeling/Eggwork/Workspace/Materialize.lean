import Eggwork.Workspace.Manager

/-! What a failed materialization leaves.

Up to the blob references nothing is written. From the tree on, every failure
removes the directory and releases the references. Between the two stands
`store_manifest`, whose errors leave as they come: the references taken before it
stay. -/
namespace Eggwork.Workspace
open Lib Effect List Table

variable {a : Unit} {stop : Stop WorkspaceError} {dir : String}

section
variable {m : Manager} {fates : Fates} {req : MaterializeRequest} {d d' : Disk}

/-! ### The checks -/

/-- The blob of an entry is stored and sound. -/
def Vouched (fates : Fates) (blobs : Blobs) : WorkspaceEntry → Prop
  | .file _ digest sizeBytes _ => sizeBytes.toNat ≤ maxBlobBytes ∧ fates (.stored digest) = .happens ∧
      (∃ content, blobs digest = some content ∧ content.length = sizeBytes.toNat) ∧ fates (.verify digest) = .happens
  | _ => True

theorem checkManifest_reads (s : Disk) : (checkManifest m req s).2 = s := by
  refine Keeps.guard (I := fun t => t = s) (.guard ?_) s rfl
  cases m.digest req.manifest with
  | none => exact .fail _
  | some digest => exact .pure _

theorem checkQuota_reads (s : Disk) : (checkQuota m fates req s).2 = s := by
  refine Keeps.bind (I := fun t => t = s) (.attempt _) (fun _ => .bind (.get _) fun used => ?_) s rfl
  split
  · exact .fail _
  · exact .pure _

theorem checkBlobs_reads (s : Disk) : (req.manifest.entries.forM (checkBlob fates) s).2 = s := by
  refine Keeps.forM (I := fun t => t = s) (fun e _ => ?_) s rfl
  cases e with
  | directory path | symlink path tgt => exact .pure _
  | file path digest sizeBytes executable =>
    refine .guard (.bind (.attempt _) fun _ => .bind (.get _) fun content => ?_)
    cases content with
    | none => exact fun _ => id
    | some content => exact .guard (.attempt _)

/-! ### The stages -/

/-- Every check passes and the references are committed. -/
structure Retains (m : Manager) (fates : Fates) (req : MaterializeRequest) (d : Disk) : Prop where
  valid : req.manifest.validate.isOk = true
  fits : req.manifest.logicalBytes ≤ m.quotaBytes
  digest : (m.digest req.manifest).isSome = true
  lookup : fates .lookup = .happens
  used : fates .used = .happens
  room : saturating ((d.workspaces.rows.map fun entry => entry.2.logicalBytes).sum + req.manifest.logicalBytes) ≤
    m.quotaBytes
  vouched : ∀ entry ∈ req.manifest.entries, Vouched fates d.blobs entry
  retain : fates .retain = .happens

theorem mem_digestsOf {manifest : WorkspaceManifest} {digest : BlobDigest} :
    digest ∈ digestsOf manifest ↔ ∃ path size executable, .file path digest size executable ∈ manifest.entries := by
  rw [digestsOf, mem_dedup, mem_filterMap]
  constructor
  · rintro ⟨e, hentry, he⟩
    cases e with
    | file path digest size executable =>
      cases he
      exact ⟨path, size, executable, hentry⟩
    | directory path | symlink path tgt => cases he
  · rintro ⟨path, size, executable, hentry⟩
    exact ⟨_, hentry, rfl⟩

/-- The references that the first transaction writes. -/
def Disk.retained (kind : OwnerKind) (owner : String) (digests : List BlobDigest) (expires : Option Nat) (d : Disk) : Disk :=
  { d with references := digests.foldl (fun t digest => t.put (kind, owner, digest) expires) d.references }

theorem Disk.retain_eq_some {kind : OwnerKind} {owner : String} {digests : List BlobDigest} {expires : Option Nat} :
    d.retain kind owner digests expires = some d' ↔
      (∀ digest ∈ digests, (d.blobs digest).isSome = true) ∧ d' = d.retained kind owner digests expires := by
  unfold Disk.retain
  split
  · rename_i hall
    rw [all_eq_true] at hall
    exact ⟨fun h => ⟨hall, (Option.some.inj h).symm⟩, fun h => congrArg some h.2.symm⟩
  · rename_i hall
    rw [all_eq_true] at hall
    exact ⟨nofun, fun h => absurd h.1 hall⟩

theorem get?_foldl_put (kind : OwnerKind) (owner : String) (digests : List BlobDigest) (exp : Option Nat)
    (t : Table ReferenceKey (Option Nat)) (k : ReferenceKey) :
    (digests.foldl (fun t digest => t.put (kind, owner, digest) exp) t).get? k =
      if k.1 = kind ∧ k.2.1 = owner ∧ k.2.2 ∈ digests then some exp else t.get? k := by
  induction digests generalizing t with
  | nil => simp
  | cons digest rest ih =>
    rw [foldl_cons, ih, get?_put]
    obtain ⟨kind', owner', digest'⟩ := k
    by_cases hrest : kind' = kind ∧ owner' = owner ∧ digest' ∈ rest
    · rw [if_pos hrest, if_pos ⟨hrest.1, hrest.2.1, mem_cons_of_mem _ hrest.2.2⟩]
    rw [if_neg hrest]
    by_cases he : (kind', owner', digest') = (kind, owner, digest)
    · cases he
      simp
    rw [if_neg he, if_neg]
    rintro ⟨rfl, rfl, hm⟩
    rcases mem_cons.mp hm with rfl | hm
    · exact he rfl
    · exact hrest ⟨rfl, rfl, hm⟩

theorem Retains.stored (h : Retains m fates req d) : ∀ digest ∈ digestsOf req.manifest, (d.blobs digest).isSome = true := by
  intro digest hd
  obtain ⟨path, size, executable, he⟩ := mem_digestsOf.mp hd
  obtain ⟨_, _, ⟨content, hb, _⟩, _⟩ := h.vouched _ he
  rw [hb]
  rfl

/-- The disk with the references of the call. -/
def MaterializeRequest.retained (req : MaterializeRequest) (d : Disk) : Disk :=
  d.retained .workspace req.workspaceId.value (digestsOf req.manifest) (some req.expires)

/-- What `store_manifest` leaves alone. -/
structure Spares (s t : Disk) : Prop where
  workspaces : t.workspaces = s.workspaces
  directories : t.directories = s.directories
  blobs : t.blobs = s.blobs
  references : ∀ owner digest, t.references.get? (.workspace, owner, digest) = s.references.get? (.workspace, owner, digest)

/-- Nothing is left of the call. -/
structure NoTrace (req : MaterializeRequest) (d : Disk) : Prop where
  row : d.workspaces.get? req.workspaceId = none
  stage : d.directories.get? req.stage = none
  target : d.directories.get? req.target = none
  references : ∀ digest, d.references.get? (.workspace, req.workspaceId.value, digest) = none

theorem stage_ne_target (req : MaterializeRequest) : req.stage ≠ req.target := by
  intro h
  have hhead := congrArg (fun name : String => name.toList.head?) h
  simp [MaterializeRequest.stage, MaterializeRequest.target] at hhead

theorem get?_removeDirectory (name other : String) :
    (d.removeDirectory name).directories.get? other = if other = name then none else d.directories.get? other := by
  rw [Disk.removeDirectory, get?_delete]
  simp

theorem get?_putDirectory (name other : String) (tree : FileSystem) :
    (d.putDirectory name tree).directories.get? other = if other = name then some tree else d.directories.get? other :=
  get?_put ..

/-- What the clean-up does once it succeeds. -/
def Disk.discarded (req : MaterializeRequest) (directory : String) (d : Disk) : Disk :=
  (d.removeDirectory directory).releaseReferences .workspace req.workspaceId.value

/-- The clean-up of one of the two directories, where the other is not there. -/
theorem noTrace_discarded (hr : d.workspaces.get? req.workspaceId = none)
    (ho : ∀ name, name = req.stage ∨ name = req.target → name ≠ dir → d.directories.get? name = none) :
    NoTrace req (d.discarded req dir) := by
  have hgone : ∀ name, name = req.stage ∨ name = req.target → (d.discarded req dir).directories.get? name = none := by
    intro name hname
    show (d.removeDirectory dir).directories.get? name = none
    rw [get?_removeDirectory]
    split
    · rfl
    · rename_i hne
      exact ho name hname hne
  refine ⟨hr, hgone _ (.inl rfl), hgone _ (.inr rfl), fun digest => ?_⟩
  show ((d.removeDirectory dir).releaseReferences .workspace req.workspaceId.value).references.get? _ = none
  rw [Disk.releaseReferences, get?_delete, if_pos]
  simp [ownedBy]

/-- Before the rename: the row and the target are not there. -/
def Staged (req : MaterializeRequest) (d : Disk) : Prop :=
  d.workspaces.get? req.workspaceId = none ∧ d.directories.get? req.target = none

/-- After it: the row and the stage are not there. -/
def Moved (req : MaterializeRequest) (d : Disk) : Prop :=
  d.workspaces.get? req.workspaceId = none ∧ d.directories.get? req.stage = none

theorem Staged.discarded (h : Staged req d) : NoTrace req (d.discarded req req.stage) :=
  noTrace_discarded h.1 fun _ hname hne => (hname.resolve_left hne) ▸ h.2

theorem Moved.discarded (h : Moved req d) : NoTrace req (d.discarded req req.target) :=
  noTrace_discarded h.1 fun _ hname hne => (hname.resolve_right hne) ▸ h.2

theorem Staged.putDirectory (h : Staged req d) (tree : FileSystem) : Staged req (d.putDirectory req.stage tree) := by
  refine ⟨h.1, ?_⟩
  rw [get?_putDirectory, if_neg (stage_ne_target req).symm]
  exact h.2

theorem Staged.rename (h : Staged req d) (hr : d.rename req.stage req.target = some d') : Moved req d' := by
  obtain ⟨tree, _, rfl⟩ := Option.map_eq_some_iff.mp hr
  refine ⟨h.1, ?_⟩
  rw [get?_putDirectory, if_neg (stage_ne_target req), get?_removeDirectory, if_pos rfl]

end

namespace Example
open Sample

def request : MaterializeRequest := ⟨⟨"ws", by decide⟩, execution, ⟨1⟩, principal, manifest, 0, "1"⟩

def disk : Disk := ⟨Table.empty, Table.empty, threeBytes, Table.empty, Table.empty⟩

end Example

open Example

end Eggwork.Workspace
