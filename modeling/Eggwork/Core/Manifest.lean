import Eggwork.Core.Paths
import Eggwork.Lib.Table
import Mathlib.Algebra.GroupWithZero.Nat

/-! The workspace manifest and its check.

`WorkspaceManifest.validate` is one scan over the entries with two running totals
and two sets, then a walk over the ancestors of each path. `Accepted` says what it
is for, with no order of entries in it. -/
namespace Eggwork
open Lib List Nat Table

variable {parentEnd : Nat}

def maxWorkspaceEntries : Nat := 4096
def maxWorkspacePathBytes : Nat := 1024 * 1024
def maxWorkspaceLogicalBytes : Nat := 2 * 1024 * 1024 * 1024

def lowerHex (c : Char) : Bool := c.isDigit || decide ('a' ≤ c ∧ c ≤ 'f')

/-- A SHA-256 digest in lower-case hexadecimal. -/
structure BlobDigest where
  value : String
  valid : (decide (value.utf8ByteSize = 64) && value.toList.all lowerHex) = true
deriving DecidableEq, Repr

inductive WorkspaceEntry where
  | directory (path : RelativePath)
  | file (path : RelativePath) (digest : BlobDigest) (sizeBytes : UInt64) (executable : Bool)
  | symlink (path : RelativePath) (target : String)
deriving DecidableEq, Repr

variable {entries : List WorkspaceEntry} {entry : WorkspaceEntry}

namespace WorkspaceEntry

def path : WorkspaceEntry → RelativePath
  | directory path | file path _ _ _ | symlink path _ => path

def isDirectory : WorkspaceEntry → Bool
  | directory _ => true
  | _ => false

def isSymlink : WorkspaceEntry → Bool
  | symlink _ _ => true
  | _ => false

/-- The bytes the entry's content takes. -/
def logicalBytes : WorkspaceEntry → Nat
  | file _ _ sizeBytes _ => sizeBytes.toNat
  | _ => 0

end WorkspaceEntry

structure WorkspaceManifest where
  schemaVersion : UInt16
  entries : List WorkspaceEntry
deriving DecidableEq, Repr

/-! ### The check -/

/-- What an unsigned 64-bit sum saturates to. -/
def saturating (n : Nat) : Nat := min n (2 ^ 64 - 1)

def asciiLower (s : String) : String := String.ofList (s.toList.map Char.toLower)

/-- What the scan has seen so far. -/
structure Scan where
  paths : Table String Bool
  folded : List String
  totalPathBytes : Nat
  totalFileBytes : Nat

def Scan.empty : Scan := ⟨Table.empty, [], 0, 0⟩

/-- The content of an entry is counted; a symlink is refused. -/
def Scan.weigh (s : Scan) : WorkspaceEntry → Except ValidationError Scan
  | .file _ _ sizeBytes _ =>
    let totalFileBytes := saturating (s.totalFileBytes + sizeBytes.toNat)
    if totalFileBytes > maxWorkspaceLogicalBytes then throw (.outOfRange "workspace logical bytes")
    else pure { s with totalFileBytes }
  | .symlink _ _ => throw (.forbidden "workspace symlink")
  | .directory _ => pure s

def Scan.visit (s : Scan) (entry : WorkspaceEntry) : Except ValidationError Scan := do
  let rawPath := entry.path.value
  validatePortableWorkspacePath rawPath
  let totalPathBytes := saturating (s.totalPathBytes + rawPath.utf8ByteSize)
  if totalPathBytes > maxWorkspacePathBytes then throw (.outOfRange "workspace path bytes")
  if asciiLower rawPath ∈ s.folded then throw (.invalidSyntax "workspace case collision")
  if (s.paths.get? rawPath).isSome then throw (.invalidSyntax "duplicate workspace path")
  let seen : Scan :=
    ⟨s.paths.put rawPath entry.isDirectory, s.folded ++ [asciiLower rawPath], totalPathBytes, s.totalFileBytes⟩
  seen.weigh entry

/-- The walk over the ancestors of a path: from `parentEnd` on, each slash ends one. -/
def checkParents (paths : Table String Bool) (path : List Char) (parentEnd : Nat) : Except ValidationError Unit :=
  match h : (path.drop parentEnd).idxOf? '/' with
  | none => .ok ()
  | some relative =>
    if paths.get? (String.ofList (path.take (parentEnd + relative))) ≠ some true then
      .error (.invalidPath "workspace parent directory")
    else checkParents paths path (parentEnd + relative + 1)
termination_by path.length - parentEnd
decreasing_by
  have hfound := List.findIdx?_eq_some_iff_getElem.mp h
  obtain ⟨hbound, _⟩ := hfound
  rw [List.length_drop] at hbound
  omega

def WorkspaceManifest.validate (m : WorkspaceManifest) : Except ValidationError Unit := do
  if m.schemaVersion ≠ 1 then throw (.outOfRange "workspace schema version")
  if m.entries.length > maxWorkspaceEntries then throw (.tooMany "workspace entries" maxWorkspaceEntries)
  let scan ← m.entries.foldlM Scan.visit Scan.empty
  m.entries.forM fun entry => checkParents scan.paths entry.path.value.toList 0

def WorkspaceManifest.logicalBytes (m : WorkspaceManifest) : Nat :=
  m.entries.foldl (fun total entry => saturating (total + entry.logicalBytes)) 0

variable {m : WorkspaceManifest}

/-! ### What it accepts -/

/-- What the scan asks of the entries, whatever their order. -/
structure Admitted (entries : List WorkspaceEntry) : Prop where
  portable : ∀ entry ∈ entries, Portable entry.path.value
  pathBytes : (entries.map fun entry => entry.path.value.utf8ByteSize).sum ≤ maxWorkspacePathBytes
  fileBytes : (entries.map WorkspaceEntry.logicalBytes).sum ≤ maxWorkspaceLogicalBytes
  unlinked : ∀ entry ∈ entries, entry.isSymlink = false
  distinct : (entries.map fun entry => asciiLower entry.path.value).Nodup

/-- Every proper ancestor of every path is listed as a directory. -/
def Parented (entries : List WorkspaceEntry) : Prop :=
  ∀ entry ∈ entries, ∀ ancestor, IsAncestor ancestor entry.path.value →
    ∃ parent ∈ entries, parent.isDirectory = true ∧ parent.path.value = ancestor

/-- A tree of portable paths within the bounds, closed under parents. -/
structure Accepted (m : WorkspaceManifest) : Prop where
  version : m.schemaVersion = 1
  count : m.entries.length ≤ maxWorkspaceEntries
  admitted : Admitted m.entries
  parented : Parented m.entries

/-! ### The scan -/

theorem saturating_of_le {n bound : Nat} (h : saturating n ≤ bound) (hb : bound < 2 ^ 64 - 1) : saturating n = n := by
  unfold saturating at *
  omega

theorem saturating_le {n bound : Nat} (hb : bound < 2 ^ 64 - 1) : saturating n ≤ bound ↔ n ≤ bound := by
  unfold saturating
  omega

/-- The map the scan builds. -/
def listing (entries : List WorkspaceEntry) : Table String Bool :=
  Table.collect (fun entry => entry.path.value) WorkspaceEntry.isDirectory entries

/-- What the scan holds after the entries, if it went that far. -/
def Scan.of (entries : List WorkspaceEntry) : Scan :=
  ⟨listing entries, entries.map fun entry => asciiLower entry.path.value,
    (entries.map fun entry => entry.path.value.utf8ByteSize).sum, (entries.map WorkspaceEntry.logicalBytes).sum⟩

theorem Admitted.append {rest : List WorkspaceEntry} (h : Admitted (entries ++ rest)) : Admitted entries where
  portable := fun entry he => h.portable entry (mem_append_left _ he)
  pathBytes := by
    have hsum := h.pathBytes
    rw [map_append, sum_append_nat] at hsum
    exact le_of_add_right_le hsum
  fileBytes := by
    have hsum := h.fileBytes
    rw [map_append, sum_append_nat] at hsum
    exact le_of_add_right_le hsum
  unlinked := fun entry he => h.unlinked entry (mem_append_left _ he)
  distinct := (nodup_append'.mp (map_append ▸ h.distinct)).1

/-- What one more entry has to be. -/
theorem admitted_append_singleton (h : Admitted entries) : Admitted (entries ++ [entry]) ↔ Portable entry.path.value ∧
      (Scan.of entries).totalPathBytes + entry.path.value.utf8ByteSize ≤ maxWorkspacePathBytes ∧
      asciiLower entry.path.value ∉ (Scan.of entries).folded ∧
      (Scan.of entries).totalFileBytes + entry.logicalBytes ≤ maxWorkspaceLogicalBytes ∧ entry.isSymlink = false := by
  constructor
  · rintro ⟨hportable, hp, hfs, hl, hd⟩
    rw [map_append, sum_append_nat, map_singleton, sum_singleton] at hp hfs
    rw [map_append, nodup_append'] at hd
    have hlast : entry ∈ entries ++ [entry] := mem_append_right _ (mem_singleton_self _)
    exact ⟨hportable _ hlast, hp, fun hold => hd.2.2 hold (mem_singleton_self _), hfs, hl _ hlast⟩
  rintro ⟨hportable, hp, hd, hfs, hl⟩
  refine ⟨?_, ?_, ?_, ?_, ?_⟩
  · exact forall_mem_append.mpr ⟨h.portable, forall_mem_singleton.mpr hportable⟩
  · rwa [map_append, sum_append_nat, map_singleton, sum_singleton]
  · rwa [map_append, sum_append_nat, map_singleton, sum_singleton]
  · exact forall_mem_append.mpr ⟨h.unlinked, forall_mem_singleton.mpr hl⟩
  · rw [map_append, nodup_append']
    exact ⟨h.distinct, nodup_singleton _, disjoint_singleton.mpr hd⟩

theorem Scan.of_append (entries : List WorkspaceEntry) (entry : WorkspaceEntry) : Scan.of (entries ++ [entry]) =
      ⟨(Scan.of entries).paths.put entry.path.value entry.isDirectory,
        (Scan.of entries).folded ++ [asciiLower entry.path.value],
        (Scan.of entries).totalPathBytes + entry.path.value.utf8ByteSize,
        (Scan.of entries).totalFileBytes + entry.logicalBytes⟩ := by
  simp only [Scan.of, listing, collect_append, map_append, sum_append_nat, map_singleton, sum_singleton]

theorem unlisted_of_unfolded {path : String} (h : asciiLower path ∉ (Scan.of entries).folded) :
    (Scan.of entries).paths.get? path = none :=
  (collect_eq_none _ _).mpr fun _ hentry he => h (mem_map.mpr ⟨_, hentry, by rw [he]⟩)

theorem Scan.weigh_ok {s t : Scan} (h : s.totalFileBytes ≤ maxWorkspaceLogicalBytes) :
    s.weigh entry = .ok t ↔ (s.totalFileBytes + entry.logicalBytes ≤ maxWorkspaceLogicalBytes ∧ entry.isSymlink = false) ∧
      t = { s with totalFileBytes := s.totalFileBytes + entry.logicalBytes } := by
  have hb : maxWorkspaceLogicalBytes < 2 ^ 64 - 1 := by decide
  cases entry with
  | directory path => exact ⟨fun hok => ⟨⟨h, rfl⟩, (pure_eq_ok.mp hok).symm⟩, fun hr => pure_eq_ok.mpr hr.2.symm⟩
  | symlink path tgt => exact ⟨fun hok => (nomatch hok), fun hr => (nomatch hr.1.2)⟩
  | file path digest sizeBytes executable =>
    simp only [Scan.weigh, throwing_eq_ok, pure_eq_ok, gt_iff_lt, Nat.not_lt]
    constructor
    · rintro ⟨hle, rfl⟩
      exact ⟨⟨(saturating_le hb).mp hle, rfl⟩, by rw [saturating_of_le hle hb]; rfl⟩
    rintro ⟨⟨hle, _⟩, rfl⟩
    have hle := (saturating_le hb).mpr hle
    exact ⟨hle, by rw [← saturating_of_le hle hb]; rfl⟩

/-- One step of the scan goes through exactly when the entry may follow what was seen. -/
theorem Scan.visit_ok {s : Scan} (h : Admitted entries) :
    (Scan.of entries).visit entry = .ok s ↔ Admitted (entries ++ [entry]) ∧ s = Scan.of (entries ++ [entry]) := by
  rw [admitted_append_singleton h, Scan.of_append]
  unfold Scan.visit
  have hb : maxWorkspacePathBytes < 2 ^ 64 - 1 := by decide
  have hfs : (Scan.of entries).totalFileBytes ≤ maxWorkspaceLogicalBytes := h.fileBytes
  simp only [bind_eq_ok, guard_eq_ok, gt_iff_lt, Nat.not_lt, saturating_le hb]
  constructor
  · rintro ⟨_, hportable, hp, hf, _, hweig⟩
    obtain ⟨hw, rfl⟩ := (Scan.weigh_ok (by exact hfs)).mp hweig
    refine ⟨⟨validatePortableWorkspacePath_ok.mp hportable, hp, hf, hw⟩, ?_⟩
    rw [saturating_of_le ((saturating_le hb).mpr hp) hb]
  · rintro ⟨⟨hportable, hp, hf, hw⟩, rfl⟩
    have hnew := unlisted_of_unfolded hf
    refine ⟨(), validatePortableWorkspacePath_ok.mpr hportable, hp, hf, by rw [hnew]; exact Bool.false_ne_true, ?_⟩
    refine (Scan.weigh_ok (by exact hfs)).mpr ⟨hw, ?_⟩
    rw [saturating_of_le ((saturating_le hb).mpr hp) hb]

/-! ### Parents -/

theorem next_slash {path : List Char} {relative : Nat} (h : (path.drop parentEnd).idxOf? '/' = some relative) :
    path[parentEnd + relative]? = some '/' ∧ ∀ i, parentEnd ≤ i → path[i]? = some '/' → parentEnd + relative ≤ i := by
  obtain ⟨hbound, hs, hb⟩ := List.findIdx?_eq_some_iff_getElem.mp h
  rw [getElem_drop, beq_iff_eq] at hs
  refine ⟨List.getElem?_eq_some_iff.mpr ⟨_, hs⟩, fun i hi hat => ?_⟩
  by_contra hlate
  have hnot := hb (i - parentEnd) (by omega)
  rw [getElem_drop, beq_iff_eq] at hnot
  refine hnot (getElem_eq_iff .. |>.mpr ?_)
  rw [← hat]
  congr 1
  omega

theorem last_slash {path : List Char} (h : (path.drop parentEnd).idxOf? '/' = none) (i : Nat) (hi : parentEnd ≤ i) :
    path[i]? ≠ some '/' := by
  intro hat
  refine List.idxOf?_eq_none_iff.mp h (mem_of_getElem? (i := i - parentEnd) ?_)
  rw [List.getElem?_drop, ← hat]
  congr 1
  omega

/-- The walk goes through exactly when each slash from there on ends a listed directory. -/
theorem checkParents_ok {paths : Table String Bool} {path : List Char} : checkParents paths path parentEnd = .ok () ↔
      ∀ i, parentEnd ≤ i → path[i]? = some '/' → paths.get? (String.ofList (path.take i)) = some true := by
  fun_induction checkParents paths path parentEnd with
  | case1 parentEnd hn => exact ⟨fun _ i hi hat => absurd hat (last_slash hn i hi), fun _ => rfl⟩
  | case2 parentEnd relative hsome hm =>
    exact ⟨fun h => (nomatch h), fun h => absurd (h _ (Nat.le_add_right _ _) (next_slash hsome).1) hm⟩
  | case3 parentEnd relative hsome hlisted ih =>
    rw [ih]
    constructor
    · intro h i hi hat
      rcases Nat.eq_or_lt_of_le ((next_slash hsome).2 i hi hat) with rfl | hl
      · exact Decidable.not_not.mp hlisted
      · exact h i hl hat
    · exact fun h i hi hat => h i (by omega) hat

theorem forall_isAncestor {path : String} {P : String → Prop} :
    (∀ i, path.toList[i]? = some '/' → P (String.ofList (path.toList.take i))) ↔
      ∀ ancestor, IsAncestor ancestor path → P ancestor := by
  constructor
  · intro h ancestor ha
    obtain ⟨rest, hpath⟩ := isAncestor_iff.mp ha
    have hat : path.toList[ancestor.toList.length]? = some '/' := by
      rw [hpath, List.getElem?_append_right (Nat.le_refl _), Nat.sub_self]
      rfl
    have htake : path.toList.take ancestor.toList.length = ancestor.toList := by rw [hpath, take_left]
    simpa only [htake, String.ofList_toList] using h _ hat
  · intro h i hat
    refine h _ (isAncestor_iff.mpr ⟨path.toList.drop (i + 1), ?_⟩)
    obtain ⟨hi, hs⟩ := List.getElem?_eq_some_iff.mp hat
    rw [String.toList_ofList, ← hs, getElem_cons_drop, take_append_drop]

theorem Admitted.nodup (h : Admitted entries) : (entries.map fun entry => entry.path.value).Nodup :=
  List.Nodup.of_map asciiLower (by rw [map_map]; exact h.distinct)

theorem validate_eq_ok :
    m.validate = .ok () ↔ m.schemaVersion = 1 ∧ m.entries.length ≤ maxWorkspaceEntries ∧ Admitted m.entries ∧
      ∀ entry ∈ m.entries, checkParents (listing m.entries) entry.path.value.toList 0 = .ok () := by
  have he : Admitted [] := ⟨by simp, by simp, by simp, by simp, by simp⟩
  unfold WorkspaceManifest.validate
  simp only [guard_eq_ok, bind_eq_ok, forM_eq_ok, Decidable.not_not, gt_iff_lt, Nat.not_lt]
  refine and_congr_right fun _ => and_congr_right fun _ => ?_
  have hscan {scan : Scan} : m.entries.foldlM Scan.visit Scan.empty = .ok scan ↔ Admitted m.entries ∧ scan = Scan.of m.entries :=
    foldlM_eq_ok Scan.of Admitted Scan.visit_ok Admitted.append he
  simp only [hscan, and_assoc, exists_and_left, exists_eq_left]
  rfl

theorem validate_ok : m.validate = .ok () ↔ Accepted m := by
  have hp (h : Admitted m.entries) :
      (∀ entry ∈ m.entries, checkParents (listing m.entries) entry.path.value.toList 0 = .ok ()) ↔ Parented m.entries := by
    simp only [checkParents_ok, zero_le, true_implies, listing, collect_eq_some _ _ h.nodup]
    exact forall₂_congr fun entry _ =>
      forall_isAncestor (P := fun ancestor => ∃ parent ∈ m.entries, parent.isDirectory = true ∧ parent.path.value = ancestor)
  rw [validate_eq_ok]
  constructor
  · rintro ⟨hv, hc, ha, hwalk⟩
    exact ⟨hv, hc, ha, (hp ha).mp hwalk⟩
  · rintro ⟨hv, hc, ha, hparent⟩
    exact ⟨hv, hc, ha, (hp ha).mpr hparent⟩

theorem foldl_saturating_le {α : Type} (f : α → Nat) (l : List α) (start : Nat) :
    l.foldl (fun total a => saturating (total + f a)) start ≤ start + (l.map f).sum := by
  induction l generalizing start with
  | nil => simp
  | cons a rest ih =>
    have hs : saturating (start + f a) ≤ start + f a := Nat.min_le_left _ _
    simp only [foldl_cons, map_cons, sum_cons]
    have hrest := ih (saturating (start + f a))
    omega

theorem logicalBytes_le (h : m.validate = .ok ()) : m.logicalBytes ≤ maxWorkspaceLogicalBytes := by
  have hsum := foldl_saturating_le WorkspaceEntry.logicalBytes m.entries 0
  rw [Nat.zero_add] at hsum
  exact Nat.le_trans hsum (validate_ok.mp h).admitted.fileBytes

/-- Validation is exact: it accepts the bounded trees of portable paths that are
closed under parents, and nothing else. -/
theorem validate_exact (m : WorkspaceManifest) : m.validate = .ok () ↔ m.schemaVersion = 1 ∧ m.entries.length ≤ 4096 ∧
      (m.entries.map fun entry => entry.path.value.utf8ByteSize).sum ≤ 1024 * 1024 ∧
      (m.entries.map WorkspaceEntry.logicalBytes).sum ≤ 2 * 1024 * 1024 * 1024 ∧
      (∀ entry ∈ m.entries, entry.isSymlink = false) ∧ (∀ entry ∈ m.entries, Portable entry.path.value) ∧
      (m.entries.map fun entry => asciiLower entry.path.value).Nodup ∧
      ∀ entry ∈ m.entries, ∀ ancestor, IsAncestor ancestor entry.path.value →
        ∃ path, .directory path ∈ m.entries ∧ path.value = ancestor := by
  have hdirectory (ancestor : String) : (∃ path, .directory path ∈ m.entries ∧ path.value = ancestor) ↔
      ∃ parent ∈ m.entries, parent.isDirectory = true ∧ parent.path.value = ancestor := by
    constructor
    · rintro ⟨path, hpath, he⟩
      exact ⟨_, hpath, rfl, he⟩
    rintro ⟨parent, hparent, hdir, he⟩
    cases parent with
    | directory path => exact ⟨path, hparent, he⟩
    | file path digest sizeBytes executable | symlink path target => cases hdir
  simp only [hdirectory]
  rw [validate_ok]
  constructor
  · rintro ⟨hversion, hcount, ⟨hportable, hpaths, hfiles, hlinks, hdistinct⟩, hparented⟩
    exact ⟨hversion, hcount, hpaths, hfiles, hlinks, hportable, hdistinct, hparented⟩
  · rintro ⟨hversion, hcount, hpaths, hfiles, hlinks, hportable, hdistinct, hparented⟩
    exact ⟨hversion, hcount, ⟨hportable, hpaths, hfiles, hlinks, hdistinct⟩, hparented⟩

namespace Sample

def source : RelativePath := ⟨"src", by with_unfolding_all decide⟩
def sourceMain : RelativePath := ⟨"src/main.rs", by with_unfolding_all decide⟩
def sourceNotes : RelativePath := ⟨"src.md", by with_unfolding_all decide⟩

def blob : BlobDigest := ⟨"".pushn 'a' 64, by decide⟩

/-- A directory, a file below it, and a file that sorts between the two. -/
def manifest : WorkspaceManifest :=
  ⟨1, [.file sourceMain blob 3 true, .file sourceNotes blob 3 false, .directory source]⟩

end Sample

end Eggwork
