import Eggwork.Artifact.Store
import Eggwork.Server.Handlers
import Eggwork.Store.Encoding
import Eggwork.Workspace.Calls

/-! What a principal reads of the node depends on its own rows only.

Executions, artifacts and retained manifests are read under the authenticated
principal; identifiers, generations and manifest digests may be shared with others.
Two nodes that differ in the rows of others answer alike (`reads_own_rows`), also
where a lookup reaps a manifest whose blobs are gone. -/
namespace Eggwork.Server.Reads
open Lib Store List Table Prod Program.Uses Workspace

variable {J : Serde} {C : Codec Artifact.ArtifactRecord}
variable {s t : Workspace.Site}

/-- What the reads look at. -/
structure NodeData (J : Serde) (C : Codec Artifact.ArtifactRecord) where
  store : ExecutionStore J
  artifacts : Artifact.ArtifactStore C
  disk : Workspace.Disk
  clock : Nat

/-! ### Observing an execution -/

/-- The value of the one pair with the name; `none` for a query that is not valid. -/
def queryParameter (query : Option (List Char)) (name : List Char) : Option (Option (List Char)) :=
  match query with
  | none => some none
  | some query => (query.splitOn '&').foldlM (pair name) none
where
  pair (name : List Char) (found : Option (List Char)) (text : List Char) : Option (Option (List Char)) :=
    let key := text.takeWhile (· != '=')
    match text.dropWhile (· != '=') with
    | [] => none
    | _ :: value =>
      if key = name then if found.isSome then none else some (some value)
      else if key ≠ "generation".toList ∧ key ≠ "after".toList ∧ key ≠ "lease".toList then none
      else some found

/-- `str::parse::<u64>`: digits, after a sign that is plus. -/
def parseU64 (text : List Char) : Option UInt64 :=
  let digits := if text.head? = some '+' then text.tail else text
  if digits ≠ [] ∧ digits.all Char.isDigit then
    let value := digits.foldl (fun n c => 10 * n + (c.toNat - '0'.toNat)) 0
    if value < 2 ^ 64 then some value.toUInt64 else none
  else none

def parseGeneration (text : List Char) : Option ExecutionGeneration :=
  (parseU64 text).bind fun value => (ExecutionGeneration.new value).toOption

def observe (node : NodeData J C) (id : ExecutionId) (query : Option (List Char)) (principal : PrincipalId) : Response :=
  match queryParameter query "generation".toList with
  | none => .error 400 "invalid_request" "query is invalid"
  | some none => answer none
  | some (some value) =>
    match parseGeneration value with
    | none => .error 400 "invalid_request" "generation is invalid"
    | some generation => answer (some generation)
where
  answer (generation : Option ExecutionGeneration) : Response :=
    match node.store.loadSnapshotForPrincipal id generation principal.value with
    | .error _ => storeUnavailable
    | .ok (some snapshot) => .snapshot 200 snapshot
    | .ok none => executionNotFound

/-! ### The other reads -/

def list (node : NodeData J C) (id : ExecutionId) (generation : ExecutionGeneration) (principal : PrincipalId) :
    Except Artifact.ArtifactError (List Artifact.ArtifactRecord) :=
  node.artifacts.list node.clock id generation principal

def get (node : NodeData J C) (id : Artifact.ArtifactId) (principal : PrincipalId) :
    Except Artifact.ArtifactError Artifact.ArtifactRecord :=
  node.artifacts.get node.clock id principal

/-- What `lookup_manifest` returns, run by itself on given outcomes of its steps. -/
def lookupManifest (m : Workspace.Manager) (node : NodeData J C) (principal : PrincipalId) (digest : BlobDigest)
    (choices : List Workspace.Choice) : Option (Except WorkspaceError (Option WorkspaceManifest)) :=
  ((Workspace.Calls.lookupManifest principal digest).run.play (fun s choice o => Workspace.perform m s 0 choice o)
    ⟨node.disk, node.clock, none, none, none⟩ choices).map Prod.fst

/-! ### Agreement -/

/-- The two nodes agree on the principal's rows, on the sizes of blobs and on the clock. -/
structure Agree (principal : PrincipalId) (a b : NodeData J C) : Prop where
  executions : ∀ key row, row.principalId = principal.value →
    (a.store.executions.get? key = some row ↔ b.store.executions.get? key = some row)
  artifacts : ∀ id row, row.principalId = principal →
    (Table.get? a.artifacts id = some row ↔ Table.get? b.artifacts id = some row)
  manifests : ∀ digest, a.disk.manifests.get? (principal, digest) = b.disk.manifests.get? (principal, digest)
  sizes : ∀ digest, (a.disk.blobs digest).map List.length = (b.disk.blobs digest).map List.length
  clock : a.clock = b.clock

section
variable {principal : PrincipalId} {a b : NodeData J C}

/-- The latest generation of the principal's own, whoever owns others. -/
theorem Agree.load (h : Agree principal a b) (id : ExecutionId) (gen : Option ExecutionGeneration) :
    a.store.loadSnapshotForPrincipal id gen principal.value =
      b.store.loadSnapshotForPrincipal id gen principal.value := by
  cases gen with
  | some gen =>
    have hr := Table.get?_filter_eq (k := (id, gen.asI64)) (p := fun row => row.principalId == principal.value)
      fun row hown => h.executions _ row (beq_iff_eq.mp hown)
    simp only [ExecutionStore.loadSnapshotForPrincipal, hr]
  | none =>
    have hperm : (a.store.executions.rows.filter fun row => row.2.principalId == principal.value && row.1.1 == id).Perm
        (b.store.executions.rows.filter fun row => row.2.principalId == principal.value && row.1.1 == id) :=
      filter_perm fun key row hown => h.executions key row (beq_iff_eq.mp (Bool.and_eq_true_iff.mp hown).1)
    have hk : ∀ x ∈ a.store.executions.rows.filter fun row => row.2.principalId == principal.value && row.1.1 == id,
        ∀ y ∈ a.store.executions.rows.filter fun row => row.2.principalId == principal.value && row.1.1 == id,
        x.1.2 = y.1.2 → x = y := by
      rintro ⟨⟨_, g⟩, row⟩ hx ⟨⟨_, _⟩, row'⟩ hy rfl
      simp only [mem_filter, mem_rows, Bool.and_eq_true, beq_iff_eq] at hx hy
      obtain ⟨hx, _, rfl⟩ := hx
      obtain ⟨hy, _, rfl⟩ := hy
      rw [Option.some.inj (hx.symm.trans hy)]
    simp only [ExecutionStore.loadSnapshotForPrincipal, ExecutionStore.generations, Table.select, filter_filter,
      maxOn?_eq_of_perm hk hperm]

theorem Agree.observe (h : Agree principal a b) (id : ExecutionId) (query : Option (List Char)) :
    observe a id query principal = observe b id query principal := by
  have ha : observe.answer a id principal = observe.answer b id principal := by
    funext generation
    rw [observe.answer, observe.answer, h.load]
  unfold Reads.observe
  rw [ha]

theorem Agree.list (h : Agree principal a b) (id : ExecutionId) (gen : ExecutionGeneration) :
    list a id gen principal = list b id gen principal := by
  let selects (e : Artifact.ArtifactId × Artifact.ArtifactRow C) : Bool :=
    decide (e.2.executionId = id ∧ e.2.generation = gen.asI64 ∧
      e.2.principalId = principal ∧ b.clock < e.2.expiresUnixMs)
  have hperm : (List.filter selects a.artifacts.rows).Perm (List.filter selects b.artifacts.rows) :=
    filter_perm fun key row hown => h.artifacts key row (of_decide_eq_true hown).2.2.1
  have hs : sortBy (fun e => e.1.value) (List.filter selects a.artifacts.rows) =
      sortBy (fun e => e.1.value) (List.filter selects b.artifacts.rows) := by
    refine sortBy_eq_of_perm (fun x hx y hy hv => ?_) hperm
    have hid := IdType.eq_of_value hv
    have hxy := (mem_rows.mp (mem_filter.mp hx).1).symm.trans
      (hid ▸ mem_rows.mp (mem_filter.mp hy).1)
    exact Prod.ext hid (Option.some.inj hxy)
  simp only [Reads.list, Artifact.ArtifactStore.list, h.clock]
  exact congrArg _ (congrArg _ hs)

theorem Agree.get (h : Agree principal a b) (id : Artifact.ArtifactId) : get a id principal = get b id principal := by
  have hr : (Table.get? a.artifacts id).filter (fun row => decide (row.principalId = principal ∧ b.clock < row.expiresUnixMs)) =
      (Table.get? b.artifacts id).filter fun row => decide (row.principalId = principal ∧ b.clock < row.expiresUnixMs) :=
    Table.get?_filter_eq fun row hown => h.artifacts id row (of_decide_eq_true hown).1
  simp only [Reads.get, Artifact.ArtifactStore.get, h.clock, hr]

/-! ### Looking up a manifest -/

/-- The steps of a lookup in the principal's scope. -/
def isScoped (principal : PrincipalId) : Workspace.Op → Bool
  | .findManifest key | .deleteManifest key => key.1 == principal
  | .now | .storedSize _ | .releaseReferences .. => true
  | _ => false

/-- What those steps see of the workspace manager. -/
structure Alike (principal : PrincipalId) (s t : Workspace.Site) : Prop where
  manifests : ∀ digest, s.manifests.get? (principal, digest) = t.manifests.get? (principal, digest)
  sizes : ∀ digest, (s.blobs digest).map List.length = (t.blobs digest).map List.length
  clock : s.clock = t.clock
  connection : s.metadata = t.metadata

open Workspace in
theorem uses_isAvailable (es : List WorkspaceEntry) :
    (Calls.isAvailable es).Uses (fun o : Workspace.Op => isScoped principal o = true) fun _ => True := by
  induction es with
  | nil => trivial
  | cons entry rest ih =>
    cases entry with
    | directory | symlink => exact ih
    | file path digest sizeBytes executable =>
      refine ⟨rfl, fun ans => ?_⟩
      cases ans with
      | error e => trivial
      | ok size =>
        show Program.Uses _ _ (if size = sizeBytes.toNat then Calls.isAvailable rest else return false)
        split
        · exact ih
        · trivial

open Workspace in
theorem uses_dropManifest (digest : BlobDigest) :
    (Calls.dropManifest (principal, digest)).Uses (fun o : Workspace.Op => isScoped principal o = true) fun _ => True :=
  ⟨beq_self_eq_true principal, fun _ => ⟨rfl, fun _ => trivial⟩⟩

open Workspace in
theorem uses_lookupManifest (digest : BlobDigest) :
    (Calls.lookupManifest principal digest).run.Uses (fun o : Workspace.Op => isScoped principal o = true) fun _ => True := by
  refine bindExcept ⟨beq_self_eq_true principal, fun _ => trivial⟩ fun found => ?_
  cases found with
  | none => trivial
  | some row =>
    refine bindLift ⟨rfl, fun _ => trivial⟩ fun now => ?_
    split
    · trivial
    split
    · exact bindLift (uses_dropManifest digest) fun _ => trivial
    refine bindLift (uses_isAvailable _) fun available => ?_
    cases available with
    | true => trivial
    | false => exact bindLift (uses_dropManifest digest) fun _ => trivial

/-- Steps of the same outcome lead to sites that are alike, if the disks they write are. -/
theorem Alike.attempt {α : Type} {x y : Except WorkspaceError (α × Workspace.Disk)} (h : Alike principal s t)
    (c : Workspace.Choice) (hsame : x.map fst = y.map fst)
    (hdisk : ∀ u v, x = .ok u → y = .ok v → Alike principal { s with toDisk := u.2 } { t with toDisk := v.2 }) :
    (s.attempt c x).1 = (t.attempt c y).1 ∧ Alike principal (s.attempt c x).2 (t.attempt c y).2 := by
  unfold Workspace.Site.attempt
  cases c.fault with
  | some error => exact ⟨rfl, h⟩
  | none =>
    cases x with
    | error e =>
      cases y with
      | error e' =>
        cases hsame
        exact ⟨rfl, h⟩
      | ok v => cases hsame
    | ok u =>
      cases y with
      | error e' => cases hsame
      | ok v => exact ⟨hsame, hdisk u v rfl rfl⟩

theorem Alike.reads {α : Type} (h : Alike principal s t) (c : Workspace.Choice) (ans : α) :
    (s.reads c ans).1 = (t.reads c ans).1 ∧ Alike principal (s.reads c ans).2 (t.reads c ans).2 := by
  refine h.attempt c rfl ?_
  rintro _ _ ⟨⟩ ⟨⟩
  exact h

theorem Alike.writes {d e : Workspace.Disk} (h : Alike principal s t) (c : Workspace.Choice)
    (hdisk : Alike principal { s with toDisk := d } { t with toDisk := e }) :
    (s.writes c d).1 = (t.writes c e).1 ∧ Alike principal (s.writes c d).2 (t.writes c e).2 := by
  refine h.attempt c rfl ?_
  rintro _ _ ⟨⟩ ⟨⟩
  exact hdisk

theorem Alike.sql {α : Type} {x y : α × Workspace.Site} (h : Alike principal s t)
    (hxy : x.1 = y.1 ∧ Alike principal x.2 y.2) :
    Option.Rel (fun x y => x.1 = y.1 ∧ Alike principal x.2 y.2) (s.sql 0 x) (t.sql 0 y) := by
  unfold Workspace.Site.sql Workspace.Site.connects
  rw [h.connection]
  split
  · exact .some hxy
  · exact .none

theorem Alike.perform (m : Workspace.Manager) (c : Workspace.Choice) {o : Workspace.Op}
    (ho : isScoped principal o = true) (h : Alike principal s t) :
    Option.Rel (fun x y => x.1 = y.1 ∧ Alike principal x.2 y.2) (Workspace.perform m s 0 c o)
      (Workspace.perform m t 0 c o) := by
  cases o with
  | now => exact .some ⟨h.clock, h⟩
  | findManifest key =>
    obtain ⟨owner, digest⟩ := key
    obtain rfl := beq_iff_eq.mp ho
    simp only [Workspace.perform, h.manifests digest]
    exact h.sql (h.reads c _)
  | storedSize digest =>
    have hsize := h.sizes digest
    simp only [Workspace.perform]
    cases hs : s.blobs digest with
    | none =>
      rw [hs] at hsize
      rw [Option.map_eq_none_iff.mp hsize.symm]
      exact .some (h.attempt c rfl (by rintro _ _ ⟨⟩))
    | some content =>
      rw [hs] at hsize
      obtain ⟨content', ht, hlen⟩ := Option.map_eq_some_iff.mp hsize.symm
      rw [ht]
      simp only [hlen]
      exact .some (h.reads c _)
  | deleteManifest key =>
    obtain ⟨owner, digest⟩ := key
    obtain rfl := beq_iff_eq.mp ho
    refine h.sql (h.writes c ⟨fun other => ?_, h.sizes, h.clock, h.connection⟩)
    simp only [Table.get?_delete, h.manifests other]
  | releaseReferences kind owner => exact .some (h.writes c ⟨h.manifests, h.sizes, h.clock, h.connection⟩)
  | _ => cases ho

theorem Agree.lookupManifest (h : Agree principal a b) (m : Workspace.Manager) (digest : BlobDigest)
    (choices : List Workspace.Choice) :
    lookupManifest m a principal digest choices = lookupManifest m b principal digest choices := by
  have hsite : Alike principal ⟨a.disk, a.clock, none, none, none⟩ ⟨b.disk, b.clock, none, none, none⟩ :=
    ⟨h.manifests, h.sizes, h.clock, rfl⟩
  exact Program.Uses.play_alike (R := Alike principal) (fun ho hs => Alike.perform m _ ho hs)
    (uses_lookupManifest digest) hsite choices

/-- Nodes that agree on a principal's executions, artifacts and retained manifests, on the sizes of blobs and on the
clock give the principal the same answers, whatever rows others have. -/
theorem reads_own_rows (h : Agree principal a b) :
    (∀ id query, observe a id query principal = observe b id query principal) ∧
    (∀ id generation, list a id generation principal = list b id generation principal) ∧
    (∀ id, get a id principal = get b id principal) ∧
    ∀ m digest choices, lookupManifest m a principal digest choices = lookupManifest m b principal digest choices :=
  ⟨h.observe, h.list, h.get, h.lookupManifest⟩

end

namespace Example
open Workspace.Example (execution principal)

def other : PrincipalId := ⟨"eve", by decide⟩

/-- Records as they are. -/
def codec : Codec Artifact.ArtifactRecord := ⟨Artifact.ArtifactRecord, id, some, fun _ => 0, fun _ => rfl⟩

def record : Artifact.ArtifactRecord :=
  ⟨⟨"log", by decide⟩, execution, ⟨1⟩, Sample.sourceMain, .file, Sample.blob, 3, false, 1, 9⟩

/-- The principal has a manifest, and nobody else anything. -/
def quiet : NodeData Serde.json codec where
  store := .empty
  artifacts := .empty
  disk := ⟨.empty, ⟨[((principal, Sample.blob), ⟨Sample.manifest, 6, none⟩)], by simp⟩, fun _ => some [1, 2, 3], .empty, .empty⟩
  clock := 5

/-- Another principal has an execution, an artifact and a manifest, of the same names. -/
def busy : NodeData Serde.json codec where
  store :=
    { executions := ⟨[((execution, 1), ⟨2, "digest", "eve", "lease", 9, none, "Running", 1,
        ⟨apiSchemaVersion, execution, ⟨1⟩, .running, none⟩, 1, 1⟩)], by simp⟩
      executionEvents := .empty }
  artifacts := ⟨[(record.artifactId, Artifact.ArtifactStore.rowOf other record)], by simp⟩
  disk := ⟨.empty, ⟨[((other, Sample.blob), ⟨⟨1, []⟩, 0, none⟩), ((principal, Sample.blob), ⟨Sample.manifest, 6, none⟩)],
    by decide⟩, fun _ => some [4, 5, 6], .empty, .empty⟩
  clock := 5

theorem agree : Agree principal quiet busy where
  executions key row hown := by
    rw [← mem_rows, ← mem_rows]
    simp only [quiet, busy, ExecutionStore.empty, Table.empty, not_mem_nil, mem_singleton, false_iff,
      Prod.mk.injEq, not_and]
    rintro - rfl
    exact absurd hown (by decide)
  artifacts id row hown := by
    rw [← mem_rows, ← mem_rows]
    simp only [quiet, busy, Table.empty, not_mem_nil, mem_singleton, false_iff, Prod.mk.injEq, not_and]
    rintro - rfl
    exact absurd hown (by decide)
  manifests digest := by
    have hne : principal ≠ other := by decide
    ext row
    rw [← mem_rows, ← mem_rows]
    simp [quiet, busy, hne]
  sizes _ := rfl
  clock := rfl

end Example

open Reads.Example

open Workspace.Example (execution principal manager) in
theorem reads_own_rows_busy : observe busy execution none principal = executionNotFound ∧
    list busy execution ⟨1⟩ principal = .ok [] ∧ get busy record.artifactId principal = .error .missingRequired ∧
    lookupManifest manager busy principal Sample.blob (List.replicate 4 {}) = some (.ok (some Sample.manifest)) := by
  obtain ⟨hobserve, hlist, hget, hlookup⟩ := reads_own_rows agree
  rw [← hobserve, ← hlist, ← hget, ← hlookup]
  exact ⟨by rfl, by rfl, by rfl, by with_unfolding_all decide⟩

end Eggwork.Server.Reads
