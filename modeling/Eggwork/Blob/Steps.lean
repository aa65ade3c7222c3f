import Eggwork.Blob.Stages

/-! What one step does to the blob store.

`Does` lists, by the stage a call is in, what its next operation can do to the
store and where it leads: the only place where `perform` and `advance` are taken
apart (`does`). Every invariant of the store is argued from it. -/
namespace Eggwork.Blob
open Lib Function Option Protocol Bool

variable {s s' : State} {t : Nat} {choice : Choice} {α : Type}
variable {answer : Except BlobError Unit} {locals : Nat → Local} {p : Pool effects State} {part : String} {t : Nat}
variable {out : Except BlobError (α × State)} {answer : Except BlobError α} {s : State}

theorem attempt_eq (h : s.attempt choice out = (answer, s')) :
    (∃ a, answer = .ok a ∧ out = .ok (a, s')) ∨ ∃ e, answer = .error e ∧ s' = s ∧ (choice.fault = none → out = .error e) := by
  unfold State.attempt at h
  split at h
  · rename_i e hf
    cases h
    refine .inr ⟨e, rfl, rfl, fun hn => ?_⟩
    rw [hf] at hn
    cases hn
  · rename_i a t hf
    cases h
    exact .inl ⟨a, rfl, rfl⟩
  · rename_i e hf
    cases h
    exact .inr ⟨e, rfl, rfl, fun _ => rfl⟩

theorem sql_eq (h : s.sql t choice out = some (answer, s')) :
    s.connects t = true ∧ s.attempt choice out = (answer, s') := by
  obtain ⟨hconn, h⟩ := ite_none_right_eq_some.mp h
  exact ⟨hconn, some.inj h⟩

/-- The operations that change references only. -/
def Op.isReferential : Op → Bool
  | .retain .. | .setReferenceExpiry .. | .releaseReferences .. => true
  | _ => false

theorem removal_eq {present : Bool} {u : State} {answer : Removal}
    (h : (if choice.fault.isSome then some (Removal.failed, s) else if present then some (.removed, u) else some (.absent, s)) =
      some (answer, s')) : (answer = .removed ∧ present = true ∧ s' = u) ∨ (answer = .absent ∧ present = false ∧ s' = s) ∨
      (answer = .failed ∧ choice.fault.isSome = true ∧ s' = s) := by
  split at h
  · cases h
    exact .inr (.inr ⟨rfl, ‹_›, rfl⟩)
  split at h
  · cases h
    exact .inl ⟨rfl, ‹_›, rfl⟩
  · cases h
    exact .inr (.inl ⟨rfl, eq_false_iff.mpr ‹_›, rfl⟩)

theorem retain_blobs {r r' : Tables} {kind : OwnerKind} {es : List (String × BlobDigest)} {exp : Option Nat}
    (h : r.retain kind es exp = some r') : r'.blobs = r.blobs := by
  obtain ⟨_, ⟨⟩⟩ := ite_none_right_eq_some.mp h
  rfl

/-! ### The steps of a call -/

def Op.isUnlink : Op → Bool
  | .removeFile _ => true
  | _ => false

variable {allowed : Local → Op → Bool} {o : Op}

/-- What a call in a local state can do to the store by its next operation, and where that leads. -/
inductive Does (store : BlobStore) (s : State) (t : Nat) (choice : Choice) : Op → Local → Local → State → Prop
  | lockWrite (h : s.writeLock = none) : Does store s t choice .lockWrite .idle ⟨true, .idle⟩ { s with writeLock := some t }
  /-- Nothing is learned that matters, and nothing done. -/
  | same {o : Op} {g : Local} (ho : o ≠ .lockWrite ∧ o ≠ .lockMetadata) : Does store s t choice o g g s
  | refer {o : Op} {locked : Bool} (references : Table ReferenceKey (Option Nat)) (ho : o.isReferential = true)
      (hconnects : s.connects t = true) : Does store s t choice o ⟨locked, .idle⟩ ⟨locked, .idle⟩ { s with references }
  -- verification
  | measure {locked : Bool} {digest : BlobDigest} {row : BlobRow} (h : s.blobs.get? digest = some row) :
      Does store s t choice (.sizeBytes digest) ⟨locked, .idle⟩ ⟨locked, .measured digest row.sizeBytes⟩ s
  | hash {locked : Bool} {digest : BlobDigest} {expected : Nat} {content : Bytes} (h : s.files.get? digest = some content) :
      Does store s t choice (.readFile digest) ⟨locked, .measured digest expected⟩ ⟨locked, .hashed digest expected content⟩ s
  | unread {locked : Bool} {digest : BlobDigest} {expected : Nat} :
      Does store s t choice (.readFile digest) ⟨locked, .measured digest expected⟩ ⟨locked, .idle⟩ s
  | untouched {o : Op} {locked : Bool} {digest : BlobDigest} {expected : Nat} {content : Bytes}
      (ho : o = .quarantine digest ∨ o = .touchRow digest) :
      Does store s t choice o ⟨locked, .hashed digest expected content⟩ ⟨locked, .idle⟩ s
  | quarantine {locked : Bool} {digest : BlobDigest} {expected : Nat} {content bytes : Bytes} (name : String)
      (hcorrupt : store.isCorrupt digest expected content = true) (h : s.files.get? digest = some bytes) :
      Does store s t choice (.quarantine digest) ⟨locked, .hashed digest expected content⟩ ⟨locked, .moved digest⟩
        { s with files := s.files.delete (· == digest), quarantine := s.quarantine.put name bytes }
  | deleteRow {locked : Bool} {digest : BlobDigest} (hconnects : s.connects t = true) :
      Does store s t choice (.deleteRow digest) ⟨locked, .moved digest⟩ ⟨locked, .idle⟩ (s.withTables (s.deleteRow digest))
  | undeleted {locked : Bool} {digest : BlobDigest} :
      Does store s t choice (.deleteRow digest) ⟨locked, .moved digest⟩ ⟨locked, .idle⟩ s
  | touch {locked : Bool} {digest : BlobDigest} {expected : Nat} {content : Bytes} (now : Nat)
      (hcorrupt : store.isCorrupt digest expected content = false) (hconnects : s.connects t = true) :
      Does store s t choice (.touchRow digest) ⟨locked, .hashed digest expected content⟩ ⟨locked, .stored digest⟩
        { s with blobs := s.blobs.update digest fun row => { row with lastUsed := now } }
  -- upload
  | vacate {digest : BlobDigest} (h : s.files.get? digest = none ∨ choice.fault.isSome = true) :
      Does store s t choice (.isStored digest) ⟨true, .idle⟩ ⟨true, .vacant digest⟩ s
  | count {locked : Bool} {digest : BlobDigest} (h : s.used < 2 ^ 63) :
      Does store s t choice .used ⟨locked, .vacant digest⟩ ⟨locked, .counted digest s.used⟩ s
  | createPart {locked : Bool} {digest : BlobDigest} {used : Nat} {part : String} {parts : Table String Bytes}
      (h : s.parts.insert part [] = some parts) :
      Does store s t choice .createPart ⟨locked, .counted digest used⟩ ⟨locked, .filling digest used part []⟩ { s with parts }
  | writePart {locked : Bool} {digest : BlobDigest} {used : Nat} {part : String} {content : Bytes} (bytes : Bytes) :
      Does store s t choice (.writePart part bytes) ⟨locked, .filling digest used part content⟩
        ⟨locked, .filling digest used part (content ++ bytes)⟩ { s with parts := s.parts.update part (· ++ bytes) }
  | spoil {locked : Bool} {digest : BlobDigest} {used : Nat} {part : String} {content bytes : Bytes} (begun : Bytes) :
      Does store s t choice (.writePart part bytes) ⟨locked, .filling digest used part content⟩
        ⟨locked, .spoiled digest part⟩ { s with parts := s.parts.update part (· ++ begun) }
  | renamePart {locked : Bool} {digest : BlobDigest} {used : Nat} {part : String} {content bytes : Bytes}
      (hdigest : store.sha256 content = digest) (h : s.parts.get? part = some bytes) :
      Does store s t choice (.renamePart part digest) ⟨locked, .filling digest used part content⟩
        ⟨locked, .placed digest used part content⟩
        { s with parts := s.parts.delete (· == part), files := s.files.put digest bytes }
  | insertRow {locked : Bool} {digest : BlobDigest} {used now : Nat} {part : String} {content : Bytes}
      {blobs : Table BlobDigest BlobRow} (hlength : content.length ≤ maxBlobBytes)
      (hquota : saturating (used + content.length) ≤ store.quotaBytes) (hconnects : s.connects t = true)
      (h : s.blobs.insert digest ⟨content.length, now⟩ = some blobs) :
      Does store s t choice (.insertRow digest content.length) ⟨locked, .placed digest used part content⟩
        ⟨locked, .stored digest⟩ { s with blobs }
  | removePart {locked : Bool} {stage : Stage} {digest : BlobDigest} {part : String} (hundo : stage.Undoable digest part) :
      Does store s t choice (.removePart part) ⟨locked, stage⟩ ⟨locked, .undoing digest⟩
        { s with parts := s.parts.delete (· == part) }
  | keepPart {locked : Bool} {stage : Stage} {digest : BlobDigest} {part : String} (hundo : stage.Undoable digest part)
      (h : s.parts.get? part = none ∨ choice.fault.isSome = true) :
      Does store s t choice (.removePart part) ⟨locked, stage⟩ ⟨locked, .undoing digest⟩ s
  | probe {locked : Bool} {digest : BlobDigest} :
      Does store s t choice (.isStored digest) ⟨locked, .undoing digest⟩ ⟨locked, .probing digest⟩ s
  | clear {locked : Bool} {digest : BlobDigest} (h : s.files.get? digest = none ∨ choice.fault.isSome = true) :
      Does store s t choice (.isStored digest) ⟨locked, .undoing digest⟩ ⟨locked, .idle⟩ s
  | spare {locked : Bool} {digest : BlobDigest} (h : (s.blobs.get? digest).isSome = true) :
      Does store s t choice (.isIndexed digest) ⟨locked, .probing digest⟩ ⟨locked, .idle⟩ s
  | condemn {locked : Bool} {digest : BlobDigest} :
      Does store s t choice (.isIndexed digest) ⟨locked, .probing digest⟩ ⟨locked, .removing digest⟩ s
  | removeFile {locked : Bool} {digest : BlobDigest} :
      Does store s t choice (.removeFile digest) ⟨locked, .removing digest⟩ ⟨locked, .idle⟩
        { s with files := s.files.delete (· == digest) }
  | keepFile {locked : Bool} {digest : BlobDigest} (h : s.files.get? digest = none ∨ choice.fault.isSome = true) :
      Does store s t choice (.removeFile digest) ⟨locked, .removing digest⟩ ⟨locked, .idle⟩ s
  -- collection
  | lockMetadata (h : s.metadata = none) :
      Does store s t choice .lockMetadata ⟨true, .idle⟩ ⟨true, .connected⟩ { s with metadata := some t }
  | beginImmediate {locked : Bool} (hconnects : s.connects t = true) :
      Does store s t choice .beginImmediate ⟨locked, .connected⟩ ⟨locked, .collecting none s.toTables⟩ s
  | deleteExpired {locked : Bool} {tables : Tables} {now limit : Nat} (h : s.mayDelete now limit choice.chosen = true) :
      Does store s t choice (.deleteExpired now limit) ⟨locked, .collecting none tables⟩
        ⟨locked, .collecting (some now) { tables with references := s.references.delete choice.chosen.contains }⟩ s
  | unlink {locked : Bool} {digest : BlobDigest} {tables : Tables} {now : Nat} (hfree : tables.Free digest) :
      Does store s t choice (.removeFile digest) ⟨locked, .collecting (some now) tables⟩
        ⟨locked, .collecting (some now) (tables.deleteRow digest)⟩ { s with files := s.files.delete (· == digest) }
  | unlinked {locked : Bool} {digest : BlobDigest} {tables : Tables} {now : Nat} (hfree : tables.Free digest)
      (h : s.files.get? digest = none) :
      Does store s t choice (.removeFile digest) ⟨locked, .collecting (some now) tables⟩
        ⟨locked, .collecting (some now) (tables.deleteRow digest)⟩ s
  | commit {locked : Bool} {tables : Tables} {now : Option Nat} (hconnects : s.connects t = true) :
      Does store s t choice (.commit tables) ⟨locked, .collecting now tables⟩ ⟨locked, .connected⟩ (s.withTables tables)
  | abort {o : Op} {locked : Bool} {tables : Tables} {now : Option Nat} (h : choice.fault.isSome = true) (ho : o.isUnlink = false) :
      Does store s t choice o ⟨locked, .collecting now tables⟩ ⟨locked, .aborted⟩ s

section
variable {store : BlobStore} {digest : BlobDigest}

/-- Whatever the operation answers in a stage that allows it, `Does` lists the step. -/
def Accounted (store : BlobStore) (o : Op) : Prop :=
  ∀ {s s' : State} {t : Nat} {choice : Choice} {answer : o.Answer} {locked : Bool} {stage stage' : Stage},
    perform s t choice o = some (answer, s') → stage.advance store locked o answer = some stage' →
    Does store s t choice o ⟨locked, stage⟩ ⟨locked, stage'⟩ s'

theorem does_isStored : Accounted store (.isStored digest) := by
  intro s s' t choice found locked stage stage' h hm
  obtain ⟨hfound, rfl⟩ := Prod.mk.inj (some.inj h)
  have hfile : found = false → s.files.get? digest = none ∨ choice.fault.isSome = true := by
    rintro rfl
    rcases and_eq_false_iff.mp hfound with hf | hf
    · exact .inr (by simpa [isNone_eq_false_iff] using hf)
    · exact .inl (by simpa using hf)
  simp only [Stage.advance] at hm
  split at hm
  · cases hm
    cases found with
    | true => exact .same ⟨nofun, nofun⟩
    | false =>
      cases locked with
      | false => exact .same ⟨nofun, nofun⟩
      | true => exact .vacate (hfile rfl)
  · obtain ⟨rfl, ⟨⟩⟩ := ite_none_right_eq_some.mp hm
    cases found with
    | true => exact .probe
    | false => exact .clear (hfile rfl)
  · cases hm

theorem does_used : Accounted store .used := by
  intro s s' t choice answer locked stage stage' h hm
  rcases attempt_eq (sql_eq h).2 with ⟨used, rfl, hu⟩ | ⟨e, rfl, rfl, _⟩
  · split at hu
    · cases hu
      cases stage with
      | vacant digest =>
        cases hm
        exact .count ‹_›
      | idle =>
        cases hm
        exact .same ⟨nofun, nofun⟩
      | _ => cases hm
    · cases hu
  · cases stage with
    | vacant | idle =>
      cases hm
      exact .same ⟨nofun, nofun⟩
    | _ => cases hm

/-- Steps that change nothing and lead nowhere else. -/
theorem does_still (ho : o = .createDirectory ∨ o = .nextChunk ∨ (∃ part, o = .syncPart part) ∨ o = .syncDirectory) :
    Accounted store o := by
  intro s s' t choice answer locked stage stage' h hm
  have hsame : ∀ {out : Except BlobError Unit}, some (s.attempt choice (.ok ((), s))) = some (out, s') → s' = s := by
    intro out h
    rcases attempt_eq (some.inj h) with ⟨_, _, hu⟩ | ⟨_, _, rfl, _⟩
    · cases hu
      rfl
    · rfl
  obtain ⟨rfl, hstage, ho⟩ : s' = s ∧ stage' = stage ∧ o ≠ .lockWrite ∧ o ≠ .lockMetadata := by
    rcases ho with rfl | rfl | ⟨part, rfl⟩ | rfl <;> refine ⟨?_, by cases stage <;> cases hm; rfl, nofun, nofun⟩
    · exact hsame h
    · cases h
      rfl
    · exact hsame h
    · exact hsame h
  exact hstage ▸ .same ho

/-- An answer that is an error where the statement itself has none. -/
theorem fault_of_error {α : Type} {out : α × State} {e : BlobError} (h : choice.fault = none → Except.ok out = .error e) :
    choice.fault.isSome = true := by
  refine isSome_iff_ne_none.mpr fun hn => ?_
  cases h hn

theorem does_statement : Accounted store .statement := by
  intro s s' t choice answer locked stage stage' h hm
  cases stage with
  | collecting now ts =>
    rcases attempt_eq (sql_eq h).2 with ⟨_, rfl, hu⟩ | ⟨e, rfl, rfl, hf⟩
    · cases hu
      cases hm
      exact .same ⟨nofun, nofun⟩
    · cases hm
      exact .abort (o := .statement) (fault_of_error hf) rfl
  | _ => cases hm

theorem does_createPart : Accounted store .createPart := by
  intro s s' t choice answer locked stage stage' h hm
  rcases attempt_eq (some.inj h) with ⟨part, rfl, hu⟩ | ⟨e, rfl, rfl, _⟩
  · split at hu
    · cases hu
      cases stage with
      | counted digest used =>
        cases hm
        exact .createPart ‹_›
      | _ => cases hm
    · cases hu
  · cases stage with
    | counted digest used =>
      cases hm
      exact .same ⟨nofun, nofun⟩
    | _ => cases hm

theorem does_writePart {bytes : Bytes} : Accounted store (.writePart part bytes) := by
  intro s s' t choice answer locked stage stage' h hm
  cases stage with
  | filling digest used p content =>
    by_cases hp : p = part
    · subst hp
      simp only [perform] at h
      split at h
      · cases h
        simp only [Stage.advance, if_true] at hm
        cases hm
        exact .spoil _
      · cases h
        simp only [Stage.advance, if_true] at hm
        cases hm
        exact .writePart bytes
    · cases answer <;> simp [Stage.advance, hp] at hm
  | _ => cases answer <;> cases hm

theorem does_renamePart : Accounted store (.renamePart part digest) := by
  intro s s' t choice answer locked stage stage' h hm
  cases stage with
  | filling d used p content =>
    obtain ⟨⟨rfl, rfl, hd⟩, hm⟩ := ite_none_right_eq_some.mp hm
    rcases attempt_eq (some.inj h) with ⟨_, rfl, hu⟩ | ⟨e, rfl, rfl, _⟩
    · split at hu
      · cases hu
        cases hm
        exact .renamePart hd ‹_›
      · cases hu
    · cases hm
      exact .same ⟨nofun, nofun⟩
  | _ => cases hm

theorem does_insertRow {sizeBytes : Nat} : Accounted store (.insertRow digest sizeBytes) := by
  intro s s' t choice answer locked stage stage' h hm
  cases stage with
  | placed d used part content =>
    obtain ⟨⟨rfl, rfl, hlen, hq⟩, hm⟩ := ite_none_right_eq_some.mp hm
    rcases attempt_eq (sql_eq h).2 with ⟨_, rfl, hu⟩ | ⟨e, rfl, rfl, _⟩
    · split at hu
      · cases hu
        cases hm
        exact .insertRow hlen hq (sql_eq h).1 ‹_›
      · cases hu
    · cases hm
      exact .same ⟨nofun, nofun⟩
  | _ => cases hm

theorem does_removePart : Accounted store (.removePart part) := by
  intro s s' t choice answer locked stage stage' h hm
  obtain ⟨digest, hundo, rfl⟩ : ∃ digest, stage.Undoable digest part ∧ stage' = .undoing digest := by
    cases stage with
    | filling d _ p _ | spoiled d p | placed d _ p _ =>
      obtain ⟨_, ⟨⟩⟩ := ite_none_right_eq_some.mp hm
      exact ⟨d, ⟨rfl, ‹_›⟩, rfl⟩
    | _ => cases hm
  rcases removal_eq h with ⟨rfl, _, rfl⟩ | ⟨rfl, ha, rfl⟩ | ⟨rfl, hf, rfl⟩
  · exact .removePart hundo
  · exact .keepPart hundo (.inl (not_isSome_iff_eq_none.mp (eq_false_iff.mp ha)))
  · exact .keepPart hundo (.inr hf)

theorem does_isIndexed : Accounted store (.isIndexed digest) := by
  intro s s' t choice found locked stage stage' h hm
  obtain ⟨_, ⟨⟩⟩ := ite_none_right_eq_some.mp h
  cases stage with
  | probing d =>
    obtain ⟨rfl, ⟨⟩⟩ := ite_none_right_eq_some.mp hm
    cases hf : (choice.fault.isNone && (s.blobs.get? d).isSome) with
    | true => exact .spare (and_eq_true_iff.mp hf).2
    | false => exact .condemn
  | _ => cases hm

theorem does_removeFile : Accounted store (.removeFile digest) := by
  intro s s' t choice answer locked stage stage' h hm
  have hgone : (s.files.get? digest).isSome = false → s.files.get? digest = none := fun hf =>
    not_isSome_iff_eq_none.mp (eq_false_iff.mp hf)
  cases stage with
  | removing d =>
    obtain ⟨rfl, ⟨⟩⟩ := ite_none_right_eq_some.mp hm
    rcases removal_eq h with ⟨rfl, _, rfl⟩ | ⟨rfl, ha, rfl⟩ | ⟨rfl, hfault, rfl⟩
    · exact .removeFile
    · exact .keepFile (.inl (hgone ha))
    · exact .keepFile (.inr hfault)
  | collecting now ts =>
    cases now with
    | none => cases hm
    | some now =>
      obtain ⟨hfree, hm⟩ := ite_none_right_eq_some.mp hm
      rcases removal_eq h with ⟨rfl, _, rfl⟩ | ⟨rfl, ha, rfl⟩ | ⟨rfl, _, rfl⟩
      · cases hm
        exact .unlink hfree
      · cases hm
        exact .unlinked hfree (hgone ha)
      · cases hm
        exact .same ⟨by rintro ⟨⟩, by rintro ⟨⟩⟩
  | _ => cases hm

theorem does_sizeBytes : Accounted store (.sizeBytes digest) := by
  intro s s' t choice answer locked stage stage' h hm
  cases stage with
  | idle =>
    rcases attempt_eq (sql_eq h).2 with ⟨size, rfl, hu⟩ | ⟨e, rfl, rfl, _⟩
    · cases hu
      cases hr : s.blobs.get? digest with
      | none =>
        rw [hr] at hm
        cases hm
        exact .same ⟨nofun, nofun⟩
      | some row =>
        rw [hr] at hm
        cases hm
        exact .measure hr
    · cases hm
      exact .same ⟨nofun, nofun⟩
  | _ => cases hm

theorem does_readFile : Accounted store (.readFile digest) := by
  intro s s' t choice answer locked stage stage' h hm
  cases stage with
  | measured d expected =>
    by_cases hd : d = digest
    · subst hd
      rcases attempt_eq (some.inj h) with ⟨content, rfl, hu⟩ | ⟨e, rfl, rfl, _⟩
      · split at hu
        · cases hu
          simp only [Stage.advance, if_true] at hm
          cases hm
          exact .hash ‹_›
        · cases hu
      · simp only [Stage.advance, if_true] at hm
        cases hm
        exact .unread
    · cases answer <;> simp [Stage.advance, hd] at hm
  | _ => cases answer <;> cases hm

theorem does_quarantine : Accounted store (.quarantine digest) := by
  intro s s' t choice answer locked stage stage' h hm
  cases stage with
  | hashed d expected content =>
    obtain ⟨⟨rfl, hc⟩, hm⟩ := ite_none_right_eq_some.mp hm
    rcases attempt_eq (some.inj h) with ⟨_, rfl, hu⟩ | ⟨e, rfl, rfl, _⟩
    · split at hu
      · cases hu
        cases hm
        exact .quarantine _ hc ‹_›
      · cases hu
    · cases hm
      exact .untouched (.inl rfl)
  | _ => cases hm

theorem does_deleteRow : Accounted store (.deleteRow digest) := by
  intro s s' t choice answer locked stage stage' h hm
  cases stage with
  | moved d =>
    obtain ⟨rfl, ⟨⟩⟩ := ite_none_right_eq_some.mp hm
    rcases attempt_eq (sql_eq h).2 with ⟨_, rfl, hu⟩ | ⟨e, rfl, rfl, _⟩
    · cases hu
      exact .deleteRow (sql_eq h).1
    · exact .undeleted
  | _ => cases hm

theorem does_touchRow : Accounted store (.touchRow digest) := by
  intro s s' t choice answer locked stage stage' h hm
  cases stage with
  | hashed d expected content =>
    obtain ⟨⟨rfl, hc⟩, hm⟩ := ite_none_right_eq_some.mp hm
    rcases attempt_eq (sql_eq h).2 with ⟨_, rfl, hu⟩ | ⟨e, rfl, rfl, _⟩
    · cases hu
      cases hm
      exact .touch _ hc (sql_eq h).1
    · cases hm
      exact .untouched (.inr rfl)
  | _ => cases hm

theorem does_refer (ho : o.isReferential = true) : Accounted store o := by
  intro s s' t choice answer locked stage stage' h hm
  obtain ⟨rfl, rfl⟩ : stage = .idle ∧ stage' = .idle := by
    cases o with
    | retain | setReferenceExpiry | releaseReferences =>
      cases stage with
      | idle =>
        cases hm
        exact ⟨rfl, rfl⟩
      | _ => cases hm
    | _ => cases ho
  cases o with
  | retain kind es exp =>
    rcases attempt_eq (sql_eq h).2 with ⟨_, rfl, hu⟩ | ⟨_, rfl, rfl, _⟩
    · split at hu
      · rename_i ts ht
        cases hu
        obtain ⟨blobs, refs⟩ := ts
        obtain rfl : blobs = s.blobs := retain_blobs ht
        exact .refer refs rfl (sql_eq h).1
      · cases hu
    · exact .same ⟨nofun, nofun⟩
  | setReferenceExpiry kind owner exp | releaseReferences kind owner =>
    rcases attempt_eq (sql_eq h).2 with ⟨_, rfl, hu⟩ | ⟨_, rfl, rfl, _⟩
    · cases hu
      exact .refer _ rfl (sql_eq h).1
    · exact .same ⟨nofun, nofun⟩
  | _ => cases ho

theorem does_beginImmediate : Accounted store .beginImmediate := by
  intro s s' t choice answer locked stage stage' h hm
  rcases attempt_eq (sql_eq h).2 with ⟨ts, rfl, hu⟩ | ⟨e, rfl, rfl, _⟩
  · cases hu
    cases stage with
    | connected =>
      cases hm
      exact .beginImmediate (sql_eq h).1
    | _ => cases hm
  · cases stage with
    | connected =>
      cases hm
      exact .same ⟨nofun, nofun⟩
    | _ => cases hm

theorem does_deleteExpired {now limit : Nat} : Accounted store (.deleteExpired now limit) := by
  intro s s' t choice answer locked stage stage' h hm
  obtain ⟨hmay, h⟩ := ite_none_right_eq_some.mp h
  cases stage with
  | collecting found ts =>
    cases found with
    | none =>
      rcases attempt_eq (sql_eq h).2 with ⟨refs, rfl, hu⟩ | ⟨e, rfl, rfl, hf⟩
      · cases hu
        cases hm
        exact .deleteExpired hmay
      · cases hm
        exact .abort (o := .deleteExpired now limit) (fault_of_error hf) rfl
    | some found => cases answer <;> cases hm
  | _ => cases answer <;> cases hm

theorem does_commit {ts : Tables} : Accounted store (.commit ts) := by
  intro s s' t choice answer locked stage stage' h hm
  cases stage with
  | collecting now found =>
    obtain ⟨rfl, hm⟩ := ite_none_right_eq_some.mp hm
    rcases attempt_eq (sql_eq h).2 with ⟨_, rfl, hu⟩ | ⟨e, rfl, rfl, hf⟩
    · cases hu
      cases hm
      exact .commit (sql_eq h).1
    · cases hm
      exact .abort (o := .commit _) (fault_of_error hf) rfl
  | _ => cases hm

/-- A performed operation that the local state allows does one of the listed things. -/
theorem does {answer : o.Answer} {g g' : Local} (h : perform s t choice o = some (answer, s'))
    (hm : (protocol store).advance g o answer = some g') : Does store s t choice o g g' s' := by
  by_cases ho : o = .lockWrite
  · subst ho
    obtain ⟨rfl, ⟨⟩⟩ := ite_none_right_eq_some.mp hm
    obtain ⟨_, ⟨⟩⟩ := ite_none_right_eq_some.mp h
    exact .lockWrite (isNone_iff_eq_none.mp ‹_›)
  obtain ⟨locked, stage⟩ := g
  obtain ⟨stage', hstage, rfl⟩ : ∃ stage', stage.advance store locked o answer = some stage' ∧ g' = ⟨locked, stage'⟩ := by
    simp only [protocol, Local.advance] at hm
    split at hm
    · exact absurd rfl ho
    · obtain ⟨stage', hstage, rfl⟩ := map_eq_some_iff.mp hm
      exact ⟨stage', hstage, rfl⟩
  cases o with
  | lockWrite => exact absurd rfl ho
  | lockMetadata =>
    cases stage with
    | idle =>
      cases locked with
      | false => cases hstage
      | true =>
        cases hstage
        obtain ⟨_, ⟨⟩⟩ := ite_none_right_eq_some.mp h
        exact .lockMetadata (isNone_iff_eq_none.mp ‹_›)
    | _ => cases hstage
  | isStored digest => exact does_isStored h hstage
  | createDirectory => exact does_still (.inl rfl) h hstage
  | createPart => exact does_createPart h hstage
  | nextChunk => exact does_still (.inr (.inl rfl)) h hstage
  | writePart part bytes => exact does_writePart h hstage
  | syncPart part => exact does_still (.inr (.inr (.inl ⟨part, rfl⟩))) h hstage
  | renamePart part digest => exact does_renamePart h hstage
  | syncDirectory => exact does_still (.inr (.inr (.inr rfl))) h hstage
  | removePart part => exact does_removePart h hstage
  | removeFile digest => exact does_removeFile h hstage
  | readFile digest => exact does_readFile h hstage
  | quarantine digest => exact does_quarantine h hstage
  | used => exact does_used h hstage
  | sizeBytes digest => exact does_sizeBytes h hstage
  | isIndexed digest => exact does_isIndexed h hstage
  | insertRow digest sizeBytes => exact does_insertRow h hstage
  | deleteRow digest => exact does_deleteRow h hstage
  | touchRow digest => exact does_touchRow h hstage
  | retain | setReferenceExpiry | releaseReferences => exact does_refer rfl h hstage
  | beginImmediate => exact does_beginImmediate h hstage
  | statement => exact does_statement h hstage
  | deleteExpired now limit => exact does_deleteExpired h hstage
  | commit ts => exact does_commit h hstage
  | listParts | listFiles | knownDigests => cases hstage

end
/-! ### Who has the locks -/

/-- The stages of a call that has the write lock. -/
def Stage.isGuarded : Stage → Bool
  | vacant _ | counted .. | filling .. | spoiled .. | placed .. | undoing _ | probing _ | removing _ | connected
  | collecting .. | aborted => true
  | _ => false

def Stage.isConnected : Stage → Bool
  | connected | collecting .. | aborted => true
  | _ => false

variable {stage : Stage}

theorem Stage.Undoable.isGuarded {digest : BlobDigest} (h : stage.Undoable digest part) : stage.isGuarded = true := by
  cases stage with
  | filling | spoiled | placed => rfl
  | _ => cases h

theorem Stage.Undoable.isConnected {digest : BlobDigest} (h : stage.Undoable digest part) :
    stage.isConnected = false := by
  cases stage with
  | filling | spoiled | placed => rfl
  | _ => cases h

structure Holds (s : State) (t : Nat) (g : Local) : Prop where
  write : g.locked = true → s.writeLock = some t
  connection : g.stage.isConnected = true → s.metadata = some t
  guarded : g.stage.isGuarded = true → g.locked = true

section
variable {store : BlobStore} {o : Op} {g g' : Local} {t' : Nat}

theorem Holds.of_locks (h : Holds s t g) (hw : s'.writeLock = s.writeLock) (hmeta : s'.metadata = s.metadata) :
    Holds s' t g :=
  ⟨fun hl => hw ▸ h.write hl, fun hc => hmeta ▸ h.connection hc, h.guarded⟩

theorem Does.locks (h : Does store s t choice o g g' s') :
    (s'.writeLock = s.writeLock ∨ s.writeLock = none) ∧ (s'.metadata = s.metadata ∨ s.metadata = none) := by
  cases h with
  | lockWrite h => exact ⟨.inr h, .inl rfl⟩
  | lockMetadata h => exact ⟨.inl rfl, .inr h⟩
  | _ => exact ⟨.inl rfl, .inl rfl⟩

theorem Does.holds_other (h : Does store s t choice o g g' s') {g'' : Local} (hh : Holds s t' g'') : Holds s' t' g'' := by
  obtain ⟨hw, hmeta⟩ := h.locks
  refine ⟨fun hl => ?_, fun hc => ?_, hh.guarded⟩
  · have hlock := hh.write hl
    rcases hw with he | hn
    · rw [he, hlock]
    · rw [hn] at hlock
      cases hlock
  · have hlock := hh.connection hc
    rcases hmeta with he | hn
    · rw [he, hlock]
    · rw [hn] at hlock
      cases hlock

theorem Does.holds (h : Does store s t choice o g g' s') (hg : Holds s t g) : Holds s' t g' := by
  cases h with
  | lockWrite h => exact ⟨fun _ => rfl, nofun, nofun⟩
  | lockMetadata h => exact ⟨hg.write, fun _ => rfl, fun _ => rfl⟩
  | vacate h => exact ⟨hg.write, nofun, fun _ => rfl⟩
  | same ho => exact hg
  | refer | measure | hash | unread | untouched | quarantine | deleteRow | undeleted | touch => exact ⟨hg.write, nofun, nofun⟩
  | count | createPart | writePart | spoil | renamePart | probe | condemn =>
    exact ⟨hg.write, nofun, fun _ => hg.guarded rfl⟩
  | removePart hundo | keepPart hundo =>
    exact ⟨hg.write, nofun, fun _ => hg.guarded hundo.isGuarded⟩
  | insertRow | clear | spare | removeFile | keepFile => exact ⟨hg.write, nofun, nofun⟩
  | beginImmediate | deleteExpired | unlink | unlinked | commit | abort =>
    exact ⟨hg.write, fun _ => hg.connection rfl, fun _ => hg.guarded rfl⟩

/-- The locks are held as the local states say. -/
def Held (s : State) (locals : Nat → Local) : Prop := ∀ t, Holds s t (locals t)

theorem holds_idle : Holds s t .idle := ⟨nofun, nofun, nofun⟩

theorem Held.run (h : Held s locals) (hdoes : Does store s t choice o (locals t) g' s') :
    Held s' (update locals t g') := by
  intro t'
  by_cases ht : t' = t
  · rw [ht, update_self]
    exact hdoes.holds (h t)
  · rw [update_of_ne ht]
    exact hdoes.holds_other (h t')

theorem Held.release (h : Held s locals) (t : Nat) : Held (s.release t) (update locals t .idle) := by
  intro t'
  by_cases ht : t' = t
  · rw [ht, update_self]
    exact holds_idle
  rw [update_of_ne ht]
  have hne : some t' ≠ some t := fun he => ht (some.inj he)
  refine ⟨fun hl => ?_, fun hc => ?_, (h t').guarded⟩
  · have hlock := (h t').write hl
    show (if s.writeLock = some t then none else s.writeLock) = some t'
    rw [hlock, if_neg hne]
  · have hlock := (h t').connection hc
    show (if s.metadata = some t then none else s.metadata) = some t'
    rw [hlock, if_neg hne]

theorem Held.guarded_unique (h : Held s locals) (ht : (locals t).locked = true)
    (ht' : (locals t').stage.isGuarded = true) : t' = t := by
  have hw := (h t').write ((h t').guarded ht')
  rw [(h t).write ht] at hw
  exact (some.inj hw).symm

/-- While a call keeps the connection no other one makes a statement. -/
theorem Held.connected_unique (h : Held s locals) (hconn : s.connects t = true)
    (ht' : (locals t').stage.isConnected = true) : t' = t := by
  rw [State.connects, (h t').connection ht'] at hconn
  simpa using hconn

end

/-! ### Runs of the store -/

/-- The places of the calls along a run, and the operations they make. -/
abbrev Placed (store : BlobStore) (allowed : Local → Op → Bool) (locals : Nat → Local) (tasks : List (Program effects Unit)) : Prop :=
  Threaded ((protocol store).restrict allowed) (fun g => g.stage.isFinal = true) .idle locals tasks

theorem Op.nonempty_answer (o : Op) : Nonempty o.Answer := by
  cases o <;> infer_instance

theorem Placed.idle_of_lockWrite {store : BlobStore} (h : Placed store allowed locals p.tasks)
    (hn : p.next t = some Op.lockWrite) : locals t = .idle := by
  obtain ⟨g, hm⟩ := Threaded.advances h hn ()
  have hm := (restrict_advance.mp hm).2
  obtain ⟨_, hm⟩ := ite_none_right_eq_some.mp hm
  assumption

theorem Placed.measured_of_readFile {store : BlobStore} (h : Placed store allowed locals p.tasks) {digest : BlobDigest}
    (hn : p.next t = some (Op.readFile digest)) : ∃ expected, (locals t).stage = .measured digest expected := by
  obtain ⟨g, hm⟩ := Threaded.advances h hn (.error .io)
  have hm := (restrict_advance.mp hm).2
  obtain ⟨_, hstage, _⟩ := map_eq_some_iff.mp hm
  cases hl : (locals t).stage with
  | measured d expected =>
    rw [hl] at hstage
    obtain ⟨hd, hstage⟩ := ite_none_right_eq_some.mp hstage
    exact ⟨expected, by rw [hd]⟩
  | _ =>
    rw [hl] at hstage
    cases hstage

/-- A step of a call, and what the call is left with. -/
theorem Placed.does {store : BlobStore} {q : Pool effects State} (h : Placed store allowed locals p.tasks)
    {choice : Choice} (hstep : (machine store).step p (.run t choice) = some q) :
    ∃ o g s prog, p.next t = some o ∧ allowed (locals t) o = true ∧ Does store p.shared t choice o (locals t) g s ∧
      t < p.tasks.length ∧ q = (machine store).resume p t prog s := by
  simp only [Machine.step] at hstep
  split at hstep
  · rename_i o next hget
    obtain ⟨⟨answer, s⟩, hp, rfl⟩ := map_eq_some_iff.mp hstep
    obtain ⟨g, hm, _⟩ := h.conforms hget answer
    obtain ⟨ho, hm⟩ := restrict_advance.mp hm
    exact ⟨o, g, s, next answer, Pool.next_eq_some.mpr ⟨next, hget⟩, ho, Blob.does hp hm,
      (List.getElem?_eq_some_iff.mp hget).1, rfl⟩
  · cases hstep

/-- What an invariant of the store and the places of its calls has to survive. -/
structure Invariant (store : BlobStore) (allowed : Local → Op → Bool) (Rule : Pool effects State → Move Choice Empty Call → Prop)
    (I : State → (Nat → Local) → Prop) : Prop where
  conforms : ∀ {p k}, Rule p (.call k) →
    ((protocol store).restrict allowed).Conforms (fun _ g => g.stage.isFinal = true) .idle (k.program store)
  run : ∀ {p locals t choice o g s}, Placed store allowed locals p.tasks → p.next t = some o → allowed (locals t) o = true →
    Rule p (.run t choice) → Does store p.shared t choice o (locals t) g s → I p.shared locals →
    I s (update locals t g)
  ended : ∀ {s locals} (t : Nat), (locals t).stage.isFinal = true → I s locals → I (s.release t) (update locals t .idle)
  drop : ∀ {p locals t o}, Placed store allowed locals p.tasks → p.next t = some o → o.awaits = true → Rule p (.drop t) →
    I p.shared locals → I (p.shared.release t) (update locals t .idle)

theorem Invariant.holds {store : BlobStore} {Rule : Pool effects State → Move Choice Empty Call → Prop}
    {I : State → (Nat → Local) → Prop} (h : Invariant store allowed Rule I)
    (hr : Steps (machine store).step Rule (Pool.start s) p) (hs : I s fun _ => .idle) :
    ∃ locals, Placed store allowed locals p.tasks ∧ I p.shared locals := by
  have hi : Inductive (machine store) ((protocol store).restrict allowed) (fun g => g.stage.isFinal = true) .idle
      (fun _ => .idle) Rule I := {
    final_idle := rfl
    conforms := h.conforms
    call := fun hplain _ hI => by
      -- a call starts where one that was never made is
      rw [update_eq_self_iff.mpr (hplain.unborn le_rfl).symm]
      exact hI
    run := fun hplain hn hrule hp hm hI => by
      obtain ⟨ho, hm⟩ := restrict_advance.mp hm
      exact h.run hplain hn ho hrule (does hp hm) hI
    ended := fun hf hI => h.ended _ hf hI
    drop := h.drop
    world := fun {_ _ ev} => ev.elim }
  exact hi.holds hr hs

end Eggwork.Blob
