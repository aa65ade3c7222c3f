import Eggwork.Artifact.Capture
import Eggwork.Blob.Opening

/-! Records that can be read have their bytes.

Records and the references that keep their blobs are in two databases, and each
has its own collector. What connects them is the order of a capture, references
first, and that a record and its reference expire at the same time (`Pinned`). A
row is therefore never seen without the blob it names (`record_available`), in
whatever order captures and collections go on, and across stops of the process, as
long as a collection commits what it has unlinked. If the commit fails, the row of a
blob comes back without its file, and a capture that has just stored the blob publishes
a record of it (`uncommitted_unlink`). -/
namespace Eggwork.Artifact
open Lib Function List Option
open Blob (BlobStore Backs)
open Store (Codec)

variable {c : Choice} {gen : ExecutionGeneration} {expiresUnixMs : Nat} {entries : List WorkspaceEntry}
variable {expires : Option Nat} {draft : Draft} {id : ArtifactId}

/-! ### How far a call is -/

inductive Phase where
  | idle
  /-- A collection of blobs, and the time it is made at. -/
  | collecting (now : Nat)
  | capturing (records : List ArtifactRecord)
  /-- The blobs of the records are retained. -/
  | retained (records : List ArtifactRecord)
deriving DecidableEq

/-- The steps a call makes on the blob store. -/
def Phase.kind : Phase → Blob.Op → Bool
  | .collecting now => Blob.Op.sweeps now
  | .capturing _ => Blob.Op.uploads
  | _ => fun _ => false

structure Local where
  blob : Blob.Local
  phase : Phase

def Local.idle : Local := ⟨.idle, .idle⟩

section
variable (store : BlobStore)

def Local.advance (g : Local) : (o : Op) → o.Answer → Option Local
  | .blob o, answer =>
    (((Blob.protocol store).restrict fun l o => o.isInTurn g.phase.kind l).advance g.blob o answer).map fun blob => { g with blob }
  | .returned, _ => if g.blob.stage.isFinal then some { g with blob := .idle } else none
  | .newRecord draft, answer =>
    match g.phase, answer with
    | .capturing records, .ok (id, created) => some { g with phase := .capturing (records ++ [draft.record id created]) }
    | .capturing _, .error _ => some g
    | _, _ => none
  | .retainPerOwner entries expires, answer =>
    match g.phase with
    | .capturing records =>
      if g.blob = .idle ∧ entries = records.map ownerEntry ∧ ∀ r ∈ records, some r.expiresUnixMs = expires then
        some (if Blob.failed answer then g else { g with phase := .retained records })
      else none
    | _ => none
  | .insertMany records _, _ => if records = [] ∨ g.phase = .retained records then some { g with phase := .idle } else none
  | .discoverOutputs _, _ | .openFileBeneath _, _ | .read, _ | .seek, _ | .garbageCollect .., _ =>
    if g.blob = .idle then some g else none

def protocol : Protocol effects Local := ⟨Local.advance store, fun name _ => name.elim⟩

end

variable {g : Local} {locals : Nat → Local}

def Call.birth : Call → Local
  | captureDeclared .. => ⟨.idle, .capturing []⟩
  | blobGarbageCollect now _ _ => ⟨.idle, .collecting now⟩
  | garbageCollect .. => .idle

section
variable {store : BlobStore} {α : Type}

/-- A call on the blob store that is made in turn, inside one of this store's. -/
theorem onBlobs_conforms (phase : Phase) {call : Blob.Io α} {post : Except Blob.BlobError α → Blob.Local → Prop}
    (h : ((Blob.protocol store).restrict fun l o => o.isInTurn phase.kind l).Conforms post .idle call.run)
    (hf : ∀ out l, post out l → l.stage.isFinal = true) :
    (protocol store).Conforms (fun _ g => g = ⟨.idle, phase⟩) ⟨.idle, phase⟩ (onBlobs call).run := by
  have he := h.embed (Q := protocol store) (m := blobs) (fun l => ⟨l, phase⟩)
    (fun {g o g'} a hm => map_eq_some_iff.mpr ⟨g', hm, rfl⟩) fun {_ name} _ => name.elim
  refine he.bind ?_
  rintro out _ ⟨l, rfl, hpost⟩
  exact fun _ => ⟨⟨.idle, phase⟩, if_pos (hf out l hpost), rfl⟩

theorem captureBlob_conforms {relative : RelativePath} {remainingBytes : Nat} {recs : List ArtifactRecord} :
    (protocol store).Conforms (fun _ g => g = ⟨.idle, .capturing recs⟩) ⟨.idle, .capturing recs⟩
      (captureBlob store relative remainingBytes).run := by
  refine Protocol.Conforms.tries (.stays fun _ => rfl) (fun _ => rfl) ?_
  rintro ⟨isFile, executable⟩
  cases isFile with
  | false => rfl
  | true =>
    refine Protocol.Conforms.asks (.stays fun _ => rfl) fun chunks => ?_
    cases hashFile remainingBytes chunks 0 [] with
    | error e => rfl
    | ok hashed =>
      show (protocol store).Conforms _ _ (attempt (op .seek) >>= _).run
      refine Protocol.Conforms.tries (.stays fun _ => rfl) (fun _ => rfl) fun _ => ?_
      refine Protocol.Conforms.asks (.stays fun _ => rfl) fun input => ?_
      refine (onBlobs_conforms (.capturing recs) Blob.putStream_serial fun _ _ h => h.isFinal).tries
        (fun _ => rfl) fun _ => rfl

def Captured (expiresUnixMs : Nat) : Except ArtifactError (List ArtifactRecord × List WorkspaceEntry) → Local → Prop
  | .ok (records, _), g => g = ⟨.idle, .capturing records⟩ ∧ ∀ r ∈ records, r.expiresUnixMs = expiresUnixMs
  | .error _, g => g.blob = .idle

theorem captureFiles_conforms {executionId : ExecutionId} (files : List (RelativePath × Bool)) {total : Nat}
    {recs : List ArtifactRecord} (hrs : ∀ r ∈ recs, r.expiresUnixMs = expiresUnixMs) :
    (protocol store).Conforms (Captured expiresUnixMs) ⟨.idle, .capturing recs⟩
      (captureFiles store executionId gen expiresUnixMs files total recs entries).run := by
  induction files generalizing total recs entries with
  | nil => exact ⟨rfl, hrs⟩
  | cons file files ih =>
    refine captureBlob_conforms.tries (fun _ => rfl) ?_
    rintro ⟨digest, sizeBytes, executable⟩
    refine Protocol.Conforms.op (P := protocol store) ?_
    rintro (e | ⟨id, created⟩)
    · exact ⟨⟨.idle, .capturing recs⟩, rfl, rfl⟩
    refine ⟨_, rfl, ih fun r hr => ?_⟩
    rcases mem_append.mp hr with hr | hr
    · exact hrs r hr
    · cases mem_singleton.mp hr
      rfl

theorem checkTree_conforms : (protocol store).Conforms (fun _ g' => g' = g) g (checkTree entries).run := by
  unfold checkTree
  split <;> rfl

theorem captureDeclared_conforms {outputs : List DeclaredOutput} {executionId : ExecutionId} {principal : PrincipalId} :
    (protocol store).Conforms (fun _ g => g.blob = .idle) ⟨.idle, .capturing []⟩
      (captureDeclared store outputs executionId gen principal expiresUnixMs).run := by
  refine Protocol.Conforms.tries (.stays fun _ => rfl) (fun _ => rfl) ?_
  rintro ⟨files, directories⟩
  refine checkTree_conforms.tries (fun _ => rfl) fun _ => ?_
  refine (captureFiles_conforms files fun r hr => absurd hr not_mem_nil).bindExcept (fun _ _ h => h) ?_
  rintro ⟨recs, entries⟩ _ ⟨rfl, hexpired⟩
  refine checkTree_conforms.tries (fun _ => rfl) fun _ => ?_
  have hretired : (protocol store).Conforms (fun a g => g.blob = .idle ∧
      ∀ u, a = .ok u → recs = [] ∨ g.phase = .retained recs) ⟨.idle, .capturing recs⟩
      (retainPerOwner (recs.map ownerEntry) (some expiresUnixMs)).run := by
    unfold retainPerOwner
    by_cases hempty : recs = []
    · subst hempty
      exact ⟨rfl, fun _ _ => .inl rfl⟩
    rw [if_neg (by simpa using hempty)]
    have hall : Local.idle.blob = Local.idle.blob ∧ recs.map ownerEntry = recs.map ownerEntry ∧
        ∀ r ∈ recs, some r.expiresUnixMs = some expiresUnixMs := ⟨rfl, rfl, fun r hr => congrArg some (hexpired r hr)⟩
    rintro (e | _)
    · exact ⟨_, if_pos hall, rfl, fun _ he => (nomatch he)⟩
    · exact ⟨_, if_pos hall, rfl, fun _ _ => .inr rfl⟩
  refine hretired.bindExcept (fun _ _ h => h.1) ?_
  rintro ⟨⟩ ⟨_, phase⟩ ⟨rfl, hphase⟩
  refine Protocol.Conforms.op (P := protocol store) fun a => ?_
  refine ⟨⟨.idle, .idle⟩, if_pos (hphase () rfl), ?_⟩
  cases a <;> rfl

theorem Call.conforms (call : Call) : (protocol store).Conforms (fun _ g => g.blob = .idle) call.birth (call.program store) := by
  cases call with
  | captureDeclared => exact captureDeclared_conforms.discard fun _ _ h => h
  | blobGarbageCollect now limit dryRun =>
    refine (onBlobs_conforms (.collecting now) Blob.garbageCollect_serial fun _ _ h => h).discard ?_
    rintro _ _ rfl
    rfl
  | garbageCollect => exact fun _ => ⟨.idle, rfl, rfl⟩

end

/-! ### What the process keeps -/

section
variable {C : Codec ArtifactRecord}

/-- Collections are made at a time that has come, and an id is drawn once. -/
def timely (p : Pool effects (Shop C)) : Move Choice Nat Call → Bool
  | .call (.blobGarbageCollect now _ _) | .call (.garbageCollect now _ _) => decide (now ≤ p.shared.clock)
  | .run t choice =>
    match p.next t with
    | some (.newRecord _) => p.shared.made.all fun record => record.artifactId.value != choice.uuid
    | _ => true
  | _ => true

/-- No statement of a blob collection's transaction fails, and no probe for a file; any other step may. -/
def firm (p : Pool effects (Shop C)) : Move Choice Nat Call → Bool
  | .run t choice =>
    match p.next t with
    | some (.blob o) => (!o.isStatement && !o.isProbe) || choice.blob.fault.isNone
    | _ => true
  | _ => true

abbrev Timely (p : Pool effects (Shop C)) (move : Move Choice Nat Call) : Prop := timely p move = true

abbrev Firm (p : Pool effects (Shop C)) (move : Move Choice Nat Call) : Prop := Timely p move ∧ firm p move = true

/-- What keeps the blob of a record. -/
def pin (record : ArtifactRecord) : ReferenceKey := (.artifact, ownerEntry record)

/-- As long as the record lives, so does its reference. -/
def Pinned (s : Shop C) (record : ArtifactRecord) : Prop :=
  s.clock < record.expiresUnixMs → s.blobs.references.get? (pin record) = some (some record.expiresUnixMs)

def Phase.Sound (s : Shop C) : Phase → Prop
  | .idle => True
  | .collecting now => now ≤ s.clock
  | .capturing records => ∀ record ∈ records, record ∈ s.made
  | .retained records => ∀ record ∈ records, record ∈ s.made ∧ Pinned s record

/-- The rows are those of records that were made, and hold their references. -/
def Listed (s : Shop C) : Prop :=
  ∀ id row, s.artifacts.get? id = some row → ∃ principal record, record ∈ s.made ∧ Pinned s record ∧ row = ArtifactStore.rowOf principal record

def Distinct (records : List ArtifactRecord) : Prop :=
  ∀ {a b}, a ∈ records → b ∈ records → a.artifactId = b.artifactId → a = b

structure Kept (store : BlobStore) (s : Shop C) (locals : Nat → Local) : Prop where
  backs : Backs store s.clock s.blobs (Local.blob ∘ locals)
  distinct : Distinct s.made
  listed : Listed s
  sound : ∀ t, (locals t).phase.Sound s

section
variable {store : BlobStore} {s s' : Shop C} {locals : Nat → Local} {t : Nat} {g : Local} {record : ArtifactRecord}

/-- What has become of the state as far as others depend on it. -/
structure Continues (s s' : Shop C) : Prop where
  clock : s.clock ≤ s'.clock
  made : ∀ {record}, record ∈ s.made → record ∈ s'.made
  pins : ∀ {record}, record ∈ s.made → Pinned s record → Pinned s' record

theorem Phase.Sound.continues {phase : Phase} (h : phase.Sound s) (hs : Continues s s') : phase.Sound s' := by
  cases phase with
  | idle => trivial
  | collecting now => exact h.trans hs.clock
  | capturing recs => exact fun record hr => hs.made (h record hr)
  | retained recs => exact fun record hr => ⟨hs.made (h record hr).1, hs.pins (h record hr).1 (h record hr).2⟩

theorem Listed.continues (h : Listed s) (hs : Continues s s') (hrows : ∀ {id row}, s'.artifacts.get? id = some row →
    s.artifacts.get? id = some row) : Listed s' := by
  intro id row hr
  obtain ⟨principal, record, hmade, hpin, he⟩ := h id row (hrows hr)
  exact ⟨principal, record, hs.made hmade, hs.pins hmade hpin, he⟩

theorem Kept.step (h : Kept store s locals) (hs : Continues s s') (hb : Backs store s'.clock s'.blobs (update (Local.blob ∘ locals) t g.blob))
    (hd : Distinct s'.made) (hl : Listed s') (hg : g.phase.Sound s') : Kept store s' (update locals t g) := by
  refine ⟨?_, hd, hl, fun t' => ?_⟩
  · rw [comp_update]
    exact hb
  by_cases ht : t' = t
  · rw [ht, update_self]
    exact hg
  · rw [update_of_ne ht]
    exact (h.sound t').continues hs

theorem Kept.aside (h : Kept store s locals) (hs : Continues s s') (hb : Backs store s'.clock s'.blobs (Local.blob ∘ locals))
    (hd : Distinct s'.made) (hl : Listed s') (hblob : g.blob = (locals t).blob) (hg : g.phase.Sound s') :
    Kept store s' (update locals t g) := by
  refine h.step hs ?_ hd hl hg
  have hsame : update (Local.blob ∘ locals) t g.blob = Local.blob ∘ locals := update_eq_self_iff.mpr hblob
  rw [hsame]
  exact hb

theorem Continues.refl (s : Shop C) : Continues s s := ⟨le_rfl, fun h => h, fun _ h => h⟩

/-- The blob store moves on and keeps what has not expired. -/
theorem continues_blobs {blobs : Blob.State}
    (h : ∀ {k e}, s.blobs.references.get? k = some e → Blob.Tables.isExpired s.clock e = false → blobs.references.get? k = some e) :
    Continues s { s with blobs } where
  clock := le_rfl
  made h := h
  pins _ hpin hl := h (hpin hl) (Blob.isExpired_some.mpr hl)

/-- The steps a call makes on the blob store are its own, and in time. -/
theorem Phase.Sound.kind {phase : Phase} (h : phase.Sound s) {o : Blob.Op} (ho : phase.kind o = true) :
    o.isReferential = false ∧ ∀ {now limit}, o = .deleteExpired now limit → now ≤ s.clock := by
  cases phase with
  | idle | retained => cases ho
  | capturing recs =>
    simp only [Phase.kind, Blob.Op.uploads, Bool.and_eq_true, Bool.not_eq_true'] at ho
    refine ⟨ho.2, ?_⟩
    rintro now limit rfl
    cases ho.1
  | collecting time =>
    constructor
    · cases o <;> first | rfl | cases ho
    rintro now limit rfl
    obtain rfl : now = time := by simpa [Phase.kind, Blob.Op.sweeps] using ho
    exact h

theorem Kept.blob (h : Kept store s locals) {c : Blob.Choice} {o : Blob.Op} {a : o.Answer} {blobs : Blob.State}
    (hp : Blob.perform s.blobs t c o = some (a, blobs))
    (hm : (protocol store).advance (locals t) (.blob o) a = some g) (hf : o.isStatement = true ∨ o.isProbe = true → c.fault = none) :
    Kept store { s with blobs } (update locals t g) := by
  obtain ⟨blob, hblob, rfl⟩ := map_eq_some_iff.mp hm
  obtain ⟨ho, hblob⟩ := Protocol.restrict_advance.mp hblob
  obtain ⟨hb, hk⟩ := h.backs.step ho (h.sound t).kind hf hp hblob
  have hs : Continues s { s with blobs } := continues_blobs hk
  exact h.step hs hb h.distinct (h.listed.continues hs fun hr => hr) ((h.sound t).continues hs)

theorem Kept.returned (h : Kept store s locals) (hb : s.blobs.writeLock = some t → Blob.Backed store s.blobs.toTables s.blobs.files)
    (hg : g.blob = .idle) (hphase : g.phase.Sound s) :
    Kept store { s with blobs := s.blobs.release t } (update locals t g) := by
  have hs : Continues s { s with blobs := s.blobs.release t } := continues_blobs fun hk _ => hk
  refine h.step hs ?_ h.distinct (h.listed.continues hs fun hr => hr) (hphase.continues hs)
  rw [hg]
  exact h.backs.release hb (fun _ hf => hf) fun _ stage hbusy => hbusy.release t

/-- The references of a capture, which are nobody else's. -/
theorem Kept.retain (h : Kept store s locals) {recs : List ArtifactRecord} {ts : Blob.Tables}
    (hblob : (locals t).blob = .idle) (hphase : (locals t).phase = .capturing recs)
    (hexpired : ∀ r ∈ recs, some r.expiresUnixMs = expires) (hconn : s.blobs.connects t = true)
    (hretired : s.blobs.toTables.retain .artifact (recs.map ownerEntry) expires = some ts) :
    Kept store { s with blobs := s.blobs.withTables ts } (update locals t ⟨.idle, .retained recs⟩) := by
  have hmade : ∀ record ∈ recs, record ∈ s.made := by
    have hsound := h.sound t
    rw [hphase] at hsound
    exact hsound
  obtain ⟨_, _, hrefs⟩ := Blob.retain_eq_some hretired
  have hpin : ∀ record ∈ recs, ts.references.get? (pin record) = some (some record.expiresUnixMs) := by
    intro record hr
    rw [hrefs, if_pos ⟨rfl, mem_map.mpr ⟨record, hr, rfl⟩⟩, hexpired record hr]
  have hs : Continues s { s with blobs := s.blobs.withTables ts } := by
    refine ⟨le_rfl, fun hr => hr, fun {record} hr hold hl => ?_⟩
    show ts.references.get? (pin record) = some (some record.expiresUnixMs)
    by_cases hentry : ownerEntry record ∈ recs.map ownerEntry
    · -- the id was drawn once, so it is the same record
      obtain ⟨other, hne, he⟩ := mem_map.mp hentry
      obtain rfl := h.distinct (hmade other hne) hr (IdType.eq_of_value (congrArg Prod.fst he))
      exact hpin other hne
    · rw [hrefs, if_neg fun hboth => hentry hboth.2]
      exact hold hl
  refine h.aside hs ?_ h.distinct (h.listed.continues hs fun hrow => hrow) hblob.symm fun record hr => ⟨hmade record hr, fun _ => hpin record hr⟩
  exact h.backs.retain hconn (by rw [comp_apply, hblob]; rfl) hretired

theorem Kept.newRecord (h : Kept store s locals) (hf : ∀ record ∈ s.made, record.artifactId ≠ id)
    {recs : List ArtifactRecord} (hphase : (locals t).phase = .capturing recs) :
    Kept store { s with made := draft.record id s.clock :: s.made }
      (update locals t ⟨(locals t).blob, .capturing (recs ++ [draft.record id s.clock])⟩) := by
  have hs : Continues s { s with made := draft.record id s.clock :: s.made } :=
    ⟨le_rfl, fun hr => mem_cons_of_mem _ hr, fun _ hpin => hpin⟩
  refine h.aside hs h.backs ?_ (h.listed.continues hs fun hrow => hrow) rfl fun record hr => ?_
  · intro a b ha hb he
    rcases mem_cons.mp ha with rfl | ha'
    · rcases mem_cons.mp hb with rfl | hb'
      · rfl
      · exact absurd he.symm (hf b hb')
    · rcases mem_cons.mp hb with rfl | hb'
      · exact absurd he (hf a ha')
      · exact h.distinct ha' hb' he
  · rcases mem_append.mp hr with hr | hr
    · have hsound := h.sound t
      rw [hphase] at hsound
      exact mem_cons_of_mem _ (hsound record hr)
    · exact mem_cons.mpr (.inl (mem_singleton.mp hr))

theorem Kept.rows (h : Kept store s locals) {artifacts : ArtifactStore C} (hl : Listed { s with artifacts })
    (hg : g.blob = (locals t).blob) (hphase : g.phase.Sound s) : Kept store { s with artifacts } (update locals t g) := by
  have hs : Continues s { s with artifacts } := ⟨le_rfl, fun hr => hr, fun _ hpin => hpin⟩
  exact h.aside hs h.backs h.distinct hl hg (hphase.continues hs)

theorem Kept.later (h : Kept store s locals) (millis : Nat) : Kept store { s with clock := s.clock + millis } locals := by
  have hs : Continues s { s with clock := s.clock + millis } :=
    ⟨Nat.le_add_right _ _, fun hr => hr, fun _ hpin hl => hpin ((Nat.le_add_right _ _).trans_lt hl)⟩
  exact ⟨h.backs.later (Nat.le_add_right _ _), h.distinct, h.listed.continues hs fun hrow => hrow, fun t => (h.sound t).continues hs⟩

theorem Kept.stays (h : Kept store s locals) : Kept store s (update locals t (locals t)) := by
  rw [update_eq_self]
  exact h

theorem reads_eq {α : Type} {a : α} {ans : Except ArtifactError α} (h : c.reads s a = some (ans, s')) : s' = s := by
  unfold Choice.reads at h
  split at h <;> cases h <;> rfl

theorem Kept.retainPerOwner (h : Kept store s locals) {entries : List (String × BlobDigest)}
    {a : Except Blob.BlobError Unit} (hp : perform s t c (.retainPerOwner entries expires) = some (a, s'))
    (hm : (protocol store).advance (locals t) (.retainPerOwner entries expires) a = some g) :
    Kept store s' (update locals t g) := by
  obtain ⟨⟨_, blobs⟩, hblob, he⟩ := map_eq_some_iff.mp hp
  cases he
  obtain ⟨hconn, ha⟩ := Blob.sql_eq hblob
  rcases hl : locals t with ⟨blob, phase⟩
  cases phase with
  | capturing recs =>
    rw [hl] at hm
    obtain ⟨⟨rfl, rfl, hexpired⟩, ⟨⟩⟩ := ite_none_right_eq_some.mp hm
    rcases Blob.attempt_eq ha with ⟨_, rfl, hu⟩ | ⟨_, rfl, rfl, _⟩
    · split at hu
      · rename_i ts hr
        cases hu
        exact h.retain (by rw [hl]) (by rw [hl]) hexpired hconn hr
      · cases hu
    · have hs := h.stays (t := t)
      rw [hl] at hs
      exact hs
  | _ =>
    rw [hl] at hm
    cases hm

theorem Kept.makes (h : Kept store s locals) {a : Except ArtifactError (ArtifactId × Nat)}
    (hf : ∀ record ∈ s.made, record.artifactId.value ≠ c.uuid) (hp : perform s t c (.newRecord draft) = some (a, s'))
    (hm : (protocol store).advance (locals t) (.newRecord draft) a = some g) : Kept store s' (update locals t g) := by
  rcases hl : locals t with ⟨blob, phase⟩
  cases phase with
  | capturing recs =>
    rw [hl] at hm
    simp only [perform] at hp
    split at hp
    · cases hp
      cases hm
      have hs := h.stays (t := t)
      rw [hl] at hs
      exact hs
    rename_i id hid
    cases hp
    cases hm
    have hv : id.value = c.uuid := by
      unfold IdType.new at hid
      split at hid
      · cases hid
      split at hid
      · cases hid
      split at hid
      · cases hid
        rfl
      · cases hid
    have hkept : Kept store { s with made := draft.record id s.clock :: s.made }
        (update locals t ⟨(locals t).blob, .capturing (recs ++ [draft.record id s.clock])⟩) :=
      h.newRecord (fun record hr he => hf record hr (by rw [he, hv])) (by rw [hl])
    rw [hl] at hkept
    exact hkept
  | _ =>
    rw [hl] at hm
    cases a <;> cases hm

theorem Kept.insertMany (h : Kept store s locals) {recs : List ArtifactRecord} {principal : PrincipalId}
    {a : Except ArtifactError Unit} (hp : perform s t c (.insertMany recs principal) = some (a, s'))
    (hm : (protocol store).advance (locals t) (.insertMany recs principal) a = some g) :
    Kept store s' (update locals t g) := by
  obtain ⟨hall, ⟨⟩⟩ := ite_none_right_eq_some.mp hm
  have hrs : ∀ record ∈ recs, record ∈ s.made ∧ Pinned s record := by
    rcases hall with rfl | hphase
    · exact fun record hr => absurd hr not_mem_nil
    have hs := h.sound t
    rw [hphase] at hs
    exact hs
  have hidle : Kept store s (update locals t { locals t with phase := .idle }) := h.rows (h.listed) rfl trivial
  simp only [perform] at hp
  split at hp
  · cases hp
    exact hidle
  · cases hp
    exact hidle
  rename_i artifacts _ hi
  cases hp
  refine h.rows (fun id row hrow => ?_) rfl trivial
  rcases ArtifactStore.get?_insertMany hi hrow with hold | ⟨record, hr, rfl⟩
  · exact h.listed id row hold
  · exact ⟨principal, record, (hrs record hr).1, (hrs record hr).2, rfl⟩

/-- The operations that have nothing to do with the call's place. -/
def Op.isAside : Op → Bool
  | .discoverOutputs _ | .openFileBeneath _ | .read | .seek | .garbageCollect .. => true
  | _ => false

theorem stays_of_aside {g' : Local} {o : Op} {a : o.Answer} (ho : o.isAside = true)
    (hm : (protocol store).advance g o a = some g') : g.blob = .idle ∧ g' = g := by
  cases o with
  | discoverOutputs | openFileBeneath | read | seek | garbageCollect =>
    obtain ⟨_, ⟨⟩⟩ := ite_none_right_eq_some.mp hm
    exact ⟨‹_›, rfl⟩
  | _ => cases ho

theorem nonempty_answer (o : Op) : Nonempty o.Answer := by
  cases o with
  | blob o => exact o.nonempty_answer
  | openFileBeneath | newRecord | garbageCollect => exact ⟨.error .io⟩
  | _ => infer_instance

theorem kept_inductive : Inductive (machine C store) (protocol store) (fun g => g.blob = .idle) .idle Call.birth Firm
    (Kept (C := C) store) where
  final_idle := rfl
  conforms _ := Call.conforms _
  call {p locals k} ht hrule h := by
    refine h.aside (.refl _) h.backs h.distinct h.listed ?_ ?_
    · rw [ht.unborn le_rfl]
      cases k <;> rfl
    cases k with
    | captureDeclared => exact fun record hr => absurd hr not_mem_nil
    | blobGarbageCollect now limit dryRun =>
      have hnow : now ≤ p.shared.clock := of_decide_eq_true hrule.1
      exact hnow
    | garbageCollect => trivial
  run {p locals t choice o ans s g} ht hn hrule hp hm h := by
    obtain ⟨hrule, hfirm⟩ := hrule
    simp only [Timely, timely, hn] at hrule
    simp only [firm, hn] at hfirm
    cases o with
    | blob o =>
      obtain ⟨⟨_, blobs⟩, hblob, he⟩ := map_eq_some_iff.mp hp
      cases he
      refine h.blob hblob hm fun ho => ?_
      rcases ho with ho | ho <;> simpa [ho] using hfirm
    | returned =>
      cases hp
      obtain ⟨hf, ⟨⟩⟩ := ite_none_right_eq_some.mp hm
      exact h.returned (fun hl => (h.backs.busy hl).2.final hf) rfl (h.sound t)
    | retainPerOwner => exact h.retainPerOwner hp hm
    | newRecord => exact h.makes (by simpa using hrule) hp hm
    | insertMany => exact h.insertMany hp hm
    | discoverOutputs | openFileBeneath | seek =>
      rw [(stays_of_aside rfl hm).2, reads_eq hp]
      exact h.stays
    | read =>
      rw [(stays_of_aside rfl hm).2]
      cases hp
      exact h.stays
    | garbageCollect now limit dryRun =>
      rw [(stays_of_aside rfl hm).2]
      simp only [machine, perform] at hp
      split at hp
      · cases hp
        exact h.stays
      · cases hp
        exact h.rows (fun id row hrow => h.listed id row (ArtifactStore.get?_garbageCollect hrow)) rfl (h.sound t)
  ended {s locals t} hf h := by
    refine h.returned (fun hl => ?_) rfl trivial
    have hbusy := (h.backs.busy hl).2
    rw [comp_apply, hf] at hbusy
    exact hbusy
  drop {p locals t o} ht hn ha hrule h := by
    refine h.returned (fun hl => ?_) rfl trivial
    obtain ⟨hlocal, hbusy⟩ := h.backs.busy hl
    obtain ⟨ans⟩ := nonempty_answer o
    obtain ⟨g, hm⟩ := ht.advances hn ans
    cases o with
    | blob o =>
      obtain ⟨blob, hblob, _⟩ := map_eq_some_iff.mp hm
      exact hbusy.dropped ha (Protocol.restrict_advance.mp hblob).2
    | discoverOutputs | read | seek =>
      -- such a call is not in the blob store, so the lock is not its own
      rw [comp_apply, (stays_of_aside rfl hm).1] at hlocal
      cases hlocal
    | _ => cases ha
  world {p locals millis s} _ hoccupied h := by
    cases hoccupied
    exact h.later millis

end

/-! ### Stops -/

/-- What a stop leaves, and the time. -/
structure Durable (C : Codec ArtifactRecord) where
  blobs : Blob.Root
  artifacts : ArtifactStore C
  clock : Nat
  made : List ArtifactRecord

def Durable.boot (d : Durable C) : Shop C := ⟨d.blobs.boot, d.artifacts, d.clock, d.made⟩

def Shop.stop (s : Shop C) : Durable C := ⟨s.blobs.toRoot, s.artifacts, s.clock, s.made⟩

/-- Stores that are stopped between any two steps, and opened again later; the flag says whether they are open. Openings
may fail, though not in a probe, and be stopped themselves. -/
inductive Lives (store : BlobStore) : Bool → Durable C → Prop
  | created (clock : Nat) : Lives store false ⟨⟨⟨.empty, .empty⟩, .empty, .empty, .empty⟩, .empty, clock, []⟩
  | opened {d : Durable C} {s : Blob.State} {clock : Nat} (h : Lives store false d) (hclock : d.clock ≤ clock)
      (hrun : Blob.removeStaleParts.run.Runs (Blob.Ends Blob.Op.isProbe) d.blobs.boot (.ok ()) s) :
      Lives store true { d with blobs := s.toRoot, clock }
  | unopened {d : Durable C} {s : Blob.State} {clock : Nat} (h : Lives store false d) (hclock : d.clock ≤ clock)
      (hcut : Blob.removeStaleParts.run.Cut (Blob.Ends Blob.Op.isProbe) d.blobs.boot s) :
      Lives store false { d with blobs := s.toRoot, clock }
  | stopped {d : Durable C} {p : Pool effects (Shop C)} (h : Lives store true d)
      (hrun : Steps (machine C store).step Firm (Pool.start d.boot) p) : Lives store false p.shared.stop

/-- What the next opening relies on. -/
structure Durable.Sound (store : BlobStore) (d : Durable C) : Prop where
  stocked : d.blobs.Stocked store d.clock
  distinct : Distinct d.made
  listed : Listed d.boot

section
variable {store : BlobStore} {d : Durable C} {s : Blob.State} {clock : Nat} {p : Pool effects (Shop C)}

theorem Durable.Sound.opening (h : d.Sound store) (hc : d.clock ≤ clock)
    (hcut : Blob.removeStaleParts.run.Cut (Blob.Ends Blob.Op.isProbe) d.blobs.boot s) :
    Durable.Sound store { d with blobs := s.toRoot, clock } := by
  obtain ⟨hs, hkept⟩ := h.stocked.opening hcut
  refine ⟨⟨hs.toRecoverable, hs.indexed, fun hk he => hs.kept hk (Blob.isExpired_mono hc he)⟩, h.distinct, ?_⟩
  have hconform : Continues d.boot (Durable.boot { d with blobs := s.toRoot, clock }) := by
    refine ⟨hc, fun hr => hr, fun {record} _ hpin hl => ?_⟩
    have hl : d.clock < record.expiresUnixMs := hc.trans_lt hl
    exact hkept (hpin hl) (Blob.isExpired_some.mpr hl)
  exact h.listed.continues hconform fun hrow => hrow

theorem Durable.Sound.kept (h : d.Sound store) (hb : Blob.Backed store d.blobs.toTables d.blobs.files) :
    Kept store d.boot fun _ => .idle :=
  ⟨Blob.backs_boot hb, h.distinct, h.listed, fun _ => trivial⟩

theorem Kept.stop {s : Shop C} (h : Kept store s locals) : s.stop.Sound store :=
  ⟨h.backs.stocked, h.distinct, h.listed⟩

theorem Lives.sound {isOpen : Bool} (h : Lives store isOpen d) :
    d.Sound store ∧ (isOpen = true → Blob.Backed store d.blobs.toTables d.blobs.files) := by
  induction h with
  | created clock =>
    refine ⟨⟨⟨⟨?_, ?_⟩, ?_, ?_⟩, ?_, ?_⟩, fun he => (nomatch he)⟩
    · exact fun h => (nomatch h)
    · exact fun h => (nomatch h)
    · exact fun h => (nomatch h)
    · exact fun h => (nomatch h)
    · exact fun h => absurd h not_mem_nil
    · exact fun _ _ h => (nomatch h)
  | opened h hc hr ih => exact ⟨ih.1.opening hc hr.cut, fun _ => ih.1.stocked.opened hr⟩
  | unopened h hc hcut ih => exact ⟨ih.1.opening hc hcut, fun he => (nomatch he)⟩
  | stopped h hr ih =>
    obtain ⟨locals, _, hkept⟩ := kept_inductive.holds hr (ih.1.kept (ih.2 rfl))
    exact ⟨hkept.stop, fun he => (nomatch he)⟩

theorem Kept.available {s : Shop C} (h : Kept store s locals) {row : ArtifactRow C}
    (hr : s.artifacts.get? id = some row) (hl : s.clock < row.expiresUnixMs) {record : ArtifactRecord}
    (hd : C.decode row.recordJson = some record) :
    (s.blobs.blobs.get? record.digest).isSome = true ∧ (s.blobs.files.get? record.digest).isSome = true := by
  obtain ⟨principal, found, _, hpin, rfl⟩ := h.listed id row hr
  obtain rfl : found = record := Option.some.inj ((C.decode_encode found).symm.trans hd)
  exact h.backs.backs (hpin hl) (Blob.isExpired_some.mpr hl)

/-- Captures and both collections in any order, over stops and openings, in which no probe and no statement of a blob
collection fails: a record that can be listed or got has the row and the file of its blob. -/
theorem record_available (h : Lives store true d) (hrun : Steps (machine C store).step Firm (Pool.start d.boot) p) :
    (∀ {execution generation principal records record},
      p.shared.artifacts.list p.shared.clock execution generation principal = .ok records → record ∈ records →
      (p.shared.blobs.blobs.get? record.digest).isSome = true ∧ (p.shared.blobs.files.get? record.digest).isSome = true) ∧
    ∀ {id principal record}, p.shared.artifacts.get p.shared.clock id principal = .ok record →
      (p.shared.blobs.blobs.get? record.digest).isSome = true ∧ (p.shared.blobs.files.get? record.digest).isSome = true := by
  obtain ⟨hsound, hbacked⟩ := h.sound
  obtain ⟨locals, _, hkept⟩ := kept_inductive.holds hrun (hsound.kept (hbacked rfl))
  refine ⟨fun hlist hrecord => ?_, fun hget => ?_⟩
  · obtain ⟨_, _, hrow, hlives, hdecode⟩ := ArtifactStore.mem_list hlist hrecord
    exact hkept.available hrow hlives hdecode
  · obtain ⟨_, hrow, hlives, hdecode⟩ := ArtifactStore.get_eq_ok hget
    exact hkept.available hrow hlives hdecode

end
end

namespace Example

/-- Records as they are. -/
def codec : Codec ArtifactRecord := ⟨ArtifactRecord, fun record => record, some, fun _ => 0, fun _ => rfl⟩

def execution : ExecutionId := ⟨"render", by decide⟩
def principal : PrincipalId := ⟨"kim", by decide⟩

/-- A capture of one file of one byte, up to where it retains the blob. -/
def capture : List (Move Choice Nat Call) :=
  .call (.captureDeclared [] execution ⟨1⟩ principal 9) ::
    .run 0 { found := ([(Sample.sourceNotes, true)], []) } :: .run 0 {} :: .run 0 { chunks := [some [1]] } :: .run 0 {} ::
    .run 0 { chunks := [some [1]] } :: List.replicate 13 (.run 0 {}) ++ [.run 0 { uuid := "note" }]

/-- The capture ends, time passes, and blobs are collected. -/
def captured : List (Move Choice Nat Call) :=
  capture ++ .run 0 {} :: .run 0 {} :: .world 4 :: .call (.blobGarbageCollect 4 10 false) :: List.replicate 9 (.run 1 {})

/-- Blobs are collected before the capture has retained its own, and the commit fails. -/
def uncommitted : List (Move Choice Nat Call) :=
  capture ++ .call (.blobGarbageCollect 0 10 false) :: List.replicate 9 (.run 1 {}) ++
    [.run 1 { blob := { fault := some .metadata } }, .run 1 {}, .run 0 {}, .run 0 {}]

/-- The calls are over, and the record is listed. -/
def isListed (p : Pool effects (Shop codec)) : Bool :=
  p.tasks.all Program.isDone &&
    match p.shared.artifacts.list p.shared.clock execution ⟨1⟩ principal with
    | .ok [record] => decide (record.digest = Sample.blob)
    | _ => false

theorem list_of_isListed {p : Pool effects (Shop codec)} (h : isListed p = true) :
    ∃ record, p.shared.artifacts.list p.shared.clock execution ⟨1⟩ principal = .ok [record] ∧ record.digest = Sample.blob := by
  simp only [isListed, Bool.and_eq_true] at h
  obtain ⟨_, h⟩ := h
  split at h
  · exact ⟨_, ‹_›, of_decide_eq_true h⟩
  · cases h

def empty : Durable codec := ⟨Blob.Example.empty, .empty, 0, []⟩

theorem lives_empty : Lives Blob.Example.store true empty := by
  have hplay : Blob.removeStaleParts.run.play (Blob.Example.performAlone Blob.Op.isProbe) Blob.Example.empty.boot
      (Blob.Example.calm 3) = some (.ok (), Blob.Example.empty.boot) := rfl
  exact .opened (.created 0) le_rfl (Program.play_runs Blob.Example.ends_of_performAlone hplay)

end Example

open Example

theorem record_available_collected :
    ∃ (d : Durable codec) (p : Pool effects (Shop codec)) (record : ArtifactRecord), Lives Blob.Example.store true d ∧
      Steps (machine codec Blob.Example.store).step Firm (Pool.start d.boot) p ∧
      p.shared.artifacts.list p.shared.clock execution ⟨1⟩ principal = .ok [record] ∧
      (p.shared.blobs.blobs.get? record.digest).isSome = true ∧ (p.shared.blobs.files.get? record.digest).isSome = true := by
  have hfollow : (follow (machine codec Blob.Example.store).step Firm (Pool.start empty.boot) captured).any isListed = true := by
    with_unfolding_all decide
  obtain ⟨p, hrun, hlisted⟩ := follow_reaches hfollow
  obtain ⟨record, hrecord, _⟩ := list_of_isListed hlisted
  exact ⟨_, p, record, lives_empty, hrun, hrecord, (record_available lives_empty hrun).1 hrecord mem_cons_self⟩

/-- A collection unlinks the blob of a capture under way and fails to commit: the capture finds the row, retains it and
publishes a record whose file is gone. -/
theorem uncommitted_unlink :
    ∃ (d : Durable codec) (p : Pool effects (Shop codec)) (record : ArtifactRecord), Lives Blob.Example.store true d ∧
      Steps (machine codec Blob.Example.store).step Timely (Pool.start d.boot) p ∧
      p.shared.artifacts.list p.shared.clock execution ⟨1⟩ principal = .ok [record] ∧
      p.shared.blobs.files.get? record.digest = none := by
  have hfollow : (follow (machine codec Blob.Example.store).step Timely (Pool.start empty.boot) uncommitted).any
      (fun p => isListed p && (p.shared.blobs.files.get? Sample.blob).isNone) = true := by
    with_unfolding_all decide
  obtain ⟨p, hrun, hp⟩ := follow_reaches hfollow
  obtain ⟨hlisted, hgone⟩ := Bool.and_eq_true_iff.mp hp
  obtain ⟨record, hrecord, hdigest⟩ := list_of_isListed hlisted
  refine ⟨_, p, record, lives_empty, hrun, hrecord, ?_⟩
  rw [hdigest]
  exact isNone_iff_eq_none.mp hgone

end Eggwork.Artifact
