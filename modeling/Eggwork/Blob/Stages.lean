import Eggwork.Blob.Store

/-! How far a call on the blob store is.

A stage is what a call has learned and done so far, as far as its next step depends
on it: a size read, a part that holds some bytes, a file without a row. `advance`
says which step a stage allows and where its answer leads; every call conforms to
it (`Call.conforms`). What a call does to the store is argued stage by stage. -/
namespace Eggwork.Blob
open Lib List

inductive Stage where
  | idle
  /-- The call has found the blob stored, or has stored it. -/
  | stored (digest : BlobDigest)
  -- verification
  | measured (digest : BlobDigest) (expected : Nat)
  | hashed (digest : BlobDigest) (expected : Nat) (content : Bytes)
  | moved (digest : BlobDigest)
  -- upload
  | vacant (digest : BlobDigest)
  | counted (digest : BlobDigest) (used : Nat)
  | filling (digest : BlobDigest) (used : Nat) (part : String) (content : Bytes)
  | spoiled (digest : BlobDigest) (part : String)
  | placed (digest : BlobDigest) (used : Nat) (part : String) (content : Bytes)
  | undoing (digest : BlobDigest)
  | probing (digest : BlobDigest)
  | removing (digest : BlobDigest)
  -- collection: the time is that of the references deleted, once they are
  | connected
  | collecting (now : Option Nat) (tables : Tables)
  | aborted
deriving DecidableEq

/-- The stages a call may return in. -/
def Stage.isFinal : Stage → Bool
  | idle | stored _ | vacant _ | counted .. | connected | aborted => true
  | _ => false

/-- The stages `undo` starts in. -/
def Stage.Undoable (digest : BlobDigest) (part : String) : Stage → Prop
  | filling d _ p _ | spoiled d p | placed d _ p _ => d = digest ∧ p = part
  | _ => False

structure Local where
  /-- The call has the write lock. -/
  locked : Bool
  stage : Stage
deriving DecidableEq

def Local.idle : Local := ⟨false, .idle⟩

/-- An answer that is an error. -/
abbrev failed {α : Type} : Except BlobError α → Bool
  | .ok _ => false
  | .error _ => true

section
variable (store : BlobStore)

/-- Where an answer leads; `none` where a stage does not allow the step. -/
@[simp] def Stage.advance (locked : Bool) (stage : Stage) : (o : Op) → o.Answer → Option Stage
  | .isStored digest, found =>
    match stage with
    | .idle => some (if found || !locked then .idle else .vacant digest)
    | .undoing d => if d = digest then some (if found then .probing digest else .idle) else none
    | _ => none
  | .used, answer =>
    match stage, answer with
    | .vacant digest, .ok used => some (.counted digest used)
    | .vacant digest, .error _ => some (.vacant digest)
    | .idle, _ => some .idle
    | _, _ => none
  | .createDirectory, _ =>
    match stage with
    | .counted .. => some stage
    | _ => none
  | .createPart, answer =>
    match stage, answer with
    | .counted digest used, .ok part => some (.filling digest used part [])
    | .counted .., .error _ => some stage
    | _, _ => none
  | .nextChunk, _ =>
    match stage with
    | .filling .. => some stage
    | _ => none
  | .writePart part bytes, answer =>
    match stage, answer with
    | .filling digest used p content, .ok _ =>
      if p = part then some (.filling digest used part (content ++ bytes)) else none
    | .filling digest _ p _, .error _ => if p = part then some (.spoiled digest part) else none
    | _, _ => none
  | .syncPart _, _ =>
    match stage with
    | .filling .. => some stage
    | _ => none
  | .renamePart part digest, answer =>
    match stage with
    | .filling d used p content =>
      if d = digest ∧ p = part ∧ store.sha256 content = digest then
        some (if failed answer then stage else .placed digest used part content)
      else none
    | _ => none
  | .syncDirectory, _ =>
    match stage with
    | .placed .. => some stage
    | _ => none
  | .insertRow digest sizeBytes, answer =>
    match stage with
    | .placed d used _ content =>
      if d = digest ∧ content.length = sizeBytes ∧ sizeBytes ≤ maxBlobBytes ∧
          saturating (used + sizeBytes) ≤ store.quotaBytes then
        some (if failed answer then stage else .stored digest)
      else none
    | _ => none
  | .removePart part, _ =>
    match stage with
    | .filling digest _ p _ | .spoiled digest p | .placed digest _ p _ =>
      if p = part then some (.undoing digest) else none
    | _ => none
  | .isIndexed digest, found =>
    match stage with
    | .probing d => if d = digest then some (if found then .idle else .removing digest) else none
    | _ => none
  | .removeFile digest, answer =>
    match stage with
    | .removing d => if d = digest then some .idle else none
    | .collecting (some now) tables =>
      if tables.isReferenced digest = false ∧ (tables.blobs.get? digest).isSome = true then
        some (if answer = .failed then stage else .collecting (some now) (tables.deleteRow digest))
      else none
    | _ => none
  | .sizeBytes digest, answer =>
    match stage with
    | .idle =>
      match answer with
      | .ok (some expected) => some (.measured digest expected)
      | _ => some .idle
    | _ => none
  | .readFile digest, answer =>
    match stage, answer with
    | .measured d expected, .ok content => if d = digest then some (.hashed digest expected content) else none
    | .measured d _, .error _ => if d = digest then some .idle else none
    | _, _ => none
  | .quarantine digest, answer =>
    match stage with
    | .hashed d expected content =>
      if d = digest ∧ store.isCorrupt digest expected content = true then
        some (if failed answer then .idle else .moved digest)
      else none
    | _ => none
  | .deleteRow digest, _ =>
    match stage with
    | .moved d => if d = digest then some .idle else none
    | _ => none
  | .touchRow digest, answer =>
    match stage with
    | .hashed d expected content =>
      if d = digest ∧ store.isCorrupt digest expected content = false then
        some (if failed answer then .idle else .stored digest)
      else none
    | _ => none
  | .retain .., _ | .setReferenceExpiry .., _ | .releaseReferences .., _ =>
    match stage with
    | .idle => some .idle
    | _ => none
  | .lockMetadata, _ =>
    match stage with
    | .idle => if locked then some .connected else none
    | _ => none
  | .beginImmediate, answer =>
    match stage, answer with
    | .connected, .ok tables => some (.collecting none tables)
    | .connected, .error _ => some .connected
    | _, _ => none
  | .statement, answer =>
    match stage with
    | .collecting .. => some (if failed answer then .aborted else stage)
    | _ => none
  | .deleteExpired now _, answer =>
    match stage, answer with
    | .collecting none tables, .ok references => some (.collecting (some now) { tables with references })
    | .collecting none _, .error _ => some .aborted
    | _, _ => none
  | .commit tables, answer =>
    match stage with
    | .collecting _ found => if found = tables then some (if failed answer then .aborted else .connected) else none
    | _ => none
  | .lockWrite, _ | .listParts, _ | .listFiles, _ | .knownDigests, _ => none

def Local.advance (g : Local) (o : Op) (answer : o.Answer) : Option Local :=
  match o with
  | .lockWrite => if g = .idle then some ⟨true, .idle⟩ else none
  | o => (g.stage.advance store g.locked o answer).map fun stage => { g with stage }

def protocol : Protocol effects Local := ⟨Local.advance store, fun name _ => name.elim⟩

end

/-! ### Conformance -/

section
variable {store : BlobStore} {locked : Bool} {stage : Stage} {digest : BlobDigest} {part : String} {α β : Type}

/-- Where the two kinds of answer lead. -/
def Stage.either (ok : α → Stage) (error : Stage) : Except BlobError α → Stage
  | .ok a => ok a
  | .error _ => error

theorem leads {o : Op} (next : o.Answer → Stage)
    (h : ∀ a, (protocol store).advance ⟨locked, stage⟩ o a = some ⟨locked, next a⟩) :
    (protocol store).Conforms (fun a g => g = ⟨locked, next a⟩) ⟨locked, stage⟩ (op o) :=
  fun a => ⟨_, h a, rfl⟩

theorem tries {p : Program effects (Except BlobError α)} {f : α → Io β} {post : Except BlobError β → Local → Prop}
    {next : Except BlobError α → Stage}
    (h : (protocol store).Conforms (fun ans g => g = ⟨locked, next ans⟩) ⟨locked, stage⟩ p)
    (he : ∀ e, post (.error e) ⟨locked, next (.error e)⟩)
    (hok : ∀ a, (protocol store).Conforms post ⟨locked, next (.ok a)⟩ (f a).run) :
    (protocol store).Conforms post ⟨locked, stage⟩ (attempt p >>= f).run := by
  refine Protocol.Conforms.bindExcept h ?_ ?_
  · rintro e _ rfl
    exact he e
  · rintro a _ rfl
    exact hok a

theorem asks {p : Program effects α} {f : α → Io β} {post : Except BlobError β → Local → Prop} {next : α → Stage}
    (h : (protocol store).Conforms (fun ans g => g = ⟨locked, next ans⟩) ⟨locked, stage⟩ p)
    (hn : ∀ a, (protocol store).Conforms post ⟨locked, next a⟩ (f a).run) :
    (protocol store).Conforms post ⟨locked, stage⟩ (always p >>= f).run := by
  refine h.bindLift ?_
  rintro a _ rfl
  exact hn a

theorem verifyExisting_conforms :
    (protocol store).Conforms (fun out g => g = ⟨locked, .either (fun _ => .stored digest) .idle out⟩)
      ⟨locked, .idle⟩ (verifyExisting store digest).run := by
  refine tries (leads (.either (fun size => size.elim .idle (.measured digest)) .idle) ?_) (fun _ => rfl) fun size => ?_
  · rintro (e | (_ | expected)) <;> rfl
  cases size with
  | none => rfl
  | some expected =>
    refine tries (leads (.either (.hashed digest expected) .idle) ?_) (fun _ => rfl) fun content => ?_
    · rintro (e | content) <;> simp [protocol, Local.advance, Stage.advance, Stage.either]
    by_cases hc : store.isCorrupt digest expected content = true
    · rw [if_pos hc]
      refine tries (leads (.either (fun _ => .moved digest) .idle) ?_) (fun _ => rfl) fun _ => ?_
      · rintro (e | _) <;> simp [protocol, Local.advance, Stage.advance, Stage.either, hc, failed]
      refine tries (leads (o := .deleteRow digest) (fun _ => .idle) ?_) (fun _ => rfl) fun _ => rfl
      rintro (e | _) <;> simp [protocol, Local.advance, Stage.advance, Stage.either]
    · rw [if_neg hc]
      refine leads (o := .touchRow digest) (.either (fun _ => .stored digest) .idle) ?_
      rintro (e | _) <;> simp [protocol, Local.advance, Stage.advance, Stage.either, hc, failed]

/-- The body is in the part as far as it was taken, and the hasher was fed the same. -/
def Received (digest : BlobDigest) (used : Nat) (part : String) : Except BlobError (Nat × Bytes) → Local → Prop
  | .ok body, g => g = ⟨true, .filling digest used part body.2⟩ ∧ body.1 = body.2.length
  | .error _, g => g.locked = true ∧ g.stage.Undoable digest part

theorem receive_conforms {used declared : Nat} (input : List (Option Bytes)) (content : Bytes) :
    (protocol store).Conforms (Received digest used part) ⟨true, .filling digest used part content⟩
      (receive part declared input content.length content).run := by
  induction input generalizing content with
  | nil =>
    refine asks (leads (fun _ => .filling digest used part content) fun _ => rfl) fun _ => ?_
    exact ⟨rfl, rfl⟩
  | cons chunk input ih =>
    refine asks (leads (fun _ => .filling digest used part content) fun _ => rfl) fun _ => ?_
    cases chunk with
    | none => exact ⟨rfl, rfl, rfl⟩
    | some bytes =>
      dsimp only
      split
      · exact ⟨rfl, rfl, rfl⟩
      refine tries (leads (o := .writePart part bytes)
        (.either (fun _ => .filling digest used part (content ++ bytes)) (.spoiled digest part)) ?_)
        (fun _ => ⟨rfl, rfl, rfl⟩) fun _ => ?_
      · rintro (e | _) <;> simp [protocol, Local.advance, Stage.advance, Stage.either]
      · rw [← length_append]
        exact ih (content ++ bytes)

/-- The stage a transfer ends in. -/
def Transferred (digest : BlobDigest) (part : String) : Except BlobError Unit → Local → Prop
  | .ok _, g => g = ⟨true, .stored digest⟩
  | .error _, g => g.locked = true ∧ g.stage.Undoable digest part

theorem transfer_conforms {used declared : Nat} {input : List (Option Bytes)} (hlen : declared ≤ maxBlobBytes)
    (hq : saturating (used + declared) ≤ store.quotaBytes) :
    (protocol store).Conforms (Transferred digest part) ⟨true, .filling digest used part []⟩
      (transfer store digest declared part input).run := by
  refine (receive_conforms input []).bindExcept (fun e g h => h) ?_
  rintro ⟨size, content⟩ _ ⟨rfl, hc⟩
  obtain rfl : size = content.length := hc
  dsimp only
  by_cases hsize : content.length = declared
  swap
  · rw [if_pos hsize]
    exact ⟨rfl, rfl, rfl⟩
  rw [if_neg (not_not_intro hsize)]
  by_cases hd : store.sha256 content = digest
  swap
  · rw [if_pos hd]
    exact ⟨rfl, rfl, rfl⟩
  rw [if_neg (not_not_intro hd)]
  refine tries (leads (o := .syncPart part) (fun _ => .filling digest used part content) fun _ => rfl)
    (fun _ => ⟨rfl, rfl, rfl⟩) fun _ => ?_
  refine tries (leads (o := .renamePart part digest)
    (.either (fun _ => .placed digest used part content) (.filling digest used part content)) ?_)
    (fun _ => ⟨rfl, rfl, rfl⟩) fun _ => ?_
  · rintro (e | _) <;> simp [protocol, Local.advance, Stage.advance, Stage.either, hd, failed]
  refine tries (leads (o := .syncDirectory) (fun _ => .placed digest used part content) fun _ => rfl)
    (fun _ => ⟨rfl, rfl, rfl⟩) fun _ => ?_
  rintro (e | _)
  · refine ⟨⟨true, .placed digest used part content⟩, ?_, rfl, rfl, rfl⟩
    simp [protocol, Local.advance, Stage.advance, failed, hsize, hlen, hq]
  · refine ⟨⟨true, .stored digest⟩, ?_, rfl⟩
    simp [protocol, Local.advance, Stage.advance, failed, hsize, hlen, hq]

theorem undo_conforms (h : stage.Undoable digest part) :
    (protocol store).Conforms (fun _ g => g = ⟨true, .idle⟩) ⟨true, stage⟩ (undo digest part) := by
  have hr : ∀ a, (protocol store).advance ⟨true, stage⟩ (.removePart part) a = some ⟨true, .undoing digest⟩ := by
    intro a
    cases stage with
    | filling | spoiled | placed =>
      obtain ⟨rfl, rfl⟩ := h
      simp [protocol, Local.advance, Stage.advance]
    | _ => cases h
  refine (leads (fun _ => .undoing digest) hr).bind ?_
  rintro _ _ rfl
  rintro (_ | _)
  · exact ⟨⟨true, .idle⟩, by simp [protocol, Local.advance, Stage.advance], rfl⟩
  refine ⟨⟨true, .probing digest⟩, by simp [protocol, Local.advance, Stage.advance], ?_⟩
  rintro (_ | _)
  · refine ⟨⟨true, .removing digest⟩, by simp [protocol, Local.advance, Stage.advance], fun a => ?_⟩
    exact ⟨⟨true, .idle⟩, by simp [protocol, Local.advance, Stage.advance], rfl⟩
  · exact ⟨⟨true, .idle⟩, by simp [protocol, Local.advance, Stage.advance], rfl⟩

/-- The stages in which an upload has left no trace. -/
def Stage.isTraceless : Stage → Bool
  | idle | vacant _ | counted .. => true
  | _ => false

def Uploaded (digest : BlobDigest) : Except BlobError Unit → Local → Prop
  | .ok _, g => g.stage = .stored digest
  | .error _, g => g.stage.isTraceless = true

theorem Uploaded.isFinal {out : Except BlobError Unit} {g : Local} (h : Uploaded digest out g) : g.stage.isFinal = true := by
  obtain ⟨locked, stage⟩ := g
  cases out with
  | ok =>
    cases h
    rfl
  | error => cases stage <;> first | rfl | cases h

theorem uploaded_of_verified {out : Except BlobError Unit} {g : Local}
    (h : g = ⟨locked, .either (fun _ => .stored digest) .idle out⟩) : Uploaded digest out g := by
  subst h
  cases out <;> rfl

def Admitted (store : BlobStore) (digest : BlobDigest) (declaredLength : Nat) : Except BlobError Unit → Local → Prop
  | .ok _, g => ∃ used, g = ⟨true, .counted digest used⟩ ∧ saturating (used + declaredLength) ≤ store.quotaBytes
  | .error _, g => g.stage.isTraceless = true

theorem checkQuota_conforms {declared : Nat} :
    (protocol store).Conforms (Admitted store digest declared) ⟨true, .vacant digest⟩
      (checkQuota store declared).run := by
  refine tries (leads (o := .used) (.either (.counted digest) (.vacant digest)) ?_) (fun _ => rfl) fun used => ?_
  · rintro (e | used) <;> rfl
  by_cases hq : saturating (used + declared) > store.quotaBytes
  · rw [if_pos hq]
    rfl
  · rw [if_neg hq]
    exact ⟨used, rfl, not_lt.mp hq⟩

theorem putStream_conforms {declared : Nat} {input : List (Option Bytes)} :
    (protocol store).Conforms (Uploaded digest) .idle (putStream store digest declared input).run := by
  unfold putStream
  by_cases hlen : declared > maxBlobBytes
  · rw [if_pos hlen]
    rfl
  rw [if_neg hlen]
  refine fun _ => ⟨⟨true, .idle⟩, rfl, ?_⟩
  refine asks (leads (o := .isStored digest) (fun found => bif found then .idle else .vacant digest) ?_) fun found => ?_
  · rintro (_ | _) <;> rfl
  cases found with
  | true => exact verifyExisting_conforms.mono fun _ _ => uploaded_of_verified
  | false =>
    refine checkQuota_conforms.bindExcept (fun _ _ h => h) ?_
    rintro _ _ ⟨used, rfl, hq⟩
    refine tries (leads (o := .createDirectory) (fun _ => .counted digest used) fun _ => rfl) (fun _ => rfl) fun _ => ?_
    refine tries (leads (o := .createPart) (.either (.filling digest used · []) (.counted digest used)) ?_) (fun _ => rfl)
      fun part => ?_
    · rintro (e | part) <;> rfl
    refine (transfer_conforms (not_lt.mp hlen) hq).bindLift ?_
    rintro (e | _) g h
    · obtain ⟨hl, hundo⟩ := h
      obtain ⟨_, stage⟩ := g
      cases hl
      refine (undo_conforms hundo).bindLift ?_
      rintro _ _ rfl
      rfl
    · subst h
      rfl

theorem prepareUpload_conforms {declared : Nat} :
    (protocol store).Conforms (fun _ g => g.stage.isFinal = true) .idle (prepareUpload store digest declared).run := by
  unfold prepareUpload
  by_cases hlen : declared > maxBlobBytes
  · rw [if_pos hlen]
    rfl
  rw [if_neg hlen]
  refine asks (leads (o := .isStored digest) (fun _ => .idle) ?_) fun found => ?_
  · rintro (_ | _) <;> rfl
  cases found with
  | true =>
    refine verifyExisting_conforms.bindExcept ?_ ?_
    · rintro e _ rfl
      rfl
    · rintro _ _ rfl
      rfl
  | false =>
    have ha : (protocol store).Conforms (fun _ g => g = .idle) .idle (checkQuota store declared).run := by
      refine tries (leads (o := .used) (fun _ => .idle) fun _ => rfl) (fun _ => rfl) fun used => ?_
      split
      · rfl
      · rfl
    refine ha.bindExcept ?_ ?_
    · rintro e _ rfl
      rfl
    · rintro _ _ rfl
      rfl

/-! #### Collection -/

theorem get?_deleteRow (ts : Tables) (digest d : BlobDigest) :
    (ts.deleteRow digest).blobs.get? d = if d = digest then none else ts.blobs.get? d := by
  simp [Tables.deleteRow, Table.get?_delete]

theorem isReferenced_deleteRow {ts : Tables} {d : BlobDigest} (h : ts.isReferenced d = false) (digest : BlobDigest) :
    (ts.deleteRow digest).isReferenced d = false := by
  simp only [Tables.isReferenced, any_eq_false] at h ⊢
  exact fun e he => h e (mem_of_mem_filter he)

theorem deleteUnreferenced_eq {ts : Tables} (h : ts.isReferenced digest = false) :
    ts.deleteUnreferenced digest = ts.deleteRow digest := by
  simp [Tables.deleteUnreferenced, h]

/-- The row can go: it is there, and nothing refers to it. -/
def Tables.Free (tables : Tables) (digest : BlobDigest) : Prop :=
  tables.isReferenced digest = false ∧ (tables.blobs.get? digest).isSome = true

theorem Tables.Free.deleteRow {ts : Tables} {d : BlobDigest} (h : ts.Free d) (hne : d ≠ digest) :
    (ts.deleteRow digest).Free d := by
  refine ⟨isReferenced_deleteRow h.1 digest, ?_⟩
  rw [get?_deleteRow, if_neg hne]
  exact h.2

theorem unreferencedCandidates_free {ts : Tables} {limit : Nat} : ∀ e ∈ ts.unreferencedCandidates limit, ts.Free e.1 := by
  intro e he
  obtain ⟨hr, hf⟩ := mem_filter.mp (mem_sortBy.mp (mem_of_mem_take he))
  refine ⟨by simpa using hf, ?_⟩
  rw [Table.mem_rows.mp hr]
  rfl

theorem unreferencedCandidates_nodup {ts : Tables} {limit : Nat} :
    ((ts.unreferencedCandidates limit).map Prod.fst).Nodup := by
  have hrows := (filter_sublist (p := fun e => !ts.isReferenced e.1)).map Prod.fst |>.nodup ts.blobs.nodup
  have hs := ((sortBy_perm (fun e : BlobDigest × BlobRow => e.2.lastUsed) _).map Prod.fst).nodup_iff.mpr hrows
  exact ((take_sublist ..).map Prod.fst).nodup hs

theorem statement_leads (now : Option Nat) (ts : Tables) :
    (protocol store).Conforms (fun a g => g = ⟨true, .either (fun _ => .collecting now ts) .aborted a⟩)
      ⟨true, .collecting now ts⟩ (op .statement) := by
  refine leads (o := .statement) _ ?_
  rintro (e | _) <;> rfl

theorem commit_leads (now : Option Nat) (ts : Tables) :
    (protocol store).Conforms (fun a g => g = ⟨true, .either (fun _ => .connected) .aborted a⟩)
      ⟨true, .collecting now ts⟩ (op (.commit ts)) := by
  refine leads (o := .commit ts) _ ?_
  rintro (e | _) <;> simp [protocol, Local.advance, Stage.advance, Stage.either, failed]

/-- What the loop over the candidates ends with. -/
def Swept (now : Nat) : Except BlobError (Sweep × Option BlobError) → Local → Prop
  | .ok swept, g => g = ⟨true, .collecting (some now) swept.1.tables⟩
  | .error _, g => g.stage.isFinal = true

theorem unlinkAll_conforms {now blobs bytes : Nat} {ts : Tables} {cs : List (BlobDigest × BlobRow)}
    (hn : (cs.map Prod.fst).Nodup) (hf : ∀ e ∈ cs, ts.Free e.1) :
    (protocol store).Conforms (Swept now) ⟨true, .collecting (some now) ts⟩ (unlinkAll cs ⟨ts, blobs, bytes⟩).run := by
  induction cs generalizing ts blobs bytes with
  | nil => rfl
  | cons e rest ih =>
    obtain ⟨digest, row⟩ := e
    rw [map_cons, nodup_cons] at hn
    have hhead := hf _ mem_cons_self
    -- the rest of the cs can still go once this row is gone
    have hrest : ∀ e ∈ rest, (ts.deleteRow digest).Free e.1 := by
      intro e hentry
      refine (hf e (mem_cons_of_mem _ hentry)).deleteRow fun he => ?_
      exact hn.1 (mem_map.mpr ⟨e, hentry, he⟩)
    have hstep : ∀ a, (protocol store).advance ⟨true, .collecting (some now) ts⟩ (.removeFile digest) a =
        some ⟨true, .collecting (some now) (if a = .failed then ts else ts.deleteRow digest)⟩ := by
      intro a
      cases a <;> simp [protocol, Local.advance, Stage.advance, hhead.1, hhead.2]
    refine asks (leads _ hstep) fun a => ?_
    cases a with
    | failed => rfl
    | removed | absent =>
      refine tries (statement_leads (some now) (ts.deleteRow digest)) (fun _ => rfl) fun _ => ?_
      rw [deleteUnreferenced_eq hhead.1]
      exact ih hn.2 hrest

theorem garbageCollect_conforms {now limit : Nat} {dryRun : Bool} :
    (protocol store).Conforms (fun _ g => g.stage.isFinal = true) .idle (garbageCollect now limit dryRun).run := by
  refine fun _ => ⟨⟨true, .idle⟩, rfl, ?_⟩
  refine asks (leads (o := .lockMetadata) (fun _ => .connected) fun _ => rfl) fun _ => ?_
  refine tries (leads (o := .beginImmediate) (.either (.collecting none) .connected) ?_) (fun _ => rfl) fun ts => ?_
  · rintro (e | ts) <;> rfl
  refine tries (statement_leads none ts) (fun _ => rfl) fun _ => ?_
  refine tries (statement_leads none ts) (fun _ => rfl) fun _ => ?_
  cases dryRun with
  | true => exact tries (commit_leads none ts) (fun _ => rfl) fun _ => rfl
  | false =>
    refine tries (leads (o := .deleteExpired now limit)
      (.either (fun references => .collecting (some now) { ts with references }) .aborted) ?_)
      (fun _ => rfl) fun references => ?_
    · rintro (e | references) <;> rfl
    refine tries (statement_leads (some now) { ts with references }) (fun _ => rfl) fun _ => ?_
    have hs : (protocol store).Conforms (Swept now) ⟨true, .collecting (some now) { ts with references }⟩
        (unlinkAll (Tables.unreferencedCandidates { ts with references } limit) ⟨{ ts with references }, 0, 0⟩).run :=
      unlinkAll_conforms unreferencedCandidates_nodup unreferencedCandidates_free
    refine hs.bindExcept ?_ ?_
    · exact fun _ _ h => h
    rintro ⟨sweep, unlinkError⟩ _ rfl
    refine tries (commit_leads (some now) sweep.tables) (fun _ => rfl) fun _ => ?_
    cases unlinkError <;> rfl

theorem Call.conforms (call : Call) : (protocol store).Conforms (fun _ g => g.stage.isFinal = true) .idle (call.program store) := by
  cases call with
  | putStream digest declared input =>
    exact putStream_conforms.discard fun _ _ h => h.isFinal
  | verifyExisting digest =>
    refine verifyExisting_conforms.discard ?_
    rintro (_ | _) _ rfl <;> rfl
  | prepareUpload digest declared => exact prepareUpload_conforms.discard fun _ _ h => h
  | garbageCollect now limit dryRun => exact garbageCollect_conforms.discard fun _ _ h => h
  | retain kind es exp | setReferenceExpiry kind owner exp => exact fun _ => ⟨.idle, rfl, rfl⟩
  | clearReferenceExpiry kind owner | releaseReferences kind owner => exact fun _ => ⟨.idle, rfl, rfl⟩

end
end Eggwork.Blob
