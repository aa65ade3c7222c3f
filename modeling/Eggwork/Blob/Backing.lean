import Eggwork.Blob.Turns

/-! What a reference is good for.

A reference keeps the blob it names, row and file, until it expires. Uploads and
collections take turns, and neither breaks that on its way: an upload puts a file
before its row, and a collection unlinks only what its own transaction finds without
a reference, once the expired ones are out of it (`Fits.step`). So in whatever stage
the call is that has the lock, a reference that has not expired finds its blob
(`Turns.backs`). -/
namespace Eggwork.Blob
open Lib List Option Bool Table Local

/-- Files have the content their name asks for, rows have their files, and references their rows. -/
structure Backed (store : BlobStore) (tables : Tables) (files : Table BlobDigest Bytes) : Prop where
  content : ∀ {d c}, files.get? d = some c → store.sha256 c = d
  file : ∀ {d row}, tables.blobs.get? d = some row → ∃ c, files.get? d = some c ∧ c.length = row.sizeBytes
  row : ∀ {k e}, tables.references.get? k = some e → (tables.blobs.get? k.2.2).isSome = true

/-- The open transaction of a collection, against the store: it is backed itself, and has every reference that
outlives the collection. -/
structure Sweeps (store : BlobStore) (now : Nat) (s : State) (tables : Tables) : Prop where
  backed : Backed store tables s.files
  rows : ∀ d, tables.blobs.get? d = s.blobs.get? d ∨ s.files.get? d = none
  references : ∀ {k e}, s.references.get? k = some e → Tables.isExpired now e = false → tables.references.get? k = some e
  indexed : ∀ {k e}, s.references.get? k = some e → (s.blobs.get? k.2.2).isSome = true

/-- The store in the stage of the call that has the write lock. -/
def Fits (store : BlobStore) (clock : Nat) (s : State) : Stage → Prop
  | .idle | .stored _ | .connected => Backed store s.toTables s.files
  | .measured d n => Backed store s.toTables s.files ∧ ∃ c, s.files.get? d = some c ∧ c.length = n
  | .hashed d n c => Backed store s.toTables s.files ∧ store.isCorrupt d n c = false
  | .vacant d | .counted d _ | .spoiled d _ | .undoing d | .probing d | .removing d =>
    Backed store s.toTables s.files ∧ s.blobs.get? d = none
  | .filling d _ p c => Backed store s.toTables s.files ∧ s.blobs.get? d = none ∧ s.parts.get? p = some c
  | .placed d _ _ c => Backed store s.toTables s.files ∧ s.blobs.get? d = none ∧ s.files.get? d = some c
  | .collecting none tables => tables = s.toTables ∧ Backed store s.toTables s.files
  | .collecting (some now) tables => now ≤ clock ∧ Sweeps store now s tables
  | .moved _ | .aborted => False

/-- The steps of a transaction once it is open. -/
def Op.isStatement : Op → Bool
  | .statement | .deleteExpired .. | .commit _ => true
  | _ => false

theorem isExpired_some {now expires : Nat} : Tables.isExpired now (some expires) = false ↔ now < expires := by
  simp [Tables.isExpired]

theorem isExpired_mono {now clock : Nat} {e : Option Nat} (h : now ≤ clock) (he : Tables.isExpired clock e = false) :
    Tables.isExpired now e = false := by
  cases e with
  | none => rfl
  | some expires => exact isExpired_some.mpr (h.trans_lt (isExpired_some.mp he))

section
variable {store : BlobStore} {clock : Nat} {s s' : State} {t : Nat} {choice : Choice} {o : Op} {g g' : Local} {stage : Stage}
  {tables : Tables} {files : Table BlobDigest Bytes} {d digest : BlobDigest} {k : ReferenceKey} {e : Option Nat}

theorem Backed.vacant (h : Backed store tables files) (hd : files.get? d = none) : tables.blobs.get? d = none := by
  cases hr : tables.blobs.get? d with
  | none => rfl
  | some row =>
    obtain ⟨c, hc, _⟩ := h.file hr
    rw [hd] at hc
    cases hc

theorem Backed.put (h : Backed store tables files) (hr : tables.blobs.get? digest = none) {c : Bytes} (hc : store.sha256 c = digest) :
    Backed store tables (files.put digest c) where
  content {d' c'} hfile := by
    rw [get?_put] at hfile
    split at hfile
    · rename_i he
      cases hfile
      rw [he, hc]
    · exact h.content hfile
  file {d' row} hrow' := by
    rw [get?_put, if_neg]
    · exact h.file hrow'
    rintro rfl
    rw [hr] at hrow'
    cases hrow'
  row := h.row

theorem Backed.delete (h : Backed store tables files) (hr : tables.blobs.get? digest = none) :
    Backed store tables (files.delete (· == digest)) where
  content {d c} hfile := by
    rw [files_delete] at hfile
    split at hfile
    · cases hfile
    · exact h.content hfile
  file {d row} hrow' := by
    rw [files_delete, if_neg]
    · exact h.file hrow'
    rintro rfl
    rw [hr] at hrow'
    cases hrow'
  row := h.row

theorem Backed.insert (h : Backed store tables files) {row : BlobRow} {blobs : Table BlobDigest BlobRow}
    (hi : tables.blobs.insert digest row = some blobs) {c : Bytes} (hfile : files.get? digest = some c)
    (hlen : c.length = row.sizeBytes) : Backed store { tables with blobs } files where
  content := h.content
  file {d row'} hr := by
    rw [get?_insert hi] at hr
    split at hr
    · rename_i he
      cases hr
      exact ⟨c, he ▸ hfile, hlen⟩
    · exact h.file hr
  row {k e} hk := by
    rw [get?_insert hi]
    split
    · rfl
    · exact h.row hk

theorem Backed.touch (h : Backed store tables files) (digest : BlobDigest) (now : Nat) :
    Backed store { tables with blobs := tables.blobs.update digest fun row => { row with lastUsed := now } } files where
  content := h.content
  file {d row} hr := by
    rw [get?_update] at hr
    split at hr
    · rename_i he
      obtain ⟨row', hrow', rfl⟩ := map_eq_some_iff.mp hr
      obtain ⟨c, hc, hlen⟩ := h.file hrow'
      exact ⟨c, he ▸ hc, hlen⟩
    · exact h.file hr
  row {k e} hk := by
    rw [get?_update]
    split
    · rename_i he
      rw [isSome_map, ← he]
      exact h.row hk
    · exact h.row hk

theorem not_referenced (h : tables.isReferenced digest = false) (hk : tables.references.get? k = some e) : k.2.2 ≠ digest := by
  intro he
  have hf : tables.isReferenced digest = true :=
    any_eq_true.mpr ⟨(k, e), mem_rows.mpr hk, by simpa using he⟩
  rw [h] at hf
  cases hf

/-! ### Collections -/

theorem Backed.deleteRow (h : Backed store tables s.files) (digest : BlobDigest)
    (hfs : ∀ d, files.get? d = if d = digest then none else s.files.get? d) : Backed store (tables.deleteRow digest) files where
  content {d c} hc := by
    rw [hfs] at hc
    split at hc
    · cases hc
    · exact h.content hc
  file {d row} hr := by
    rw [get?_deleteRow] at hr
    split at hr
    · cases hr
    rename_i hd
    rw [hfs, if_neg hd]
    exact h.file hr
  row {k e} hk := by
    have hk : (tables.references.delete fun k => k.2.2 == digest).get? k = some e := hk
    rw [get?_delete] at hk
    split at hk
    · cases hk
    rename_i hne
    rw [get?_deleteRow, if_neg (by simpa using hne)]
    exact h.row hk

theorem sweeps_deleteExpired {now limit : Nat} {chosen : List ReferenceKey} (h : Backed store s.toTables s.files)
    (hmay : s.mayDelete now limit chosen = true) :
    Sweeps store now s { s.toTables with references := s.references.delete chosen.contains } where
  backed := by
    refine ⟨h.content, h.file, fun {k e} hk => ?_⟩
    rw [get?_delete] at hk
    split at hk
    · cases hk
    · exact h.row hk
  rows _ := .inl rfl
  references := (sweeping_deleteExpired (r := s.toRoot) (fun _ => .inl ⟨rfl, rfl⟩) hmay).references
  indexed := h.row

/-- A file is gone that the transaction finds unreferenced, and its row goes from the transaction. -/
theorem Sweeps.deleteRow {now : Nat} (h : Sweeps store now s tables) (hf : tables.Free digest) (files : Table BlobDigest Bytes)
    (hfs : ∀ d, files.get? d = if d = digest then none else s.files.get? d) :
    Sweeps store now { s with files } (tables.deleteRow digest) where
  backed := h.backed.deleteRow digest hfs
  rows d := by
    rw [get?_deleteRow, hfs]
    by_cases hd : d = digest
    · exact .inr (if_pos hd)
    · rw [if_neg hd, if_neg hd]
      exact h.rows d
  references {k e} hk he := by
    have hkept := h.references hk he
    show (tables.references.delete fun k => k.2.2 == digest).get? k = some e
    rw [get?_delete, if_neg (by simpa using not_referenced hf.1 hkept)]
    exact hkept
  indexed := h.indexed

/-! ### Steps -/

theorem Fits.undoable {part : String} (h : Fits store clock s stage) (hundo : stage.Undoable digest part) :
    Backed store s.toTables s.files ∧ s.blobs.get? digest = none := by
  cases stage with
  | filling | placed =>
    obtain ⟨rfl, rfl⟩ := hundo
    exact ⟨h.1, h.2.1⟩
  | spoiled =>
    obtain ⟨rfl, rfl⟩ := hundo
    exact h
  | _ => cases hundo

/-- Steps of an upload or of a collection made in time, whatever fails in them but a probe or a step of the transaction. -/
theorem Fits.step (h : Fits store clock s g.stage) (ho : o.isReferential = false)
    (hfault : ∀ {now tables}, g.stage = .collecting now tables → o.isUnlink = false → choice.fault = none)
    (hprobe : o.isProbe = true → choice.fault = none)
    (htime : ∀ {now limit}, o = .deleteExpired now limit → now ≤ clock) (hdoes : Does store s t choice o g g' s') :
    Fits store clock s' g'.stage := by
  cases hdoes with
  | lockWrite | same | count | probe | condemn | lockMetadata => exact h
  | refer _ hrefuse =>
    rw [hrefuse] at ho
    cases ho
  | measure hr =>
    obtain ⟨c, hc, hlen⟩ := Backed.file h hr
    exact ⟨h, c, hc, hlen⟩
  | @hash _ digest n c hfile =>
    obtain ⟨h, c', hc, hlen⟩ := h
    rw [hfile] at hc
    cases hc
    refine ⟨h, ?_⟩
    simp [BlobStore.isCorrupt, hlen, h.content hfile]
  | unread | untouched => exact h.1
  | quarantine _ hcorrupt =>
    rw [h.2] at hcorrupt
    cases hcorrupt
  | deleteRow | undeleted => exact h.elim
  | touch now => exact h.1.touch _ now
  | vacate hfile =>
    refine ⟨h, Backed.vacant h (hfile.resolve_right ?_)⟩
    rw [hprobe rfl]
    exact false_ne_true
  | @createPart _ digest used part parts hi =>
    refine ⟨h.1, h.2, ?_⟩
    rw [get?_insert hi, if_pos rfl]
  | writePart bytes =>
    refine ⟨h.1, h.2.1, ?_⟩
    rw [get?_update, if_pos rfl, h.2.2]
    rfl
  | spoil => exact ⟨h.1, h.2.1⟩
  | @renamePart _ digest used part content bytes hdigest hpart =>
    obtain ⟨h, hr, hb⟩ := h
    rw [hpart] at hb
    cases hb
    refine ⟨h.put hr hdigest, hr, ?_⟩
    rw [get?_put, if_pos rfl]
  | insertRow _ _ _ hi => exact h.1.insert hi h.2.2 rfl
  | removePart hundo | keepPart hundo => exact h.undoable hundo
  | clear | spare | keepFile => exact h.1
  | removeFile => exact h.1.delete h.2
  | beginImmediate => exact ⟨rfl, h⟩
  | deleteExpired hmay =>
    obtain ⟨rfl, h⟩ := h
    exact ⟨htime rfl, sweeps_deleteExpired h hmay⟩
  | unlink hf => exact ⟨h.1, h.2.deleteRow hf _ (files_delete _ _)⟩
  | @unlinked _ digest _ _ hf ha =>
    refine ⟨h.1, h.2.deleteRow hf s.files fun d => ?_⟩
    by_cases hd : d = digest
    · rw [if_pos hd, hd, ha]
    · rw [if_neg hd]
  | @commit _ tables time =>
    cases time with
    | none =>
      obtain ⟨rfl, h⟩ := h
      exact h
    | some time => exact h.2.backed
  | abort hfailed hu =>
    rw [hfault rfl hu] at hfailed
    cases hfailed

theorem Fits.keeps (h : Fits store clock s g.stage) (ho : o.isReferential = false) (hdoes : Does store s t choice o g g' s')
    (hk : s.references.get? k = some e) (he : Tables.isExpired clock e = false) : s'.references.get? k = some e := by
  cases hdoes with
  | refer _ hr =>
    rw [hr] at ho
    cases ho
  | deleteRow => exact h.elim
  | @commit _ tables time =>
    cases time with
    | none =>
      obtain ⟨rfl, _⟩ := h
      exact hk
    | some time => exact h.2.references hk (isExpired_mono h.1 he)
  | _ => exact hk

theorem Fits.refer {references : Table ReferenceKey (Option Nat)} (h : Fits store clock s stage) (hf : stage.isConnected = false)
    (hr : ∀ {k e}, references.get? k = some e → (s.blobs.get? k.2.2).isSome = true) : Fits store clock { s with references } stage := by
  have hb : Backed store s.toTables s.files → Backed store { s.toTables with references } s.files := fun h =>
    ⟨h.content, h.file, hr⟩
  cases stage with
  | idle | stored => exact hb h
  | measured | hashed | vacant | counted | spoiled | undoing | probing | removing | filling | placed => exact ⟨hb h.1, h.2⟩
  | moved => exact h
  | connected | collecting | aborted => cases hf

theorem Fits.cases (h : Fits store clock s stage) :
    Backed store s.toTables s.files ∨ ∃ now tables, stage = .collecting (some now) tables ∧ now ≤ clock ∧ Sweeps store now s tables := by
  cases stage with
  | idle | stored | connected => exact .inl h
  | measured | hashed | vacant | counted | spoiled | undoing | probing | removing | filling | placed => exact .inl h.1
  | collecting time tables =>
    cases time with
    | none => exact .inl h.2
    | some now => exact .inr ⟨now, tables, rfl, h⟩
  | moved | aborted => exact h.elim

theorem Backed.backs (h : Backed store tables files) (hk : tables.references.get? k = some e) :
    (tables.blobs.get? k.2.2).isSome = true ∧ (files.get? k.2.2).isSome = true := by
  have hr := h.row hk
  obtain ⟨row, hrow'⟩ := isSome_iff_exists.mp hr
  obtain ⟨c, hc, _⟩ := h.file hrow'
  exact ⟨hr, by rw [hc]; rfl⟩

theorem Fits.indexed (h : Fits store clock s stage) (hk : s.references.get? k = some e) : (s.blobs.get? k.2.2).isSome = true := by
  rcases h.cases with hb | ⟨_, _, _, _, hs⟩
  · exact hb.row hk
  · exact hs.indexed hk

theorem Fits.backs (h : Fits store clock s stage) (hk : s.references.get? k = some e) (he : Tables.isExpired clock e = false) :
    (s.blobs.get? k.2.2).isSome = true ∧ (s.files.get? k.2.2).isSome = true := by
  rcases h.cases with hb | ⟨now, tables, _, hnow, hs⟩
  · exact hb.backs hk
  · exact ⟨hs.indexed hk, (hs.backed.backs (hs.references hk (isExpired_mono hnow he))).2⟩

theorem Fits.final (h : Fits store clock s stage) (hf : stage.isFinal = true) : Backed store s.toTables s.files := by
  rcases h.cases with hb | ⟨_, _, rfl, _⟩
  · exact hb
  · cases hf

theorem Fits.dropped (h : Fits store clock s g.stage) (ha : o.awaits = true) {a : o.Answer}
    (hm : (protocol store).advance g o a = some g') : Backed store s.toTables s.files := by
  rcases h.cases with hb | ⟨now, tables, hstage, _⟩
  · exact hb
  obtain ⟨locked, stage⟩ := g
  obtain rfl : stage = .collecting (some now) tables := hstage
  cases o with
  | lockWrite => simp [protocol, advance, idle] at hm
  | nextChunk | syncPart => cases hm
  | writePart | readFile => cases a <;> cases hm
  | _ => cases ha

theorem Fits.release (h : Fits store clock s stage) (t : Nat) : Fits store clock (s.release t) stage := by
  cases stage with
  | collecting time tables =>
    cases time with
    | none => exact h
    | some now => exact ⟨h.1, h.2.backed, h.2.rows, h.2.references, h.2.indexed⟩
  | _ => exact h

theorem Fits.later {clock' : Nat} (h : Fits store clock s stage) (hc : clock ≤ clock') : Fits store clock' s stage := by
  cases stage with
  | collecting time tables =>
    cases time with
    | none => exact h
    | some now => exact ⟨h.1.trans hc, h.2⟩
  | _ => exact h

end

/-! ### Turns -/

/-- A store that keeps what references name. -/
abbrev Backs (store : BlobStore) (clock : Nat) : State → (Nat → Local) → Prop :=
  Turns (fun s => Backed store s.toTables s.files) (Fits store clock)

section
variable {store : BlobStore} {clock : Nat} {s s' : State} {t : Nat} {locals : Nat → Local}

theorem Turns.fits (h : Backs store clock s locals) : ∃ stage, Fits store clock s stage := by
  cases hl : s.writeLock with
  | none => exact ⟨.idle, h.free hl⟩
  | some holder => exact ⟨_, (h.busy hl).2⟩

theorem Turns.backs (h : Backs store clock s locals) {k : ReferenceKey} {e : Option Nat} (hk : s.references.get? k = some e)
    (he : Tables.isExpired clock e = false) : (s.blobs.get? k.2.2).isSome = true ∧ (s.files.get? k.2.2).isSome = true := by
  obtain ⟨stage, hfits⟩ := h.fits
  exact hfits.backs hk he

/-- The steps of a collection that can fail with its transaction open. -/
theorem isStatement_of_collecting {g g' : Local} {o : Op} {a : o.Answer} (hm : (protocol store).advance g o a = some g')
    {now : Option Nat} {tables : Tables} (hstage : g.stage = .collecting now tables) (hu : o.isUnlink = false) :
    o.isStatement = true := by
  obtain ⟨locked, stage⟩ := g
  obtain rfl : stage = .collecting now tables := hstage
  cases o with
  | statement | deleteExpired | commit => rfl
  | removeFile => cases hu
  | lockWrite => simp [protocol, advance, idle] at hm
  | used | createPart | writePart | readFile | sizeBytes | beginImmediate => cases a <;> cases hm
  | _ => cases hm

/-- A step of an upload, or of a collection at a time that has come; no probe and no statement of a transaction fails. -/
theorem Turns.step {kind : Op → Bool} {choice : Choice} {o : Op} {a : o.Answer} {g' : Local} (h : Backs store clock s locals)
    (ho : o.isInTurn kind (locals t) = true)
    (hkind : kind o = true → o.isReferential = false ∧ ∀ {now limit}, o = .deleteExpired now limit → now ≤ clock)
    (hfault : o.isStatement = true ∨ o.isProbe = true → choice.fault = none) (hp : perform s t choice o = some (a, s'))
    (hm : (protocol store).advance (locals t) o a = some g') : Backs store clock s' (Function.update locals t g') ∧
      ∀ {k e}, s.references.get? k = some e → Tables.isExpired clock e = false → s'.references.get? k = some e := by
  have hdoes := does hp hm
  obtain ⟨hr, htime⟩ : o.isReferential = false ∧ ∀ {now limit}, o = .deleteExpired now limit → now ≤ clock := by
    cases o with
    | lockWrite => exact ⟨rfl, fun he => (nomatch he)⟩
    | _ => exact hkind ((and_eq_true _ _).mp ho).2
  refine ⟨h.run ho hdoes (fun hf => hf) fun _ hbusy => ?_, fun {k e} hk he => ?_⟩
  · exact hbusy.step hr (fun hstage hu => hfault (.inl (isStatement_of_collecting hm hstage hu)))
      (fun ho => hfault (.inr ho)) htime hdoes
  cases hl : (locals t).locked with
  | true => exact (h.busy ((h.held t).write hl)).2.keeps hr hdoes hk he
  | false =>
    rw [h.idle hl] at ho hdoes
    obtain ⟨_, _, rfl⟩ := hdoes.takes_lock ho
    exact hk

theorem Turns.later {clock' : Nat} (h : Backs store clock s locals) (hc : clock ≤ clock') : Backs store clock' s locals :=
  ⟨h.held, h.idle, h.free, fun hl => ⟨(h.busy hl).1, (h.busy hl).2.later hc⟩⟩

end

section
variable {r r' : Tables} {kind : OwnerKind} {entries : List (String × BlobDigest)} {expires : Option Nat}

theorem get?_foldl_put (refs : Table ReferenceKey (Option Nat)) (k : ReferenceKey) :
    (entries.foldl (fun t entry => t.put (kind, entry) expires) refs).get? k =
      if k.1 = kind ∧ k.2 ∈ entries then some expires else refs.get? k := by
  induction entries generalizing refs with
  | nil => simp
  | cons entry rest ih =>
    rw [foldl_cons, ih, get?_put]
    obtain ⟨kind', entry'⟩ := k
    by_cases hrest : kind' = kind ∧ entry' ∈ rest
    · rw [if_pos hrest, if_pos ⟨hrest.1, mem_cons_of_mem _ hrest.2⟩]
    rw [if_neg hrest]
    by_cases he : kind' = kind ∧ entry' = entry
    · rw [if_pos (Prod.ext he.1 he.2), if_pos ⟨he.1, mem_cons.mpr (.inl he.2)⟩]
    rw [if_neg fun h => he (Prod.ext_iff.mp h), if_neg]
    rintro ⟨hkind, hm⟩
    rcases mem_cons.mp hm with h | h
    · exact he ⟨hkind, h⟩
    · exact hrest ⟨hkind, h⟩

/-- Retained are blobs that are there, and other references stay. -/
theorem retain_eq_some (h : r.retain kind entries expires = some r') :
    r'.blobs = r.blobs ∧ (∀ entry ∈ entries, (r.blobs.get? entry.2).isSome = true) ∧
      ∀ k, r'.references.get? k = if k.1 = kind ∧ k.2 ∈ entries then some expires else r.references.get? k := by
  obtain ⟨hall, ⟨⟩⟩ := ite_none_right_eq_some.mp h
  exact ⟨rfl, all_eq_true.mp hall, get?_foldl_put r.references⟩

end

section
variable {store : BlobStore} {clock : Nat} {s : State} {t : Nat} {locals : Nat → Local} {tables : Tables} {kind : OwnerKind}
  {entries : List (String × BlobDigest)} {expires : Option Nat}

/-- References come in between two steps of whoever has the lock. -/
theorem Turns.retain (h : Backs store clock s locals) (hconn : s.connects t = true) (ht : (locals t).locked = false)
    (hretired : s.toTables.retain kind entries expires = some tables) : Backs store clock (s.withTables tables) locals := by
  obtain ⟨hblob, hall, hrefs⟩ := retain_eq_some hretired
  obtain ⟨_, refs⟩ := tables
  obtain rfl : _ = s.blobs := hblob
  have hr : (∀ {k e}, s.references.get? k = some e → (s.blobs.get? k.2.2).isSome = true) →
      ∀ {k e}, refs.get? k = some e → (s.blobs.get? k.2.2).isSome = true := by
    intro hi k e hk
    rw [hrefs] at hk
    split at hk
    · rename_i he
      exact hall _ he.2
    · exact hi hk
  refine ⟨fun t' => (h.held t').of_locks rfl rfl, h.idle, fun hf => ?_, fun {t'} hl => ?_⟩
  · have hb := h.free hf
    exact ⟨hb.content, hb.file, hr hb.row⟩
  obtain ⟨hlocal, hfits⟩ := h.busy hl
  refine ⟨hlocal, ?_⟩
  have hf : (locals t').stage.isConnected = false := by
    refine eq_false_iff.mpr fun hc => ?_
    rw [h.held.connected_unique hconn hc, ht] at hlocal
    cases hlocal
  exact hfits.refer hf (hr hfits.indexed)

end

end Eggwork.Blob
