import Eggwork.Blob.Contents

/-! Opening a blob store that was stopped.

A store that is only ever stopped, between two steps of a call or of an opening,
has in every file the content its name asks for, and a row that has a file tells
its length (`Recoverable`): whatever a call had not yet done is the rest of an
upload or of a removal. Opening removes what is half there, parts, rows without
a file and files without a row, so the next process finds an intact store again
(`reopened_intact`). -/
namespace Eggwork.Blob
open Lib Function Option Program Table Prod Program.Uses

/-- What the next opening needs. -/
structure Root.Recoverable (store : BlobStore) (r : Root) : Prop where
  content : ∀ {d c}, r.files.get? d = some c → store.sha256 c = d
  size : ∀ {d row c}, r.blobs.get? d = some row → r.files.get? d = some c → row.sizeBytes = c.length

section
variable {store : BlobStore} {m : Shelf store} {base : String → Option Bytes} {r r' : Root} {s s' : State}

theorem Image.recoverable {rows : BlobDigest → Option BlobRow} {files : BlobDigest → Option Bytes} {parts : String → Option Bytes}
    (h : Image r rows files parts)
    (hfs : ∀ d c, files d = some c → ∃ e : Entry store d, e.content = c ∧ (rows d = none ∨ rows d = some e.row)) :
    r.Recoverable store where
  content {d c} hc := by
    rw [h.files] at hc
    obtain ⟨e, rfl, _⟩ := hfs d c hc
    exact e.authentic
  size {d row c} hr hc := by
    rw [h.files] at hc
    rw [h.rows] at hr
    obtain ⟨e, rfl, hn | hsome⟩ := hfs d c hc
    · rw [hn] at hr
      cases hr
    rw [hsome] at hr
    cases hr
    rfl

theorem Image.recoverable_within {m' : Shelf store} (h : Image r m.rows m'.files base) (hm : m'.Within m) :
    r.Recoverable store := by
  refine h.recoverable fun d c hc => ?_
  obtain ⟨e, he, hb⟩ := Shelf.files_eq_some hc
  refine ⟨e, hb, .inr ?_⟩
  rcases hm d with hd | hd
  · rw [Shelf.rows, ← hd, he]
    rfl
  · rw [hd] at he
    cases he

theorem Image.recoverable_placed {f : Option Bytes} {digest : BlobDigest} (h : Image r m.rows (update m.files digest f) base)
    (hd : m digest = none) (hf : ∀ c, f = some c → store.sha256 c = digest) : r.Recoverable store := by
  refine h.recoverable fun d c hc => ?_
  by_cases he : d = digest
  · subst he
    rw [update_self] at hc
    exact ⟨⟨c, 0, hf c hc⟩, rfl, .inl (Shelf.rows_eq_none.mpr hd)⟩
  · rw [update_of_ne he] at hc
    obtain ⟨e, hm, hb⟩ := Shelf.files_eq_some hc
    exact ⟨e, hb, .inr (by rw [Shelf.rows, hm]; rfl)⟩

theorem Stands.recoverable {stage : Stage} (h : Stands m base s stage) : s.toRoot.Recoverable store := by
  cases stage with
  | idle => exact Image.recoverable_within h (.refl m)
  | measured | hashed | vacant | counted | filling => exact h.1.recoverable_within (.refl m)
  | spoiled =>
    obtain ⟨_, h, _⟩ := h
    exact h.recoverable_within (.refl m)
  | placed =>
    refine h.1.recoverable_placed h.2.1 ?_
    rintro c ⟨⟩
    exact h.2.2.2
  | undoing | probing | removing =>
    obtain ⟨f, h, hd, hf⟩ := h
    exact h.recoverable_placed hd hf
  | stored d =>
    obtain ⟨e, h⟩ := h
    have h' : Image s.toRoot (Shelf.rows (update m d (some e))) (Shelf.files (update m d (some e))) base := by
      rw [Shelf.rows_update, Shelf.files_update]
      exact h
    exact h'.recoverable_within (.refl _)
  | connected =>
    obtain ⟨m', _, h⟩ := h
    exact h.recoverable_within (.refl m')
  | collecting time ts =>
    cases time with
    | none =>
      obtain ⟨_, m', _, h⟩ := h
      exact h.recoverable_within (.refl m')
    | some time =>
      obtain ⟨m', m'', hm, _, h, _⟩ := h
      exact h.recoverable_within hm
  | moved | aborted => exact h.elim

theorem Stands.intact {stage : Stage} (h : Stands m base s stage) (hf : stage.isFinal = true) : s.toRoot.Intact store := by
  obtain ⟨m', h⟩ := h.settled hf
  exact Refines.intact ⟨h.rows, h.files⟩

end

/-! ### Opening -/

/-- The steps of `remove_stale_parts`. -/
def Op.isOpening : Op → Bool
  | .listParts | .removePart _ | .knownDigests | .isStored _ | .deleteRow _ | .listFiles | .removeFile _ => true
  | _ => false

theorem uses_removed (removal : Program effects Removal) (h : removal.Uses (fun o : Op => o.isOpening = true) fun _ => True) :
    (removed removal).run.Uses (fun o : Op => o.isOpening = true) fun _ => True :=
  bindLift h fun a => by cases a <;> trivial

theorem uses_removeStaleParts : removeStaleParts.run.Uses (fun o : Op => o.isOpening = true) fun _ => True := by
  refine bindExcept ⟨rfl, fun _ => trivial⟩ fun parts => ?_
  refine bindExcept (.forM (fun part => uses_removed (op (.removePart part)) ⟨rfl, fun _ => trivial⟩) parts) fun _ => ?_
  refine bindExcept ⟨rfl, fun _ => trivial⟩ fun known => ?_
  refine bindExcept (.forM (fun digest => ?_) known) fun _ => ?_
  · refine bindLift ⟨rfl, fun _ => trivial⟩ fun stored => ?_
    cases stored with
    | false => exact ⟨rfl, fun _ => trivial⟩
    | true => trivial
  · refine bindExcept ⟨rfl, fun _ => trivial⟩ fun files => ?_
    exact .forM (fun digest => uses_removed (op (.removeFile digest)) ⟨rfl, fun _ => trivial⟩) _

section
variable {store : BlobStore} {r : Root} {s s' : State} {spared : Op → Bool} {o : Op} {a : o.Answer}

/-- What is left of a root after steps of an opening. -/
structure Shrinks (r r' : Root) : Prop where
  rows : ∀ d, r'.blobs.get? d = r.blobs.get? d ∨ r'.blobs.get? d = none
  files : ∀ d, r'.files.get? d = r.files.get? d ∨ r'.files.get? d = none

theorem Root.Recoverable.shrinks {r' : Root} (h : r.Recoverable store) (hs : Shrinks r r') : r'.Recoverable store where
  content {d c} hc := by
    rcases hs.files d with he | he
    · exact h.content (he ▸ hc)
    · rw [he] at hc
      cases hc
  size {d row c} hr hc := by
    rcases hs.files d with he | he
    · rcases hs.rows d with he' | he'
      · exact h.size (he' ▸ hr) (he ▸ hc)
      · rw [he'] at hr
        cases hr
    · rw [he] at hc
      cases hc

theorem Shrinks.refl (r : Root) : Shrinks r r := ⟨fun _ => .inl rfl, fun _ => .inl rfl⟩

theorem Shrinks.deleteRow (s : State) (digest : BlobDigest) : Shrinks s.toRoot (s.withTables (s.deleteRow digest)).toRoot where
  rows d := by
    show (s.deleteRow digest).blobs.get? d = s.blobs.get? d ∨ (s.deleteRow digest).blobs.get? d = none
    rw [get?_deleteRow]
    by_cases hd : d = digest
    · exact .inr (if_pos hd)
    · exact .inl (if_neg hd)
  files _ := .inl rfl

theorem Shrinks.removeFile (s : State) (digest : BlobDigest) :
    Shrinks s.toRoot { s.toRoot with files := s.files.delete (· == digest) } where
  rows _ := .inl rfl
  files d := by
    by_cases hd : d = digest
    · exact .inr (by simp [get?_delete, hd])
    · exact .inl (by simp [get?_delete, hd])

theorem shrinks_of_isOpening (ho : o.isOpening = true) (h : Ends spared s o a s') : Shrinks s.toRoot s'.toRoot := by
  obtain ⟨c, _, h⟩ := h
  cases o with
  | isStored =>
    cases h
    exact .refl _
  | listParts | listFiles =>
    rcases attempt_eq (Option.some.inj h) with ⟨_, _, hu⟩ | ⟨_, _, rfl, _⟩
    · cases hu
      exact .refl _
    · exact .refl _
  | knownDigests =>
    rcases attempt_eq (sql_eq h).2 with ⟨_, _, hu⟩ | ⟨_, _, rfl, _⟩
    · cases hu
      exact .refl _
    · exact .refl _
  | deleteRow digest =>
    rcases attempt_eq (sql_eq h).2 with ⟨_, _, hu⟩ | ⟨_, _, rfl, _⟩
    · cases hu
      exact .deleteRow s digest
    · exact .refl _
  | removePart =>
    rcases removal_eq h with ⟨_, _, rfl⟩ | ⟨_, _, rfl⟩ | ⟨_, _, rfl⟩
    · exact ⟨fun _ => .inl rfl, fun _ => .inl rfl⟩
    · exact .refl _
    · exact .refl _
  | removeFile digest =>
    rcases removal_eq h with ⟨_, _, rfl⟩ | ⟨_, _, rfl⟩ | ⟨_, _, rfl⟩
    · exact .removeFile s digest
    · exact .refl _
    · exact .refl _
  | _ => cases ho

theorem Root.Recoverable.opening (h : r.Recoverable store) (hcut : removeStaleParts.run.Cut (Ends spared) r.boot s) :
    s.toRoot.Recoverable store :=
  Program.Cut.invariant (I := fun s : State => s.toRoot.Recoverable store)
    (fun ho hends hs => hs.shrinks (shrinks_of_isOpening ho hends)) uses_removeStaleParts h hcut

/-! #### The three rounds -/

theorem runs_removed {removal : Program effects Removal} (h : (removed removal).run.Runs (Ends spared) s (.ok ()) s') :
    removal.Runs (Ends spared) s .removed s' := by
  obtain ⟨a, t, hr, hrest⟩ := runs_bindLift h
  cases a with
  | removed =>
    obtain ⟨_, rfl⟩ := hrest
    exact hr
  | absent | failed => cases hrest.1

theorem removeParts_ok {l : List String} (hl : ∀ part, (s.parts.get? part).isSome = true → part ∈ l)
    (h : (l.forM fun part => removed (op (.removePart part))).run.Runs (Ends spared) s (.ok ()) s') :
    (∀ part, s'.parts.get? part = none) ∧ s'.blobs = s.blobs ∧ s'.files = s.files := by
  have hend := runs_forM (I := fun rest u => (∀ part, (u.parts.get? part).isSome = true → part ∈ rest) ∧
    u.blobs = s.blobs ∧ u.files = s.files) ?_ ⟨hl, rfl, rfl⟩ h
  · refine ⟨fun part => ?_, hend.2⟩
    cases hpart : s'.parts.get? part with
    | none => rfl
    | some c =>
      have := hend.1 part (by rw [hpart]; rfl)
      cases this
  · rintro part rest u u' ⟨hparent, hb, hfs⟩ hr
    obtain ⟨_, _, ⟨choice, _, hperform⟩, he, rfl⟩ := runs_removed hr
    rcases removal_eq hperform with ⟨_, _, rfl⟩ | ⟨rfl, _⟩ | ⟨rfl, _⟩
    · refine ⟨fun p hp => ?_, hb, hfs⟩
      rw [get?_delete_eq] at hp
      by_cases hpart : p = part
      · rw [hpart, update_self] at hp
        cases hp
      · rw [update_of_ne hpart] at hp
        exact (List.mem_cons.mp (hparent p hp)).resolve_left hpart
    · cases he
    · cases he

theorem deleteRows_ok {known : List BlobDigest} (hk : ∀ d, (s.blobs.get? d).isSome = true → d ∈ known)
    (h : (known.forM fun digest => do
      if !(← always (op (.isStored digest))) then attempt (op (.deleteRow digest))).run.Runs (Ends Op.isProbe) s (.ok ()) s') :
    s'.files = s.files ∧ s'.parts = s.parts ∧
      ∀ d, (s'.blobs.get? d).isSome = ((s.blobs.get? d).isSome && (s.files.get? d).isSome) := by
  have hend := runs_forM (I := fun rest u => u.files = s.files ∧ u.parts = s.parts ∧
    ∀ d, ((u.blobs.get? d).isSome = ((s.blobs.get? d).isSome && (s.files.get? d).isSome)) ∨
      d ∈ rest ∧ u.blobs.get? d = s.blobs.get? d) ?_ ⟨rfl, rfl, fun d => ?_⟩ h
  · exact ⟨hend.1, hend.2.1, fun d => (hend.2.2 d).resolve_right fun hd => (nomatch hd.1)⟩
  · rintro digest rest u u' ⟨hfs, hparent, hrows⟩ hr
    obtain ⟨stored, _, ⟨_, _, ⟨choice, hprobe, hp⟩, rfl, rfl⟩, hrest⟩ := runs_bindLift hr
    cases hp
    rw [hprobe rfl] at hrest
    cases hfile : u.files.get? digest with
    | some c =>
      rw [hfile] at hrest
      obtain ⟨_, rfl⟩ := hrest
      refine ⟨hfs, hparent, fun d => ?_⟩
      rcases hrows d with hd | ⟨hm, hsame⟩
      · exact .inl hd
      rcases List.mem_cons.mp hm with rfl | hm
      · rw [hfs] at hfile
        exact .inl (by rw [hsame, hfile]; simp)
      · exact .inr ⟨hm, hsame⟩
    | none =>
      rw [hfile] at hrest
      obtain ⟨_, _, ⟨choice, _, hp⟩, he, rfl⟩ := hrest
      rcases attempt_eq (sql_eq hp).2 with ⟨_, _, hu⟩ | ⟨_, rfl, _⟩
      swap
      · cases he
      cases hu
      refine ⟨hfs, hparent, fun d => ?_⟩
      show ((u.deleteRow digest).blobs.get? d).isSome = _ ∨ _ ∧ (u.deleteRow digest).blobs.get? d = _
      rw [get?_deleteRow]
      by_cases hd : d = digest
      · subst hd
        rw [hfs] at hfile
        exact .inl (by rw [if_pos rfl, hfile]; simp)
      · rw [if_neg hd]
        exact (hrows d).imp_right fun h => ⟨(List.mem_cons.mp h.1).resolve_left hd, h.2⟩
  · by_cases hd : (s.blobs.get? d).isSome = true
    · exact .inr ⟨hk d hd, rfl⟩
    left
    rw [Bool.eq_false_iff.mpr hd]
    rfl

theorem removeFiles_ok (known : List BlobDigest) {l : List BlobDigest} (hl : ∀ d, (s.files.get? d).isSome = true → d ∉ known → d ∈ l)
    (hu : ∀ d ∈ l, d ∉ known)
    (h : (l.forM fun digest => removed (op (.removeFile digest))).run.Runs (Ends spared) s (.ok ()) s') :
    s'.blobs = s.blobs ∧ s'.parts = s.parts ∧ ∀ d, s'.files.get? d = if d ∈ known then s.files.get? d else none := by
  have hend := runs_forM (I := fun rest u => u.blobs = s.blobs ∧ u.parts = s.parts ∧ (∀ d ∈ rest, d ∉ known) ∧
    ∀ d, u.files.get? d = (if d ∈ known then s.files.get? d else none) ∨ d ∈ rest) ?_ ⟨rfl, rfl, hu, fun d => ?_⟩ h
  · exact ⟨hend.1, hend.2.1, fun d => (hend.2.2.2 d).resolve_right fun hd => (nomatch hd)⟩
  · rintro digest rest u u' ⟨hb, hparent, hu, hfs⟩ hr
    obtain ⟨_, _, ⟨choice, _, hp⟩, he, rfl⟩ := runs_removed hr
    rcases removal_eq hp with ⟨_, _, rfl⟩ | ⟨rfl, _⟩ | ⟨rfl, _⟩
    · refine ⟨hb, hparent, fun d hd => hu d (List.mem_cons_of_mem _ hd), fun d => ?_⟩
      rw [get?_delete_eq]
      by_cases hd : d = digest
      · subst hd
        exact .inl (by rw [update_self, if_neg (hu d (List.mem_cons_self ..))])
      · rw [update_of_ne hd]
        exact (hfs d).imp_right fun hm => (List.mem_cons.mp hm).resolve_left hd
    · cases he
    · cases he
  · by_cases hd : d ∈ known
    · exact .inl (if_pos hd).symm
    rw [if_neg hd]
    cases hfile : s.files.get? d with
    | none => exact .inl rfl
    | some c => exact .inr (hl d (by rw [hfile]; rfl) hd)

theorem runs_listParts {parts : List String} (h : (op .listParts).Runs (Ends spared) s (.ok parts) s') :
    parts = s.parts.rows.map fst ∧ s' = s := by
  obtain ⟨_, _, ⟨_, _, hp⟩, he, rfl⟩ := h
  rcases attempt_eq (Option.some.inj hp) with ⟨_, rfl, hu⟩ | ⟨_, rfl, _⟩
  · cases he
    cases hu
    exact ⟨rfl, rfl⟩
  · cases he

theorem runs_listFiles {files : List BlobDigest} (h : (op .listFiles).Runs (Ends spared) s (.ok files) s') :
    files = s.files.rows.map fst ∧ s' = s := by
  obtain ⟨_, _, ⟨_, _, hp⟩, he, rfl⟩ := h
  rcases attempt_eq (Option.some.inj hp) with ⟨_, rfl, hu⟩ | ⟨_, rfl, _⟩
  · cases he
    cases hu
    exact ⟨rfl, rfl⟩
  · cases he

theorem runs_knownDigests {known : List BlobDigest} (h : (op .knownDigests).Runs (Ends spared) s (.ok known) s') :
    known = s.blobs.rows.map fst ∧ s' = s := by
  obtain ⟨_, _, ⟨_, _, hp⟩, he, rfl⟩ := h
  rcases attempt_eq (sql_eq hp).2 with ⟨_, rfl, hu⟩ | ⟨_, rfl, _⟩
  · cases he
    cases hu
    exact ⟨rfl, rfl⟩
  · cases he

/-- After an opening whose probes did not fail rows and files are those of the same digests, and no part is left. -/
theorem removeStaleParts_ok (h : removeStaleParts.run.Runs (Ends Op.isProbe) s (.ok ()) s') :
    (∀ d, (s'.blobs.get? d).isSome = (s'.files.get? d).isSome) ∧ ∀ part, s'.parts.get? part = none := by
  obtain ⟨_, s₁, hlist, h⟩ := runs_bindExcept h
  obtain ⟨rfl, rfl⟩ := runs_listParts hlist
  obtain ⟨_, s₂, hr, h⟩ := runs_bindExcept h
  obtain ⟨hparts₂, _, _⟩ := removeParts_ok (fun part hpart => mem_keys.mpr hpart) hr
  obtain ⟨_, s₃, hlist, h⟩ := runs_bindExcept h
  obtain ⟨rfl, rfl⟩ := runs_knownDigests hlist
  obtain ⟨_, s₄, hdeleted, h⟩ := runs_bindExcept h
  obtain ⟨hfiles₄, hparts₄, hrows₄⟩ := deleteRows_ok (fun d hd => mem_keys.mpr hd) hdeleted
  obtain ⟨_, s₅, hlist, h⟩ := runs_bindExcept h
  obtain ⟨rfl, rfl⟩ := runs_listFiles hlist
  obtain ⟨hb, hp, hfs⟩ := removeFiles_ok (s₃.blobs.rows.map fst)
    (fun d hd hu => List.mem_filter.mpr ⟨mem_keys.mpr hd, by simpa using hu⟩)
    (fun d hd => by simpa using (List.mem_filter.mp hd).2) h
  refine ⟨fun d => ?_, fun part => ?_⟩
  · rw [hb, hfs, hrows₄, hfiles₄]
    by_cases hd : d ∈ s₃.blobs.rows.map fst
    · rw [if_pos hd, mem_keys.mp hd, Bool.true_and]
    · rw [if_neg hd, Bool.eq_false_iff.mpr (mt mem_keys.mpr hd)]
      rfl
  · rw [hp, hparts₄]
    exact hparts₂ part

theorem Root.Recoverable.opened (h : r.Recoverable store) (hrun : removeStaleParts.run.Runs (Ends Op.isProbe) r.boot (.ok ()) s) :
    s.toRoot.Intact store := by
  have hs := h.opening hrun.cut
  refine ⟨fun d => ?_, hs.content⟩
  have hsame := (removeStaleParts_ok hrun).1 d
  cases hr : s.blobs.get? d with
  | none =>
    rw [hr] at hsame
    rw [isSome_eq_false_iff.mp hsame.symm |> isNone_iff_eq_none.mp]
    rfl
  | some row =>
    rw [hr] at hsame
    obtain ⟨c, hc⟩ := isSome_iff_exists.mp hsame.symm
    rw [hc, map_some, map_some, hs.size hr hc]

end

/-! ### Stops -/

/-- The roots of a store that is stopped between two steps every now and then, and whose steps do not fail;
the flag says whether it is open. Openings may fail, but not in a probe unnoticed. -/
inductive Lives (store : BlobStore) : Bool → Root → Prop
  | created {r : Root} (hblobs : r.blobs = .empty) (hfiles : r.files = .empty) : Lives store false r
  | opened {r : Root} {s : State} (h : Lives store false r)
      (hrun : removeStaleParts.run.Runs (Ends Op.isProbe) r.boot (.ok ()) s) : Lives store true s.toRoot
  | unopened {r : Root} {s : State} (h : Lives store false r)
      (hcut : removeStaleParts.run.Cut (Ends fun _ => false) r.boot s) : Lives store false s.toRoot
  | called {r : Root} {s : State} (k : Call) (h : Lives store true r)
      (hrun : (k.program store).Runs (Ends fun _ => true) r.boot () s) : Lives store true s.toRoot
  | stopped {r : Root} {s : State} (k : Call) (h : Lives store true r)
      (hcut : (k.program store).Cut (Ends fun _ => true) r.boot s) : Lives store false s.toRoot

section
variable {store : BlobStore} {r : Root} {s : State}

theorem stands_step {m : Shelf store} {base : String → Option Bytes} {g : Local} {s : State} {o : Op} {a : o.Answer}
    {s' : State} {g' : Local} (h : Stands m base s g.stage) (hends : Ends (fun _ => true) s o a s')
    (hm : (protocol store).advance g o a = some g') : Stands m base s' g'.stage := by
  obtain ⟨c, hf, hp⟩ := hends
  exact h.step (.inl (hf rfl)) (does hp hm)

theorem Lives.sound {isOpen : Bool} (h : Lives store isOpen r) : bif isOpen then r.Intact store else r.Recoverable store := by
  induction h with
  | created hb hfs =>
    constructor
    · intro d c hc
      rw [hfs] at hc
      cases hc
    · intro d row c hr
      rw [hb] at hr
      cases hr
  | opened h hrun ih => exact Root.Recoverable.opened ih hrun
  | unopened h hcut ih => exact Root.Recoverable.opening ih hcut
  | called k h hrun ih =>
    obtain ⟨m, hm⟩ := Root.Intact.refines ih
    obtain ⟨g, hf, hs⟩ := (Call.conforms k).runs (@stands_step store m _) ⟨hm.rows, hm.files, rfl⟩ hrun
    exact hs.intact hf
  | stopped k h hcut ih =>
    obtain ⟨m, hm⟩ := Root.Intact.refines ih
    obtain ⟨g, hs⟩ := (Call.conforms k).cut (@stands_step store m _) ⟨hm.rows, hm.files, rfl⟩ hcut
    exact hs.recoverable

/-- Whatever call or opening a store was stopped in, once it is opened again and no probe failed the same digests have a row and a file,
rows tell the lengths of their files, contents hash to their digests, and no part is left. -/
theorem reopened_intact (h : Lives store false r) (hrun : removeStaleParts.run.Runs (Ends Op.isProbe) r.boot (.ok ()) s) :
    (∀ d, (s.blobs.get? d).isSome = (s.files.get? d).isSome) ∧
    (∀ {d row c}, s.blobs.get? d = some row → s.files.get? d = some c → row.sizeBytes = c.length) ∧
    (∀ {d c}, s.files.get? d = some c → store.sha256 c = d) ∧ ∀ part, s.parts.get? part = none := by
  have hsound : s.toRoot.Recoverable store := h.sound.opening hrun.cut
  obtain ⟨hsame, hparts⟩ := removeStaleParts_ok hrun
  exact ⟨hsame, hsound.size, hsound.content, hparts⟩

end

namespace Example

/-- Steps that do not fail. -/
def calm (n : Nat) : List Choice := List.replicate n {}

/-- The store is opened, an upload is stopped when its file has its name but no row, and the store is opened again. -/
def interrupted : Bool :=
  (removeStaleParts.run.play (performAlone Op.isProbe) empty.boot (calm 3)).any fun opened =>
    decide (opened.1 = .ok ()) &&
    (((Call.putStream Sample.blob 1 [some [1]]).program store).playCut (performAlone fun _ => true)
      opened.2.toRoot.boot (calm 10)).any fun s =>
      decide (s.files.get? Sample.blob = some [1]) && decide (s.blobs.get? Sample.blob = none) &&
      (removeStaleParts.run.play (performAlone Op.isProbe) s.toRoot.boot (calm 4)).any fun reopened =>
        decide (reopened.1 = .ok ()) && decide (reopened.2.files.get? Sample.blob = none)

end Example

open Example

theorem reopened_intact_unindexed : ∃ (r : Root) (s : State), Lives store false r ∧
      removeStaleParts.run.Runs (Ends Op.isProbe) r.boot (.ok ()) s ∧
      r.files.get? Sample.blob = some [1] ∧ r.blobs.get? Sample.blob = none ∧ s.files.get? Sample.blob = none ∧
      ∀ part, s.parts.get? part = none := by
  have hplay : interrupted = true := by decide
  simp only [interrupted, any_eq_true, Bool.and_eq_true, decide_eq_true_eq] at hplay
  obtain ⟨⟨_, s₀⟩, hopen, rfl, s, hput, ⟨hfile, hrow⟩, ⟨_, s'⟩, hreopen, rfl, hgone⟩ := hplay
  have hlives : Lives store false s.toRoot :=
    .stopped _ (.opened (.created rfl rfl) (Program.play_runs ends_of_performAlone hopen))
      (Program.playCut_cut ends_of_performAlone hput)
  have hrun := Program.play_runs ends_of_performAlone hreopen
  exact ⟨s.toRoot, s', hlives, hrun, hfile, hrow, hgone, (reopened_intact hlives hrun).2.2.2⟩

end Eggwork.Blob
