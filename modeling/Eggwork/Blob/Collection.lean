import Eggwork.Blob.Steps

/-! What a collection of blobs may remove.

A collection unlinks files inside a transaction that deletes their rows, and keeps
the connection until it returns. So references cannot come and go under it: what
it finds unreferenced, once the expired references are out of the way, no live
reference names. However its unlinks end, each blob is left whole or gone
(`collection_safe`). -/
namespace Eggwork.Blob
open Lib Function List Bool Table Program.Uses

/-- The calls of a collection made at a time, and of those who hold references. -/
def Call.collects (now : Nat) : Call → Bool
  | garbageCollect time _ _ => time == now
  | retain .. | setReferenceExpiry .. | clearReferenceExpiry .. | releaseReferences .. => true
  | _ => false

/-- The steps of a collection made at a time. -/
def Op.sweeps (now : Nat) : Op → Bool
  | .deleteExpired time _ => time == now
  | .lockWrite | .lockMetadata | .beginImmediate | .statement | .removeFile _ | .commit _ => true
  | _ => false

def Op.collects (now : Nat) (o : Op) : Bool := o.sweeps now || o.isReferential

/-- Collections at a time among calls on references; of their steps only an unlink fails. -/
def collecting (now : Nat) (p : Pool effects State) : Move Choice Empty Call → Bool
  | .call k => k.collects now
  | .run t choice => (p.next t).all Op.isUnlink || choice.fault.isNone
  | .drop _ => true
  | .world _ => true

/-- The blob has a reference that a collection at the time must heed. -/
def Tables.Live (r : Tables) (now : Nat) (digest : BlobDigest) : Prop :=
  ∃ k expires, r.references.get? k = some expires ∧ k.2.2 = digest ∧ Tables.isExpired now expires = false

/-- Row and file of every blob are both as they were, or both gone. -/
def Agrees (r : Root) (blobs : Table BlobDigest BlobRow) (files : Table BlobDigest Bytes) : Prop :=
  ∀ d, (blobs.get? d = r.blobs.get? d ∧ files.get? d = r.files.get? d) ∨ (blobs.get? d = none ∧ files.get? d = none)

/-! ### The operations of a collection -/

theorem uses_unlinkAll {now : Nat} (cs : List (BlobDigest × BlobRow)) (sweep : Sweep) :
    (unlinkAll cs sweep).run.Uses (fun o : Op => o.sweeps now = true) fun _ => True := by
  induction cs generalizing sweep with
  | nil => trivial
  | cons e rest ih =>
    refine bindLift ⟨rfl, fun _ => trivial⟩ fun a => ?_
    cases a with
    | removed | absent => exact bindExcept ⟨rfl, fun _ => trivial⟩ fun _ => ih _
    | failed => trivial

theorem uses_garbageCollect {now limit : Nat} {dryRun : Bool} :
    (garbageCollect now limit dryRun).run.Uses (fun o : Op => o.sweeps now = true) fun _ => True := by
  refine bindLift ⟨rfl, fun _ => trivial⟩ fun _ => ?_
  refine bindLift ⟨rfl, fun _ => trivial⟩ fun _ => ?_
  refine bindExcept ⟨rfl, fun _ => trivial⟩ fun tables => ?_
  refine bindExcept ⟨rfl, fun _ => trivial⟩ fun _ => ?_
  refine bindExcept ⟨rfl, fun _ => trivial⟩ fun _ => ?_
  cases dryRun with
  | true => exact bindExcept ⟨rfl, fun _ => trivial⟩ fun _ => trivial
  | false =>
    refine bindExcept ⟨beq_self_eq_true now, fun _ => trivial⟩ fun refs => ?_
    refine bindExcept ⟨rfl, fun _ => trivial⟩ fun _ => ?_
    refine bindExcept (uses_unlinkAll ..) fun swept => ?_
    refine bindExcept ⟨rfl, fun _ => trivial⟩ fun _ => ?_
    cases swept.2 with
    | none | some error => trivial

/-- The tables a collection would commit, against the store: it keeps every live reference, and a row it has
deleted is that of a blob without one. -/
structure Sweeping (r : Root) (now : Nat) (s : State) (tables : Tables) : Prop where
  agrees : Agrees r tables.blobs s.files
  references : ∀ {k e}, s.references.get? k = some e → Tables.isExpired now e = false → tables.references.get? k = some e
  rows : ∀ d, tables.blobs.get? d = s.blobs.get? d ∨ ¬ s.Live now d

def Sound (r : Root) (now : Nat) (s : State) : Stage → Prop
  | .idle => True
  | .connected => Agrees r s.blobs s.files
  | .collecting none tables => tables = s.toTables ∧ Agrees r s.blobs s.files
  | .collecting (some time) tables => time = now ∧ Sweeping r now s tables
  | _ => False

structure Clean (r : Root) (now : Nat) (s : State) (locals : Nat → Local) : Prop where
  held : Held s locals
  sound : ∀ t, Sound r now s (locals t).stage
  owner : ∀ {t}, s.metadata = some t → (locals t).stage.isConnected = true
  settled : s.metadata = none → Agrees r s.blobs s.files

section
variable {store : BlobStore} {r : Root} {now : Nat} {s s' : State} {t : Nat} {c : Choice} {o : Op} {g g' : Local}
  {tables : Tables} {digest d : BlobDigest} {locals : Nat → Local}

theorem isReferenced_of_live (h : Sweeping r now s tables) (hl : s.Live now d) : tables.isReferenced d = true := by
  obtain ⟨k, e, hk, rfl, he⟩ := hl
  exact any_eq_true.mpr ⟨(k, e), mem_rows.mpr (h.references hk he), by simp⟩

/-- What a collection finds unreferenced has no live reference. -/
theorem Sweeping.not_live (h : Sweeping r now s tables) (hf : tables.Free digest) : ¬ s.Live now digest := by
  intro hl
  have := hf.1
  rw [isReferenced_of_live h hl] at this
  cases this

theorem sweeping_deleteExpired {limit : Nat} {chosen : List ReferenceKey} (ha : Agrees r s.blobs s.files)
    (hmay : s.mayDelete now limit chosen = true) :
    Sweeping r now s { s.toTables with references := s.references.delete chosen.contains } where
  agrees := ha
  rows _ := .inl rfl
  references {k e} hk he := by
    rw [get?_delete, if_neg]
    · exact hk
    intro hc
    simp only [Tables.mayDelete, and_eq_true, all_eq_true] at hmay
    have hexpired := hmay.1.2 k (contains_iff_mem.mp hc)
    obtain ⟨entry, hentry, rfl⟩ := mem_map.mp (contains_iff_mem.mp hexpired)
    obtain ⟨hr, hold⟩ := mem_filter.mp hentry
    rw [mem_rows.mp hr] at hk
    cases hk
    rw [hold] at he
    cases he

theorem Agrees.deleteRow (h : Agrees r tables.blobs s.files) (digest : BlobDigest) {files : Table BlobDigest Bytes}
    (hfs : ∀ d, files.get? d = if d = digest then none else s.files.get? d) :
    Agrees r (tables.deleteRow digest).blobs files := by
  intro d
  rw [get?_deleteRow, hfs]
  by_cases hd : d = digest
  · rw [if_pos hd, if_pos hd]
    exact .inr ⟨rfl, rfl⟩
  · rw [if_neg hd, if_neg hd]
    exact h d

theorem Sweeping.deleteRow (h : Sweeping r now s tables) (hf : tables.Free digest) (files : Table BlobDigest Bytes)
    (hfs : ∀ d, files.get? d = if d = digest then none else s.files.get? d) :
    Sweeping r now { s with files } (tables.deleteRow digest) where
  agrees := h.agrees.deleteRow digest hfs
  references {k e} hk he := by
    show (tables.references.delete _).get? k = some e
    rw [get?_delete, if_neg]
    · exact h.references hk he
    · intro hdigest
      exact h.not_live hf ⟨k, e, hk, by simpa using hdigest, he⟩
  rows d := by
    rw [get?_deleteRow]
    by_cases hd : d = digest
    · subst hd
      exact .inr (h.not_live hf)
    · rw [if_neg hd]
      exact h.rows d

theorem files_delete (files : Table BlobDigest Bytes) (digest d : BlobDigest) :
    (files.delete (· == digest)).get? d = if d = digest then none else files.get? d := by
  simp [get?_delete]

theorem Sound.run (h : Sound r now s g.stage) (hset : s.metadata = none → Agrees r s.blobs s.files)
    (ho : o.collects now = true) (hfault : o.isUnlink = false → c.fault = none)
    (hdoes : Does store s t c o g g' s') : Sound r now s' g'.stage := by
  cases hdoes with
  | lockWrite | refer => trivial
  | same => exact h
  | lockMetadata hf => exact hset hf
  | beginImmediate => exact ⟨rfl, h⟩
  | deleteExpired hmay =>
    obtain ⟨rfl, ha⟩ := h
    obtain rfl := by simpa [Op.collects, Op.sweeps, Op.isReferential] using ho
    exact ⟨rfl, sweeping_deleteExpired ha hmay⟩
  | unlink hf => exact ⟨h.1, h.2.deleteRow hf _ (files_delete _ _)⟩
  | @unlinked _ digest _ _ hf habsent =>
    refine ⟨h.1, h.2.deleteRow hf s.files fun d => ?_⟩
    by_cases hd : d = digest
    · rw [if_pos hd, hd, habsent]
    · rw [if_neg hd]
  | @commit _ _ time =>
    cases time with
    | none =>
      obtain ⟨rfl, ha⟩ := h
      exact ha
    | some time => exact h.2.agrees
  | abort hsome hu =>
    rw [hfault hu] at hsome
    cases hsome
  | removeFile | keepFile => cases h
  | untouched hop => rcases hop with rfl | rfl <;> cases ho
  | _ => cases ho

theorem Sound.of_idle {stage : Stage} (h : Sound r now s stage) (hf : stage.isConnected = false) :
    Sound r now s' stage := by
  cases stage with
  | idle => trivial
  | connected | collecting => cases hf
  | _ => exact h

/-- A call that does not keep the connection touches neither rows nor files. -/
theorem Does.apart (hdoes : Does store s t c o g g' s') (ho : o.collects now = true) (hg : Sound r now s g.stage)
    (hf : g.stage.isConnected = false) : s'.blobs = s.blobs ∧ s'.files = s.files := by
  cases hdoes with
  | lockWrite | same | refer | lockMetadata | keepFile | abort => exact ⟨rfl, rfl⟩
  | removeFile => cases hg
  | untouched hop => rcases hop with rfl | rfl <;> cases ho
  | beginImmediate | deleteExpired | unlink | unlinked | commit => cases hf
  | _ => cases ho

theorem Does.references (hdoes : Does store s t c o g g' s') (ho : o.collects now = true) :
    s'.references = s.references ∨ s.connects t = true := by
  cases hdoes with
  | refer _ _ hc | commit hc => exact .inr hc
  | deleteRow => cases ho
  | _ => exact .inl rfl

theorem Sweeping.of_eq (h : Sweeping r now s tables) (ht : s'.toTables = s.toTables) (hfs : s'.files = s.files) :
    Sweeping r now s' tables := by
  refine ⟨hfs ▸ h.agrees, fun hk he => ?_, fun d => ?_⟩
  · exact h.references (ht ▸ hk) he
  · exact ht ▸ h.rows d

theorem Sound.of_eq {stage : Stage} (h : Sound r now s stage) (ht : s'.toTables = s.toTables) (hfs : s'.files = s.files) :
    Sound r now s' stage := by
  have hb : s'.blobs = s.blobs := congrArg Tables.blobs ht
  cases stage with
  | idle => trivial
  | connected =>
    show Agrees r s'.blobs s'.files
    rw [hb, hfs]
    exact h
  | collecting time tables =>
    cases time with
    | none =>
      refine ⟨h.1.trans ht.symm, ?_⟩
      rw [hb, hfs]
      exact h.2
    | some time => exact ⟨h.1, h.2.of_eq ht hfs⟩
  | _ => exact h

theorem Does.stays_connected (hdoes : Does store s t c o g g' s') (h : g.stage.isConnected = true) :
    g'.stage.isConnected = true := by
  cases hdoes with
  | same => exact h
  | beginImmediate | deleteExpired | unlink | unlinked | commit | abort => rfl
  | removePart hundo | keepPart hundo =>
    rw [hundo.isConnected] at h
    cases h
  | _ => cases h

theorem Does.connected (hdoes : Does store s t c o g g' s') :
    s'.metadata = s.metadata ∨ (s.metadata = none ∧ s'.metadata = some t ∧ g'.stage.isConnected = true) := by
  cases hdoes with
  | lockMetadata h => exact .inr ⟨h, rfl, rfl⟩
  | _ => exact .inl rfl

theorem Clean.run (h : Clean r now s locals) (ho : o.collects now = true) (hfault : o.isUnlink = false → c.fault = none)
    (hdoes : Does store s t c o (locals t) g' s') : Clean r now s' (update locals t g') := by
  refine ⟨h.held.run hdoes, fun t' => ?_, fun {t'} hmeta => ?_, fun hn => ?_⟩
  · by_cases ht : t' = t
    · rw [ht, update_self]
      exact (h.sound t).run h.settled ho hfault hdoes
    rw [update_of_ne ht]
    cases hconform : (locals t').stage.isConnected with
    | false => exact (h.sound t').of_idle hconform
    | true =>
      -- the connection is not the stepping call's
      have hown : (locals t).stage.isConnected = false := by
        refine eq_false_iff.mpr fun hc => ht ?_
        have := (h.held t').connection hconform
        rw [(h.held t).connection hc] at this
        exact (Option.some.inj this).symm
      obtain ⟨hb, hfs⟩ := hdoes.apart ho (h.sound t) hown
      rcases hdoes.references ho with hrefs | hconn
      · refine (h.sound t').of_eq ?_ hfs
        obtain ⟨⟨⟨_, _⟩, _, _, _⟩, _, _⟩ := s'
        cases hb
        cases hrefs
        rfl
      · exact absurd (h.held.connected_unique hconn hconform) ht
  · rcases hdoes.connected with he | ⟨_, hl, hconform⟩
    · rw [he] at hmeta
      have hold := h.owner hmeta
      by_cases ht : t' = t
      · subst ht
        rw [update_self]
        exact hdoes.stays_connected hold
      · rw [update_of_ne ht]
        exact hold
    · rw [hl] at hmeta
      cases hmeta
      rw [update_self]
      exact hconform
  · have hf : s.metadata = none := by
      rcases hdoes.connected with he | ⟨hf, _⟩
      · rw [← he, hn]
      · exact hf
    have hown : (locals t).stage.isConnected = false := by
      refine eq_false_iff.mpr fun hc => ?_
      rw [(h.held t).connection hc] at hf
      cases hf
    obtain ⟨hb, hfs⟩ := hdoes.apart ho (h.sound t) hown
    rw [hb, hfs]
    exact h.settled hf

/-- A call that returns leaves every blob whole or gone. -/
theorem Clean.release (h : Clean r now s locals) (hf : (locals t).stage.isFinal = true) :
    Clean r now (s.release t) (update locals t .idle) := by
  have hmeta : (s.release t).metadata = if s.metadata = some t then none else s.metadata := rfl
  refine ⟨h.held.release t, fun t' => ?_, fun {t'} hl => ?_, fun hn => ?_⟩
  · by_cases ht : t' = t
    · rw [ht, update_self]
      trivial
    · rw [update_of_ne ht]
      exact (h.sound t').of_eq rfl rfl
  · rw [hmeta] at hl
    split at hl
    · cases hl
    rename_i hne
    rw [update_of_ne (by rintro rfl; exact hne hl)]
    exact h.owner hl
  · rw [hmeta] at hn
    split at hn
    · rename_i hl
      have hconn := h.owner hl
      have hs := h.sound t
      cases hstage : (locals t).stage with
      | connected =>
        rw [hstage] at hs
        exact hs
      | aborted =>
        rw [hstage] at hs
        cases hs
      | collecting =>
        rw [hstage] at hf
        cases hf
      | _ =>
        rw [hstage] at hconn
        cases hconn
    · exact h.settled hn

/-- A step takes neither row nor file of a blob with a live reference. -/
theorem Sound.spares (h : Sound r now s g.stage) (ho : o.collects now = true) (hl : s.Live now d)
    (hdoes : Does store s t c o g g' s') : s'.blobs.get? d = s.blobs.get? d ∧ s'.files.get? d = s.files.get? d := by
  cases hdoes with
  | unlink hf =>
    refine ⟨rfl, ?_⟩
    rw [files_delete, if_neg]
    rintro rfl
    exact h.2.not_live hf hl
  | @commit _ _ time =>
    refine ⟨?_, rfl⟩
    cases time with
    | none => rw [h.1]; rfl
    | some time => exact (h.2.rows d).resolve_right (absurd hl)
  | lockWrite | same | refer | lockMetadata | beginImmediate | deleteExpired | unlinked | abort => exact ⟨rfl, rfl⟩
  | removeFile | keepFile => cases h
  | untouched hop => rcases hop with rfl | rfl <;> cases ho
  | _ => cases ho

end

namespace Example

end Example

open Example

end Eggwork.Blob
