import Eggwork.Blob.Backing
import Eggwork.Blob.Recovery

/-! What an opening keeps.

A process may stop in any stage of an upload or a collection. The opening that
follows deletes rows it finds without a file and files it finds without a row, and
may itself be stopped, or fail, other than in a probe for a file: either way a reference that has not expired keeps its blob
(`Root.Stocked.opening`), and an opening that comes to its end leaves the store backed
again (`Root.Stocked.opened`). -/
namespace Eggwork.Blob
open Lib

/-- What is left of the store when it is stopped: references that have not expired still find their files. -/
structure Root.Stocked (store : BlobStore) (clock : Nat) (r : Root) : Prop extends r.Recoverable store where
  indexed : ∀ {k e}, r.references.get? k = some e → (r.blobs.get? k.2.2).isSome = true
  kept : ∀ {k e}, r.references.get? k = some e → Tables.isExpired clock e = false → (r.files.get? k.2.2).isSome = true

/-- How far an opening is: which rows it has found, and which of them it has just found to have no file. -/
inductive Opening where
  | started
  | known (found : List BlobDigest)
  | missing (found : List BlobDigest) (digest : BlobDigest)

def Opening.advance (g : Opening) : (o : Op) → o.Answer → Option Opening
  | .listParts, _ | .removePart _, _ | .listFiles, _ => some g
  | .knownDigests, .ok found => some (.known found)
  | .knownDigests, .error _ => some g
  | .isStored digest, stored =>
    match g with
    | .known found => some (bif stored then .known found else .missing found digest)
    | _ => none
  | .deleteRow digest, _ =>
    match g with
    | .missing found d => if d = digest then some (.known found) else none
    | _ => none
  | .removeFile digest, _ =>
    match g with
    | .known found => if digest ∈ found then none else some (.known found)
    | _ => none
  | _, _ => none

def opening : Protocol effects Opening := ⟨Opening.advance, fun name _ => name.elim⟩

/-- An opening deletes rows it found without a file, and files of which it found no row. -/
theorem removeStaleParts_conforms : opening.Conforms (fun _ _ => True) .started removeStaleParts.run := by
  have hr : ∀ {g : Opening} {removal : Program effects Removal}, opening.Conforms (fun _ g' => g' = g) g removal →
      opening.Conforms (fun _ g' => g' = g) g (removed removal).run := fun h => by
    refine h.asks fun a => ?_
    cases a <;> rfl
  refine Protocol.Conforms.tries (.stays fun _ => rfl) (fun _ => trivial) fun parts => ?_
  refine Protocol.Conforms.bindExcept (.forM (· = .started) (fun part _ g hg => ?_) rfl) (fun _ _ _ => trivial) ?_
  · subst hg
    exact hr (.stays fun _ => rfl)
  rintro _ _ rfl
  have hk : opening.Conforms (fun a g => g = a.toOption.elim .started .known) .started (op .knownDigests) := by
    rintro (e | found)
    · exact ⟨.started, rfl, rfl⟩
    · exact ⟨.known found, rfl, rfl⟩
  refine hk.tries (fun _ => trivial) fun found => ?_
  refine Protocol.Conforms.bindExcept (.forM (· = .known found) (fun digest _ g hg => ?_) rfl) (fun _ _ _ => trivial) ?_
  · subst hg
    rintro (_ | _)
    · refine ⟨.missing found digest, rfl, fun a => ⟨.known found, if_pos rfl, rfl⟩⟩
    · exact ⟨.known found, rfl, rfl⟩
  rintro _ _ rfl
  refine Protocol.Conforms.tries (.stays fun _ => rfl) (fun _ => trivial) fun files => ?_
  refine (Protocol.Conforms.forM (· = .known found) (fun digest hd g hg => ?_) rfl).mono fun _ _ _ => trivial
  subst hg
  have hu : digest ∉ found := by simpa using (List.mem_filter.mp hd).2
  exact hr (.stays fun _ => if_neg hu)

/-- Rows an opening deletes are known not to have a file, and files it removes not to have a row. -/
def Opening.Sees (s : State) : Opening → Prop
  | started => True
  | known found => ∀ d, (s.blobs.get? d).isSome = true → d ∈ found
  | missing found digest => (∀ d, (s.blobs.get? d).isSome = true → d ∈ found) ∧ s.files.get? digest = none

structure Opens (store : BlobStore) (clock : Nat) (r : Root) (g : Opening) (s : State) : Prop where
  stocked : s.toRoot.Stocked store clock
  sees : g.Sees s
  references : ∀ {k e}, r.references.get? k = some e → Tables.isExpired clock e = false → s.references.get? k = some e

section
variable {store : BlobStore} {clock : Nat} {r : Root} {s s' : State} {g g' : Opening} {digest : BlobDigest}
  {o : Op} {a : o.Answer}

theorem Opens.deleteRow {found : List BlobDigest} (h : Opens store clock r (.missing found digest) s) :
    Opens store clock r (.known found) (s.withTables (s.deleteRow digest)) := by
  have hr : ∀ d, (s.deleteRow digest).blobs.get? d = if d = digest then none else s.blobs.get? d := get?_deleteRow _ _
  have hrefuse : ∀ k, (s.deleteRow digest).references.get? k = if k.2.2 = digest then none else s.references.get? k := by
    simp [Tables.deleteRow, Table.get?_delete]
  refine ⟨⟨h.stocked.toRecoverable.shrinks (.deleteRow s digest), fun {k e} hk => ?_, fun {k e} hk he => ?_⟩, fun d hd => ?_, fun {k e} hk he => ?_⟩
  · have hk : (s.deleteRow digest).references.get? k = some e := hk
    show ((s.deleteRow digest).blobs.get? k.2.2).isSome = true
    rw [hrefuse] at hk
    split at hk
    · cases hk
    rename_i hne
    rw [hr, if_neg hne]
    exact h.stocked.indexed hk
  · have hk : (s.deleteRow digest).references.get? k = some e := hk
    rw [hrefuse] at hk
    split at hk
    · cases hk
    · exact h.stocked.kept hk he
  · have hd : ((s.deleteRow digest).blobs.get? d).isSome = true := hd
    rw [hr] at hd
    split at hd
    · cases hd
    · exact h.sees.1 d hd
  · show (s.deleteRow digest).references.get? k = some e
    have hkept := h.references hk he
    rw [hrefuse, if_neg]
    · exact hkept
    rintro rfl
    have hfile := h.stocked.kept hkept he
    rw [h.sees.2] at hfile
    cases hfile

theorem Opens.removeFile {found : List BlobDigest} (h : Opens store clock r (.known found) s) (hd : digest ∉ found) :
    Opens store clock r (.known found) { s with files := s.files.delete (· == digest) } := by
  refine ⟨⟨h.stocked.toRecoverable.shrinks (.removeFile s digest), h.stocked.indexed, fun {k e} hk he => ?_⟩, h.sees, h.references⟩
  rw [files_delete, if_neg]
  · exact h.stocked.kept hk he
  · rintro rfl
    exact hd (h.sees _ (h.stocked.indexed hk))

theorem Opens.step (h : Opens store clock r g s) (hends : Ends Op.isProbe s o a s') (hm : opening.advance g o a = some g') :
    Opens store clock r g' s' := by
  obtain ⟨choice, hprobe, hp⟩ := hends
  cases o with
  | isStored digest =>
    cases hp
    rw [hprobe rfl] at hm
    cases g with
    | known found =>
      cases hfile : s.files.get? digest with
      | some c =>
        rw [hfile] at hm
        cases hm
        exact h
      | none =>
        rw [hfile] at hm
        cases hm
        exact ⟨h.stocked, ⟨h.sees, hfile⟩, h.references⟩
    | _ => cases hm
  | listParts | listFiles =>
    cases hm
    rcases attempt_eq (Option.some.inj hp) with ⟨_, _, hu⟩ | ⟨_, _, rfl, _⟩
    · cases hu
      exact h
    · exact h
  | removePart part =>
    cases hm
    rcases removal_eq hp with ⟨_, _, rfl⟩ | ⟨_, _, rfl⟩ | ⟨_, _, rfl⟩
    · refine ⟨⟨⟨h.stocked.content, h.stocked.size⟩, h.stocked.indexed, h.stocked.kept⟩, ?_, h.references⟩
      have hsees := h.sees
      cases g <;> exact hsees
    · exact h
    · exact h
  | knownDigests =>
    rcases attempt_eq (sql_eq hp).2 with ⟨_, rfl, hu⟩ | ⟨_, rfl, rfl, _⟩
    · cases hu
      cases hm
      exact ⟨h.stocked, fun d hd => Table.mem_keys.mpr hd, h.references⟩
    · cases hm
      exact h
  | deleteRow digest =>
    cases g with
    | missing found d =>
      obtain ⟨rfl, ⟨⟩⟩ := Option.ite_none_right_eq_some.mp hm
      rcases attempt_eq (sql_eq hp).2 with ⟨_, _, hu⟩ | ⟨_, _, rfl, _⟩
      · cases hu
        exact h.deleteRow
      · exact ⟨h.stocked, h.sees.1, h.references⟩
    | _ => cases hm
  | removeFile digest =>
    cases g with
    | known found =>
      simp only [opening, Opening.advance] at hm
      split at hm
      · cases hm
      rename_i hunknown
      cases hm
      rcases removal_eq hp with ⟨_, _, rfl⟩ | ⟨_, _, rfl⟩ | ⟨_, _, rfl⟩
      · exact h.removeFile hunknown
      · exact h
      · exact h
    | _ => cases hm
  | _ => cases hm

theorem opens_started (h : r.Stocked store clock) : Opens store clock r .started r.boot := ⟨h, trivial, fun hk _ => hk⟩

/-- An opening, wherever it is stopped, keeps the references that have not expired and their files. -/
theorem Root.Stocked.opening (h : r.Stocked store clock) (hcut : removeStaleParts.run.Cut (Ends Op.isProbe) r.boot s) :
    s.toRoot.Stocked store clock ∧
      ∀ {k e}, r.references.get? k = some e → Tables.isExpired clock e = false → s.references.get? k = some e := by
  obtain ⟨g, hope⟩ := removeStaleParts_conforms.cut (fun h => h.step) (opens_started h) hcut
  exact ⟨hope.stocked, hope.references⟩

theorem Root.Stocked.opened (h : r.Stocked store clock) (hrun : removeStaleParts.run.Runs (Ends Op.isProbe) r.boot (.ok ()) s) :
    Backed store s.toTables s.files := by
  have hs := (h.opening hrun.cut).1
  refine ⟨hs.content, fun {d row} hr => ?_, hs.indexed⟩
  have hsame := (removeStaleParts_ok hrun).1 d
  rw [hr] at hsame
  obtain ⟨c, hc⟩ := Option.isSome_iff_exists.mp hsame.symm
  exact ⟨c, hc, (hs.size hr hc).symm⟩

theorem backs_boot (h : Backed store r.toTables r.files) : Backs store clock r.boot fun _ => .idle :=
  ⟨fun _ => holds_idle, fun _ => rfl, fun _ => h, fun hl => (nomatch hl)⟩

/-- The process may stop in any stage. -/
theorem Turns.stocked {ls : Nat → Local} (h : Backs store clock s ls) : s.toRoot.Stocked store clock := by
  obtain ⟨stage, hfits⟩ := h.fits
  refine ⟨?_, hfits.indexed, fun hk he => (hfits.backs hk he).2⟩
  have hsize : ∀ {ts : Tables}, Backed store ts s.files → ∀ {d row c}, ts.blobs.get? d = some row →
      s.files.get? d = some c → row.sizeBytes = c.length := by
    intro ts hb d row c hr hc
    obtain ⟨c', hc', hlen⟩ := hb.file hr
    rw [hc] at hc'
    cases hc'
    exact hlen.symm
  rcases hfits.cases with hb | ⟨_, _, _, _, hs⟩
  · exact ⟨hb.content, hsize hb⟩
  refine ⟨hs.backed.content, fun {d row c} hr hc => ?_⟩
  rcases hs.rows d with he | hn
  · exact hsize hs.backed (he.trans hr) hc
  · rw [hn] at hc
    cases hc

end
end Eggwork.Blob
