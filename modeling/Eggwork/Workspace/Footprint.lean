import Eggwork.Workspace.Calls

/-! What the steps of the manager's calls leave alone, and what a call holds.

Each step writes one part of the site, if any: rows of workspaces, directories,
rows of manifests, references, or a lock (`perform_frame`). What a writing step
does to its part is read off `attempt_eq` where it matters.

The state of a call is its guards with a stage of its own; `guarded` makes a
protocol of the steps between stages, and an invariant of such states comes with
what the guards say of the locks (`Invariant.holds`). -/
namespace Eggwork.Workspace
open Lib Function Option

namespace Op

def writesRows : Op → Bool
  | insertWorkspace .. | activate .. | setExpiry .. | commitWorkspaces _ => true
  | _ => false

def writesDirectories : Op → Bool
  | buildTree .. | rename .. | removeDirectory _ => true
  | _ => false

def writesManifests : Op → Bool
  | putManifest .. | deleteManifest _ | deleteExpiredManifest .. => true
  | _ => false

def writesReferences : Op → Bool
  | retain .. | expireReferences .. | releaseReferences .. | collectBlobs _ => true
  | _ => false

def writesLocks : Op → Bool
  | lockMaterialize | lockMetadata | unlockMetadata => true
  | _ => false

end Op

section
variable {α : Type} {m : Manager} {s s' : Site} {t : Nat} {choice : Choice}

theorem attempt_eq {out : Except WorkspaceError (α × Disk)} {ans : Except WorkspaceError α}
    (h : s.attempt choice out = (ans, s')) : (∃ a d, ans = .ok a ∧ out = .ok (a, d) ∧ s' = { s with toDisk := d }) ∨
      ∃ e, ans = .error e ∧ s' = s ∧ (choice.fault = none → out = .error e) := by
  unfold Site.attempt at h
  split at h
  · rename_i e hf
    cases h
    refine .inr ⟨e, rfl, rfl, fun hn => ?_⟩
    rw [hf] at hn
    cases hn
  · rename_i a d hf
    cases h
    exact .inl ⟨a, d, rfl, rfl, rfl⟩
  · rename_i e hf
    cases h
    exact .inr ⟨e, rfl, rfl, fun _ => rfl⟩

theorem reads_eq {a : α} {ans : Except WorkspaceError α} (h : s.reads choice a = (ans, s')) : s' = s := by
  rcases attempt_eq h with ⟨_, _, _, hu, rfl⟩ | ⟨_, _, rfl, _⟩
  · cases hu
    rfl
  · rfl

theorem sql_eq {out : α × Site} {a : α} (h : s.sql t out = some (a, s')) : s.connects t = true ∧ out = (a, s') := by
  obtain ⟨hconn, h⟩ := ite_none_right_eq_some.mp h
  exact ⟨hconn, some.inj h⟩

/-- What a step leaves as it was. -/
structure Frame (o : Op) (s s' : Site) : Prop where
  clock : s'.clock = s.clock
  rows : o.writesRows = false → s'.workspaces = s.workspaces
  directories : o.writesDirectories = false → s'.directories = s.directories
  manifests : o.writesManifests = false → s'.manifests = s.manifests
  references : o.writesReferences = false → s'.references = s.references
  locks : o.writesLocks = false → s'.materializeLock = s.materializeLock ∧ s'.metadata = s.metadata

theorem Frame.refl (o : Op) (s : Site) : Frame o s s :=
  ⟨rfl, fun _ => rfl, fun _ => rfl, fun _ => rfl, fun _ => rfl, fun _ => ⟨rfl, rfl⟩⟩

/-- A step that may fail, by what it does when it does not. -/
theorem Frame.of_attempt {o : Op} {out : Except WorkspaceError (α × Disk)} {ans : Except WorkspaceError α}
    (h : s.attempt choice out = (ans, s')) (hok : ∀ a d, out = .ok (a, d) → Frame o s { s with toDisk := d }) :
    Frame o s s' := by
  rcases attempt_eq h with ⟨a, d, _, hu, rfl⟩ | ⟨_, _, rfl, _⟩
  · exact hok a d hu
  · exact .refl o s'

theorem Frame.of_reads {o : Op} {a : α} {ans : Except WorkspaceError α} (h : s.reads choice a = (ans, s')) : Frame o s s' := by
  rw [reads_eq h]
  exact .refl o s

theorem Frame.of_writes {o : Op} {d : Disk} {ans : Except WorkspaceError Unit} (h : s.writes choice d = (ans, s'))
    (hok : Frame o s { s with toDisk := d }) : Frame o s s' := by
  refine .of_attempt h fun a d' hd => ?_
  cases hd
  exact hok

/-- A step that reads, or fails. -/
theorem Frame.of_error {o : Op} {e : WorkspaceError} {ans : Except WorkspaceError α}
    (h : s.attempt choice (.error e) = (ans, s')) : Frame o s s' := by
  refine .of_attempt h fun a d hd => ?_
  cases hd

theorem perform_frame {o : Op} {ans : o.Answer} (h : perform m s t choice o = some (ans, s')) : Frame o s s' := by
  cases o with
  | now | isDir | drawUuid | readCursor | writeCursor =>
    cases h
    exact ⟨rfl, fun _ => rfl, fun _ => rfl, fun _ => rfl, fun _ => rfl, fun _ => ⟨rfl, rfl⟩⟩
  | lookup | findLive | beginCollect | deleteWorkspace | findManifest | expiredManifests | listManifests =>
    exact .of_reads (sql_eq h).2
  | syncRoot | verifyExisting | referenceOwners => exact .of_reads (some.inj h)
  | isRetained =>
    cases (sql_eq h).2
    exact .refl _ _
  | used =>
    have hsql := (sql_eq h).2
    split at hsql
    · exact .of_reads hsql
    · exact .of_error hsql
  | stat name =>
    have hsome := some.inj h
    split at hsome
    · exact .of_reads hsome
    · exact .of_error hsome
  | storedSize digest =>
    have hsome := some.inj h
    split at hsome
    · exact .of_reads hsome
    · exact .of_error hsome
  | lockMaterialize | lockMetadata =>
    obtain ⟨_, ⟨⟩⟩ := ite_none_right_eq_some.mp h
    exact ⟨rfl, fun _ => rfl, fun _ => rfl, fun _ => rfl, fun _ => rfl, by rintro ⟨⟩⟩
  | unlockMetadata =>
    cases h
    exact ⟨rfl, fun _ => rfl, fun _ => rfl, fun _ => rfl, fun _ => rfl, by rintro ⟨⟩⟩
  | setExpiry | commitWorkspaces =>
    exact .of_writes (sql_eq h).2 ⟨rfl, by rintro ⟨⟩, fun _ => rfl, fun _ => rfl, fun _ => rfl, fun _ => ⟨rfl, rfl⟩⟩
  | insertWorkspace w row =>
    refine .of_attempt (sql_eq h).2 fun a d hd => ?_
    split at hd
    · rename_i d' hi
      cases hd
      unfold Disk.insertRow at hi
      split at hi
      · cases hi
      · obtain ⟨rows, _, rfl⟩ := map_eq_some_iff.mp hi
        exact ⟨rfl, by rintro ⟨⟩, fun _ => rfl, fun _ => rfl, fun _ => rfl, fun _ => ⟨rfl, rfl⟩⟩
    · cases hd
  | activate w key =>
    refine .of_attempt (sql_eq h).2 fun a d hd => ?_
    unfold Disk.activate at hd
    split at hd
    · cases hd
      exact ⟨rfl, by rintro ⟨⟩, fun _ => rfl, fun _ => rfl, fun _ => rfl, fun _ => ⟨rfl, rfl⟩⟩
    · cases hd
      exact .refl _ _
  | removeDirectory =>
    exact .of_writes (some.inj h) ⟨rfl, fun _ => rfl, by rintro ⟨⟩, fun _ => rfl, fun _ => rfl, fun _ => ⟨rfl, rfl⟩⟩
  | buildTree stage manifest =>
    refine .of_attempt (some.inj h) fun a d hd => ?_
    split at hd
    · cases hd
      exact ⟨rfl, fun _ => rfl, by rintro ⟨⟩, fun _ => rfl, fun _ => rfl, fun _ => ⟨rfl, rfl⟩⟩
    · cases hd
  | rename stage tgt =>
    refine .of_attempt (some.inj h) fun a d hd => ?_
    split at hd
    · rename_i d' hrenew
      cases hd
      obtain ⟨tree, _, rfl⟩ := map_eq_some_iff.mp hrenew
      exact ⟨rfl, fun _ => rfl, by rintro ⟨⟩, fun _ => rfl, fun _ => rfl, fun _ => ⟨rfl, rfl⟩⟩
    · cases hd
  | expireReferences | releaseReferences =>
    exact .of_writes (some.inj h) ⟨rfl, fun _ => rfl, fun _ => rfl, fun _ => rfl, by rintro ⟨⟩, fun _ => ⟨rfl, rfl⟩⟩
  | retain kind owner digests exp =>
    refine .of_attempt (some.inj h) fun a d hd => ?_
    split at hd
    · rename_i d' hr
      cases hd
      obtain ⟨_, ⟨⟩⟩ := ite_none_right_eq_some.mp hr
      exact ⟨rfl, fun _ => rfl, fun _ => rfl, fun _ => rfl, by rintro ⟨⟩, fun _ => ⟨rfl, rfl⟩⟩
    · cases hd
  | collectBlobs now =>
    obtain ⟨_, ⟨⟩⟩ := ite_none_right_eq_some.mp h
    exact ⟨rfl, fun _ => rfl, fun _ => rfl, fun _ => rfl, by rintro ⟨⟩, fun _ => ⟨rfl, rfl⟩⟩
  | putManifest | deleteManifest =>
    exact .of_writes (sql_eq h).2 ⟨rfl, fun _ => rfl, fun _ => rfl, by rintro ⟨⟩, fun _ => rfl, fun _ => ⟨rfl, rfl⟩⟩
  | deleteExpiredManifest key now =>
    refine .of_attempt (sql_eq h).2 fun a d hd => ?_
    split at hd
    · cases hd
      exact ⟨rfl, fun _ => rfl, fun _ => rfl, by rintro ⟨⟩, fun _ => rfl, fun _ => ⟨rfl, rfl⟩⟩
    · cases hd
      exact .refl _ _

theorem connects_of_writesRows {o : Op} {a : o.Answer} (ho : o.writesRows = true)
    (h : perform m s t choice o = some (a, s')) : s.connects t = true := by
  cases o with
  | insertWorkspace | activate | setExpiry | commitWorkspaces => exact (sql_eq h).1
  | _ => cases ho

end

/-! ### Guards -/

structure Guards where
  locked : Bool
  connected : Bool
deriving DecidableEq

namespace Guards

def none : Guards := ⟨false, false⟩

def advance (g : Guards) : Op → Option Guards
  | .lockMaterialize => some { g with locked := true }
  | .lockMetadata => some { g with connected := true }
  | .unlockMetadata => if g.connected then some { g with connected := false } else .none
  | _ => some g

theorem advance_of_not_writesLocks {g : Guards} {o : Op} (h : o.writesLocks = false) : g.advance o = some g := by
  cases o <;> first | rfl | cases h

end Guards

/-- The calls have the locks their guards are of. -/
def Held {Stage : Type} (s : Site) (locals : Nat → Guards × Stage) : Prop :=
  ∀ t, ((locals t).1.locked = true → s.materializeLock = some t) ∧
    ((locals t).1.connected = true → s.metadata = some t)

section
variable {Stage : Type} {m : Manager} {s s' : Site} {t : Nat} {choice : Choice} {locals : Nat → Guards × Stage}

theorem Held.run (h : Held s locals) {o : Op} {a : o.Answer} (hp : perform m s t choice o = some (a, s'))
    {g : Guards} {stage : Stage} (hg : (locals t).1.advance o = some g) : Held s' (update locals t (g, stage)) := by
  cases hlocal : o.writesLocks with
  | false =>
    obtain ⟨hm, hmeta⟩ := (perform_frame hp).locks hlocal
    rw [Guards.advance_of_not_writesLocks hlocal] at hg
    cases hg
    intro t'
    rw [hm, hmeta]
    by_cases he : t' = t
    · subst he
      rw [update_self]
      exact h t'
    · rw [update_of_ne he]
      exact h t'
  | true =>
    intro t'
    have ht' := h t'
    cases o with
    | lockMaterialize =>
      obtain ⟨hf, ⟨⟩⟩ := ite_none_right_eq_some.mp hp
      cases hg
      rw [isNone_iff_eq_none] at hf
      by_cases he : t' = t
      · subst he
        rw [update_self]
        exact ⟨fun _ => rfl, ht'.2⟩
      rw [update_of_ne he]
      refine ⟨fun hl => ?_, ht'.2⟩
      rw [hf] at ht'
      cases ht'.1 hl
    | lockMetadata =>
      obtain ⟨hf, ⟨⟩⟩ := ite_none_right_eq_some.mp hp
      cases hg
      rw [isNone_iff_eq_none] at hf
      by_cases he : t' = t
      · subst he
        rw [update_self]
        exact ⟨ht'.1, fun _ => rfl⟩
      rw [update_of_ne he]
      refine ⟨ht'.1, fun hconn => ?_⟩
      rw [hf] at ht'
      cases ht'.2 hconn
    | unlockMetadata =>
      cases hp
      obtain ⟨hconn, ⟨⟩⟩ := ite_none_right_eq_some.mp hg
      by_cases he : t' = t
      · subst he
        rw [update_self]
        exact ⟨ht'.1, by rintro ⟨⟩⟩
      rw [update_of_ne he]
      refine ⟨ht'.1, fun hne => ?_⟩
      have hsame : some t' = some t := (ht'.2 hne).symm.trans ((h t).2 hconn)
      exact absurd (some.inj hsame) he
    | _ => cases hlocal

theorem Held.release (h : Held s locals) {stage : Stage} : Held (s.release t) (update locals t (Guards.none, stage)) := by
  intro t'
  by_cases he : t' = t
  · subst he
    rw [update_self]
    exact ⟨by rintro ⟨⟩, by rintro ⟨⟩⟩
  rw [update_of_ne he]
  refine ⟨fun hl => ?_, fun hconn => ?_⟩
  · simp [Site.release, (h t').1 hl, he]
  · simp [Site.release, (h t').2 hconn, he]

theorem Held.connects (h : Held s locals) (hconn : s.connects t = true) {t' : Nat}
    (hc : (locals t').1.connected = true) : t' = t := by
  have hmeta := (h t').2 hc
  simpa [Site.connects, hmeta] using hconn

end

def guarded {Stage : Type} (next : Guards → Stage → (o : Op) → o.Answer → Option Stage) :
    Protocol effects (Guards × Stage) where
  advance g o answer :=
    match g.1.advance o, next g.1 g.2 o answer with
    | some guards, some stage => some (guards, stage)
    | _, _ => none
  enter name _ := name.elim

theorem guarded_advance {Stage : Type} {next : Guards → Stage → (o : Op) → o.Answer → Option Stage} {g g' : Guards × Stage}
    {o : Op} {a : o.Answer} : (guarded next).advance g o a = some g' ↔
      g.1.advance o = some g'.1 ∧ next g.1 g.2 o a = some g'.2 := by
  simp only [guarded]
  cases g.1.advance o with
  | none => simp
  | some guards =>
    cases next g.1 g.2 o a with
    | none => simp
    | some stage => simp [Prod.ext_iff]

/-- A property of the site and of the stages of all calls, and what it survives. -/
structure Invariant {Stage : Type} (m : Manager) (next : Guards → Stage → (o : Op) → o.Answer → Option Stage)
    (final : Stage → Prop) (idle : Stage) (Rule : Pool effects Site → Move Choice Nat ManagerCall → Prop)
    (I : Site → (Nat → Guards × Stage) → Prop) : Prop where
  final_idle : final idle
  conforms : ∀ {p k}, Rule p (.call k) → (guarded next).Conforms (fun _ g => final g.2) (Guards.none, idle) (k.program m)
  run : ∀ {p locals t choice o answer s guards stage}, p.next t = some o → Rule p (.run t choice) → Held p.shared locals →
    perform m p.shared t choice o = some (answer, s) → (locals t).1.advance o = some guards →
    next (locals t).1 (locals t).2 o answer = some stage → I p.shared locals →
    I s (update locals t (guards, stage))
  ended : ∀ {s locals t}, final (locals t).2 → I s locals → I (s.release t) (update locals t (Guards.none, idle))
  /-- A call is not dropped where it could not return. -/
  drop : ∀ {g stage o} {answer : o.Answer}, o.awaits = true → (next g stage o answer).isSome → final stage
  world : ∀ {p locals millis}, Rule p (.world millis) → I p.shared locals → I (p.shared.wait millis) locals

theorem Op.nonempty_of_awaits {o : Op} (h : o.awaits = true) : Nonempty o.Answer := by
  cases o with
  | lockMaterialize => exact ⟨()⟩
  | verifyExisting | buildTree => exact ⟨.ok ()⟩
  | _ => cases h

theorem Invariant.holds {Stage : Type} {m : Manager} {next : Guards → Stage → (o : Op) → o.Answer → Option Stage}
    {final : Stage → Prop} {idle : Stage} {Rule : Pool effects Site → Move Choice Nat ManagerCall → Prop}
    {I : Site → (Nat → Guards × Stage) → Prop} (h : Invariant m next final idle Rule I) {s : Site} {p : Pool effects Site}
    (hr : Steps (machine m).step Rule (Pool.start s) p) (hs : I s fun _ => (Guards.none, idle)) :
    ∃ locals, Threaded (guarded next) (fun g => final g.2) (Guards.none, idle) locals p.tasks ∧ Held p.shared locals ∧
      I p.shared locals := by
  have hi : Inductive (machine m) (guarded next) (fun g => final g.2) (Guards.none, idle) (fun _ => (Guards.none, idle))
      Rule fun s locals => Held s locals ∧ I s locals := {
    final_idle := h.final_idle
    conforms := h.conforms
    call := fun ht _ hI => by
      -- a call starts where one that was never made is
      rw [update_eq_self_iff.mpr (ht.unborn le_rfl).symm]
      exact hI
    run := fun _ hn hrule hp hm hI => by
      obtain ⟨hg, hstage⟩ := guarded_advance.mp hm
      exact ⟨hI.1.run hp hg, h.run hn hrule hI.1 hp hg hstage hI.2⟩
    ended := fun hf hI => ⟨hI.1.release, h.ended hf hI.2⟩
    drop := fun ht hn ha _ hI => by
      obtain ⟨ans⟩ := Op.nonempty_of_awaits ha
      obtain ⟨g, hm⟩ := ht.advances hn ans
      have hstage := (guarded_advance.mp hm).2
      exact ⟨hI.1.release, h.ended (h.drop ha (isSome_of_eq_some hstage)) hI.2⟩
    world := fun hrule ho hI => by
      cases ho
      exact ⟨hI.1, h.world hrule hI.2⟩ }
  refine hi.holds hr ⟨fun t => ⟨?_, ?_⟩, hs⟩
  · rintro ⟨⟩
  · rintro ⟨⟩

end Eggwork.Workspace
