import Eggwork.Server.Filing
import Eggwork.Server.Resumption

/-! Publication keeps a record, its row and its channel together.

A publication commits a snapshot with an event, then writes the snapshot to the
record and sends the event. While it is under way the record lags behind its row
by what the publisher still has in hand (`View.Tells`); with the lock free it does
not lag. This needs that no request is dropped with something in hand: such a
request leaves a record and a channel that are behind the journal for good. -/
namespace Eggwork.Server
open Lib Store Runner Function Option List Local Discipline Prod View

variable {J : Serde}
variable {rec' : RecordView} {r : RecordId}
variable {rec : RecordView} {snap : ExecutionSnapshot} {prog : Async Unit} {ev : ExecutionEvent}

def Op.commits : Op → Bool
  | .commitEvent .. => true
  | _ => false

def Op.sends : Op → Bool
  | .send .. => true
  | _ => false

variable {o : Op}

/-- A commit is in flight, or its event is not sent yet. -/
def MidPublication (program : Async Unit) : Prop :=
  (∃ (o : Op) (next : o.Answer → Async Unit), program = .perform o next ∧ o.commits = true) ∨
    program.Leads fun o : Op => o.sends = true

/-- No request is dropped in the middle of a publication. -/
def SparesPublications (s : Node J) : Action → Prop
  | .drop t => ∀ task, s.tasks[t]? = some task → ¬ MidPublication task.program
  | _ => True

/-! ### What a publisher has in hand -/

/-- The snapshot committed and not yet written to the record. -/
def Publishing.unwritten? : Publishing → Option ExecutionSnapshot
  | .wrote _ proposed _ => some proposed
  | _ => none

/-- The event committed and not yet sent. -/
def Publishing.unsent : Publishing → List ExecutionEvent
  | .wrote _ _ event | .told _ event => [event]
  | _ => []

variable {p : Publishing}

theorem Publishing.unwritten?_eq_none (h : p.unsent = []) : p.unwritten? = none := by
  cases p <;> first
    | rfl
    | cases h

/-- A task with an event in hand sends it on every path. -/
theorem leads_of_unsent {g : Local} (h : admissionDiscipline.Allows g prog) (hu : g.publishing.unsent ≠ []) :
    prog.Leads fun o : Op => o.sends = true := by
  refine Protocol.Conforms.leads (fun g : Local => g.publishing.unsent ≠ []) ?_ ?_ ?_ hu h
  · exact fun _ g hg hf => hg (by rw [hf.1.2]; rfl)
  · exact fun l g hg he => hg (by rw [he.1.1.2]; rfl)
  intro g o answer g' hg hm
  have hp := advance_publishing hm
  generalize g'.publishing = p at hp
  cases hp with
  | writes => exact .inl (cons_ne_nil _ _)
  | sends => exact .inr rfl
  | other => exact .inl hg
  | locks hb | reads hb | commits hb | refused hb => exact absurd (by rw [hb]; rfl) hg
  | unlocks hheld =>
    rcases hheld with hb | ⟨base, hb⟩
    · exact absurd (by rw [hb]; rfl) hg
    · exact absurd (by rw [hb]; rfl) hg

/-! ### A record and its row -/

/-- The row is ahead of the record by what its publisher has in hand. A record
loaded at a start has an empty channel and an ended row. -/
structure View.Tells (v : View J) (record : RecordView) (p : Publishing) : Prop where
  stored : v.rowOf record.key = some (J.snapshot.encode (p.unwritten?.getD record.snapshot),
    stateName (p.unwritten?.getD record.snapshot).state)
  sent : record.events.sent ++ p.unsent = v.journal record.key ∨
    (record.events.sent = [] ∧ p.unsent = [] ∧ v.Ended record.key)

/-- Rows hold snapshots with the result their state calls for. -/
def View.Fits (v : View J) : Prop :=
  ∀ key blob state, v.rowOf key = some (blob, state) →
    ∃ snapshot, blob = J.snapshot.encode snapshot ∧ resultFits snapshot.state snapshot.result = true

variable {v v' : View J}

theorem View.Fits.snapshot (h : v.Fits) {key : RowKey} {state : String}
    (hr : v.rowOf key = some (J.snapshot.encode snap, state)) : resultFits snap.state snap.result = true := by
  obtain ⟨stored, he, hfits⟩ := h key _ state hr
  have hd := congrArg J.snapshot.decode he
  rw [J.snapshot.decode_encode, J.snapshot.decode_encode, some.injEq] at hd
  rw [hd]
  exact hfits

theorem resultFits_iff {state : ExecutionState} {res : Option ExecutionResult} : resultFits state res = true ↔
      res.isSome = isTerminal state ∧ ∀ found, res = some found → found.state = state := by
  cases res with
  | none | some found => simp [resultFits]

theorem isInitial_resultFits (h : isInitial snap = true) : resultFits snap.state snap.result = true := by
  simp only [isInitial, Bool.and_eq_true, beq_iff_eq] at h
  rw [h.1.2, h.2]
  rfl

theorem isInitial_unique {snapshot' : ExecutionSnapshot} (h : isInitial snap = true) (h' : isInitial snapshot' = true)
    (hk : rowKey snap = rowKey snapshot') : snap = snapshot' := by
  obtain ⟨ver, id, gen, state, res⟩ := snap
  obtain ⟨version', id', generation', state', result'⟩ := snapshot'
  simp only [isInitial, Bool.and_eq_true, beq_iff_eq] at h h'
  obtain ⟨⟨rfl, rfl⟩, rfl⟩ := h
  obtain ⟨⟨rfl, rfl⟩, rfl⟩ := h'
  simp only [rowKey, Prod.mk.injEq, ExecutionGeneration.asI64_inj] at hk
  obtain ⟨rfl, rfl⟩ := hk
  rfl

theorem View.Same.ended {key : RowKey} (h : v.Same v' key) (he : v.Ended key) : v'.Ended key := by
  obtain ⟨row, hr, hterm⟩ := he
  exact ended_of_rowOf (h.row.trans (rowOf_some hr)) hterm

theorem View.Tells.row_ne (h : v.Tells rec p) : v.rowOf rec.key ≠ none := by
  rw [h.stored]
  exact some_ne_none _

/-- The record and its row have not moved. -/
theorem View.Tells.same (h : v.Tells rec p) (hsame : v.Same v' rec.key) (hk : rec'.key = rec.key)
    (hsnap : rec'.snapshot = rec.snapshot) (hsent : rec'.events.sent = rec.events.sent) : v'.Tells rec' p := by
  refine ⟨?_, ?_⟩
  · rw [hk, hsnap, hsame.row]
    exact h.stored
  · rw [hk, hsent, hsame.journal]
    exact h.sent.imp id fun hl => ⟨hl.1, hl.2.1, hsame.ended hl.2.2⟩

theorem View.Tells.settle {p' : Publishing} (h : v.Tells rec p) (hp : p.unsent = []) (hp' : p'.unsent = []) :
    v.Tells rec p' := by
  refine ⟨?_, ?_⟩
  · rw [Publishing.unwritten?_eq_none hp', ← Publishing.unwritten?_eq_none hp]
    exact h.stored
  have hsent := h.sent
  rw [hp] at hsent
  rw [hp']
  exact hsent

/-! ### The invariant -/

structure Published (locals : TaskId → Local) (v : View J) : Prop where
  free : ∀ (r : RecordId) (record : RecordView), v.records[r]? = some record → record.commitLock = none →
    v.Tells record .idle
  held : ∀ t r (record : RecordView), (locals t).publishing.record? = some r → v.records[r]? = some record →
    v.Tells record (locals t).publishing
  based : ∀ t r base, (locals t).publishing = .based r base →
    ∃ record : RecordView, v.records[r]? = some record ∧ record.snapshot = base
  created : ∀ t key, claimsOf locals t = some (key, .created) → ∃ snapshot, isInitial snapshot = true ∧
    rowKey snapshot = key ∧ v.rowOf key = some (J.snapshot.encode snapshot, stateName snapshot.state) ∧
      v.journal key = []
  rows : v.Fits
  snapshots : ∀ (r : RecordId) (record : RecordView), v.records[r]? = some record →
    resultFits record.snapshot.state record.snapshot.result = true
  jobs : ∀ o ∈ v.jobs, o.commits = false ∧ o.initial = true

section Performs
variable {locals : TaskId → Local} {n t : TaskId} {o : Op} {origin : Origin} {answer : o.Answer} {v v' : View J} {g : Local}

theorem Effect.sent_before (h : Effect t origin v o answer v') (hr : v.records[r]? = some rec)
    (hr' : v'.records[r]? = some rec') :
    rec'.events = rec.events ∨ ∃ event, o = .send r event ∧ rec'.events = rec.events.send event := by
  cases h with
  | newRecord snap hash =>
    rw [List.getElem?_append_left (List.getElem?_eq_some_iff.mp hr).1, hr, Option.some.injEq] at hr'
    exact .inl (hr' ▸ rfl)
  | send i event =>
    rw [View.record_modify hr, Option.some.injEq] at hr'
    split at hr'
    · rename_i hi
      exact .inr ⟨event, by rw [hi], hr' ▸ rfl⟩
    · exact .inl (hr' ▸ rfl)
  | lockCommit | unlockCommit | finish | writeSnapshot =>
    rw [View.record_modify hr, Option.some.injEq] at hr'
    split at hr' <;> exact .inl (hr' ▸ rfl)
  | respond =>
    obtain ⟨old, hold, rfl⟩ := View.record_of_release hr'
    rw [hr, Option.some.injEq] at hold
    exact .inl (hold ▸ rfl)
  | _ =>
    obtain rfl := Option.some.inj (hr.symm.trans hr')
    exact .inl rfl

/-- A record that was there keeps its key, and its snapshot if it is not written. -/
theorem Effect.record_after (h : Effect t origin v o answer v') (hr : v.records[r]? = some rec)
    (hr' : v'.records[r]? = some rec') :
    rec'.key = rec.key ∧ (rec'.snapshot = rec.snapshot ∨ o = .writeSnapshot r rec'.snapshot) := by
  rcases h.record_before hr' with ⟨old, hold, hk, _, hsnap⟩ | ⟨_, _, _, hlast, _⟩
  · rw [hr, Option.some.injEq] at hold
    subst hold
    exact ⟨hk, hsnap⟩
  · have hlt := (List.getElem?_eq_some_iff.mp hr).1
    omega

theorem Effect.same_row (h : Effect t origin v o answer v') (hs : v.Sound) {key : RowKey} (hr : v.rowOf key ≠ none)
    (hc : ∀ snap ev, o.journals answer = some (snap, ev) → rowKey snap ≠ key) : v.Same v' key := by
  rcases h.durable hs key with hsame | ⟨snap, _, rfl, hnew⟩ | ⟨snap, ev, hjs, hk, _⟩
  · exact hsame
  · exact absurd hnew.absent hr
  · exact absurd hk (hc snap ev hjs)

/-- An operation that neither writes the record, sends on it nor commits on its row. -/
theorem View.Tells.kept (heffect : Effect t origin v o answer v') (hs : v.Sound) (hr : v.records[r]? = some rec)
    (hr' : v'.records[r]? = some rec') (hw : ∀ snap, o ≠ .writeSnapshot r snap) (hsend : ∀ event, o ≠ .send r event)
    (hc : ∀ snap event, o.journals answer = some (snap, event) → rowKey snap ≠ rec.key) (h : v.Tells rec p) :
    v'.Tells rec' p := by
  obtain ⟨hk, hsnap⟩ := heffect.record_after hr hr'
  refine h.same (heffect.same_row hs h.row_ne hc) hk (hsnap.resolve_right (hw _)) ?_
  rcases heffect.sent_before hr hr' with he | ⟨event, ho, _⟩
  · exact congrArg Broadcast.sent he
  · exact absurd ho (hsend event)

variable (heffect : Effect t origin v o answer v') (hm : (locals t).advance o answer = some g) (hinitial : o.initial = true)
  (hn : locals n = Local.idle) (hfounded : Founded locals v) (hdist : Distinct (claimsOf locals) v) (h : Published locals v)

include hm hfounded

theorem commit_record {snapshot : ExecutionSnapshot} (hjs : o.journals answer = some (snapshot, ev)) :
    ∃ r base kind, (locals t).publishing = .based r base ∧ (locals t).Commits r base snapshot kind ∧
      ∃ record : RecordView, v.records[r]? = some record ∧ record.key = rowKey snapshot := by
  obtain ⟨kind, rfl⟩ := Op.journals_eq hjs
  obtain ⟨r, base, hb, hmay, _⟩ := advance_commitEvent hm
  have hc := commits_of_mayCommit hmay
  obtain ⟨record, hr, hk⟩ := hfounded.1.2.proposed t r base (by rw [hb]; rfl)
  exact ⟨r, base, kind, hb, hc, record, hr, hk.trans hc.row.symm⟩

include h in
theorem Published.fits_committed {snapshot : ExecutionSnapshot} (hjs : o.journals answer = some (snapshot, ev)) :
    resultFits snapshot.state snapshot.result = true := by
  obtain ⟨r, base, kind, hb, hc, _⟩ := commit_record hm hfounded hjs
  obtain ⟨record, hr, rfl⟩ := h.based t r base hb
  exact hc.result (h.snapshots r record hr)

include heffect

include hdist in
theorem View.Tells.untouched (hr : v.records[r]? = some rec) (hr' : v'.records[r]? = some rec')
    (hne : (locals t).publishing.record? ≠ some r) (h : v.Tells rec p) : v'.Tells rec' p := by
  refine h.kept heffect hfounded.1.1.sound hr hr' ?_ ?_ ?_
  · rintro snap rfl
    obtain ⟨ev, hw, _⟩ := advance_writeSnapshot hm
    exact hne (by rw [hw]; rfl)
  · rintro ev rfl
    obtain ⟨htold, hm⟩ := ite_none_right_eq_some.mp hm
    exact hne (by rw [htold]; rfl)
  · intro snap ev hjs hk
    obtain ⟨i, base, kind, hb, _, old, hold, ho⟩ := commit_record hm hfounded hjs
    have hi := hdist.keyed i r old rec hold hr (ho.trans hk)
    exact hne (by rw [hb, ← hi]; rfl)

include h

theorem Published.own (hheld : g.publishing.record? = some r) (hr : v.records[r]? = some rec)
    (hr' : v'.records[r]? = some rec') : v'.Tells rec' g.publishing := by
  have hs := hfounded.1.1.sound
  have hp := advance_publishing hm
  generalize g.publishing = p at hp hheld
  cases hp with
  | locks =>
    cases hheld
    cases heffect with
    | quiet hq => cases hq
    | lockCommit hlocked hf =>
      rw [hr, some.injEq] at hlocked
      rw [record_modify hr, if_pos rfl, some.injEq] at hr'
      have ht := h.free r rec hr (hlocked ▸ hf)
      exact ht.settle rfl rfl |>.same ⟨rfl, rfl⟩ (hr' ▸ rfl) (hr' ▸ rfl) (hr' ▸ rfl)
  | reads hlocked =>
    cases hheld
    have ht := h.held t r rec (by rw [hlocked]; rfl) hr
    rw [hlocked] at ht
    exact (ht.settle rfl rfl).kept heffect hs hr hr' (fun _ => Op.noConfusion) (fun _ => Op.noConfusion)
      fun _ _ hjs => (nomatch hjs)
  | @commits i base proposed kind event hb hmay =>
    cases hheld
    have ht := h.held t r rec (by rw [hb]; rfl) hr
    rw [hb] at ht
    obtain ⟨old, hold, holdkey⟩ := hfounded.1.2.proposed t r base (by rw [hb]; rfl)
    rw [hr, some.injEq] at hold
    have hk : rowKey proposed = rec.key := (commits_of_mayCommit hmay).row.trans (hold ▸ holdkey.symm)
    have hc := heffect.committed hs rfl
    obtain ⟨hkey', _⟩ := heffect.record_after hr hr'
    refine ⟨?_, ?_⟩
    · rw [hkey', ← hk]
      exact hc.row
    rcases ht.sent with hsent | ⟨_, _, hend⟩
    · left
      rcases heffect.sent_before hr hr' with he | ⟨_, ho, _⟩
      · rw [he, hkey', ← hk, hc.journal, hk, ← hsent, show Publishing.unsent (.based r base) = [] from rfl,
          append_nil]
        rfl
      · cases ho
    · exact absurd hend (live_iff.mpr (hk ▸ hc.live)).not_ended
  | @refused i base proposed kind answer hb _ hrefuse =>
    cases hheld
    have ht := h.held t r rec (by rw [hb]; rfl) hr
    rw [hb] at ht
    refine (ht.settle rfl rfl).kept heffect hs hr hr' (fun _ => Op.noConfusion) (fun _ => Op.noConfusion) ?_
    intro snap event hjs
    rcases answer with e | _ | committed
    · cases hjs
    · cases hjs
    · cases hrefuse
  | @writes i proposed event hw =>
    cases hheld
    have ht := h.held t r rec (by rw [hw]; rfl) hr
    rw [hw] at ht
    cases heffect with
    | quiet hq => cases hq
    | writeSnapshot =>
      rw [record_modify hr, if_pos rfl, some.injEq] at hr'
      subst hr'
      exact ⟨ht.stored, ht.sent⟩
  | @sends i event htold =>
    cases hheld
    have ht := h.held t r rec (by rw [htold]; rfl) hr
    rw [htold] at ht
    cases heffect with
    | quiet hq => cases hq
    | send =>
      rw [record_modify hr, if_pos rfl, some.injEq] at hr'
      subst hr'
      refine ⟨ht.stored, ?_⟩
      rcases ht.sent with hsent | ⟨_, hn, _⟩
      · exact .inl ((append_nil _).trans hsent)
      · cases hn
  | unlocks => cases hheld
  | other ho =>
    refine (h.held t r rec hheld hr).kept heffect hs hr hr' ?_ ?_ ?_
    · rintro snap rfl
      cases ho
    · rintro event rfl
      cases ho
    intro snap event hjs
    obtain ⟨kind, rfl⟩ := Op.journals_eq hjs
    cases ho

include hinitial

theorem Published.rows_performs : v'.Fits := by
  intro key blob state hr
  rcases heffect.durable hfounded.1.1.sound key with hsame | ⟨snap, hcreated, rfl, hnew⟩ |
    ⟨snap, ev, hjs, rfl, hc⟩
  · exact h.rows key blob state (hsame.row ▸ hr)
  · rw [hnew.row] at hr
    cases hr
    obtain ⟨_, _, _, _, _, rfl⟩ := Op.creates_eq hcreated
    exact ⟨snap, rfl, isInitial_resultFits hinitial⟩
  · rw [hc.row] at hr
    cases hr
    exact ⟨snap, rfl, h.fits_committed hm hfounded hjs⟩

omit hfounded in
theorem Published.snapshots_performs (r : RecordId) (rec' : RecordView) (hr' : v'.records[r]? = some rec') :
    resultFits rec'.snapshot.state rec'.snapshot.result = true := by
  rcases heffect.record_before hr' with ⟨rec, hr, _, _, hsnap | rfl⟩ | ⟨snap, hash, rfl, _, rfl⟩
  · rw [hsnap]
    exact h.snapshots r rec hr
  · -- what is written is what the row holds
    obtain ⟨ev, hw, _⟩ := advance_writeSnapshot hm
    have hst := (h.held t r rec (by rw [hw]; rfl) hr).stored
    rw [hw] at hst
    exact h.rows.snapshot hst
  · exact isInitial_resultFits hinitial

include hn

omit hinitial in
/-- A snapshot is read under the lock, and not written before it is given up. -/
theorem Published.based_performs (i : TaskId) (r : RecordId) (base : ExecutionSnapshot)
    (hi : (update (admissionDiscipline.births locals n o) t g i).publishing = .based r base) :
    ∃ rec : RecordView, v'.records[r]? = some rec ∧ rec.snapshot = base := by
  have hkept : (locals i).publishing = .based r base → (∀ snap, o ≠ .writeSnapshot r snap) →
      ∃ rec : RecordView, v'.records[r]? = some rec ∧ rec.snapshot = base := by
    intro hb hwrite
    obtain ⟨rec, hr, hbase⟩ := h.based i r base hb
    obtain ⟨rec', hr', _⟩ := (heffect.keeps hfounded.1.1.sound).2.2 r rec hr
    exact ⟨rec', hr', ((heffect.record_after hr hr').2.resolve_right (hwrite _)).trans hbase⟩
  by_cases hit : i = t
  · subst hit
    rw [update_self] at hi
    have hp := advance_publishing hm
    generalize g.publishing = p at hp hi
    cases hp with
    | reads =>
      cases hi
      cases heffect with
      | quiet hq => cases hq
      | readSnapshot hr => exact ⟨_, hr, rfl⟩
    | other ho =>
      refine hkept hi ?_
      rintro snap rfl
      cases ho
    | _ => cases hi
  · rw [update_of_ne hit, (births_unlocked hn o i).2] at hi
    refine hkept hi ?_
    rintro snap rfl
    obtain ⟨ev, hw, _⟩ := advance_writeSnapshot hm
    exact hit (unique_publisher hfounded (by rw [hi]; rfl) (by rw [hw]; rfl))

include hdist

omit hinitial in
theorem Published.held_performs (i : TaskId) (r : RecordId) (rec' : RecordView)
    (hi : (update (admissionDiscipline.births locals n o) t g i).publishing.record? = some r)
    (hr' : v'.records[r]? = some rec') :
    v'.Tells rec' (update (admissionDiscipline.births locals n o) t g i).publishing := by
  by_cases hit : i = t
  · subst hit
    rw [update_self] at hi ⊢
    -- a record that is locked was there before
    have hr : ∃ record, v.records[r]? = some record := by
      rcases advance_record? hm with he | ⟨r', rfl, _, he⟩ | ⟨_, _, _, he⟩
      · obtain ⟨record, hr, _⟩ := (hfounded.2.commit i r).mp (he ▸ hi)
        exact ⟨record, hr⟩
      · rw [he, some.injEq] at hi
        subst hi
        cases heffect with
        | quiet hq => cases hq
        | lockCommit hr => exact ⟨_, hr⟩
      · rw [he] at hi
        cases hi
    obtain ⟨record, hr⟩ := hr
    exact h.own heffect hm hfounded hi hr hr'
  · rw [update_of_ne hit, (births_unlocked hn o i).2] at hi ⊢
    obtain ⟨record, hr, _⟩ := (hfounded.2.commit i r).mp hi
    exact (h.held i r record hi hr).untouched heffect hm hfounded hdist hr hr' fun hheld =>
      hit (unique_publisher hfounded hi hheld)

theorem Published.free_performs (r : RecordId) (rec' : RecordView) (hr' : v'.records[r]? = some rec')
    (hf : rec'.commitLock = none) : v'.Tells rec' .idle := by
  have hu : ∀ i, (update (admissionDiscipline.births locals n o) t g i).publishing.record? ≠ some r := by
    intro i hi
    obtain ⟨held, hheld, hl⟩ := ((hfounded.2.performs heffect hm hn).commit i r).mp hi
    rw [hr', some.injEq] at hheld
    rw [← hheld, hf] at hl
    cases hl
  rcases heffect.record_before hr' with ⟨rec, hrecord, _⟩ | ⟨snap, hash, rfl, _, rfl⟩
  · by_cases hheld : (locals t).publishing.record? = some r
    · -- it has just been unlocked
      have ht := h.held t r rec hheld hrecord
      have hself := hu t
      rw [update_self] at hself
      have hp := advance_publishing hm
      generalize g.publishing = p at hp hself
      cases hp with
      | @unlocks i hb =>
        have hunset : (locals t).publishing.unsent = [] := by
          rcases hb with he | ⟨base, he⟩ <;> rw [he] <;> rfl
        exact (ht.settle hunset rfl).kept heffect hfounded.1.1.sound hrecord hr' (fun _ => Op.noConfusion)
          (fun _ => Op.noConfusion) fun _ _ hjs => (nomatch hjs)
      | locks hb =>
        rw [hb] at hheld
        cases hheld
      | reads hb | commits hb | refused hb | writes hb | sends hb =>
        rw [hb] at hheld
        exact absurd hheld hself
      | other => exact absurd hheld hself
    · cases hl : rec.commitLock with
      | none => exact (h.free r rec hrecord hl).untouched heffect hm hfounded hdist hrecord hr' hheld
      | some i =>
        -- its holder is another task, and still has it
        have hi := (hfounded.2.commit i r).mpr ⟨rec, hrecord, hl⟩
        have hit : i ≠ t := fun he => hheld (he ▸ hi)
        have hne := hu i
        rw [update_of_ne hit, (births_unlocked hn o i).2] at hne
        exact absurd hi hne
  · obtain ⟨hrole, _⟩ := advance_newRecord hm
    obtain ⟨first, hfirm, hk, hr, hblank⟩ := h.created t _ (claimed_of_role hrole Claim.noConfusion)
    obtain rfl := isInitial_unique hfirm hinitial hk
    cases heffect with
    | quiet hq => cases hq
    | newRecord => exact ⟨hr, .inl hblank.symm⟩

theorem Published.created_performs (i : TaskId) (key : RowKey)
    (hi : claimsOf (update (admissionDiscipline.births locals n o) t g) i = some (key, .created)) :
    ∃ snap, isInitial snap = true ∧ rowKey snap = key ∧
      v'.rowOf key = some (J.snapshot.encode snap, stateName snap.state) ∧ v'.journal key = [] := by
  have hs := hfounded.1.1.sound
  have hkept : ∀ i, claimsOf locals i = some (key, .created) → ∃ snap, isInitial snap = true ∧
      rowKey snap = key ∧ v'.rowOf key = some (J.snapshot.encode snap, stateName snap.state) ∧
        v'.journal key = [] := by
    intro i hc
    obtain ⟨first, hf, hk, hr, hb⟩ := h.created i key hc
    have hsame : v.Same v' key := heffect.same_row hs (by rw [hr]; exact some_ne_none _) fun snap ev hjs he => by
      obtain ⟨r, _, _, _, _, rec, hrecord, hrecorded⟩ := commit_record hm hfounded hjs
      exact hdist.unmade i key hc r rec hrecord (hrecorded.trans he)
    exact ⟨first, hf, hk, hsame.row.trans hr, hsame.journal.trans hb⟩
  rw [claimsOf_update, claimsOf_births hn] at hi
  by_cases hit : i = t
  · subst hit
    rw [update_self] at hi
    rcases created_before hm hi with ⟨hold, _⟩ | ⟨snap, hcreated, rfl⟩
    · exact hkept i hold
    have hnew := heffect.created hs hcreated
    obtain ⟨ver, digest, principal, hash, exp, rfl⟩ := Op.creates_eq hcreated
    exact ⟨snap, hinitial, rfl, hnew.row, hnew.journal⟩
  · rw [update_of_ne hit] at hi
    exact hkept i hi

theorem Published.performs : Published (update (admissionDiscipline.births locals n o) t g) v' where
  free := h.free_performs heffect hm hinitial hn hfounded hdist
  held := h.held_performs heffect hm hn hfounded hdist
  based := h.based_performs heffect hm hn hfounded
  created := h.created_performs heffect hm hinitial hn hfounded hdist
  rows := h.rows_performs heffect hm hinitial hfounded
  snapshots := h.snapshots_performs heffect hm hinitial
  jobs o ho := h.jobs o (heffect.jobs ▸ ho)

end Performs

/-! ### Steps without an operation -/

section Rests
variable {locals ls' : TaskId → Local} (h : Published locals v) (hlocked : Locked locals v)
  (hlocals : ∀ t, (ls' t).publishing = (locals t).publishing ∨ (ls' t).publishing = .idle)
  (hclaims : ∀ t key, claimsOf ls' t = some (key, .created) → claimsOf locals t = some (key, .created))
include h hlocked hlocals hclaims

/-- No record and no row that was there has moved, and tasks have only let go of
publications with nothing in hand. -/
theorem Published.mono (hrows : v'.Fits) (hjobs : ∀ o ∈ v'.jobs, o.commits = false ∧ o.initial = true)
    (hsame : ∀ key, v.rowOf key ≠ none → v.Same v' key)
    (hrs : ∀ (r : RecordId) (rec' : RecordView), v'.records[r]? = some rec' →
      ∃ rec : RecordView, v.records[r]? = some rec ∧ rec'.key = rec.key ∧
        rec'.snapshot = rec.snapshot ∧ rec'.events = rec.events ∧
        ∀ t, rec.commitLock = some t → rec'.commitLock = none → (locals t).publishing.unsent = [])
    (hkept : ∀ (r : RecordId) (rec : RecordView), v.records[r]? = some rec →
      ∃ rec' : RecordView, v'.records[r]? = some rec') : Published ls' v' := by
  refine ⟨fun r rec' hr hf => ?_, fun t r rec' ht hr => ?_, fun t r base ht => ?_, fun t key ht => ?_, hrows,
    fun r rec' hr => ?_, hjobs⟩
  · obtain ⟨rec, hrecord, hk, hsnap, hevent, hl⟩ := hrs r rec' hr
    have htells : v.Tells rec .idle := by
      cases hheld : rec.commitLock with
      | none => exact h.free r rec hrecord hheld
      | some t =>
        have ht := (hlocked.commit t r).mpr ⟨rec, hrecord, hheld⟩
        exact (h.held t r rec ht hrecord).settle (hl t hheld hf) rfl
    exact htells.same (hsame _ htells.row_ne) hk hsnap (congrArg Broadcast.sent hevent)
  · obtain ⟨rec, hrecord, hk, hsnap, hevent, _⟩ := hrs r rec' hr
    rcases hlocals t with he | he
    · rw [he] at ht ⊢
      have htells := h.held t r rec ht hrecord
      exact htells.same (hsame _ htells.row_ne) hk hsnap (congrArg Broadcast.sent hevent)
    · rw [he] at ht
      cases ht
  · rcases hlocals t with he | he
    · rw [he] at ht
      obtain ⟨rec, hrecord, hbase⟩ := h.based t r base ht
      obtain ⟨rec', hr'⟩ := hkept r rec hrecord
      obtain ⟨old, hold, _, hsnap, _⟩ := hrs r rec' hr'
      rw [hrecord, some.injEq] at hold
      exact ⟨rec', hr', by rw [hsnap, ← hold, hbase]⟩
    · rw [he] at ht
      cases ht
  · obtain ⟨snap, hinitial, hk, hst, hb⟩ := h.created t key (hclaims t key ht)
    have hkey := hsame key (by rw [hst]; exact some_ne_none _)
    exact ⟨snap, hinitial, hk, hkey.row.trans hst, hkey.journal.trans hb⟩
  · obtain ⟨rec, hrecord, _, hsnap, _⟩ := hrs r rec' hr
    rw [hsnap]
    exact h.snapshots r rec hrecord

theorem Published.rests (hrs : v'.records = v.records) (hrows : v'.Fits)
    (hjobs : ∀ o ∈ v'.jobs, o.commits = false ∧ o.initial = true) (hsame : ∀ key, v.rowOf key ≠ none → v.Same v' key) :
    Published ls' v' := by
  refine h.mono hlocked hlocals hclaims hrows hjobs hsame (fun r rec hr => ⟨rec, hrs ▸ hr, rfl, rfl, rfl, ?_⟩)
    fun r rec hr => ⟨rec, hrs ▸ hr⟩
  intro t hl hf
  rw [hl] at hf
  cases hf

theorem Published.lets_go {t : TaskId} (hu : (locals t).publishing.unsent = []) {jobs : List Op}
    (hjobs : ∀ o ∈ jobs, o.commits = false ∧ o.initial = true) : Published ls' {v.release t with jobs} := by
  refine h.mono hlocked hlocals hclaims h.rows hjobs (fun _ _ => ⟨rfl, rfl⟩) (fun r rec' hr => ?_) fun r rec hr => ?_
  · obtain ⟨rec, hrecord, rfl⟩ := record_of_release hr
    refine ⟨rec, hrecord, rfl, rfl, rfl, fun i hl hf => ?_⟩
    simp only [releaseLock, hl, some.injEq] at hf
    split at hf
    · rename_i hit
      rw [hit, hu]
    · cases hf
  · obtain ⟨rec', hr', _⟩ := (View.Extends.release v t).records r rec hr
    exact ⟨rec', hr'⟩

end Rests

/-- With no task and no record there is only what the rows hold. -/
theorem Published.idle (hrows : v.Fits) (hjobs : ∀ o ∈ v.jobs, o.commits = false ∧ o.initial = true)
    (hrs : ∀ (r : RecordId) (rec : RecordView), v.records[r]? = some rec → v.Tells rec .idle) :
    Published (fun _ => idle) v :=
  ⟨fun r rec hr _ => hrs r rec hr, fun _ _ _ ht => (nomatch ht), fun _ _ _ ht => (nomatch ht),
    fun _ _ ht => (nomatch ht), hrows, fun r rec hr => hrows.snapshot (hrs r rec hr).stored, hjobs⟩

/-- A detached call that commits nothing: the rows that were there stay the same,
and one that is created fits. -/
theorem View.same_transact (hs : v.Sound) {now : Int} {call : Call} (hcall : o.call now = some call)
    (ho : o.commits = false ∧ o.initial = true) :
    (∀ key, v.rowOf key ≠ none → v.Same (v.transact call) key) ∧ (v.Fits → (v.transact call).Fits) := by
  unfold Op.call at hcall
  split at hcall
  · rename_i snap ver digest principal hash exp
    cases hcall
    have hw := writes_reserve hs snap ver digest principal hash exp now
    generalize hc : Op.creates _ _ = created at hw
    cases hw with
    | nothing hsame => exact ⟨fun key _ => hsame key, fun h key blob state hr => h key blob state ((hsame key).row ▸ hr)⟩
    | creates hnew hsame =>
      obtain ⟨_, _, _, _, _, he⟩ := Op.creates_eq hc
      cases he
      refine ⟨fun key hk => hsame key fun he => hk (he ▸ hnew.absent), fun h key blob state hr => ?_⟩
      by_cases hk : key = rowKey snap
      · subst hk
        rw [hnew.row] at hr
        cases hr
        exact ⟨snap, rfl, isInitial_resultFits ho.2⟩
      · exact h key blob state ((hsame key hk).row ▸ hr)
  · cases ho.1
  · cases hcall
    have hsame := transact_updateLease hs (J := J)
    exact ⟨fun key _ => hsame _ _ _ _ _ now key, fun h key blob state hr =>
      h key blob state ((hsame _ _ _ _ _ now key).row ▸ hr)⟩
  · cases hcall

/-- What `recover` writes has a result. -/
theorem View.Fits.recover (hs : v.Sound) (h : v.Fits) (now : Int) : (v.transact (.recover now)).Fits := by
  intro key blob state hr
  have hstored : (v.transact (.recover now)).store = committed v.store (v.store.recover now) := rfl
  cases hresult : v.store.recover now with
  | error e =>
    rw [hresult] at hstored
    rw [rowOf, hstored] at hr
    exact h key blob state hr
  | ok res =>
    obtain ⟨cut, st'⟩ := res
    rw [hresult] at hstored
    rw [rowOf, hstored, show committed v.store (.ok (cut, st')) = st' from rfl] at hr
    obtain ⟨live, hkeys, hown, _, _, hfold⟩ := recover_loop hs.reachable.coherent hresult
    obtain ⟨hout, hi⟩ := recoverOne_rows now hkeys hown hfold
    by_cases hin : key ∈ live.map fst
    · obtain ⟨p, hp, rfl⟩ := mem_map.mp hin
      obtain ⟨_, _, hrow'⟩ := hi p hp
      rw [hrow'] at hr
      cases hr
      exact ⟨_, rfl, rfl⟩
    · rw [hout key hin] at hr
      exact h key blob state hr

/-- What a request that is spared leaves in flight commits nothing. -/
theorem detached_unpublished {g : Local × RunStage} (hs : ¬ MidPublication prog)
    (hall : runDiscipline.Allows g prog) (ho : o ∈ detached prog) : o.commits = false ∧ o.initial = true := by
  unfold detached at ho
  split at ho
  · rename_i o' next
    split at ho
    · rename_i hcall
      rw [mem_singleton.mp ho]
      refine ⟨?_, ?_⟩
      · by_contra hc
        exact hs (.inl ⟨o', next, rfl, by simpa using hc⟩)
      cases o' <;> first
        | rfl
        | skip
      case reserve snapshot version digest principal hash expires =>
        obtain ⟨_, hm, _⟩ := hall (.error .sql)
        exact @RunStage.advance_initial (.reserve snapshot version digest principal hash expires) _ _ (.error .sql)
          (Protocol.prod_advance.mp hm).2
      case newRecord => cases hcall
    · cases ho
  · cases ho

theorem published_inductive : runDiscipline.Inductive (J := J) SparesPublications
    (fun locals v => Founded (fun t => (locals t).1) v ∧ Distinct (claimsOf fun t => (locals t).1) v)
    fun locals => Published fun t => (locals t).1 where
  performs _ _ _ _ _ heffect hm _ hn _ hg h := by
    obtain ⟨hl, hstage⟩ := Protocol.prod_advance.mp hm
    rw [fst_update, fst_births]
    exact h.performs heffect hl (RunStage.advance_initial hstage) (congrArg Prod.fst hn) hg.1 hg.2
  releases {locals v t} hf hg h :=
    h.lets_go hg.1.2 (fun _ => .inl rfl) (fun _ _ => id) (by rw [hf.1.1.2]; rfl) h.jobs
  arrives {locals v n} origin _ _ hn hg h := by
    rw [fst_update]
    refine h.rests hg.1.2 (fun t => ?_) (fun t key ht => ?_) rfl h.rows h.jobs fun _ _ => ⟨rfl, rfl⟩
    · by_cases ht : t = n
      · subst ht
        exact .inr (by rw [update_self]; exact birth_publishing origin)
      · exact .inl (by rw [update_of_ne ht])
    · have hclaims : claimsOf (update (fun t => (locals t).1) _ _) = claimsOf fun t => (locals t).1 :=
        claimsOf_birth (congrArg Prod.fst hn) origin
      rw [← hclaims]
      exact ht
  drops {s t task locals} hrule htask hrequest hfits hall hg h := by
    have hspared := hrule task htask
    have hu : (locals t).1.publishing.unsent = [] := by
      by_contra hu
      exact hspared (.inr (leads_of_unsent hall.fst hu))
    rw [fst_update]
    refine h.lets_go hg.1.2 (fun i => ?_) (fun i key hi => ?_) hu fun o ho => ?_
    · by_cases hit : i = t
      · subst hit
        exact .inr (by rw [update_self]; rfl)
      · exact .inl (by rw [update_of_ne hit])
    · by_cases hit : i = t
      · subst hit
        rw [claimsOf, update_self] at hi
        cases hi
      · rwa [claimsOf, update_of_ne hit] at hi
    · rcases mem_append.mp ho with ho | ho
      · exact h.jobs o ho
      · exact detached_unpublished hspared hall ho
  jobs {s i fails o now call locals} _ hjob hcall hg h := by
    have hjobs : ∀ o ∈ s.view.jobs.eraseIdx i, o.commits = false ∧ o.initial = true :=
      fun o ho => h.jobs o (mem_of_mem_eraseIdx ho)
    cases fails
    · obtain ⟨hsame, hrows⟩ := View.same_transact hg.1.1.1.sound hcall (h.jobs o (mem_of_getElem? hjob))
      exact h.rests hg.1.2 (fun _ => .inl rfl) (fun _ _ => id) rfl (hrows h.rows) hjobs fun key hk =>
        ⟨(hsame key hk).row, (hsame key hk).journal⟩
    · exact h.rests hg.1.2 (fun _ => .inl rfl) (fun _ _ => id) rfl h.rows hjobs fun _ _ => ⟨rfl, rfl⟩
  crashes _ h := .idle h.rows (fun _ ho => (nomatch ho)) fun _ _ hr => (nomatch hr)
  recovers {locals v} now _ hidle hstop hg h := by
    rw [show (fun t => (locals t).1) = fun _ => Local.idle from funext fun t => congrArg Prod.fst (hidle t)]
    refine .idle (h.rows.recover hg.1.1.1.sound now) h.jobs fun r rec hr => ?_
    have he : v.records = [] := congrArg View.records hstop
    rw [show (v.transact (.recover now)).records = [] from he] at hr
    cases hr
  starts {locals v interrupted snapshots} now _ hidle hstop hrecord hload hg h := by
    have hs := hg.1.1.1.sound
    have hstor := foldl_load_store snapshots {v.transact (.recover now) with up := true}
    rw [show (fun t => (locals t).1) = fun _ => Local.idle from funext fun t => congrArg Prod.fst (hidle t)]
    refine .idle (fun key blob state hrow => ?_) (fun o ho => ?_) fun r rec hr => ?_
    · rw [View.rowOf, hstor] at hrow
      exact h.rows.recover hs now key blob state hrow
    · rw [(foldl_load_up snapshots _).2] at ho
      exact h.jobs o ho
    obtain ⟨snap, row, rfl, hrow, hencode, hst⟩ := View.record_of_started hs hstop hload hr
    have hstored : (snapshots.foldl View.load {v.transact (.recover now) with up := true}).store.executions.get?
        (rowKey snap) = some row := by
      rw [hstor]
      exact hrow
    refine ⟨?_, .inr ⟨rfl, rfl, row, hstored, ?_⟩⟩
    · show _ = some (J.snapshot.encode snap, stateName snap.state)
      rw [← hencode, ← hst]
      exact View.rowOf_some hstored
    · exact recover_terminal hs.reachable.coherent hrecord (View.store_recover hrecord ▸ hrow)

/-! ### Every run -/

/-- What is published, and what that rests on. -/
abbrev WellPublished (locals : TaskId → Local × RunStage) (v : View J) : Prop :=
  (Founded (fun t => (locals t).1) v ∧ Distinct (claimsOf fun t => (locals t).1) v) ∧ Published (fun t => (locals t).1) v

theorem wellPublished_inductive : runDiscipline.Inductive (J := J) SparesPublications Nothing WellPublished :=
  ((founded_inductive SparesPublications).and (distinct_inductive SparesPublications)).left.and published_inductive

theorem wellPublished_fresh : WellPublished (fun _ => (idle, RunStage.other)) (fresh J).view :=
  ⟨⟨founded_fresh, .idle nodup_nil⟩, .idle (fun _ _ _ hrow => (nomatch hrow)) (fun _ ho => (nomatch ho))
    fun _ _ hr => (nomatch hr)⟩

/-- Where a record stands is told by the publisher that holds it, if one does. -/
theorem Published.tells {locals : TaskId → Local} (h : Published locals v) (hlocked : Locked locals v)
    (hr : v.records[r]? = some rec) : ∃ p, v.Tells rec p ∧ (rec.commitLock = none → p = .idle) := by
  cases hl : rec.commitLock with
  | none => exact ⟨.idle, h.free r rec hr hl, fun _ => rfl⟩
  | some t =>
    have ht := (hlocked.commit t r).mpr ⟨rec, hr, hl⟩
    exact ⟨_, h.held t r rec ht hr, fun hn => (nomatch hn)⟩

theorem View.Tells.sent_prefix (h : v.Tells rec p) : rec.events.sent <+: v.journal rec.key := by
  rcases h.sent with hsent | ⟨hn, _⟩
  · exact ⟨_, hsent⟩
  · rw [hn]
    exact nil_prefix

/-- **Publication coherence.** In every run in which no request is dropped in the
middle of a publication, whatever store calls fail: while the commit lock of a
record is free its snapshot is the one its row stores; the events sent on its
channel are the first ones committed for the row, numbered from one without a gap;
and its snapshot has a result exactly if it is terminal, then one of its state. -/
theorem publication_coherent {config : NodeConfig} {s : Node J}
    (hrun : Steps (step config) SparesPublications (fresh J) s) {r : RecordId} {record : ExecutionRecord}
    (hrecord : s.records[r]? = some record) :
    (record.commitLock = none → ∃ row, s.store.executions.get? record.key = some row ∧
        J.snapshot.decode row.snapshotJson = some record.snapshot ∧ row.state = stateName record.snapshot.state) ∧
      record.events.sent <+: journalAfter J s.history record.key ∧
      record.events.sent.map ExecutionEvent.sequence = List.range' 1 record.events.sent.length ∧
      record.snapshot.result.isSome = isTerminal record.snapshot.state ∧
      ∀ result, record.snapshot.result = some result → result.state = record.snapshot.state := by
  obtain ⟨locals, _, ⟨hfounded, _⟩, hpublished⟩ :=
    wellPublished_inductive.holds hrun ⟨_, Discipline.keeps_fresh, wellPublished_fresh⟩
  have hview := view_record hrecord
  obtain ⟨p, htells, hidle⟩ := hpublished.tells hfounded.2 hview
  have hinitial : record.events.sent <+: s.view.journal record.key := htells.sent_prefix
  refine ⟨fun hfree => ?_, hinitial, ?_, resultFits_iff.mp (hpublished.snapshots r _ hview)⟩
  · have hstored := htells.stored
    rw [hidle hfree] at hstored
    obtain ⟨row, hrow, he⟩ := map_eq_some_iff.mp hstored
    rw [Prod.mk.injEq] at he
    exact ⟨row, hrow, by rw [he.1, J.snapshot.decode_encode]; rfl, he.2⟩
  · have hnumbered := (hfounded.1.1.sound.journalOf record.key).numbered
    obtain ⟨rest, hrest⟩ := hinitial
    rw [← hrest, map_append, length_append, ← List.range'_append_1] at hnumbered
    exact (append_inj hnumbered (by simp)).1

namespace Example

/-- The first record has ended, with nothing under way. -/
def settled (s : Node Serde.json) : Bool :=
  s.records[0]?.any fun record => record.commitLock.isNone && isTerminal record.snapshot.state

end Example

open Example

theorem publication_coherent_ended : ∃ (s : Node Serde.json) (record : ExecutionRecord),
      Steps (step config) SparesPublications (fresh Serde.json) s ∧ s.records[0]? = some record ∧
      isTerminal record.snapshot.state = true ∧ record.commitLock = none ∧
      ((record.commitLock = none → ∃ row, s.store.executions.get? record.key = some row ∧
          Serde.json.snapshot.decode row.snapshotJson = some record.snapshot ∧
          row.state = stateName record.snapshot.state) ∧
        record.events.sent <+: journalAfter Serde.json s.history record.key ∧
        record.events.sent.map ExecutionEvent.sequence = List.range' 1 record.events.sent.length ∧
        record.snapshot.result.isSome = isTerminal record.snapshot.state ∧
        ∀ result, record.snapshot.result = some result → result.state = record.snapshot.state) := by
  have hfollow : (follow (step config) AtRest (fresh Serde.json)
      (admitted ++ running ++ ended ++ [Example.execute 1] ++ runs 3 12 ++ [.drop 3])).any settled = true := by
    decide
  obtain ⟨s, hrun, hsettled⟩ := follow_reaches hfollow
  have hspared : Steps (step config) SparesPublications (fresh Serde.json) s := hrun.weaken fun {s a} ha => by
    cases a with
    | drop t => exact fun task ht => rests_spared ha ht
    | _ => trivial
  obtain ⟨record, hrecord, hboth⟩ := (any_eq_true _ _).mp hsettled
  rw [Bool.and_eq_true, isNone_iff_eq_none] at hboth
  exact ⟨s, record, hspared, hrecord, hboth.2, hboth.1, publication_coherent hspared hrecord⟩

end Eggwork.Server
