import Eggwork.Server.Feeds
import Eggwork.Server.Publication

/-! An event stream has no gap.

What a stream has delivered and has at hand is at all times a prefix of what was
journaled after its cursor: the page it loaded reaches the position it listens
from, and the channel carries the journal (`View.Tells`). So a stream delivers the
events in order and jumps over none, as long as no request is dropped in the middle
of a publication. A dropped one leaves an event in the journal that is on no
channel. -/
namespace Eggwork.Server
open Lib Store Runner Function List Option Bool Nat ExecutionStore Feed

variable {J : Serde}
variable {t : TaskId} {origin : Origin} {g : Feed} {id : ExecutionId} {locals : TaskId → (Local × RunStage) × Feed}
variable {r : RecordId} {position after : Nat} {gen : ExecutionGeneration} {event : ExecutionEvent}

/-! ### What a task on the way to a stream has seen -/

/-- Records stay and their channels grow, and so do the journals. -/
structure View.Grows (v v' : View J) : Prop where
  records : ∀ (r : RecordId) (record : RecordView), v.records[r]? = some record →
    ∃ record' : RecordView, v'.records[r]? = some record' ∧ record'.key = record.key ∧
      record.events.sent <+: record'.events.sent
  journal : ∀ key, v.journal key <+: v'.journal key

theorem Effect.grows {v v' : View J} {o : Op} {a : o.Answer} (h : Effect t origin v o a v') (hs : v.Sound) :
    v.Grows v' := by
  refine ⟨fun r rec hr => ?_, fun key => ?_⟩
  · obtain ⟨rec', hr', hk⟩ := (h.keeps hs).2.2 r rec hr
    refine ⟨rec', hr', hk, ?_⟩
    rcases h.sent_before hr hr' with he | ⟨ev, _, he⟩
    · rw [he]
    · rw [he]
      exact ⟨[ev], rfl⟩
  · rcases h.durable hs key with hsame | ⟨snap, _, rfl, hnew⟩ | ⟨snap, ev, _, rfl, hc⟩
    · rw [hsame.journal]
    · rw [hnew.blank]
      exact nil_prefix
    · rw [hc.journal]
      exact prefix_append _ _

theorem View.Grows.release (v : View J) (t : TaskId) : v.Grows (v.release t) := by
  refine ⟨fun r rec hr => ⟨View.releaseLock t rec, ?_, rfl, prefix_rfl⟩, fun _ => prefix_rfl⟩
  show (v.records.map _)[r]? = _
  rw [getElem?_map, hr]
  rfl

theorem View.Grows.transact {v : View J} (hs : v.Sound) (call : Call) : v.Grows (v.transact call) := by
  refine ⟨fun r rec hr => ⟨rec, hr, rfl, prefix_rfl⟩, fun key => ?_⟩
  rw [View.journal_transact hs]
  exact prefix_append _ _

/-- The record is the one of the row, and a receiver of its channel may be at this position. -/
def View.Listens (v : View J) (key : RowKey) (r : RecordId) (position : Nat) : Prop :=
  ∃ record : RecordView, v.records[r]? = some record ∧ record.key = key ∧ position ≤ record.events.sent.length

/-- What was obtained follows the cursor, and reaches where the stream listens. -/
structure View.Follows (v : View J) (page : Page) : Prop where
  obtained : page.events <+: (v.journal page.key).drop page.after
  listens : ∀ r position, page.receiver = some (r, position) →
    v.Listens page.key r position ∧ position ≤ page.after + page.events.length

/-- What a stream has delivered and has at hand. -/
def Course.page (c : Course) : Page := ⟨c.key, c.receiver, c.after, c.delivered ++ c.pending⟩

/-- A stream skips exactly what it has delivered. -/
def Course.Level (c : Course) : Prop := c.last = c.after + c.delivered.length

variable {c : Course}

/-- What the local state of a task says of the shared state. -/
def View.Feeds (v : View J) : Feed → Prop
  | .fetched key r => ∃ record : RecordView, v.records[r]? = some record ∧ record.key.1 = key.1
  | .known key r => v.Listens key r 0
  | .subscribed key r position => v.Listens key r position
  | .paged page | .judged page _ => v.Follows page
  | .streaming c | .lagging c | .lagged c | .closed c => v.Follows c.page ∧ c.Level
  | _ => True

variable {v v' : View J}

section Grows
variable {v v' : View J} (hgrows : v.Grows v')

include hgrows in
theorem View.Listens.grows {key : RowKey} (h : v.Listens key r position) : v'.Listens key r position := by
  obtain ⟨rec, hr, hk, hpos⟩ := h
  obtain ⟨rec', hr', hkey', hsent⟩ := hgrows.records r rec hr
  exact ⟨rec', hr', hkey'.trans hk, hpos.trans hsent.length_le⟩

include hgrows in
theorem View.Follows.grows {page : Page} (h : v.Follows page) : v'.Follows page := by
  refine ⟨h.obtained.trans ((hgrows.journal page.key).drop page.after), fun r position hrecv => ?_⟩
  obtain ⟨hl, hpos⟩ := h.listens r position hrecv
  exact ⟨hl.grows hgrows, hpos⟩

include hgrows in
theorem View.Feeds.grows (h : v.Feeds g) : v'.Feeds g := by
  cases g with
  | fetched key r =>
    obtain ⟨rec, hr, hid⟩ := h
    obtain ⟨rec', hr', hk, _⟩ := hgrows.records r rec hr
    exact ⟨rec', hr', hk ▸ hid⟩
  | known | subscribed => exact View.Listens.grows hgrows h
  | paged | judged => exact View.Follows.grows hgrows h
  | streaming | lagging | lagged | closed => exact ⟨View.Follows.grows hgrows h.1, h.2⟩
  | _ => trivial

end Grows

/-! ### One operation -/

/-- The page of a row holds what follows the cursor, if it was not refused. -/
theorem View.Sound.page (hs : v.Sound) {page : EventPage} (ha : after < 2 ^ 63)
    (h : v.store.loadPage id gen after = .ok (some page))
    (hbase : page.baseSequence ≤ saturatingAdd after 1) (hn : after < page.nextSequence) :
    page.events = (v.journal (id, gen.asI64)).drop after ∧ after ≤ (v.journal (id, gen.asI64)).length := by
  cases hr : v.store.executions.get? (id, gen.asI64) with
  | none =>
    simp only [loadPage, hr] at h
    cases h
  | some row =>
    obtain ⟨base, _, _, hpage⟩ := (hs.journalOf (id, gen.asI64)).loadPage hr ha
    rw [hpage, Except.ok.injEq, some.injEq] at h
    subst h
    have hc : saturatingAdd after 1 = after + 1 := by
      unfold saturatingAdd
      omega
    rw [hc] at hbase
    refine ⟨if_neg (not_lt.mpr hbase), ?_⟩
    exact le_of_lt_succ hn

theorem View.Sound.counted (hs : v.Sound) (key : RowKey) :
    Counted ExecutionEvent.sequence (v.journal key) := (hs.journalOf key).numbered

/-- What the map and the pages answer. -/
theorem Effect.executionsGet_eq {found : Option RecordId} (h : Effect t origin v (.executionsGet id) found v') :
    v.executions.get? id = found ∧ v' = v := by
  cases h with
  | quiet hq => cases hq
  | executionsGet => exact ⟨rfl, rfl⟩

theorem Effect.loadPage_eq {page : Option EventPage} (h : Effect t origin v (.loadPage id gen after) (.ok page) v') :
    v.store.loadPage id gen after = .ok page ∧ v' = v := by
  generalize ha : Except.ok page = a at h
  cases h with
  | quiet hq => cases hq
  | failedLoadPage => cases ha
  | loadPage => exact ⟨rfl, rfl⟩

section Moves
variable {t : TaskId} {origin : Origin} {o : Op} {a : o.Answer} {v v' : View J} {locals : TaskId → Local}

/-- A stream hears the event at its position: it has it, or it is the next one. -/
theorem View.Follows.hears (hs : v.Sound) (hpublished : Published locals v) (hl : Locked locals v) (h : v.Follows c.page)
    (hlevel : c.Level) (hp : c.pending = []) {rec : RecordView} {next : Nat}
    (hrecv : c.receiver = some (r, position)) (hr : v.records[r]? = some rec)
    (hitem : rec.events.recv eventCapacity position = .item event next) : v.Follows (c.hear r event next).page := by
  obtain ⟨hsent, rfl⟩ := Broadcast.recv_item hitem
  obtain ⟨⟨rec', hr', hk, _⟩, hready⟩ := h.listens r position hrecv
  rw [hr, Option.some.injEq] at hr'
  subst hr'
  have ho : c.delivered <+: (v.journal c.key).drop c.after := by
    have hall := h.obtained
    rwa [show c.page.events = c.delivered from by rw [Course.page, hp, append_nil]] at hall
  have hj : (v.journal c.key)[position]? = some event := by
    obtain ⟨p, ht, _⟩ := hpublished.tells hl hr
    obtain ⟨rest, hrest⟩ := ht.sent_prefix
    rw [← show rec.key = c.key from hk, ← hrest, List.getElem?_append_left (List.getElem?_eq_some_iff.mp hsent).1]
    exact hsent
  rw [show c.page.events = c.delivered from by rw [Course.page, hp, append_nil]] at hready
  obtain ⟨hmore, hlong⟩ := newer_next (hs.counted c.key) ho hready hj
  rw [show c.after + c.delivered.length = c.last from hlevel.symm] at hmore hlong
  refine ⟨hmore, fun i next hi => ?_⟩
  cases hi
  exact ⟨⟨rec, hr, hk, (List.getElem?_eq_some_iff.mp hsent).1⟩, hlong⟩

theorem View.Follows.delivers (hs : v.Sound) (h : v.Follows c.page) {rest : List ExecutionEvent}
    (hp : c.pending = event :: rest) : (c.next event rest).page = c.page ∧ (c.next event rest).Level := by
  have ho := h.obtained
  rw [show c.page.events = c.delivered ++ event :: rest from by rw [Course.page, hp]] at ho
  obtain ⟨tail, htail⟩ := ho
  -- the event's place in the journal gives its number
  have hat : (v.journal c.key)[c.after + c.delivered.length]? = some event := by
    rw [← getElem?_drop, ← show _ = (v.journal c.key).drop c.after from htail]
    simp
  have hn := (hs.counted c.key).number_eq hat
  have hrest : unseen event.sequence rest = rest := by
    refine newer_eq_self (hs.counted c.key) ⟨tail, ?_⟩
    rw [hn, add_assoc, ← drop_drop, ← show _ = (v.journal c.key).drop c.after from htail]
    simp
  refine ⟨?_, ?_⟩
  · simp [Course.page, Course.next, hrest, hp]
  · rw [Course.Level, Course.next, hn, length_append, length_singleton, add_assoc]

theorem View.Feeds.moves (he : Effect t origin v o a v') (hf : Founded locals v)
    (hpublished : Published locals v) {g' : Feed} (hm : g.Moves o a g') (h : v.Feeds g) : v'.Feeds g' := by
  have hs := hf.1.1.sound
  have hgrows := he.grows hs
  cases hm with
  | keeps => exact h.grows hgrows
  | finds | lacks | unmapped | mistakes | creates | meets | turns | replies => trivial
  | fetches =>
    obtain ⟨hentry, rfl⟩ := he.executionsGet_eq
    exact hf.1.2.mapped _ _ hentry
  | recognizes hfetch hg =>
    subst hfetch
    obtain ⟨rec, hr, hid⟩ := h
    cases he with
    | quiet hq => cases hq
    | readSnapshot hread =>
      rw [hr, some.injEq] at hread
      subst hread
      refine ⟨rec, hr, Prod.ext hid ?_, zero_le _⟩
      rw [← (hf.1.2.named _ rec hr).1]
      exact hg
  | judges hpag =>
    subst hpag
    exact View.Follows.grows hgrows h
  | records =>
    cases he with
    | quiet hq => cases hq
    | newRecord snap hash => exact ⟨_, getElem?_concat_length, rfl, zero_le _⟩
  | subscribes hknown =>
    subst hknown
    obtain ⟨rec, hr, hk, _⟩ := h
    cases he with
    | quiet hq => cases hq
    | subscribe hread =>
      rw [hr, some.injEq] at hread
      subst hread
      exact ⟨rec, hr, hk, le_refl _⟩
  | @loads id generation after page receiver ha hplain hbase hn =>
    obtain ⟨hload, rfl⟩ := he.loadPage_eq
    obtain ⟨hevent, hlen⟩ := hs.page ha hload hbase hn
    refine ⟨hevent ▸ prefix_rfl, fun r position hrecv => ?_⟩
    rcases hplain with ⟨_, hnone⟩ | ⟨i, at', rfl, hsome⟩
    · cases hnone.symm.trans hrecv
    cases hsome.symm.trans hrecv
    refine ⟨h, ?_⟩
    -- the page was loaded after the subscription, so it reaches at least as far
    obtain ⟨rec, hr, hk, hpos⟩ := h
    obtain ⟨p, ht, _⟩ := hpublished.tells hf.2 hr
    have hsent := ht.sent_prefix.length_le
    rw [show rec.key = (id, generation.asI64) from hk] at hsent
    simp only [hevent, length_drop]
    omega
  | @answers page terminal hplain =>
    have hfollow : v.Follows page := by
      rcases hplain with rfl | ⟨rfl, _⟩ <;> exact h
    have hall : unseen page.after page.events = page.events := newer_eq_self (hs.counted page.key) hfollow.obtained
    have hpage : (Course.start (eventStreamResponse page.key page.after page.events page.receiver terminal)).page = page := by
      show Page.mk page.key page.receiver page.after ([] ++ unseen page.after page.events) = page
      rw [hall]
      rfl
    refine ⟨?_, rfl⟩
    rw [hpage]
    exact hfollow.grows hgrows
  | hears hstream hopen hp hrecv =>
    subst hstream
    cases he with
    | quiet hq => cases hq
    | received hr hitem =>
      exact ⟨h.1.hears hs hpublished hf.2 h.2 hp hrecv hr hitem, h.2⟩
  | lags hstream | closes hstream | reports hstream =>
    subst hstream
    exact ⟨View.Follows.grows hgrows h.1, h.2⟩
  | delivers hstream hopen hp =>
    subst hstream
    obtain ⟨hpage, hl⟩ := h.1.delivers hs hp
    exact ⟨hpage ▸ h.1.grows hgrows, hl⟩

end Moves

/-! ### Every run -/

/-- The protocols of publication and of streams together. -/
abbrev streamDiscipline : Discipline ((Local × RunStage) × Feed) := runDiscipline.prod feedDiscipline

theorem streamDiscipline_births (locals : TaskId → (Local × RunStage) × Feed) (n : TaskId) (o : Op) (i : TaskId) :
    (streamDiscipline.births locals n o i).2 = (locals i).2 ∨ (streamDiscipline.births locals n o i).2 = .blank := by
  unfold Discipline.births
  cases o.spawns with
  | none => exact .inl rfl
  | some spawned =>
    dsimp only
    by_cases hi : i = n
    · subst hi
      right
      rw [update_self]
      rfl
    · left
      rw [update_of_ne hi]

/-- Every task has seen what its local state says. -/
abbrev Fed (locals : TaskId → (Local × RunStage) × Feed) (v : View J) : Prop := ∀ t, v.Feeds (locals t).2

theorem Fed.grows (h : Fed locals v) (hgrows : v.Grows v') : Fed locals v' := fun t => (h t).grows hgrows

theorem Fed.update (h : Fed locals v) (t : TaskId) {g : (Local × RunStage) × Feed} (hg : v.Feeds g.2) :
    Fed (update locals t g) v := by
  intro i
  by_cases hit : i = t
  · subst hit
    rw [update_self]
    exact hg
  · rw [update_of_ne hit]
    exact h i

theorem fed_inductive : streamDiscipline.Inductive (J := J) SparesPublications
    (fun locals => WellPublished fun t => (locals t).1) Fed where
  performs {s t task choice o next a v locals g n} _ _ _ _ _ heffect hm _ _ _ hg h := by
    obtain ⟨⟨hf, _⟩, hp⟩ := hg
    have hgrows := heffect.grows hf.1.1.sound
    have hb : Fed (streamDiscipline.births locals n o) v := by
      intro i
      rcases streamDiscipline_births locals n o i with he | he
      · rw [he]
        exact (h i).grows hgrows
      · rw [he]
        trivial
    exact hb.update t ((h t).moves heffect hf hp
      (advance_moves (Protocol.prod_advance.mp hm).2))
  releases _ _ h := h.grows (.release _ _)
  arrives _ _ _ _ _ h := h.update _ trivial
  drops {s t task locals} _ _ _ _ _ _ h := by
    have hgrows := View.Grows.release s.view t
    have hd : Fed locals ({s.view with jobs := s.view.jobs ++ detached task.program}.release t) :=
      h.grows ⟨hgrows.records, hgrows.journal⟩
    exact hd.update t (g := streamDiscipline.idle) trivial
  jobs {s i fails o now call locals} _ _ _ hg h := by
    cases fails
    · have hgrows := View.Grows.transact hg.1.1.1.1.sound call
      exact h.grows ⟨hgrows.records, hgrows.journal⟩
    · exact h.grows ⟨fun r rec hr => ⟨rec, hr, rfl, prefix_rfl⟩, fun _ => prefix_rfl⟩
  crashes _ _ := fun _ => trivial
  recovers {locals v} _ _ hidle _ _ _ := by
    intro t
    rw [hidle t]
    trivial
  starts {locals v interrupted snapshots} _ _ hidle _ _ _ _ _ := by
    intro t
    rw [hidle t]
    trivial

/-- What streams have seen, and what that rests on. -/
abbrev WellFed (locals : TaskId → (Local × RunStage) × Feed) (v : View J) : Prop :=
  WellPublished (fun t => (locals t).1) v ∧ Fed locals v

theorem wellFed_inductive : streamDiscipline.Inductive (J := J) SparesPublications Nothing WellFed :=
  wellPublished_inductive.left.and fed_inductive

theorem wellFed_fresh : WellFed (fun _ => ((Local.idle, RunStage.other), gone)) (fresh J).view :=
  ⟨wellPublished_fresh, fun _ => trivial⟩

theorem Feed.advance_gone (o : Op) (a : o.Answer) : gone.advance o a = none := by
  cases o with
  | respond resp => cases resp <;> rfl
  | yield item => cases item <;> rfl
  | _ => rfl

/-- A task that is still running has a local state. -/
theorem Feed.alive {prog : Async Unit} (h : feedDiscipline.Allows g prog) (hl : prog.isDone = false) : g ≠ .gone := by
  rintro rfl
  cases prog with
  | done => cases hl
  | loop l => cases l <;> cases h
  | perform o next =>
    obtain ⟨a⟩ := Op.answer_nonempty o
    obtain ⟨g, hm, _⟩ := h a
    rw [show feedDiscipline.protocol.advance .gone o a = none from advance_gone o a] at hm
    cases hm

/-- The events a stream has delivered, up to the report of a lag that ends it. -/
def Delivered (output : List StreamItem) (events : List ExecutionEvent) : Prop :=
  output = events.map .event ∨ output = events.map .event ++ [.lagged]

/-- A stream under way has delivered what follows its cursor, as far as it got. -/
theorem WellFed.delivered {s : Node J} (hkeeps : streamDiscipline.Keeps locals s) (h : WellFed locals s.view)
    {task : Task} (ht : s.tasks[t]? = some task) (hl : task.program.isDone = false) {stream : EventStream}
    (hresponse : task.response = some (.events stream)) :
    ∃ events, Delivered task.output events ∧ events <+: (s.view.journal stream.key).drop stream.lastSequence := by
  have halive := alive (hkeeps.conforms (threads_getElem? ht)).snd hl
  have hfits : fits task.face (locals t).2 := (hkeeps.fits (threads_getElem? ht)).2
  have hfee := h.2 t
  have hresponse' : task.face.response = some (.events stream) := hresponse
  -- what has been delivered is the first part of what was obtained
  have hcount : ∀ c : Course, s.view.Follows c.page ∧ c.Level → c.delivered <+: (s.view.journal c.key).drop c.after :=
    fun c hc => (prefix_append _ _).trans hc.1.obtained
  cases hg : (locals t).2 with
  | gone => exact absurd hg halive
  | streaming c | lagging c | closed c =>
    rw [hg] at hfits hfee
    obtain ⟨stream', hs, hk, ha, hout⟩ := hfits
    rw [hresponse', some.injEq, Response.events.injEq] at hs
    subst hs
    rw [hk, ha]
    exact ⟨c.delivered, .inl hout, hcount c hfee⟩
  | lagged c =>
    rw [hg] at hfits hfee
    obtain ⟨stream', hs, hk, ha, hout⟩ := hfits
    rw [hresponse', some.injEq, Response.events.injEq] at hs
    subst hs
    rw [hk, ha]
    exact ⟨c.delivered, .inr hout, hcount c hfee⟩
  | answered =>
    rw [hg] at hfits
    exact absurd hresponse' (hfits stream)
  | _ =>
    rw [hg] at hfits
    rw [hfits.1] at hresponse'
    cases hresponse'

/-- **No hole in a live stream.** In every run in which no request is dropped in
the middle of a publication: while the commit lock of a record is free, what was
sent on its channel is all that was committed for its row (or the record was loaded
at a start, for a row that had ended); and every stream under way has delivered the
events that follow its cursor, one after the other, numbered without a gap. -/
theorem stream_without_hole {config : NodeConfig} {s : Node J}
    (hrun : Steps (step config) SparesPublications (fresh J) s) :
    (∀ (r : RecordId) (record : ExecutionRecord), s.records[r]? = some record → record.commitLock = none →
      record.events.sent = journalAfter J s.history record.key ∨ record.events.sent = [] ∧
          ∃ row, s.store.executions.get? record.key = some row ∧ isTerminalName row.state = true) ∧
    ∀ (t : TaskId) (task : Task) (stream : EventStream), s.tasks[t]? = some task → task.program.isDone = false →
      task.response = some (.events stream) → ∃ events, Delivered task.output events ∧
        events <+: (journalAfter J s.history stream.key).drop stream.lastSequence ∧
        events.map ExecutionEvent.sequence = List.range' (stream.lastSequence + 1) events.length := by
  obtain ⟨locals, hkeeps, hfed⟩ := wellFed_inductive.holds hrun ⟨_, Discipline.keeps_fresh, wellFed_fresh⟩
  obtain ⟨⟨hfounded, _⟩, hpublished⟩ := hfed.1
  refine ⟨fun r record hrecord hfree => ?_, fun t task stream htask hlive hresponse => ?_⟩
  · have htells := hpublished.free r _ (view_record hrecord) hfree
    rcases htells.sent with hsent | ⟨hnone, _, hended⟩
    · exact .inl ((append_nil _).symm.trans hsent)
    · exact .inr ⟨hnone, hended⟩
  · obtain ⟨events, hdelivered, hevents⟩ := hfed.delivered hkeeps htask hlive hresponse
    exact ⟨events, hdelivered, hevents, (hfounded.1.1.sound.counted stream.key).after hevents⟩

namespace Example

/-- The client of the execution reads its stream up to the first event. -/
def attached : List Action := admitted ++ runs 0 6

/-- The numbers a stream has delivered; none for the report of a lag. -/
def numbers (output : List StreamItem) : List (Option Nat) :=
  output.map fun
    | .event event => some event.sequence
    | .lagged => none

/-- The first task streams the execution from its start and has delivered these numbers. -/
def streams (delivered : List Nat) (s : Node Serde.json) : Bool :=
  s.tasks[0]?.any fun task => !task.program.isDone && numbers task.output == delivered.map some &&
    (match task.response with
      | some (.events stream) => stream.key == key 1 && stream.lastSequence == 0
      | _ => false)

end Example

theorem Example.streams_task {delivered : List Nat} {s : Node Serde.json} (h : Example.streams delivered s = true) :
    ∃ (task : Task) (stream : EventStream), s.tasks[0]? = some task ∧ task.program.isDone = false ∧
      task.response = some (.events stream) ∧ stream.key = Example.key 1 ∧ stream.lastSequence = 0 ∧
      Example.numbers task.output = delivered.map some := by
  obtain ⟨task, ht, hall⟩ := (any_eq_true _ _).mp h
  simp only [and_eq_true, not_eq_true', beq_iff_eq] at hall
  obtain ⟨⟨hl, hn⟩, hresponse⟩ := hall
  split at hresponse
  · rename_i stream hs
    obtain ⟨hk, hlast⟩ := and_eq_true_iff.mp hresponse
    exact ⟨task, stream, ht, hl, hs, beq_iff_eq.mp hk, beq_iff_eq.mp hlast, hn⟩
  · cases hresponse

open Example in
theorem stream_without_hole_cancelled : ∃ (s : Node Serde.json) (task : Task) (stream : EventStream),
      Steps (step config) SparesPublications (fresh Serde.json) s ∧ s.tasks[0]? = some task ∧
      task.program.isDone = false ∧ task.response = some (.events stream) ∧
      numbers task.output = [some 1, some 2, some 3] ∧ ∃ events, Delivered task.output events ∧
        events <+: (journalAfter Serde.json s.history stream.key).drop stream.lastSequence ∧
        events.map ExecutionEvent.sequence = List.range' (stream.lastSequence + 1) events.length := by
  have hfollow : (follow (step config) AtRest (fresh Serde.json)
      (attached ++ cancelled ++ running ++ runs 0 7 ++ [Example.execute 1] ++
        runs 4 12 ++ [.drop 4])).any (streams [1, 2, 3]) = true := by
    decide
  obtain ⟨s, hrun, hstreams⟩ := follow_reaches hfollow
  have hspared : Steps (step config) SparesPublications (fresh Serde.json) s := hrun.weaken fun {s a} ha => by
    cases a with
    | drop t => exact fun task ht => rests_spared ha ht
    | _ => trivial
  obtain ⟨task, stream, htask, hlive, hresponse, _, _, hnumbers⟩ := streams_task hstreams
  exact ⟨s, task, stream, hspared, htask, hlive, hresponse, hnumbers,
    (stream_without_hole hspared).2 0 task stream htask hlive hresponse⟩

open Example in
/-- A cancel request dropped while its commit is on the blocking pool leaves a hole:
the stream, still under way and without a report of a lag, has delivered the events
1 and 3, and event 2 is in the journal. -/
theorem dropped_publication : ∃ (s : Node Serde.json) (task : Task) (stream : EventStream),
      Steps (step config) Free (fresh Serde.json) s ∧ s.tasks[0]? = some task ∧
      task.program.isDone = false ∧ task.response = some (.events stream) ∧ stream.key = Example.key 1 ∧
      stream.lastSequence = 0 ∧ numbers task.output = [some 1, some 3] ∧
      (journalAfter Serde.json s.history stream.key).map ExecutionEvent.sequence = [1, 2, 3] := by
  have hfollow : (follow (step config) Free (fresh Serde.json)
      (attached ++ [Example.cancel 1] ++ runs 3 13 ++ [.drop 3, .job 0 false] ++ running ++
        runs 0 4)).any (fun s => streams [1, 3] s &&
          (journalAfter Serde.json s.history (Example.key 1)).map ExecutionEvent.sequence == [1, 2, 3]) = true := by
    decide
  obtain ⟨s, hrun, hboth⟩ := follow_reaches hfollow
  obtain ⟨hstreams, hjournal⟩ := Bool.and_eq_true_iff.mp hboth
  obtain ⟨task, stream, htask, hlive, hresponse, hkey, hlast, hnumbers⟩ := streams_task hstreams
  exact ⟨s, task, stream, hrun, htask, hlive, hresponse, hkey, hlast, hnumbers, hkey ▸ beq_iff_eq.mp hjournal⟩

end Eggwork.Server
