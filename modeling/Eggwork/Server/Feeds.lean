import Eggwork.Lib.Catchup
import Eggwork.Server.Stages

/-! The protocol of an event stream.

A request that answers with a stream has found the record of its row, or found
that there is none; it has subscribed to the record before it loaded the page
after its cursor, and read the snapshot after that. A `Feed` says how far it is,
and a `Course` what a stream has delivered, what it has at hand and where it
listens. Every task keeps to this (`feedDiscipline`): only such a stream listens to
a channel, and it delivers what it has obtained, in that order. -/
namespace Eggwork.Server
open Lib Store Runner Option

variable {o : Op} {resp : Response}
variable {after : Nat} {stream : EventStream} {a : o.Answer}

/-! ### Local states -/

/-- What was loaded for a stream, and where it listens. -/
structure Page where
  key : RowKey
  receiver : Option (RecordId × Nat)
  after : Nat
  events : List ExecutionEvent
deriving DecidableEq

/-- A stream under way: `after` is its cursor, `last` the number up to which it skips. -/
structure Course where
  key : RowKey
  receiver : Option (RecordId × Nat)
  after : Nat
  delivered : List ExecutionEvent
  pending : List ExecutionEvent
  last : Nat
  ended : Bool
deriving DecidableEq

variable {c : Course}

/-- How far a task is on the way to a stream, and along it. -/
inductive Feed where
  | gone
  | blank
  /-- The row was found. -/
  | looked (key : RowKey)
  /-- The row was not found. -/
  | absent (key : RowKey)
  /-- The map holds this record under the id of the execution. -/
  | fetched (key : RowKey) (record : RecordId)
  /-- The map does not hold the record of the row. -/
  | missed (key : RowKey)
  | admitting
  /-- This is the record of the row. -/
  | known (key : RowKey) (record : RecordId)
  | subscribed (key : RowKey) (record : RecordId) (position : Nat)
  | paged (page : Page)
  | judged (page : Page) (terminal : Bool)
  | answered
  | streaming (course : Course)
  | lagging (course : Course)
  | lagged (course : Course)
  | closed (course : Course)
deriving DecidableEq

/-- The events not yet delivered, by their numbers. -/
abbrev unseen (last : Nat) (events : List ExecutionEvent) : List ExecutionEvent := newer ExecutionEvent.sequence last events

namespace Course

def start (stream : EventStream) : Course where
  key := stream.key
  receiver := stream.receiver
  after := stream.lastSequence
  delivered := []
  pending := unseen stream.lastSequence stream.replay
  last := stream.lastSequence
  ended := stream.ended

/-- An event comes from the channel. -/
def hear (c : Course) (r : RecordId) (event : ExecutionEvent) (next : Nat) : Course :=
  {c with receiver := some (r, next), pending := unseen c.last [event]}

/-- An event has been delivered, and the rest is still at hand. -/
def next (c : Course) (event : ExecutionEvent) (rest : List ExecutionEvent) : Course :=
  {c with
    delivered := c.delivered ++ [event]
    pending := unseen event.sequence rest
    last := event.sequence
    ended := event.kind.isTerminal}

/-- An event is delivered: it is the first at hand. -/
def deliver (c : Course) (event : ExecutionEvent) : Option Course :=
  match c.pending with
  | first :: rest => if first = event ∧ c.ended = false then some (c.next event rest) else none
  | [] => none

/-- The state a stream's loop carries is this, up to what it will skip. -/
structure Runs (c : Course) (stream : EventStream) : Prop where
  key : stream.key = c.key
  receiver : stream.receiver = c.receiver
  pending : unseen stream.lastSequence stream.replay = c.pending
  last : stream.lastSequence = c.last
  ended : stream.ended = c.ended

end Course

namespace Feed

/-- Before a record is subscribed to, a page loaded or a row reserved. -/
def early : Feed → Bool
  | .blank | .looked _ | .absent _ | .fetched .. | .missed _ | .known .. => true
  | _ => false

/-- A stream may not be owed when anything else is answered. -/
def plain : Feed → Bool
  | .blank | .looked _ | .absent _ | .fetched .. | .missed _ | .known .. | .admitting | .answered => true
  | _ => false

def look (g : Feed) (key : RowKey) (answer : Except StoreError (Option ExistingExecution)) : Feed :=
  match g, answer with
  | .blank, .ok (some _) => .looked key
  | .blank, .ok none => .absent key
  | g, _ => g

def fetch (g : Feed) (id : ExecutionId) (found : Option RecordId) : Feed :=
  match g with
  | .looked key => if key.1 = id then found.elim (.missed key) (.fetched key) else .looked key
  | g => g

def read (g : Feed) (r : RecordId) (snapshot : ExecutionSnapshot) : Feed :=
  match g with
  | .fetched key r' =>
    if r' = r then
      if snapshot.generation.asI64 = key.2 then .known key r else .missed key
    else .fetched key r'
  | .paged page => if page.receiver.map Prod.fst = some r then .judged page (isTerminal snapshot.state) else .paged page
  | g => g

def reserve (g : Feed) (key : RowKey) (answer : Except StoreError ReserveResult) : Option Feed :=
  match g with
  | .absent key' =>
    if key' = key then
      match answer with
      | .ok .created => some .admitting
      | .ok (.existing _) => some (.missed key)
      | _ => some (.absent key)
    else none
  | _ => none

def subscribe (g : Feed) (r : RecordId) (position : Nat) : Option Feed :=
  match g with
  | .known key r' => if r' = r then some (.subscribed key r position) else none
  | _ => none

/-- The answer to a page: a stream is owed if the page reaches back to the cursor,
and the cursor is not ahead of it. -/
def turn (key : RowKey) (receiver : Option (RecordId × Nat)) (after : Nat) :
    Except StoreError (Option EventPage) → Feed
  | .ok (some page) =>
    if ExecutionStore.saturatingAdd after 1 < page.baseSequence ∨ page.nextSequence ≤ after then .answered
    else .paged ⟨key, receiver, after, page.events⟩
  | _ => .answered

/-- A cursor that no `i64` holds is refused before anything is loaded. -/
def load (g : Feed) (key : RowKey) (after : Nat) (answer : Except StoreError (Option EventPage)) : Option Feed :=
  match g with
  | .subscribed key' r position =>
    if key' = key ∧ after < 2 ^ 63 then some (turn key (some (r, position)) after answer) else none
  | .missed key' => if key' = key ∧ after < 2 ^ 63 then some (turn key none after answer) else none
  | _ => none

/-- A stream is answered as its page and the snapshot read after it make it. -/
def respond (g : Feed) : Response → Option Feed
  | .events stream =>
    match g with
    | .judged page terminal =>
      if stream = eventStreamResponse page.key page.after page.events page.receiver terminal then
        some (.streaming (Course.start stream))
      else none
    | .paged page =>
      if page.receiver = none ∧ (stream = eventStreamResponse page.key page.after page.events none true ∨
          stream = eventStreamResponse page.key page.after page.events none false) then
        some (.streaming (Course.start stream))
      else none
    | _ => none
  | _ => if g.plain then some .answered else none

def receive (g : Feed) (r : RecordId) (position : Nat) (received : Received) : Option Feed :=
  match g with
  | .streaming c =>
    if c.ended = false ∧ c.pending = [] ∧ c.receiver = some (r, position) then
      match received with
      | .event event next => some (.streaming (c.hear r event next))
      | .lagged => some (.lagging c)
      | .closed => some (.closed c)
    else none
  | _ => none

def yield (g : Feed) : StreamItem → Option Feed
  | .event event =>
    match g with
    | .streaming c => (c.deliver event).map .streaming
    | _ => none
  | .lagged =>
    match g with
    | .lagging c => some (.lagged c)
    | _ => none

/-- How an operation moves the local state; `none` where it is not allowed. -/
def advance (g : Feed) : (o : Op) → o.Answer → Option Feed
  | .lookup id generation, answer => if g = .gone then none else some (g.look (id, generation.asI64) answer)
  | .executionsGet id, found => if g = .gone then none else some (g.fetch id found)
  | .readSnapshot r, snapshot => if g = .gone then none else some (g.read r snapshot)
  | .reserve snapshot .., answer => g.reserve (rowKey snapshot) answer
  | .newRecord snapshot _, r => if g = .admitting then some (.known (rowKey snapshot) r) else none
  | .subscribe r, position => g.subscribe r position
  | .loadPage id generation after, answer => g.load (id, generation.asI64) after answer
  | .respond response, _ => g.respond response
  | .recv r position, received => g.receive r position received
  | .yield item, _ => g.yield item
  | _, _ => if g = .gone then none else some g

/-- In which local states a loop may be entered. -/
def enter : Loop → Feed → Prop
  | .events stream, .streaming c => c.Runs stream
  | .events stream, .lagged _ => stream.ended = true
  | .events _, _ => False
  | _, g => g = .blank

/-- The local states a task may end in. -/
def final : Feed → Prop
  | .streaming c => c.ended = true ∨ (c.pending = [] ∧ c.receiver = none)
  | .paged _ | .judged .. | .lagging _ => False
  | _ => True

/-- What is seen of a task: nothing before it answers; then the stream it answered
with, and what that has delivered. -/
def fits (face : Face) : Feed → Prop
  | .gone => True
  | .answered => ∀ stream, face.response ≠ some (.events stream)
  | .streaming c | .lagging c | .closed c => ∃ stream, face.response = some (.events stream) ∧ stream.key = c.key ∧
      stream.lastSequence = c.after ∧ face.output = c.delivered.map .event
  | .lagged c => ∃ stream, face.response = some (.events stream) ∧ stream.key = c.key ∧
      stream.lastSequence = c.after ∧ face.output = c.delivered.map .event ++ [.lagged]
  | _ => face.response = none ∧ face.output = []

end Feed

abbrev feeding : Protocol effects Feed where
  advance := Feed.advance
  enter := Feed.enter

/-! ### Handlers -/

/-- A local state that reading the map and the records does not move. -/
structure Feed.Still (g : Feed) : Prop where
  alive : g ≠ .gone
  read : ∀ r snapshot, g.read r snapshot = g
  fetch : ∀ id found, g.fetch id found = g

theorem Feed.blank_still : Feed.Still .blank := ⟨Feed.noConfusion, fun _ _ => rfl, fun _ _ => rfl⟩

theorem Feed.absent_still (key : RowKey) : Feed.Still (.absent key) :=
  ⟨Feed.noConfusion, fun _ _ => rfl, fun _ _ => rfl⟩

theorem Feed.missed_still (key : RowKey) : Feed.Still (.missed key) :=
  ⟨Feed.noConfusion, fun _ _ => rfl, fun _ _ => rfl⟩

theorem Feed.known_still (key : RowKey) (r : RecordId) : Feed.Still (.known key r) :=
  ⟨Feed.noConfusion, fun _ _ => rfl, fun _ _ => rfl⟩

/-- The areas in which a request gets on towards a stream, apart from the map. -/
def Area.feeds : Area → Bool
  | .identity | .feed | .admission | .stream | .answer => true
  | _ => false

variable {areas : List Area}

theorem Feed.Still.advance {g : Feed} (hg : g.Still) (ha : areas.any Area.feeds = false)
    (ho : o.within areas = true) (a : o.Answer) : g.advance o a = some g := by
  have harea := Op.area_of_within ha ho
  cases o <;> first
    | exact if_neg hg.alive
    | (cases harea; done)
    | skip
  case executionsGet => exact (if_neg hg.alive).trans (congrArg some (hg.fetch _ _))
  case readSnapshot => exact (if_neg hg.alive).trans (congrArg some (hg.read _ _))

theorem Feed.Still.conforms {g : Feed} (hg : g.Still) (ha : areas.any Area.feeds = false) {α : Type} {p : Async α}
    (h : Within areas p) : feeding.Conforms (fun _ g' => g' = g) g p :=
  .of_uses (fun _ ho a => hg.advance ha ho a) (fun _ hl => hl.elim) h

abbrev Owes (g : Feed) (handler : Async Response) : Prop :=
  feeding.Conforms (fun response g => (g.respond response).isSome = true) g handler

theorem Owes.plain {g : Feed} (hg : g.plain = true) (hresponse : resp.isStream = false) : Owes g (pure resp) := by
  cases resp with
  | events stream => cases hresponse
  | _ => simp [Owes, Protocol.Conforms, Feed.respond, hg]

theorem Feed.Still.indifferent {g : Feed} (hg : g.Still) (hp : g.plain = true) (ha : areas.any Area.feeds = false) :
    Indifferent areas (Owes g) where
  refused hresponse := .plain hp (Response.isStream_of_isError hresponse)
  op ho hf := .stay (hg.advance ha ho) hf

theorem refuse_owes {g : Feed} (hg : g.plain = true) (metric : String) (status : Nat) (code message : String) :
    Owes g (refuse metric status code message) := by
  refine .stay (fun _ => if_neg ?_) fun _ => Owes.plain hg rfl
  rintro rfl
  cases hg

theorem serve_feeds {g : Feed} {handler : Async Response} (h : Owes g handler) :
    feeding.Conforms (fun _ => Feed.final) g (serve handler) := by
  refine h.bind fun resp g' hg' => ?_
  obtain ⟨next, hn⟩ := isSome_iff_exists.mp hg'
  refine .op fun _ => ⟨next, hn, ?_⟩
  cases resp with
  | events stream =>
    have hs : next = .streaming (Course.start stream) := by
      simp only [Feed.respond] at hn
      split at hn
      all_goals first
        | (split at hn <;> cases hn; rfl)
        | cases hn
    rw [hs]
    exact ⟨rfl, rfl, rfl, rfl, rfl⟩
  | _ =>
    have hover : next = .answered := by
      obtain ⟨_, ⟨⟩⟩ := ite_none_right_eq_some.mp hn
      rfl
    rw [hover]
    trivial

/-- Where a request stands that attaches to a record. -/
def Attached.feed (key : RowKey) : Attached → Feed
  | .live r => .known key r
  | .recovered _ => .missed key

theorem page_feeds {id : ExecutionId} {gen : ExecutionGeneration} {after : Nat} {rec : Attached}
    {receiver : Option (RecordId × Nat)} {g : Feed}
    (hload : ∀ a, g.load (id, gen.asI64) after a =
      some (Feed.turn (id, gen.asI64) receiver after a))
    (ha : ∀ events, Owes (.paged ⟨(id, gen.asI64), receiver, after, events⟩) (do
      let snapshot ← attachedSnapshot rec
      pure (.events (eventStreamResponse (id, gen.asI64) after events receiver (isTerminal snapshot.state))))) :
    Owes g (do
      match ← await (.loadPage id gen after) with
      | .error _ => pure storeUnavailable
      | .ok none => pure executionNotFound
      | .ok (some page) =>
        match checkPage after page with
        | .expired => refuse "event_history_resync" 410 "history_expired" "event history has expired"
        | .ahead => pure (.error 416 "cursor_ahead" "event cursor is ahead of the journal")
        | .page events =>
          let snapshot ← attachedSnapshot rec
          pure (.events (eventStreamResponse (id, gen.asI64) after events receiver (isTerminal snapshot.state)))) := by
  refine .op fun a => ⟨_, hload a, ?_⟩
  split
  · exact Owes.plain rfl rfl
  · exact Owes.plain rfl rfl
  rename_i page
  have hover : ExecutionStore.saturatingAdd after 1 < page.baseSequence ∨ page.nextSequence ≤ after →
      Feed.turn (id, gen.asI64) receiver after (.ok (some page)) = .answered := fun hbad => if_pos hbad
  by_cases he : ExecutionStore.saturatingAdd after 1 < page.baseSequence
  · rw [checkPage, if_pos he, hover (.inl he)]
    exact refuse_owes rfl _ _ _ _
  by_cases hahe : page.nextSequence ≤ after
  · rw [checkPage, if_neg he, if_pos hahe, hover (.inr hahe)]
    exact Owes.plain rfl rfl
  rw [checkPage, if_neg he, if_neg hahe, show Feed.turn (id, gen.asI64) receiver after (.ok (some page)) =
    .paged ⟨(id, gen.asI64), receiver, after, page.events⟩ from if_neg (not_or_intro he hahe)]
  exact ha page.events

theorem eventResponse_feeds (id : ExecutionId) (gen : ExecutionGeneration) (ha : after < 2 ^ 63) (rec : Attached) :
    Owes (rec.feed (id, gen.asI64)) (eventResponse id gen after rec) := by
  cases rec with
  | live r =>
    refine .op fun pos => ⟨.subscribed (id, gen.asI64) r pos, if_pos rfl, ?_⟩
    refine page_feeds (fun a => if_pos ⟨rfl, ha⟩) fun events => ?_
    refine .op fun snap => ⟨_, rfl, ?_⟩
    simp [Protocol.Conforms, Feed.read, Feed.respond]
  | recovered snap =>
    refine page_feeds (fun a => if_pos ⟨rfl, ha⟩) fun events => ?_
    simp only [attachedSnapshot, Program.pure_eq, Program.bind_done, Protocol.Conforms, Feed.respond, true_and]
    cases isTerminal snap.state <;> simp

theorem attach_feeds (i : Identity) (old : ExistingExecution) :
    feeding.Conforms (fun rec g => g = rec.feed i.key) (.looked i.key) (attach i old) := by
  intro found
  refine ⟨found.elim (.missed i.key) (.fetched i.key), congrArg some (if_pos rfl), ?_⟩
  cases found with
  | none => rfl
  | some r =>
    intro snap
    by_cases hg : snap.generation = i.handle.generation
    · refine ⟨.known i.key r, ?_, ?_⟩
      · simp [Feed.advance, Feed.read, Identity.key, hg]
      show _ = Attached.feed i.key (if snap.generation = i.handle.generation then _ else _)
      rw [if_pos hg]
      rfl
    · refine ⟨.missed i.key, ?_, ?_⟩
      · simp [Feed.advance, Feed.read, Identity.key, ExecutionGeneration.asI64_inj, hg]
      show _ = Attached.feed i.key (if snap.generation = i.handle.generation then _ else _)
      rw [if_neg hg]
      rfl

theorem resubmitted_feeds (i : Identity) (old : ExistingExecution) : Owes (.looked i.key) (resubmitted i old) := by
  unfold resubmitted
  split
  · exact Owes.plain rfl rfl
  split
  · exact Owes.plain rfl rfl
  split
  · exact Owes.plain rfl rfl
  refine (attach_feeds i old).thence fun rec => ?_
  refine .stay (fun _ => if_neg ?_) fun _ => eventResponse_feeds _ _ (by decide) rec
  cases rec <;> exact Feed.noConfusion

theorem launch_feeds (wire : ExecuteRequest) (i : Identity) : Owes .admitting (launch wire i) := by
  refine .op fun r => ⟨.known i.key r, rfl, ?_⟩
  refine .stay (fun _ => rfl) fun _ => .stay (fun _ => rfl) fun _ => ?_
  refine ((Feed.known_still i.key r).conforms rfl (publish_within ..)).thence fun _ => ?_
  exact .stay (fun _ => rfl) fun _ => .stay (fun _ => rfl) fun _ =>
    eventResponse_feeds _ _ (by decide) (.live r)

theorem reserveExecution_feeds (wire : ExecuteRequest) (i : Identity) (exp : Int) :
    Owes (.absent i.key) (reserveExecution wire i exp) := by
  have hr : ∀ {g resp}, Feed.Still g → g.plain = true → resp.isStream = false →
      Owes g (do retire wire.workspaceId; pure resp) := by
    intro g resp hg hp hresponse
    refine (hg.conforms rfl (retire_within _)).thence fun _ => ?_
    exact Owes.plain hp hresponse
  have ha := Feed.absent_still i.key
  refine .op fun a => ?_
  rcases a with e | res
  · exact ⟨.absent i.key, if_pos rfl, hr ha rfl rfl⟩
  cases res with
  | created => exact ⟨.admitting, if_pos rfl, .stay (fun _ => rfl) fun _ => launch_feeds wire i⟩
  | existing snap =>
    refine ⟨.missed i.key, if_pos rfl, .stay (fun _ => rfl) fun _ => ?_⟩
    have hrest : Owes (.missed i.key) (do
        sync .unlockExecutions
        eventResponse i.handle.executionId i.handle.generation 0 (.recovered snap)) :=
      .stay (fun _ => rfl) fun _ => eventResponse_feeds _ _ (by decide) (.recovered snap)
    split
    · refine ((Feed.missed_still i.key).conforms rfl (retire_within _)).thence fun _ => ?_
      exact hrest
    · exact hrest
  | conflict | staleGeneration => exact ⟨.absent i.key, if_pos rfl, hr ha rfl rfl⟩
  | storageFull =>
    refine ⟨.absent i.key, if_pos rfl, .stay (fun _ => rfl) fun _ => ?_⟩
    exact hr ha rfl rfl

theorem admitNew_feeds (wire : ExecuteRequest) (i : Identity) (exp : Int) :
    Owes (.absent i.key) (admitNew wire i exp) := by
  have ha := Feed.absent_still i.key
  refine (ha.conforms rfl isDraining_within).thence fun draining => ?_
  split
  · exact refuse_owes rfl _ _ _ _
  refine .stay (fun _ => rfl) fun permit => ?_
  split
  · exact refuse_owes rfl _ _ _ _
  refine (ha.conforms rfl evict_within).thence fun _ => ?_
  refine .stay (fun _ => rfl) fun len => ?_
  split
  · exact refuse_owes rfl _ _ _ _
  refine (ha.conforms rfl (activate_within _)).thence fun active => ?_
  split
  · exact .stay (fun _ => rfl) fun _ => .stay (fun _ => rfl) fun _ => refuse_owes rfl _ _ _ _
  · exact reserveExecution_feeds wire i exp

theorem identify_feeds (cfg : NodeConfig) (wire : ExecuteRequest) (i : Identity) :
    Owes .blank (identify cfg wire i) := by
  refine .stay (fun _ => rfl) fun now => .stay (fun _ => rfl) fun _ => .op fun a => ⟨_, rfl, ?_⟩
  rcases a with e | _ | old
  · exact Owes.plain rfl rfl
  · exact admitNew_feeds wire i _
  · exact resubmitted_feeds i old

theorem execute_feeds (cfg : NodeConfig) (principal : PrincipalId) (wire : ExecuteRequest) :
    Owes .blank (execute cfg principal (.parsed wire)) :=
  execute_rule (Feed.blank_still.indifferent rfl rfl) principal fun i _ => identify_feeds cfg wire i

theorem eventsRoute_feeds (cfg : NodeConfig) (id : ExecutionId) (principal : PrincipalId) (query : EventsQuery) :
    Owes .blank (eventsRoute cfg id principal query) := by
  have hr : ∀ gen after, after < 2 ^ 63 →
      Owes (.missed (id, gen.asI64)) (eventsRoute.recovered id gen after) := by
    intro gen after ha
    refine .stay (fun _ => rfl) fun found => ?_
    split
    · exact Owes.plain rfl rfl
    · exact Owes.plain rfl rfl
    · exact eventResponse_feeds _ _ ha (.recovered _)
  unfold eventsRoute
  split
  · exact Owes.plain rfl rfl
  · exact Owes.plain rfl rfl
  rename_i gen _
  split
  · exact Owes.plain rfl rfl
  · exact Owes.plain rfl rfl
  rename_i after _
  split
  · exact Owes.plain rfl rfl
  rename_i hc
  have ha : after.toNat < 2 ^ 63 := by
    rw [i64Max] at hc
    omega
  split
  · exact Owes.plain rfl rfl
  · exact Owes.plain rfl rfl
  refine .op fun a => ⟨_, rfl, ?_⟩
  rcases a with e | _ | old
  · exact Owes.plain rfl rfl
  · exact Owes.plain rfl rfl
  dsimp only
  split
  · exact Owes.plain rfl rfl
  refine .stay (fun _ => rfl) fun _ => .op fun found => ⟨_, congrArg some (if_pos rfl), ?_⟩
  cases found with
  | none => exact .stay (fun _ => rfl) fun _ => hr _ _ ha
  | some r =>
    refine .stay (fun _ => rfl) fun _ => .op fun snap => ?_
    by_cases hg : snap.generation = gen
    · refine ⟨.known (id, gen.asI64) r, ?_, ?_⟩
      · simp [Feed.advance, Feed.read, hg]
      · rw [if_pos hg]
        exact eventResponse_feeds _ _ ha (.live r)
    · refine ⟨.missed (id, gen.asI64), ?_, ?_⟩
      · simp [Feed.advance, Feed.read, ExecutionGeneration.asI64_inj, hg]
      · rw [if_neg hg]
        exact hr _ _ ha

/-- Until it subscribes, loads or reserves, a request does as it likes. -/
theorem Feed.early_advance (hare : areas.any (fun a => a.feeds && a != .identity) = false) (g : Feed) (o : Op)
    (ans : o.Answer) (hg : g.early = true) (ho : o.within areas = true) :
    ∃ g', g.advance o ans = some g' ∧ g'.early = true := by
  have harea := Op.area_of_within hare ho
  have ha : g ≠ .gone := by
    rintro rfl
    cases hg
  cases o <;> first
    | exact ⟨g, if_neg ha, hg⟩
    | (cases harea; done)
    | skip
  case lookup id gen =>
    refine ⟨_, if_neg ha, ?_⟩
    unfold Feed.look
    split <;> first
      | rfl
      | exact hg
  case executionsGet id =>
    refine ⟨_, if_neg ha, ?_⟩
    unfold Feed.fetch
    split
    · split
      · cases ans <;> rfl
      · rfl
    · exact hg
  case readSnapshot r =>
    refine ⟨_, if_neg ha, ?_⟩
    unfold Feed.read
    split
    · split
      · split <;> rfl
      · rfl
    · cases hg
    · exact hg

theorem Feed.plain_of_early {g : Feed} (h : g.early = true) : g.plain = true := by
  cases g <;> first
    | rfl
    | cases h

/-- A handler that answers with something else than a stream, whatever it has read. -/
def Early (handler : Async Response) : Prop := ∀ g : Feed, g.early = true → Owes g handler

theorem Early.plain (h : resp.isStream = false) : Early (pure resp) :=
  fun _ hg => Owes.plain (Feed.plain_of_early hg) h

theorem early_indifferent : Indifferent Area.ofControl Early where
  refused hresponse := .plain (Response.isStream_of_isError hresponse)
  op ho hf g hg answer := by
    obtain ⟨g', hm, hg'⟩ := Feed.early_advance rfl g _ answer hg ho
    exact ⟨g', hm, hf answer g' hg'⟩

/-! ### Tasks -/

theorem request_feeds {cfg : NodeConfig} {req : Request} {task : Task} (h : req.task cfg = some task) :
    feeding.Conforms (fun _ => Feed.final) .blank task.program := by
  unfold Request.task at h
  split at h
  · cases h
    exact serve_feeds (execute_feeds ..)
  · cases h
    exact serve_feeds (control_answers early_indifferent (fun _ _ => .plain rfl) _ _ _ _ .blank rfl)
  · obtain ⟨named, _, he⟩ := map_eq_some_iff.mp h
    cases he
    exact serve_feeds (eventsRoute_feeds ..)
  · cases h

theorem deliver_feeds {ev : ExecutionEvent} (hk : stream.key = c.key) (hrecv : stream.receiver = c.receiver)
    (hlast : stream.lastSequence = c.last) (he : stream.ended = c.ended) (hopen : c.ended = false)
    (hp : unseen stream.lastSequence (ev :: stream.replay) = c.pending) :
    feeding.Conforms (fun _ => Feed.final) (.streaming c) (deliver stream ev) := by
  unfold deliver
  by_cases hseen : ev.sequence ≤ stream.lastSequence
  · rw [if_pos hseen]
    rw [unseen, newer_cons_of_le hseen] at hp
    exact ⟨hk, hrecv, hp, hlast, he⟩
  rw [if_neg hseen]
  rw [unseen, newer_cons_of_lt (Nat.lt_of_not_le hseen)] at hp
  refine .op fun _ => ⟨.streaming (c.next ev stream.replay), ?_, hk, hrecv, rfl, rfl, rfl⟩
  show (c.deliver ev).map Feed.streaming = _
  rw [Course.deliver, ← hp]
  dsimp only
  rw [if_pos ⟨rfl, hopen⟩]
  rfl

theorem nextEvent_feeds (h : c.Runs stream) :
    feeding.Conforms (fun _ => Feed.final) (.streaming c) (nextEvent stream) := by
  unfold nextEvent
  split
  · rename_i he
    exact .inl (h.ended ▸ he)
  rename_i hopen
  rw [h.ended, Bool.not_eq_true] at hopen
  split
  · rename_i event replay hr
    exact deliver_feeds h.key h.receiver h.last h.ended hopen (hr ▸ h.pending)
  rename_i hr
  have hp : c.pending = [] := by
    rw [← h.pending, hr]
    rfl
  split
  · rename_i hrecv
    exact .inr ⟨hp, h.receiver ▸ hrecv⟩
  rename_i r pos hrecv
  have hg : c.ended = false ∧ c.pending = [] ∧ c.receiver = some (r, pos) :=
    ⟨hopen, hp, h.receiver ▸ hrecv⟩
  refine .op fun received => ?_
  cases received with
  | event event next =>
    refine ⟨_, if_pos hg, deliver_feeds h.key rfl h.last h.ended hopen ?_⟩
    show unseen stream.lastSequence (event :: stream.replay) = unseen c.last [event]
    rw [h.last, hr]
  | lagged => exact ⟨_, if_pos hg, .op fun _ => ⟨.lagged c, rfl, rfl⟩⟩
  | closed => exact ⟨_, if_pos hg, trivial⟩

theorem body_feeds {l : Loop} {g : Feed} (h : feeding.enter l g) : feeding.Conforms (fun _ => Feed.final) g (body l) := by
  have hb : ∀ {areas : List Area} {enters : Loop → Prop} {p : Async Unit},
      p.Uses (fun o : Op => o.within areas = true) enters → areas.any Area.feeds = false →
      (∀ l, enters l → Feed.enter l .blank) → feeding.Conforms (fun _ => Feed.final) .blank p := by
    intro areas enters p hp ha hentry
    exact (Protocol.Conforms.of_uses (fun (o : Op) ho answer => Feed.blank_still.advance ha ho answer) hentry hp).mono
      fun _ g hg => hg ▸ trivial
  have hruns : ∀ {l r}, Loop.record? l = some r → feeding.Conforms (fun _ => Feed.final) .blank (body l) := by
    intro l r hl
    refine hb (run_loops hl) rfl fun l' hl' => ?_
    cases l' <;> first
      | rfl
      | cases hl'
  cases l with
  | monitorLease r =>
    obtain rfl : g = .blank := h
    exact hb (monitorLease_within r) rfl fun l hl => hl ▸ rfl
  | runExecution req =>
    obtain rfl : g = .blank := h
    exact hruns (l := .runExecution req) rfl
  | drain run =>
    obtain rfl : g = .blank := h
    exact hruns (l := .drain run) rfl
  | flush run =>
    obtain rfl : g = .blank := h
    exact hruns (l := .flush run) rfl
  | events stream =>
    cases g with
    | streaming c => exact nextEvent_feeds h
    | lagged c =>
      have he : stream.ended = true := h
      show feeding.Conforms _ _ (nextEvent stream)
      rw [nextEvent, if_pos he]
      trivial
    | _ => exact h.elim

/-! ### What an operation can do -/

inductive Feed.Moves (g : Feed) : (o : Op) → o.Answer → Feed → Prop
  | keeps {o : Op} {answer : o.Answer} (hshows : ∀ face, o.shows face = face) : Moves g o answer g
  | finds {id : ExecutionId} {generation : ExecutionGeneration} {existing : ExistingExecution} (hblank : g = .blank) :
      Moves g (.lookup id generation) (.ok (some existing)) (.looked (id, generation.asI64))
  | lacks {id : ExecutionId} {generation : ExecutionGeneration} (hblank : g = .blank) :
      Moves g (.lookup id generation) (.ok none) (.absent (id, generation.asI64))
  | fetches {key : RowKey} {r : RecordId} (hlooked : g = .looked key) :
      Moves g (.executionsGet key.1) (some r) (.fetched key r)
  | unmapped {key : RowKey} (hlooked : g = .looked key) : Moves g (.executionsGet key.1) none (.missed key)
  | recognizes {key : RowKey} {r : RecordId} {snapshot : ExecutionSnapshot} (hfetched : g = .fetched key r)
      (hgeneration : snapshot.generation.asI64 = key.2) : Moves g (.readSnapshot r) snapshot (.known key r)
  | mistakes {key : RowKey} {r : RecordId} {snapshot : ExecutionSnapshot} (hfetched : g = .fetched key r)
      (hgeneration : snapshot.generation.asI64 ≠ key.2) : Moves g (.readSnapshot r) snapshot (.missed key)
  | judges {page : Page} {r : RecordId} {snapshot : ExecutionSnapshot} (hpaged : g = .paged page)
      (hreceiver : page.receiver.map Prod.fst = some r) :
      Moves g (.readSnapshot r) snapshot (.judged page (isTerminal snapshot.state))
  | creates {snapshot : ExecutionSnapshot} {version : UInt16} {digest principal hash : String} {expires : Int}
      (habsent : g = .absent (rowKey snapshot)) :
      Moves g (.reserve snapshot version digest principal hash expires) (.ok .created) .admitting
  | meets {snapshot existing : ExecutionSnapshot} {version : UInt16} {digest principal hash : String} {expires : Int}
      (habsent : g = .absent (rowKey snapshot)) :
      Moves g (.reserve snapshot version digest principal hash expires) (.ok (.existing existing))
        (.missed (rowKey snapshot))
  | records {snapshot : ExecutionSnapshot} {hash : String} {r : RecordId} (hadmitting : g = .admitting) :
      Moves g (.newRecord snapshot hash) r (.known (rowKey snapshot) r)
  | subscribes {key : RowKey} {r : RecordId} {position : Nat} (hknown : g = .known key r) :
      Moves g (.subscribe r) position (.subscribed key r position)
  | turns {id : ExecutionId} {generation : ExecutionGeneration} {after : Nat}
      {answer : Except StoreError (Option EventPage)} (hshown : ∀ face, g.fits face → face.response = none) :
      Moves g (.loadPage id generation after) answer .answered
  | loads {id : ExecutionId} {generation : ExecutionGeneration} {after : Nat} {page : EventPage}
      {receiver : Option (RecordId × Nat)} (hafter : after < 2 ^ 63)
      (hplace : (g = .missed (id, generation.asI64) ∧ receiver = none) ∨
        ∃ r position, g = .subscribed (id, generation.asI64) r position ∧ receiver = some (r, position))
      (hbase : page.baseSequence ≤ ExecutionStore.saturatingAdd after 1) (hnext : after < page.nextSequence) :
      Moves g (.loadPage id generation after) (.ok (some page))
        (.paged ⟨(id, generation.asI64), receiver, after, page.events⟩)
  | answers {page : Page} {terminal : Bool}
      (hplace : g = .judged page terminal ∨ (g = .paged page ∧ page.receiver = none)) :
      Moves g (.respond (.events (eventStreamResponse page.key page.after page.events page.receiver terminal))) ()
        (.streaming (Course.start (eventStreamResponse page.key page.after page.events page.receiver terminal)))
  | replies {response : Response} (hplain : g.plain = true) (hresponse : ∀ stream, response ≠ .events stream) :
      Moves g (.respond response) () .answered
  | hears {c : Course} {r : RecordId} {position next : Nat} {event : ExecutionEvent} (hstreaming : g = .streaming c)
      (hopen : c.ended = false) (hpending : c.pending = []) (hreceiver : c.receiver = some (r, position)) :
      Moves g (.recv r position) (.event event next) (.streaming (c.hear r event next))
  | lags {c : Course} {r : RecordId} {position : Nat} (hstreaming : g = .streaming c) :
      Moves g (.recv r position) .lagged (.lagging c)
  | closes {c : Course} {r : RecordId} {position : Nat} (hstreaming : g = .streaming c) (hopen : c.ended = false)
      (hpending : c.pending = []) (hreceiver : c.receiver = some (r, position)) :
      Moves g (.recv r position) .closed (.closed c)
  | delivers {c : Course} {event : ExecutionEvent} {rest : List ExecutionEvent} (hstreaming : g = .streaming c)
      (hopen : c.ended = false) (hpending : c.pending = event :: rest) :
      Moves g (.yield (.event event)) () (.streaming (c.next event rest))
  | reports {c : Course} (hlagging : g = .lagging c) : Moves g (.yield .lagged) () (.lagged c)

variable {g g' : Feed}

theorem Feed.load_moves {id : ExecutionId} {generation : ExecutionGeneration}
    {answer : Except StoreError (Option EventPage)} (h : g.load (id, generation.asI64) after answer = some g') :
    g.Moves (.loadPage id generation after) answer g' := by
  -- where the request stands, and where it listens
  have hp : ∃ receiver, ((g = .missed (id, generation.asI64) ∧ receiver = none) ∨
      ∃ r position, g = .subscribed (id, generation.asI64) r position ∧ receiver = some (r, position)) ∧
      after < 2 ^ 63 ∧ g' = Feed.turn (id, generation.asI64) receiver after answer := by
    unfold Feed.load at h
    split at h
    · rename_i key r position
      split at h <;> cases h
      rename_i hg
      obtain ⟨rfl, ha⟩ := hg
      exact ⟨_, .inr ⟨r, position, rfl, rfl⟩, ha, rfl⟩
    · split at h <;> cases h
      rename_i hg
      obtain ⟨rfl, ha⟩ := hg
      exact ⟨_, .inl ⟨rfl, rfl⟩, ha, rfl⟩
    · cases h
  obtain ⟨receiver, hp, ha, rfl⟩ := hp
  have hs : ∀ face, g.fits face → face.response = none := by
    rintro face hfits
    rcases hp with ⟨rfl, _⟩ | ⟨r, position, rfl, _⟩
    · exact hfits.1
    · exact hfits.1
  unfold Feed.turn
  split
  · rename_i page
    split
    · exact .turns hs
    rename_i hgood
    rw [not_or, Nat.not_lt, Nat.not_le] at hgood
    exact .loads ha hp hgood.1 hgood.2
  · exact .turns hs

theorem Feed.respond_moves (h : g.respond resp = some g') : g.Moves (.respond resp) () g' := by
  cases resp with
  | events stream =>
    simp only [Feed.respond] at h
    split at h
    · split at h <;> cases h
      rename_i page terminal hs
      subst hs
      exact .answers (.inl rfl)
    · split at h <;> cases h
      rename_i page hs
      obtain ⟨key, receiver, after, events⟩ := page
      obtain ⟨hrecv, hs⟩ := hs
      obtain rfl : receiver = none := hrecv
      rcases hs with rfl | rfl
      · exact .answers (.inr ⟨rfl, rfl⟩)
      · exact .answers (.inr ⟨rfl, rfl⟩)
    · cases h
  | _ =>
    obtain ⟨hp, ⟨⟩⟩ := ite_none_right_eq_some.mp h
    exact .replies hp fun _ => Response.noConfusion

theorem Feed.advance_moves (h : g.advance o a = some g') : g.Moves o a g' := by
  have hkeeps : (if g = .gone then none else some g) = some g' → (∀ face, o.shows face = face) → g.Moves o a g' := by
    intro h hs
    split at h <;> cases h
    exact .keeps hs
  cases o <;> first
    | exact hkeeps h fun _ => rfl
    | skip
  case lookup id generation =>
    simp only [Feed.advance] at h
    split at h <;> cases h
    unfold Feed.look
    split
    · exact .finds rfl
    · exact .lacks rfl
    · exact .keeps fun _ => rfl
  case executionsGet id =>
    simp only [Feed.advance] at h
    split at h <;> cases h
    unfold Feed.fetch
    split
    · split
      · rename_i key hid
        subst hid
        cases a with
        | none => exact .unmapped rfl
        | some r => exact .fetches rfl
      · exact .keeps fun _ => rfl
    · exact .keeps fun _ => rfl
  case readSnapshot r =>
    simp only [Feed.advance] at h
    split at h <;> cases h
    unfold Feed.read
    split
    · split
      · rename_i hr
        subst hr
        split
        · rename_i hgeneration
          exact .recognizes rfl hgeneration
        · rename_i hgeneration
          exact .mistakes rfl hgeneration
      · exact .keeps fun _ => rfl
    · split
      · rename_i hrecv
        exact .judges rfl hrecv
      · exact .keeps fun _ => rfl
    · exact .keeps fun _ => rfl
  case reserve snapshot version digest principal hash expires =>
    simp only [Feed.advance, Feed.reserve] at h
    split at h
    · split at h
      · rename_i hk
        subst hk
        split at h <;> cases h
        · exact .creates rfl
        · exact .meets rfl
        · exact .keeps fun _ => rfl
      · cases h
    · cases h
  case newRecord snapshot hash =>
    obtain ⟨ha, ⟨⟩⟩ := ite_none_right_eq_some.mp h
    exact .records ha
  case subscribe r =>
    simp only [Feed.advance, Feed.subscribe] at h
    split at h
    · split at h <;> cases h
      rename_i hr
      subst hr
      exact .subscribes rfl
    · cases h
  case loadPage id generation after => exact Feed.load_moves h
  case respond resp => exact Feed.respond_moves h
  case recv r position =>
    simp only [Feed.advance, Feed.receive] at h
    split at h
    · split at h
      · rename_i c hg
        obtain ⟨hopen, hp, hrecv⟩ := hg
        split at h <;> cases h
        · exact .hears rfl hopen hp hrecv
        · exact .lags rfl
        · exact .closes rfl hopen hp hrecv
      · cases h
    · cases h
  case yield item =>
    cases item with
    | event event =>
      simp only [Feed.advance, Feed.yield] at h
      split at h
      · rename_i c
        obtain ⟨c', hd, rfl⟩ := map_eq_some_iff.mp h
        unfold Course.deliver at hd
        split at hd
        · split at hd <;> cases hd
          rename_i first rest hp hg
          obtain ⟨rfl, hopen⟩ := hg
          exact .delivers rfl hopen hp
        · cases hd
      · cases h
    | lagged =>
      simp only [Feed.advance, Feed.yield] at h
      split at h <;> cases h
      exact .reports rfl

/-- What is seen of a task goes with its local state. -/
theorem Feed.fits_moves {face : Face} (hfits : g.fits face) (h : g.Moves o a g') : g'.fits (o.shows face) := by
  cases h with
  | keeps hshown => exact (hshown face).symm ▸ hfits
  | finds hp | lacks hp | fetches hp | unmapped hp | recognizes hp | mistakes hp | judges hp
  | creates hp | meets hp | records hp | subscribes hp | lags hp =>
    subst hp
    exact hfits
  | turns hshow =>
    intro stream
    rw [show (Op.shows (.loadPage _ _ _) face).response = face.response from rfl, hshow face hfits]
    exact (some_ne_none _).symm
  | loads _ hp =>
    rcases hp with ⟨rfl, _⟩ | ⟨_, _, rfl, _⟩ <;> exact hfits
  | @answers page terminal hp =>
    have hout : face.output = [] := by
      rcases hp with rfl | ⟨rfl, _⟩ <;> exact hfits.2
    exact ⟨_, rfl, rfl, rfl, hout⟩
  | replies _ hresponse =>
    intro stream he
    exact hresponse stream (Option.some.inj he)
  | hears hs | closes hs =>
    subst hs
    exact hfits
  | delivers hs =>
    subst hs
    obtain ⟨stream, hresponse, hkey, ha, hout⟩ := hfits
    refine ⟨stream, hresponse, hkey, ha, ?_⟩
    show face.output ++ [_] = _
    rw [hout, Course.next, List.map_append]
    rfl
  | reports hl =>
    subst hl
    obtain ⟨stream, hresponse, hkey, ha, hout⟩ := hfits
    exact ⟨stream, hresponse, hkey, ha, congrArg (· ++ [StreamItem.lagged]) hout⟩

/-- All tasks of the node keep to the protocol of an event stream. -/
def feedDiscipline : Discipline Feed where
  protocol := feeding
  idle := .gone
  birth _ := .blank
  final := Feed.final
  final_idle := trivial
  requests := request_feeds
  loops := body_feeds
  spawns := by
    intro o origin l h
    rcases spawns_cases h with ⟨r, rfl, rfl⟩ | ⟨request, rfl, rfl⟩ <;> rfl
  fits := Feed.fits
  fits_idle _ := trivial
  fits_birth _ := ⟨rfl, rfl⟩
  fits_advance hfits hmove := Feed.fits_moves hfits (Feed.advance_moves hmove)

end Eggwork.Server
