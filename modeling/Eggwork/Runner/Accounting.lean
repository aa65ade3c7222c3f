import Eggwork.Lib.Transition
import Eggwork.Runner.Capture
import Eggwork.Runner.Drain
import Mathlib.Algebra.Order.BigOperators.Group.List
import Mathlib.Algebra.Order.Group.Nat

/-! What becomes of the bytes a run prints.

Two readers take their streams apart and offer each piece to one bounded channel;
what it refuses is counted as dropped. The publisher takes pieces out of the
channel and journals them, until the runner has handed in its result and the
channel is closed and empty. On the way a piece is published, being published,
queued, or dropped, never two of these (`Ledger`), so the journal and the count of
dropped bytes add up to what was read. -/
namespace Eggwork.Runner
open Lib List Option

variable {stderr : Bool} {pipe : Pipe} {bytes : List UInt8}

def readBuffer : Nat := 8192

/-- The limits of a request: its capture limit and its event chunk size. -/
structure Limits where
  capture : Nat
  chunk : Nat

/-! ### Readers -/

/-- `slice::chunks`; there are not more of them than bytes. -/
def chunksOf (limit : Nat) (bytes : List UInt8) : List (List UInt8) := go bytes.length bytes
where
  go : Nat → List UInt8 → List (List UInt8)
    | 0, _ => []
    | n + 1, bytes => if bytes.isEmpty then [] else bytes.take limit :: go n (bytes.drop limit)

/-- A reader's locals: the chunks of the last read it has still to offer, and whether it has seen the end.
`received` keeps all chunks there were. -/
structure Reader where
  capture : BoundedCapture
  dropped : Nat
  unsent : List (List UInt8)
  ended : Bool
  received : List (List UInt8)

variable {r : Reader}

namespace Reader

def start : Reader := ⟨.empty, 0, [], false, []⟩

/-- A read that returns bytes; the buffer is not longer than a chunk. -/
def read (limits : Limits) (r : Reader) (bytes : List UInt8) : Option Reader :=
  if r.ended = false ∧ r.unsent = [] ∧ bytes ≠ [] ∧ bytes.length ≤ min readBuffer limits.chunk then
    some { r with
      capture := r.capture.push bytes limits.capture
      unsent := chunksOf limits.chunk bytes
      received := r.received ++ chunksOf limits.chunk bytes }
  else none

/-- `try_send` of the next chunk. -/
def offer (stderr : Bool) (r : Reader) (pipe : Pipe) : Option (Reader × Pipe) :=
  match r.unsent with
  | [] => none
  | bytes :: rest =>
    if pipe.queue.length < runnerChannelCapacity then
      some ({ r with unsent := rest }, pipe.send ⟨stderr, bytes⟩)
    else some ({ r with unsent := rest, dropped := r.dropped + bytes.length }, pipe)

/-- A read that returns nothing. -/
def finish (r : Reader) : Option Reader :=
  if r.ended = false ∧ r.unsent = [] then some { r with ended := true } else none

end Reader

/-! ### The publisher -/

inductive PublisherPhase where
  | drain | flush | finished
deriving DecidableEq, Repr

structure Publisher where
  phase : PublisherPhase
  drain : Drain
  /-- What is being committed. -/
  output : Option OutputChunk
deriving DecidableEq, Repr

/-- One poll, when nothing is being committed. -/
def Publisher.poll (p : Publisher) (pipe : Pipe) : Option (Publisher × Pipe) :=
  match p.phase with
  | .drain =>
    match pipe.select p.drain.outputClosed p.drain.pending with
    | some (.output chunk, pipe) => some ({ p with output := some chunk }, pipe)
    | some (.closed, pipe) =>
      let drain := p.drain.close
      some ({ p with drain, phase := if drain.result.isSome then .flush else .drain }, pipe)
    | some (.joined how, pipe) =>
      some ({ p with drain := p.drain.join how, phase := if pipe.drained then .flush else .drain }, pipe)
    | some (.disabled, _) | none => none
  | .flush =>
    match pipe.tryRecv with
    | (some chunk, pipe) => some ({ p with output := some chunk }, pipe)
    | (none, pipe) => some ({ p with phase := .finished }, pipe)
  | .finished => none

variable {publisher : Publisher}

/-! ### A run that returns a result -/

structure Flow where
  stdout : Reader
  stderr : Reader
  pipe : Pipe
  publisher : Publisher
  /-- The events journaled, in sequence order. -/
  published : List ExecutionEventKind

def Flow.start : Flow := ⟨.start, .start, .channel, ⟨.drain, .start, none⟩, []⟩

def Flow.reader (flow : Flow) (stderr : Bool) : Reader := if stderr then flow.stderr else flow.stdout

def Flow.setReader (flow : Flow) (stderr : Bool) (r : Reader) : Flow :=
  if stderr then { flow with stderr := r } else { flow with stdout := r }

inductive FlowMove where
  | read (stderr : Bool) (bytes : List UInt8)
  | offer (stderr : Bool)
  | finish (stderr : Bool)
  /-- The runner returns; what its result says beyond the streams is arbitrary. -/
  | join (rest : RunnerResult)
  | publish

/-- The result made of the two readers. -/
def Flow.result (flow : Flow) (rest : RunnerResult) : RunnerResult :=
  { rest with
    stdoutBytes := flow.stdout.capture.totalBytes
    stderrBytes := flow.stderr.capture.totalBytes
    stdoutOmitted := flow.stdout.capture.omittedBytes
    stderrOmitted := flow.stderr.capture.omittedBytes
    streamChunksDropped := flow.stdout.dropped + flow.stderr.dropped }

/-- The senders are the readers', so the channel closes with the second of them. -/
def Flow.closePipe (flow : Flow) : Flow :=
  { flow with pipe := { flow.pipe with closed := flow.stdout.ended && flow.stderr.ended } }

/-- Every commit succeeds: what is being committed is journaled next. -/
def Flow.step (limits : Limits) (flow : Flow) : FlowMove → Option Flow
  | .read stderr bytes => ((flow.reader stderr).read limits bytes).map (flow.setReader stderr)
  | .offer stderr =>
    ((flow.reader stderr).offer stderr flow.pipe).map fun (r, pipe) => { flow.setReader stderr r with pipe }
  | .finish stderr => ((flow.reader stderr).finish).map fun r => (flow.setReader stderr r).closePipe
  | .join rest =>
    if flow.stdout.ended && flow.stderr.ended && flow.pipe.joined.isNone then
      some { flow with pipe := { flow.pipe with joined := some (.ok (flow.result rest)) } }
    else none
  | .publish =>
    match flow.publisher.output with
    | some chunk =>
      some { flow with publisher := { flow.publisher with output := none }, published := flow.published ++ [chunk.kind] }
    | none => (flow.publisher.poll flow.pipe).map fun (publisher, pipe) => { flow with publisher, pipe }

/-! ### Payloads -/

def payloads (stderr : Bool) (events : List ExecutionEventKind) : List (List UInt8) :=
  events.filterMap fun
    | .stdout bytes => if stderr then none else some bytes
    | .stderr bytes => if stderr then some bytes else none
    | _ => none

/-- The bytes of all output events. -/
def payload (events : List ExecutionEventKind) : Nat :=
  (payloads false events).flatten.length + (payloads true events).flatten.length

theorem payloads_append (stderr : Bool) (a b : List ExecutionEventKind) :
    payloads stderr (a ++ b) = payloads stderr a ++ payloads stderr b :=
  filterMap_append

theorem payloads_kind (stderr : Bool) (chunk : OutputChunk) :
    payloads stderr [chunk.kind] = if chunk.stderr = stderr then [chunk.bytes] else [] := by
  obtain ⟨s, bytes⟩ := chunk
  cases s <;> cases stderr <;> rfl

theorem chunksOf_eq {limit : Nat} (hne : bytes ≠ []) (hle : bytes.length ≤ limit) : chunksOf limit bytes = [bytes] := by
  cases bytes with
  | nil => exact absurd rfl hne
  | cons byte rest =>
    have hn : ∀ n, chunksOf.go limit n [] = [] := fun n => by cases n <;> rfl
    simp only [chunksOf, length_cons, chunksOf.go, isEmpty_cons, take_of_length_le hle, drop_of_length_le hle, hn]
    rfl

/-! ### The ledger -/

/-- A reader's chunks, against the events of its stream on their way to the journal or in it: those offered are on
their way in their order, or their bytes counted as dropped. -/
structure Ledger (limits : Limits) (stderr : Bool) (r : Reader) (events : List ExecutionEventKind) : Prop where
  offered : ∃ sent, r.received = sent ++ r.unsent ∧ (payloads stderr events).Sublist sent ∧
    (payloads stderr events).flatten.length + r.dropped = sent.flatten.length
  nonempty : ∀ bytes ∈ r.received, bytes ≠ []
  captured : r.capture = BoundedCapture.reads .push r.received limits.capture
  ended : r.ended = true → r.unsent = []

section
variable {limits : Limits} {stderr : Bool} {r r' : Reader} {events : List ExecutionEventKind} {pipe pipe' : Pipe}

theorem Ledger.start : Ledger limits stderr .start [] :=
  ⟨⟨[], rfl, .slnil, rfl⟩, by rintro _ ⟨⟩, rfl, fun _ => rfl⟩

theorem Ledger.read (h : Ledger limits stderr r events) (hread : r.read limits bytes = some r') :
    Ledger limits stderr r' events := by
  obtain ⟨⟨hopen, hu, hne, hle⟩, hread⟩ := ite_none_right_eq_some.mp hread
  obtain ⟨sent, hr, hs, hsum⟩ := h.offered
  rw [chunksOf_eq hne (hle.trans (Nat.min_le_right ..))] at hread
  cases hread
  refine ⟨⟨sent, ?_, hs, hsum⟩, ?_, ?_, fun he => ?_⟩
  · rw [hr, hu, append_nil]
  · intro chunk hc
    rcases mem_append.mp hc with hold | hnew
    · exact h.nonempty chunk hold
    · exact mem_singleton.mp hnew ▸ hne
  · simp only [h.captured, BoundedCapture.reads, foldl_append, foldl_cons, foldl_nil]
  · rw [hopen] at he
    cases he

theorem Ledger.finish (h : Ledger limits stderr r events) (hf : r.finish = some r') :
    Ledger limits stderr r' events ∧ r'.ended = true := by
  obtain ⟨hcond, ⟨⟩⟩ := ite_none_right_eq_some.mp hf
  exact ⟨⟨h.offered, h.nonempty, h.captured, fun _ => hcond.2⟩, rfl⟩

theorem Ledger.offer (h : Ledger limits stderr r events) (ho : r.offer stderr pipe = some (r', pipe')) :
    ∃ taken, pipe' = { pipe with queue := pipe.queue ++ taken } ∧ (∀ chunk ∈ taken, chunk.stderr = stderr) ∧
      Ledger limits stderr r' (events ++ taken.map OutputChunk.kind) := by
  obtain ⟨sent, hr, hs, hsum⟩ := h.offered
  unfold Reader.offer at ho
  split at ho
  · cases ho
  rename_i bytes rest hu
  have hend : r.ended = true → rest = [] := by
    intro he
    rw [h.ended he] at hu
    cases hu
  have hsplit : r.received = (sent ++ [bytes]) ++ rest := by rw [hr, hu, append_assoc, singleton_append]
  split at ho
  · rename_i hroom
    cases ho
    refine ⟨[⟨stderr, bytes⟩], ?_, by simp, ⟨sent ++ [bytes], hsplit, ?_, ?_⟩, h.nonempty, h.captured, hend⟩
    · rw [Pipe.send, if_pos hroom]
    · rw [map_singleton, payloads_append, payloads_kind, if_pos rfl]
      exact hs.append (.refl _)
    rw [map_singleton, payloads_append, payloads_kind, if_pos rfl]
    simp only [flatten_append, length_append]
    omega
  · cases ho
    refine ⟨[], by simp, by simp, ⟨sent ++ [bytes], hsplit, ?_, ?_⟩, h.nonempty, h.captured, hend⟩
    · simpa using hs.trans (sublist_append_left ..)
    · simp only [map_nil, append_nil, flatten_append, length_append, flatten_cons, flatten_nil]
      omega

theorem Ledger.skip (h : Ledger limits stderr r events) {taken : List OutputChunk}
    (ht : ∀ chunk ∈ taken, chunk.stderr ≠ stderr) : Ledger limits stderr r (events ++ taken.map OutputChunk.kind) := by
  have hn : payloads stderr (taken.map OutputChunk.kind) = [] := by
    induction taken with
    | nil => rfl
    | cons chunk rest ih =>
      rw [map_cons, ← singleton_append, payloads_append, payloads_kind, if_neg (ht chunk (.head _)),
        ih fun c hc => ht c (.tail _ hc)]
      rfl
  refine ⟨?_, h.nonempty, h.captured, h.ended⟩
  rw [payloads_append, hn, append_nil]
  exact h.offered

end

/-! ### A whole run -/

/-- The events journaled, the one being committed and those queued. -/
def Flow.transit (flow : Flow) : List ExecutionEventKind :=
  flow.published ++ (flow.publisher.output.toList ++ flow.pipe.queue).map OutputChunk.kind

/-- Both readers have seen the end of their streams. -/
def Flow.ended (flow : Flow) : Bool := flow.stdout.ended && flow.stderr.ended

structure Flow.Sound (limits : Limits) (flow : Flow) : Prop where
  ledger : ∀ stderr, Ledger limits stderr (flow.reader stderr) flow.transit
  joined : ∀ how, flow.pipe.joined = some how → flow.ended = true ∧ ∃ rest, how = .ok (flow.result rest)
  result : ∀ r, flow.publisher.drain.result = some r → flow.pipe.joined = some (.ok r)
  flushing : flow.publisher.phase ≠ .drain → flow.publisher.drain.result.isSome = true
  empty : flow.publisher.phase = .finished → flow.publisher.output = none ∧ flow.pipe.queue = []

namespace Flow
variable {limits : Limits} {flow flow' : Flow}

theorem reader_setReader (flow : Flow) (stderr stderr' : Bool) (r : Reader) :
    (flow.setReader stderr r).reader stderr' = if stderr' = stderr then r else flow.reader stderr' := by
  cases stderr <;> cases stderr' <;> rfl

theorem setReader_pipe (flow : Flow) (stderr : Bool) (r : Reader) : (flow.setReader stderr r).pipe = flow.pipe := by
  cases stderr <;> rfl

theorem setReader_publisher (flow : Flow) (stderr : Bool) (r : Reader) :
    (flow.setReader stderr r).publisher = flow.publisher := by
  cases stderr <;> rfl

theorem setReader_published (flow : Flow) (stderr : Bool) (r : Reader) :
    (flow.setReader stderr r).published = flow.published := by
  cases stderr <;> rfl

theorem Sound.start : Sound limits start :=
  ⟨fun stderr => by cases stderr <;> exact Ledger.start, by rintro _ ⟨⟩, by rintro _ ⟨⟩, fun h => absurd rfl h, by rintro ⟨⟩⟩

theorem Sound.unjoined (h : flow.Sound limits) (hopen : (flow.reader stderr).ended = false) :
    flow.pipe.joined = none := by
  cases hj : flow.pipe.joined with
  | none => rfl
  | some how =>
    have he := (h.joined how hj).1
    simp only [Flow.ended, Bool.and_eq_true] at he
    cases stderr with
    | false => rw [show (flow.reader false).ended = true from he.1] at hopen; cases hopen
    | true => rw [show (flow.reader true).ended = true from he.2] at hopen; cases hopen

theorem Sound.draining (h : flow.Sound limits) (hj : flow.pipe.joined = none) : flow.publisher.phase = .drain := by
  by_contra hphase
  obtain ⟨r, hr⟩ := isSome_iff_exists.mp (h.flushing hphase)
  have := h.result r hr
  rw [hj] at this
  cases this

theorem Sound.reads (h : flow.Sound limits) (hj : flow.pipe.joined = none)
    (hl : ∀ stderr, Ledger limits stderr (flow'.reader stderr) flow'.transit) (hpipe : flow'.pipe.joined = none)
    (hp : flow'.publisher = flow.publisher) : flow'.Sound limits := by
  have hphase := h.draining hj
  refine ⟨hl, ?_, fun r hr => ?_, fun hne => ?_, fun hf => ?_⟩
  · rw [hpipe]
    rintro _ ⟨⟩
  · rw [hp] at hr
    have := h.result r hr
    rw [hj] at this
    cases this
  · rw [hp] at hne
    exact absurd hphase hne
  · rw [hp, hphase] at hf
    cases hf

theorem Sound.read (h : flow.Sound limits) (hread : (flow.reader stderr).read limits bytes = some r) :
    (flow.setReader stderr r).Sound limits := by
  have hopen : (flow.reader stderr).ended = false := by
    obtain ⟨_, hread⟩ := ite_none_right_eq_some.mp hread
    exact (‹_ ∧ _›).1
  have hj := h.unjoined hopen
  refine h.reads hj (fun stderr' => ?_) (by rw [setReader_pipe, hj]) (setReader_publisher ..)
  rw [reader_setReader, transit, setReader_published, setReader_publisher, setReader_pipe, ← transit]
  split
  · rename_i he
    exact he ▸ (h.ledger stderr).read hread
  · exact h.ledger stderr'

theorem Sound.finish (h : flow.Sound limits) (hf : (flow.reader stderr).finish = some r) :
    (flow.setReader stderr r).closePipe.Sound limits := by
  have hopen : (flow.reader stderr).ended = false := by
    obtain ⟨_, hf⟩ := ite_none_right_eq_some.mp hf
    exact (‹_ ∧ _›).1
  have hj := h.unjoined hopen
  have hpipe : (flow.setReader stderr r).closePipe.pipe.joined = none := by
    show (flow.setReader stderr r).pipe.joined = none
    rw [setReader_pipe, hj]
  refine h.reads hj (fun stderr' => ?_) hpipe (setReader_publisher ..)
  have ht : (flow.setReader stderr r).closePipe.transit = flow.transit := by
    simp only [transit, closePipe, setReader_published, setReader_publisher, setReader_pipe]
  have hr : (flow.setReader stderr r).closePipe.reader stderr' = (flow.setReader stderr r).reader stderr' := rfl
  rw [ht, hr, reader_setReader]
  split
  · rename_i he
    exact he ▸ ((h.ledger stderr).finish hf).1
  · exact h.ledger stderr'

theorem Sound.offer (h : flow.Sound limits) (ho : (flow.reader stderr).offer stderr flow.pipe = some (r, pipe)) :
    ({ flow.setReader stderr r with pipe } : Flow).Sound limits := by
  have hopen : (flow.reader stderr).ended = false := by
    refine Bool.eq_false_iff.mpr fun hend => ?_
    rw [Reader.offer, (h.ledger stderr).ended hend] at ho
    cases ho
  have hj := h.unjoined hopen
  obtain ⟨taken, rfl, ht, hl⟩ := (h.ledger stderr).offer ho
  refine h.reads hj (fun stderr' => ?_) hj (setReader_publisher ..)
  have htrace : ({ flow.setReader stderr r with pipe := { flow.pipe with queue := flow.pipe.queue ++ taken } } : Flow).transit =
      flow.transit ++ taken.map OutputChunk.kind := by
    simp only [transit, setReader_published, setReader_publisher, map_append, append_assoc]
  have hr : ({ flow.setReader stderr r with pipe := { flow.pipe with queue := flow.pipe.queue ++ taken } } : Flow).reader
      stderr' = (flow.setReader stderr r).reader stderr' := rfl
  rw [htrace, hr, reader_setReader]
  split
  · rename_i he
    exact he ▸ hl
  · rename_i hne
    exact (h.ledger stderr').skip fun chunk hc he => hne (he.symm.trans (ht chunk hc))

theorem Sound.join (h : flow.Sound limits) (he : flow.ended = true) (hj : flow.pipe.joined = none)
    (rest : RunnerResult) :
    ({ flow with pipe := { flow.pipe with joined := some (.ok (flow.result rest)) } } : Flow).Sound limits := by
  refine ⟨h.ledger, ?_, fun r hr => ?_, h.flushing, h.empty⟩
  · rintro _ ⟨⟩
    exact ⟨he, rest, rfl⟩
  have := h.result r hr
  rw [hj] at this
  cases this

/-- The publisher moves chunks, but none of them out of sight. -/
theorem Sound.moves (h : flow.Sound limits)
    (ht : publisher.output.toList ++ pipe.queue = flow.publisher.output.toList ++ flow.pipe.queue)
    (hj : pipe.joined = flow.pipe.joined)
    (hresult : ∀ r, publisher.drain.result = some r → flow.pipe.joined = some (.ok r))
    (hf : publisher.phase ≠ .drain → publisher.drain.result.isSome = true)
    (hempty : publisher.phase = .finished → publisher.output = none ∧ pipe.queue = []) :
    ({ flow with publisher, pipe } : Flow).Sound limits := by
  have he : ({ flow with publisher, pipe } : Flow).transit = flow.transit := by
    simp only [transit, ht]
  refine ⟨fun stderr => he ▸ h.ledger stderr, fun how hhow => ?_, fun r hr => ?_, hf, hempty⟩
  · exact h.joined how (hj.symm.trans hhow)
  · exact hj.trans (hresult r hr)

/-- A poll of the first loop. -/
theorem Sound.select (h : flow.Sound limits) (hidle : flow.publisher.output = none)
    (hphase : flow.publisher.phase = .drain) (hpoll : flow.publisher.poll flow.pipe = some (publisher, pipe)) :
    ({ flow with publisher, pipe } : Flow).Sound limits := by
  simp only [Publisher.poll, hphase] at hpoll
  split at hpoll
  · -- a chunk is taken out
    rename_i chunk p hs
    rcases Pipe.select_cases hs with ⟨_, he, _, hq, hp⟩ | ⟨_, he, _⟩ | ⟨_, _, he, _⟩ | ⟨_, he, _⟩ <;> cases he
    cases hpoll
    refine h.moves ?_ (by rw [hp]) h.result (fun hne => absurd rfl hne) (by rintro ⟨⟩)
    rw [hidle, hq]
    rfl
  · -- the channel is found closed
    rename_i p hs
    rcases Pipe.select_cases hs with ⟨_, he, _⟩ | ⟨rfl, _⟩ | ⟨_, _, he, _⟩ | ⟨_, he, _⟩
    · cases he
    · cases hpoll
      cases hr : flow.publisher.drain.close.result.isSome with
      | true =>
        refine h.moves rfl rfl h.result (fun _ => hr) fun hf => ?_
        cases hf
      | false => exact h.moves rfl rfl h.result (fun hne => absurd rfl hne) (by rintro ⟨⟩)
    · cases he
    · cases he
  · -- the runner has joined
    rename_i how p hs
    rcases Pipe.select_cases hs with ⟨_, he, _⟩ | ⟨_, he, _⟩ | ⟨rfl, _, he, _, hhow⟩ | ⟨_, he, _⟩
    · cases he
    · cases he
    · cases he
      obtain ⟨_, rest, rfl⟩ := h.joined how hhow
      cases hpoll
      refine h.moves rfl rfl ?_ (fun _ => rfl) fun hf => ?_
      · rintro _ ⟨⟩
        exact hhow
      cases hd : flow.pipe.drained with
      | true =>
        rw [hd] at hf
        cases hf
      | false =>
        rw [hd] at hf
        cases hf
    · cases he
  · cases hpoll
  · cases hpoll

/-- A round of the second loop. -/
theorem Sound.tryRecv (h : flow.Sound limits) (hidle : flow.publisher.output = none)
    (hphase : flow.publisher.phase = .flush) (hpoll : flow.publisher.poll flow.pipe = some (publisher, pipe)) :
    ({ flow with publisher, pipe } : Flow).Sound limits := by
  have hr := h.flushing (by rw [hphase]; decide)
  simp only [Publisher.poll, hphase, Pipe.tryRecv] at hpoll
  cases hq : flow.pipe.queue with
  | nil =>
    rw [hq] at hpoll
    cases hpoll
    exact h.moves rfl rfl h.result (fun _ => hr) fun _ => ⟨hidle, hq⟩
  | cons chunk rest =>
    rw [hq] at hpoll
    cases hpoll
    refine h.moves ?_ rfl h.result (fun _ => hr) (by rintro ⟨⟩)
    rw [hidle, hq]
    rfl

theorem Sound.publish (h : flow.Sound limits) (hstep : flow.step limits .publish = some flow') : flow'.Sound limits := by
  simp only [step] at hstep
  split at hstep
  · rename_i chunk hout
    cases hstep
    refine ⟨fun stderr => ?_, h.joined, h.result, h.flushing, fun hf => ?_⟩
    · have he : ({ flow with publisher := { flow.publisher with output := none }, published := flow.published ++ [chunk.kind] } :
          Flow).transit = flow.transit := by
        simp [transit, hout]
      exact he ▸ h.ledger stderr
    · have := (h.empty hf).1
      rw [hout] at this
      cases this
  · rename_i hidle
    obtain ⟨⟨publisher, pipe⟩, hpoll, rfl⟩ := map_eq_some_iff.mp hstep
    cases hphase : flow.publisher.phase with
    | drain => exact h.select hidle hphase hpoll
    | flush => exact h.tryRecv hidle hphase hpoll
    | finished =>
      simp only [Publisher.poll, hphase] at hpoll
      cases hpoll

theorem Sound.step {move : FlowMove} (h : flow.Sound limits) (hstep : flow.step limits move = some flow') :
    flow'.Sound limits := by
  cases move with
  | read stderr bytes =>
    obtain ⟨r, hread, rfl⟩ := map_eq_some_iff.mp hstep
    exact h.read hread
  | offer stderr =>
    obtain ⟨⟨r, pipe⟩, ho, rfl⟩ := map_eq_some_iff.mp hstep
    exact h.offer ho
  | finish stderr =>
    obtain ⟨r, hf, rfl⟩ := map_eq_some_iff.mp hstep
    exact h.finish hf
  | join rest =>
    obtain ⟨hcond, ⟨⟩⟩ := ite_none_right_eq_some.mp hstep
    rw [Bool.and_eq_true, isNone_iff_eq_none] at hcond
    exact h.join hcond.1 hcond.2 rest
  | publish => exact h.publish hstep

end Flow

/-! ### The sums -/

/-- Once everything offered is journaled, the journal and the count of dropped bytes tell the stream's length. -/
theorem Ledger.sum {limits : Limits} {events : List ExecutionEventKind} (h : Ledger limits stderr r events)
    (he : r.ended = true) : (payloads stderr events).Sublist r.received ∧
      (payloads stderr events).flatten.length + r.dropped = r.received.flatten.length := by
  obtain ⟨sent, hr, hs, hsum⟩ := h.offered
  rw [h.ended he, append_nil] at hr
  exact ⟨hr ▸ hs, hr ▸ hsum⟩

/-- The capture counts what was read. -/
theorem Ledger.totalBytes {limits : Limits} {events : List ExecutionEventKind} (h : Ledger limits stderr r events)
    (hfits : r.received.flatten.length < 2 ^ 64) : r.capture.totalBytes = r.received.flatten.length := by
  rw [h.captured, BoundedCapture.reads_eq BoundedCapture.push_capture hfits]
  rfl

theorem eq_of_sublist_of_length {l l' : List (List UInt8)} (hs : l.Sublist l') (hne : ∀ bytes ∈ l', bytes ≠ [])
    (hlen : l.flatten.length = l'.flatten.length) : l = l' := by
  induction hs with
  | slnil => rfl
  | @cons l l' bytes hs ih =>
    have hpos := length_pos_iff.mpr (hne bytes (.head _))
    have hle : l.flatten.length ≤ l'.flatten.length := by
      rw [length_flatten, length_flatten]
      exact (hs.map List.length).sum_le_sum fun _ _ => Nat.zero_le _
    rw [flatten_cons, length_append] at hlen
    omega
  | @cons_cons l l' bytes hs ih =>
    rw [flatten_cons, flatten_cons, length_append, length_append] at hlen
    rw [ih (fun b hb => hne b (.tail _ hb)) (by omega)]

/-- In whatever order readers, channel and publisher take their turns, once the publisher is through: the runner has
returned a result; what is journaled and what the result counts as dropped add up to the bytes the result tells; the
journal has each stream's chunks in the order they were read, with gaps; and there is a gap exactly if the bytes
journaled fall short. -/
theorem output_accounted {limits : Limits} {flow : Flow} (hrun : Steps (Flow.step limits) Free Flow.start flow)
    (hfinished : flow.publisher.phase = .finished)
    (hfits : ∀ stderr, (flow.reader stderr).received.flatten.length < 2 ^ 64)
    (leaseExpired : Bool) (isolation : IsolationRequirement) (resources : ResourceRequirements) :
    let result := flow.publisher.drain.executionResult leaseExpired isolation resources
    (∃ r, flow.publisher.drain.result = some r ∧
      payload flow.published + r.streamChunksDropped = result.stdoutBytes + result.stderrBytes) ∧
    (∀ stderr, (payloads stderr flow.published).Sublist (flow.reader stderr).received) ∧
    (payload flow.published = result.stdoutBytes + result.stderrBytes ↔
      ∀ stderr, payloads stderr flow.published = (flow.reader stderr).received) := by
  have hsound : flow.Sound limits := hrun.invariant (Flow.Sound limits) (fun _ hstep h => h.step hstep) .start
  obtain ⟨r, hr⟩ := isSome_iff_exists.mp (hsound.flushing (by rw [hfinished]; decide))
  obtain ⟨hended, rest, hrest⟩ := hsound.joined _ (hsound.result r hr)
  obtain rfl : r = flow.result rest := Joined.ok.inj hrest
  have htransit : flow.transit = flow.published := by
    obtain ⟨houtput, hqueue⟩ := hsound.empty hfinished
    simp [Flow.transit, houtput, hqueue]
  rw [Flow.ended, Bool.and_eq_true] at hended
  have hout := htransit ▸ hsound.ledger false
  have herr := htransit ▸ hsound.ledger true
  obtain ⟨hsubOut, hsumOut⟩ := hout.sum hended.1
  obtain ⟨hsubErr, hsumErr⟩ := herr.sum hended.2
  have hbytes : ∀ (result : ExecutionResult), result = flow.publisher.drain.executionResult leaseExpired isolation resources →
      result.stdoutBytes = (flow.reader false).received.flatten.length ∧
      result.stderrBytes = (flow.reader true).received.flatten.length := by
    rintro _ rfl
    rw [← hout.totalBytes (hfits false), ← herr.totalBytes (hfits true), Drain.executionResult, hr]
    cases leaseExpired <;> exact ⟨rfl, rfl⟩
  obtain ⟨hstdout, hstderr⟩ := hbytes _ rfl
  have hdropped : (flow.result rest).streamChunksDropped = (flow.reader false).dropped + (flow.reader true).dropped := rfl
  simp only [hstdout, hstderr, payload]
  refine ⟨⟨_, hr, by omega⟩, fun stderr => ?_, fun hsum stderr => ?_, fun hall => by rw [hall, hall]⟩
  · cases stderr with
    | false => exact hsubOut
    | true => exact hsubErr
  · cases stderr with
    | false => exact eq_of_sublist_of_length hsubOut hout.nonempty (by omega)
    | true => exact eq_of_sublist_of_length hsubErr herr.nonempty (by omega)

namespace Example

def limits : Limits := ⟨4, 8⟩

def rest : RunnerResult :=
  ⟨.exited, some 0, 0, 0, 0, 0, ⟨none, none, none⟩, .notRequested, ⟨.notRequested, .notRequested, .notRequested⟩, [], 0⟩

/-- A read whose chunk is offered at once. -/
def burst (stderr : Bool) (bytes : List UInt8) : List FlowMove := [.read stderr bytes, .offer stderr]

/-- The channel is filled before the publisher gets a turn, and refuses the last chunk. -/
def crowded : List FlowMove :=
  burst true [7, 7] ++ (List.replicate 32 (burst false [1, 2, 3])).flatten ++
    [.finish false, .finish true, .join rest] ++ List.replicate 67 .publish

/-- The run is over, and three bytes are missing. -/
def isThrough (flow : Flow) : Bool :=
  flow.publisher.phase == .finished && flow.publisher.drain.result.any (·.streamChunksDropped == 3) &&
    decide ((flow.reader false).received.flatten.length = 96) && decide ((flow.reader true).received.flatten.length = 2)

end Example

open Example

theorem output_accounted_crowded : ∃ (flow : Flow) (r : RunnerResult), Steps (Flow.step limits) Free Flow.start flow ∧
      flow.publisher.drain.result = some r ∧ r.streamChunksDropped = 3 ∧
      payload flow.published + 3 = r.executionResult.stdoutBytes + r.executionResult.stderrBytes := by
  have hfollow : (follow (Flow.step limits) Free Flow.start crowded).any isThrough = true := by
    decide
  obtain ⟨flow, hrun, hthrough⟩ := follow_reaches hfollow
  simp only [isThrough, Bool.and_eq_true, beq_iff_eq, decide_eq_true_eq] at hthrough
  obtain ⟨⟨⟨hfinished, hdropped⟩, hout⟩, herr⟩ := hthrough
  have hfits : ∀ stderr, (flow.reader stderr).received.flatten.length < 2 ^ 64 := by
    rintro (_ | _)
    · rw [hout]
      decide
    · rw [herr]
      decide
  obtain ⟨⟨r, hr, hsum⟩, _⟩ := output_accounted hrun hfinished hfits false .none
    ⟨.notRequested, .notRequested, .notRequested⟩
  simp only [hr, any_some, beq_iff_eq] at hdropped
  simp only [Drain.executionResult, hr, hdropped] at hsum
  exact ⟨flow, r, hrun, hr, hdropped, hsum⟩

end Eggwork.Runner
