import Eggwork.Store.Encoding
import Mathlib.Data.List.DropRight

/-! Newline-delimited events, from the server's encoder to the client's decoder.

The transport may cut the encoding anywhere. The decoder takes complete lines out
of what is pending before it asks for the next chunk, so what is pending then is
the line in progress (`partialLine`); its bound is on that line and the whole next
chunk together. -/
namespace Eggwork.Client
open List Prod

variable {events : List ExecutionEvent}

abbrev Bytes := List UInt8

def newline : UInt8 := 10

/-- The two functions of `serde_json` on events. -/
structure EventJson where
  toVec : ExecutionEvent → Bytes
  fromSlice : Bytes → Option ExecutionEvent

inductive ClientError (ε : Type) where
  | invalidResponse
  | transport (error : ε)
deriving DecidableEq, Repr

variable (json : EventJson) {ε : Type}

/-! ### The server's side -/

def encodeEvent (event : ExecutionEvent) : Bytes := json.toVec event ++ [newline]

def encodeEvents (events : List ExecutionEvent) : Bytes := (events.map (encodeEvent json)).flatten

/-! ### The client's side -/

def decodeLine (line : Bytes) : Option ExecutionEvent :=
  (json.fromSlice line).filter fun event => event.validate.toBool

/-- The events a stream of chunks delivers, and how it ends. -/
def intoEvents (chunks : List (Except ε Bytes)) (pending : Bytes) :
    List ExecutionEvent × Except (ClientError ε) Unit :=
  match _hpending : pending.dropWhile (· != newline) with
  | _ :: rest =>
    let line := pending.takeWhile (· != newline)
    if line.isEmpty then intoEvents chunks rest
    else
      match decodeLine json line with
      | none => ([], .error .invalidResponse)
      | some event => (intoEvents chunks rest).map (event :: ·) id
  | [] =>
    match chunks with
    | .ok bytes :: chunks =>
      if pending.length + bytes.length > maxEventBytes then ([], .error .invalidResponse)
      else intoEvents chunks (pending ++ bytes)
    | .error error :: _ => ([], .error (.transport error))
    | [] =>
      if pending.isEmpty then ([], .ok ())
      else
        match decodeLine json pending with
        | none => ([], .error .invalidResponse)
        | some event => ([event], .ok ())
termination_by (chunks.length, pending.length)
decreasing_by
  all_goals simp_wf
  all_goals
    have hlength := congrArg List.length _hpending
    have hshorter := (List.dropWhile_suffix (p := (· != newline)) (l := pending)).length_le
    grind

/-! ### The line in progress -/

/-- What follows the last newline. -/
def partialLine (bytes : Bytes) : Bytes := bytes.rtakeWhile (· != newline)

theorem partialLine_of_notMem {bytes : Bytes} (h : newline ∉ bytes) : partialLine bytes = bytes := by
  rw [partialLine, rtakeWhile_eq_self_iff]
  intro byte hbyte
  exact bne_iff_ne.mpr fun hnew => h (hnew ▸ hbyte)

theorem newline_notMem_partialLine (bytes : Bytes) : newline ∉ partialLine bytes := by
  intro hm
  simpa using mem_rtakeWhile_imp hm

theorem partialLine_append (before bytes : Bytes) :
    partialLine (partialLine before ++ bytes) = partialLine (before ++ bytes) := by
  simp only [partialLine, rtakeWhile, reverse_append, reverse_reverse,
    takeWhile_append, takeWhile_idem]

theorem partialLine_after (before bytes : Bytes) : partialLine (before ++ newline :: bytes) = partialLine bytes := by
  simp only [partialLine, rtakeWhile, reverse_append, reverse_cons,
    append_assoc, takeWhile_append]
  split
  · next hlen =>
    have hall := ( takeWhile_prefix (· != newline) (l := bytes.reverse)).eq_of_length hlen
    simp [hall]
  · rfl

/-! ### Decoding what the server encoded -/

/-- What `serde_json` does with the events of a sequence: it reads back what it
wrote, on one line that is not empty. -/
structure RoundTrips (events : List ExecutionEvent) : Prop where
  read : ∀ event ∈ events, json.fromSlice (json.toVec event) = some event
  oneLine : ∀ event ∈ events, newline ∉ json.toVec event
  nonempty : ∀ event ∈ events, json.toVec event ≠ []

/-- An encoding of events that the client accepts one by one. -/
structure Readable (events : List ExecutionEvent) : Prop extends RoundTrips json events where
  valid : ∀ event ∈ events, event.validate = .ok ()

variable {json}

theorem Readable.mono {part : List ExecutionEvent} (h : Readable json events) (hpart : part ⊆ events) : Readable json part where
  read := fun e he => h.read e (hpart he)
  oneLine := fun e he => h.oneLine e (hpart he)
  nonempty := fun e he => h.nonempty e (hpart he)
  valid := fun e he => h.valid e (hpart he)

theorem encodeEvents_cons (ev : ExecutionEvent) (events : List ExecutionEvent) : encodeEvents json (ev :: events) =
      json.toVec ev ++ newline :: encodeEvents json events := by
  simp [encodeEvents, encodeEvent]

theorem takeWhile_line {line : Bytes} (h : newline ∉ line) (rest : Bytes) :
    (line ++ newline :: rest).takeWhile (· != newline) = line := by
  have hline : ∀ byte ∈ line, (byte != newline) = true :=
    fun byte hbyte => bne_iff_ne.mpr fun hnew => h (hnew ▸ hbyte)
  rw [takeWhile_append_of_pos hline, takeWhile_cons_of_neg (by simp), append_nil]

theorem dropWhile_line {line : Bytes} (h : newline ∉ line) (rest : Bytes) :
    (line ++ newline :: rest).dropWhile (· != newline) = newline :: rest := by
  have hline : ∀ byte ∈ line, (byte != newline) = true :=
    fun byte hbyte => bne_iff_ne.mpr fun hnew => h (hnew ▸ hbyte)
  rw [dropWhile_append_of_pos hline, dropWhile_cons_of_neg (by simp)]

theorem dropWhile_pending {pending : Bytes} (h : newline ∉ pending) : pending.dropWhile (· != newline) = [] := by
  rw [dropWhile_eq_nil_iff]
  exact fun byte hbyte => bne_iff_ne.mpr fun hnew => h (hnew ▸ hbyte)

theorem Readable.decodes {event : ExecutionEvent} (h : Readable json (event :: events)) :
    decodeLine json (json.toVec event) = some event := by
  simp [decodeLine, h.read event (.head _), h.valid event (.head _), Except.toBool]

theorem intoEvents_line {event : ExecutionEvent} (h : Readable json (event :: events)) (chunks : List (Except ε Bytes))
    (rest : Bytes) : intoEvents json chunks (json.toVec event ++ newline :: rest) =
      (intoEvents json chunks rest).map (event :: ·) id := by
  have hline := h.oneLine event (.head _)
  have hn := h.nonempty event (.head _)
  rw [intoEvents.eq_def]
  split
  · next hdrop =>
    rw [dropWhile_line hline, cons.injEq] at hdrop
    simp [takeWhile_line hline, hn, h.decodes, hdrop.2]
  · next hdrop =>
    rw [dropWhile_line hline] at hdrop
    contradiction

theorem intoEvents_chunk {pending : Bytes} (h : newline ∉ pending) (bytes : Bytes) (chunks : List (Except ε Bytes)) :
    intoEvents json (.ok bytes :: chunks) pending =
      if pending.length + bytes.length > maxEventBytes then ([], .error .invalidResponse)
      else intoEvents json chunks (pending ++ bytes) := by
  rw [intoEvents]
  split
  · next hdrop =>
    rw [dropWhile_pending h] at hdrop
    contradiction
  · rfl

theorem intoEvents_end : intoEvents json ([] : List (Except ε Bytes)) [] = ([], .ok ()) := by
  rw [intoEvents]
  rfl

theorem received_lines (h : Readable json events) {received missing : Bytes}
    (heq : received ++ missing = encodeEvents json events) : ∃ done left, events = done ++ left ∧
      received = encodeEvents json done ++ partialLine received ∧
      partialLine received ++ missing = encodeEvents json left := by
  induction events generalizing received with
  | nil =>
    obtain ⟨rfl, rfl⟩ := append_eq_nil_iff.mp heq
    exact ⟨[], [], rfl, rfl, rfl⟩
  | cons ev events ih =>
    have hline := h.oneLine ev (.head _)
    by_cases hn : newline ∈ received
    · -- the first newline received is the one that ends the first ev
      obtain ⟨more, rfl⟩ : ∃ more, received = json.toVec ev ++ newline :: more := by
        rw [encodeEvents_cons, append_eq_append_iff] at heq
        rcases heq with ⟨more, hvec, _⟩ | ⟨more, hr, hmore⟩
        · exact absurd (hvec ▸ mem_append_left _ hn) hline
        cases more with
        | nil => simp_all
        | cons byte more =>
          rw [cons_append, cons.injEq] at hmore
          exact ⟨more, by rw [hr, hmore.1]⟩
      rw [encodeEvents_cons, append_assoc, append_cancel_left_eq, cons_append, cons.injEq] at heq
      obtain ⟨done, left, rfl, hmore, hleft⟩ := ih (h.mono (subset_cons_self _ _)) heq.2
      refine ⟨ev :: done, left, rfl, ?_, ?_⟩
      · rw [partialLine_after, encodeEvents_cons, append_assoc, cons_append, ← hmore]
      · rw [partialLine_after, hleft]
    · refine ⟨[], ev :: events, rfl, ?_, ?_⟩
      · simp [encodeEvents, partialLine_of_notMem hn]
      · rw [partialLine_of_notMem hn, heq]

/-- The complete lines pending are delivered before another chunk is read. -/
theorem intoEvents_lines (h : Readable json events) (chunks : List (Except ε Bytes)) (rest : Bytes) :
    intoEvents json chunks (encodeEvents json events ++ rest) = (intoEvents json chunks rest).map (events ++ ·) id := by
  induction events with
  | nil => rfl
  | cons ev events ih =>
    rw [encodeEvents_cons, append_assoc, cons_append, intoEvents_line h, ih (h.mono (subset_cons_self _ _))]
    rfl

/-! ### Any cutting -/

/-- Every chunk, with the part of a line received before it, is within the bound
of one event. -/
def Fits (before : Bytes) (chunks : List Bytes) : Prop :=
  ∀ earlier chunk later, chunks = earlier ++ chunk :: later →
    (partialLine (before ++ earlier.flatten)).length + chunk.length ≤ maxEventBytes

theorem fits_nil (before : Bytes) : Fits before [] := by
  rintro earlier chunk later hs
  simp at hs

theorem fits_cons (before chunk : Bytes) (chunks : List Bytes) : Fits before (chunk :: chunks) ↔
      (partialLine before).length + chunk.length ≤ maxEventBytes ∧ Fits (before ++ chunk) chunks := by
  constructor
  · intro h
    refine ⟨by simpa using h [] chunk chunks rfl, ?_⟩
    rintro earlier next later rfl
    simpa using h (chunk :: earlier) next later rfl
  rintro ⟨hf, hrest⟩ earlier next later heq
  cases earlier with
  | nil =>
    obtain ⟨rfl, rfl⟩ := cons.inj heq
    simpa using hf
  | cons _ earlier =>
    obtain ⟨rfl, rfl⟩ := cons.inj heq
    simpa using hrest earlier next later rfl

theorem fits_partialLine (before : Bytes) (chunks : List Bytes) :
    Fits (partialLine before) chunks ↔ Fits before chunks := by
  simp only [Fits, partialLine_append]

theorem intoEvents_iff (h : Readable json events) {chunks : List Bytes} {pending : Bytes} (hp : newline ∉ pending)
    (heq : pending ++ chunks.flatten = encodeEvents json events) :
    intoEvents json (chunks.map .ok : List (Except ε Bytes)) pending = (events, .ok ()) ↔ Fits pending chunks := by
  induction chunks generalizing events pending with
  | nil =>
    have hn : events = [] := by
      cases events with
      | nil => rfl
      | cons ev events =>
        rw [encodeEvents_cons, flatten_nil, append_nil] at heq
        exact absurd (heq ▸ mem_append_right _ (.head _)) hp
    subst hn
    obtain ⟨rfl, -⟩ := append_eq_nil_iff.mp heq
    exact ⟨fun _ => fits_nil [], fun _ => intoEvents_end⟩
  | cons chunk chunks ih =>
    rw [map_cons, intoEvents_chunk hp, fits_cons, partialLine_of_notMem hp]
    split
    · next hlong =>
      refine ⟨fun he => ?_, fun hfits => absurd hfits.1 (by omega)⟩
      cases congrArg Prod.snd he
    next hs =>
    rw [flatten_cons, ← append_assoc] at heq
    obtain ⟨done, left, rfl, hrecord, hleft⟩ := received_lines h heq
    have hih := ih (h.mono (subset_append_right _ _))
      (newline_notMem_partialLine (pending ++ chunk)) hleft
    rw [fits_partialLine] at hih
    rw [hrecord, intoEvents_lines (h.mono (subset_append_left _ _)), ← hrecord, ← hih]
    simp only [Prod.ext_iff, Prod.map_fst, Prod.map_snd, append_cancel_left_eq, id]
    exact ⟨fun hr => ⟨by omega, hr⟩, fun hr => hr.2⟩

/-- However the encoding of a sequence of valid events is cut, the decoder yields
that sequence and ends, exactly when no chunk together with the line in progress
before it is longer than one event may be. -/
theorem framing_reads_back {events : List ExecutionEvent} (hjson : RoundTrips json events)
    (hvalid : ∀ event ∈ events, event.validate = .ok ()) {chunks : List Bytes}
    (hcut : chunks.flatten = encodeEvents json events) :
    intoEvents json (chunks.map .ok : List (Except ε Bytes)) [] = (events, .ok ()) ↔ Fits [] chunks :=
  intoEvents_iff ⟨hjson, hvalid⟩ (by simp) hcut

namespace Example

def started : ExecutionEvent := .plain 1 (.state .running)

/-- A codec of one event, with a text as long as the one `serde_json` writes. -/
def text : EventJson where
  toVec := fun event => List.replicate (Store.jsonLength event) 0x78
  fromSlice := fun _ => some started

theorem roundTrips (n : Nat) : RoundTrips text (replicate n started) where
  read := fun ev he => by rw [eq_of_mem_replicate he]; rfl
  oneLine := fun ev _ hm =>
    absurd (eq_of_mem_replicate (n := Store.jsonLength ev) hm) (by decide)
  nonempty := fun ev he => by rw [eq_of_mem_replicate he]; decide

theorem valid (n : Nat) : ∀ ev ∈ replicate n started, ev.validate = .ok () := by
  intro ev he
  rw [eq_of_mem_replicate he]
  rfl

/-- The encoding of two events, cut in the middle of each. -/
def chunks : List Bytes :=
  [List.replicate 40 0x78, List.replicate 26 0x78 ++ newline :: List.replicate 50 0x78,
    List.replicate 16 0x78 ++ [newline]]

theorem chunks_fit : Fits [] chunks := by
  simp only [chunks, fits_cons]
  exact ⟨by decide, by decide, by decide, fits_nil _⟩

end Example

open Example List

theorem framing_reads_back_two : intoEvents text (chunks.map .ok : List (Except Unit Bytes)) [] =
      ([started, started], .ok ()) :=
  (framing_reads_back (roundTrips 2) (valid 2) (by decide)).mpr chunks_fit

/-- Ten thousand small events that arrive in one chunk are refused. -/
theorem framing_refuses_long_chunk : ∃ events, (∀ event ∈ events, event.validate = .ok () ∧ event.metadata = ⟨[]⟩) ∧
      RoundTrips text events ∧ intoEvents text ([.ok (encodeEvents text events)] : List (Except Unit Bytes)) [] =
        ([], .error .invalidResponse) := by
  refine ⟨List.replicate 10000 started, ?_, roundTrips 10000, ?_⟩
  · intro event hevent
    rw [eq_of_mem_replicate hevent]
    exact ⟨rfl, rfl⟩
  have hlength : (encodeEvent text started).length = 67 := by decide
  have htotal : (encodeEvents text (List.replicate 10000 started)).length = 670000 := by
    rw [encodeEvents, map_replicate, length_flatten, map_replicate, hlength, sum_replicate_nat]
  rw [intoEvents_chunk (by simp), htotal]
  rfl

end Eggwork.Client
