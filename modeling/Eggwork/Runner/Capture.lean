import Eggwork.Core.Manifest
import Mathlib.Data.List.DropRight

/-! Bounded capture of a stream: its first bytes, its last bytes, and how many
there were.

`push` takes a whole read at once; `pushPerByte` is the oracle it is tested
against. Both are compared with `capture`, which says what is retained of a
stream with no word about how it arrived. -/
namespace Eggwork.Runner
open List Nat

structure BoundedCapture where
  head : List UInt8
  tail : List UInt8
  totalBytes : Nat
  omittedBytes : Nat
deriving DecidableEq, Repr

namespace BoundedCapture

def empty : BoundedCapture := ⟨[], [], 0, 0⟩

def headLimit (limit : Nat) : Nat := (limit + 1) / 2
def tailLimit (limit : Nat) : Nat := limit - headLimit limit

/-- Fill the head; what is left of the bytes goes on to the tail. -/
def fillHead (head bytes : List UInt8) (limit : Nat) : List UInt8 × List UInt8 :=
  if head.length < headLimit limit then
    let take := min (headLimit limit - head.length) bytes.length
    (head ++ bytes.take take, bytes.drop take)
  else (head, bytes)

def fillTail (tail remaining : List UInt8) (limit : Nat) : List UInt8 :=
  if tailLimit limit = 0 then tail
  else if remaining.length ≥ tailLimit limit then remaining.drop (remaining.length - tailLimit limit)
  else if tail.length + remaining.length ≤ tailLimit limit then tail ++ remaining
  else
    let keepFromOld := tailLimit limit - remaining.length
    tail.drop (tail.length - keepFromOld) ++ remaining

/-- The counters after a read. -/
def account (totalBytes : Nat) (bytes head tail : List UInt8) : BoundedCapture :=
  let totalBytes := saturating (totalBytes + bytes.length)
  ⟨head, tail, totalBytes, totalBytes - (head.length + tail.length)⟩

def push (c : BoundedCapture) (bytes : List UInt8) (limit : Nat) : BoundedCapture :=
  let (head, remaining) := fillHead c.head bytes limit
  account c.totalBytes bytes head (fillTail c.tail remaining limit)

/-- One byte of the oracle's loop, on head and tail. -/
def pushByte (limit : Nat) (retained : List UInt8 × List UInt8) (byte : UInt8) : List UInt8 × List UInt8 :=
  if retained.1.length < headLimit limit then (retained.1 ++ [byte], retained.2)
  else if tailLimit limit > 0 then
    (retained.1, (if retained.2.length = tailLimit limit then retained.2.drop 1 else retained.2) ++ [byte])
  else retained

def pushPerByte (c : BoundedCapture) (bytes : List UInt8) (limit : Nat) : BoundedCapture :=
  let (head, tail) := bytes.foldl (pushByte limit) (c.head, c.tail)
  account c.totalBytes bytes head tail

/-- What is to be retained of a stream. -/
def capture (stream : List UInt8) (limit : Nat) : BoundedCapture :=
  let head := stream.take (headLimit limit)
  let tail := (stream.drop (headLimit limit)).rtake (tailLimit limit)
  ⟨head, tail, stream.length, stream.length - (head.length + tail.length)⟩

end BoundedCapture

/-! ### The last elements of a list -/

section
variable {α : Type}

theorem length_rtake (l : List α) (n : Nat) : (l.rtake n).length = min n l.length := by
  simp only [rtake, length_drop]
  omega

theorem rtake_of_length_le {l : List α} {n : Nat} (h : l.length ≤ n) : l.rtake n = l := by
  rw [List.rtake, Nat.sub_eq_zero_of_le h, drop_zero]

theorem rtake_min_length (l : List α) (n : Nat) : l.rtake (min l.length n) = l.rtake n := by
  simp only [rtake]
  congr 1
  omega

theorem rtake_append (a b : List α) (n : Nat) : (a ++ b).rtake n = a.rtake (n - b.length) ++ b.rtake n := by
  simp only [rtake_eq_reverse_take_reverse, reverse_append, take_append, length_reverse]

theorem rtake_rtake {l : List α} {k n : Nat} (h : k ≤ n) : (l.rtake n).rtake k = l.rtake k := by
  simp only [rtake, drop_drop, length_drop]
  congr 1
  omega

end

namespace BoundedCapture
variable {stream bytes : List UInt8} {limit : Nat}

theorem fillHead_eq : fillHead (stream.take (headLimit limit)) bytes limit =
    ((stream ++ bytes).take (headLimit limit), bytes.drop (headLimit limit - stream.length)) := by
  unfold fillHead
  by_cases hfull : stream.length < headLimit limit
  · have htake : min (headLimit limit - stream.length) bytes.length ≤ headLimit limit - stream.length := Nat.min_le_left ..
    rw [take_of_length_le hfull.le, if_pos hfull, take_append, take_of_length_le hfull.le]
    simp only [Prod.mk.injEq, append_cancel_left_eq]
    rcases Nat.le_total (headLimit limit - stream.length) bytes.length with hle | hle
    · rw [Nat.min_eq_left hle]
      exact ⟨rfl, rfl⟩
    rw [Nat.min_eq_right hle, take_of_length_le hle, take_of_length_le le_rfl, drop_of_length_le hle,
      drop_of_length_le le_rfl]
    exact ⟨rfl, rfl⟩
  · rw [Nat.not_lt] at hfull
    rw [if_neg (by rw [length_take]; omega), take_append_of_le_length hfull, Nat.sub_eq_zero_of_le hfull, drop_zero]

theorem fillTail_eq (rest remaining : List UInt8) :
    fillTail (rest.rtake (tailLimit limit)) remaining limit = (rest ++ remaining).rtake (tailLimit limit) := by
  have hkept := length_rtake rest (tailLimit limit)
  unfold fillTail
  rw [rtake_append]
  split
  · rename_i hzero
    simp [hzero]
  split
  · rename_i hlong
    rw [Nat.sub_eq_zero_of_le hlong, rtake_zero, nil_append]
    rfl
  rename_i hs
  rw [rtake_of_length_le (Nat.le_of_not_le hs)]
  split
  · rename_i hfits
    have hall : (rest.rtake (tailLimit limit)).rtake (tailLimit limit - remaining.length) = rest.rtake (tailLimit limit) :=
      rtake_of_length_le (by omega)
    rw [← hall, rtake_rtake (Nat.sub_le ..)]
  · rw [← rtake_rtake (Nat.sub_le (tailLimit limit) remaining.length)]
    rfl

theorem push_capture (hlen : (stream ++ bytes).length < 2 ^ 64) :
    (capture stream limit).push bytes limit = capture (stream ++ bytes) limit := by
  rw [length_append] at hlen
  have hsum : saturating (stream.length + bytes.length) = stream.length + bytes.length := min_eq_left (by omega)
  simp only [push, capture, fillHead_eq, fillTail_eq, account, hsum, drop_append, length_append]

/-! ### The oracle -/

/-- What is retained of a stream, without the counters. -/
def retained (stream : List UInt8) (limit : Nat) : List UInt8 × List UInt8 :=
  (stream.take (headLimit limit), (stream.drop (headLimit limit)).rtake (tailLimit limit))

theorem pushByte_retained (byte : UInt8) : pushByte limit (retained stream limit) byte = retained (stream ++ [byte]) limit := by
  unfold pushByte retained
  by_cases hfull : stream.length < headLimit limit
  · rw [if_pos (by rw [length_take]; omega), take_of_length_le hfull.le, drop_of_length_le hfull.le,
      take_of_length_le (by simp; omega), drop_of_length_le (by simp; omega)]
  rw [Nat.not_lt] at hfull
  rw [if_neg (by rw [length_take]; omega), take_append_of_le_length hfull, drop_append_of_le_length hfull]
  split
  · rename_i hpos
    -- a full tail gives up its first byte
    obtain ⟨n, hn⟩ := Nat.exists_eq_add_one.mpr hpos
    rw [hn, rtake_concat_succ, length_rtake]
    split
    · rename_i hlen
      congr 2
      simp only [List.rtake, drop_drop]
      congr 1
      omega
    · rename_i hlen
      congr 2
      rw [rtake_of_length_le (by omega), rtake_of_length_le (by omega)]
  · rename_i hzero
    rw [Nat.eq_zero_of_not_pos hzero, rtake_zero, rtake_zero]

theorem pushPerByte_capture (hlen : (stream ++ bytes).length < 2 ^ 64) :
    (capture stream limit).pushPerByte bytes limit = capture (stream ++ bytes) limit := by
  have hfold : ∀ bytes stream, bytes.foldl (pushByte limit) (retained stream limit) = retained (stream ++ bytes) limit := by
    intro bytes
    induction bytes with
    | nil =>
      intro stream
      rw [append_nil, foldl_nil]
    | cons byte rest ih =>
      intro stream
      rw [foldl_cons, pushByte_retained, ih, append_assoc, singleton_append]
  rw [length_append] at hlen
  have hsum : saturating (stream.length + bytes.length) = stream.length + bytes.length := min_eq_left (by omega)
  have hr := hfold bytes stream
  simp only [retained] at hr
  simp only [pushPerByte, capture, hr, account, hsum, length_append]

/-! ### Whole streams -/

/-- Reads of a stream, each pushed with the same limit. -/
def reads (push : BoundedCapture → List UInt8 → Nat → BoundedCapture) (chunks : List (List UInt8)) (limit : Nat) : BoundedCapture :=
  chunks.foldl (fun c bytes => push c bytes limit) empty

theorem reads_eq {push : BoundedCapture → List UInt8 → Nat → BoundedCapture} {chunks : List (List UInt8)}
    (hpush : ∀ {stream bytes}, (stream ++ bytes).length < 2 ^ 64 → push (capture stream limit) bytes limit = capture (stream ++ bytes) limit)
    (hlen : chunks.flatten.length < 2 ^ 64) : reads push chunks limit = capture chunks.flatten limit := by
  have hr : ∀ (chunks : List (List UInt8)) stream, (stream ++ chunks.flatten).length < 2 ^ 64 →
      chunks.foldl (fun c bytes => push c bytes limit) (capture stream limit) = capture (stream ++ chunks.flatten) limit := by
    intro chunks
    induction chunks with
    | nil =>
      intro stream _
      simp
    | cons bytes rest ih =>
      intro stream hlen
      rw [flatten_cons, ← append_assoc] at hlen ⊢
      rw [foldl_cons, hpush (by rw [length_append] at hlen; omega), ih _ hlen]
  have he : capture [] limit = empty := by simp [capture, empty]
  rw [reads, ← he, hr chunks [] (by simpa using hlen), nil_append]

end BoundedCapture

open BoundedCapture in
/-- However a stream is cut into reads, its first and last bytes are captured and all of
it is counted, as the oracle does. -/
theorem bounded_capture_exact {chunks : List (List UInt8)} {limit : Nat} (hlength : chunks.flatten.length < 2 ^ 64) :
    let stream := chunks.flatten
    let c := reads push chunks limit
    c.head = stream.take (min stream.length ((limit + 1) / 2)) ∧
    c.tail = (stream.drop c.head.length).rtake (min (stream.length - c.head.length) (limit / 2)) ∧
    c.totalBytes = stream.length ∧
    c.omittedBytes = stream.length - (c.head.length + c.tail.length) ∧
    c = reads pushPerByte chunks limit := by
  have hpush : reads push chunks limit = capture chunks.flatten limit := reads_eq push_capture hlength
  have hbyte : reads pushPerByte chunks limit = capture chunks.flatten limit := reads_eq pushPerByte_capture hlength
  have hhalf : tailLimit limit = limit / 2 := by
    unfold tailLimit headLimit
    omega
  simp only [hpush, hbyte, capture, and_true]
  constructor
  · rw [List.take_eq_take_iff]
    unfold headLimit
    omega
  -- the tail is bounded by what is left once the head is taken
  rw [hhalf, List.length_take]
  rcases Nat.le_total (headLimit limit) chunks.flatten.length with hle | hle
  · rw [Nat.min_eq_left hle, ← List.length_drop, rtake_min_length]
  · rw [Nat.min_eq_right hle, List.drop_of_length_le hle, List.drop_of_length_le le_rfl, List.rtake_nil, List.rtake_nil]

theorem bounded_capture_exact_cut : BoundedCapture.reads .push [[1, 2], [], [3, 4, 5, 6]] 3 = ⟨[1, 2], [6], 6, 3⟩ ∧
      BoundedCapture.reads .push [[1, 2], [], [3, 4, 5, 6]] 3 = BoundedCapture.reads .pushPerByte [[1, 2], [], [3, 4, 5, 6]] 3 :=
  ⟨by decide, (@bounded_capture_exact [[1, 2], [], [3, 4, 5, 6]] 3 (by decide)).2.2.2.2⟩

end Eggwork.Runner
