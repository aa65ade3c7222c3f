import Mathlib.Data.List.Basic
import Mathlib.Data.List.Range

/-! Catching up with a numbered journal.

A reader asks for what follows a cursor. It gets a copy of the journal's end, then
listens from a position that the copy has reached, and skips what it has seen by
number. What it has obtained is then at all times a prefix of what follows its
cursor: the copy and the channel overlap, but leave no gap. -/
namespace Eggwork.Lib
open List Nat

variable {α : Type} (number : α → Nat)
variable {a : α} {last : Nat}

/-- What is left once everything up to a number is skipped. -/
def newer (last : Nat) (items : List α) : List α := items.dropWhile fun a => decide (number a ≤ last)

/-- The items are numbered from one. -/
def Counted (items : List α) : Prop := items.map number = List.range' 1 items.length

variable {number}

theorem newer_cons_of_le (h : number a ≤ last) (rest : List α) :
    newer number last (a :: rest) = newer number last rest := dropWhile_cons_of_pos (decide_eq_true h)

theorem newer_cons_of_lt (h : last < number a) (rest : List α) : newer number last (a :: rest) = a :: rest := by
  refine dropWhile_cons_of_neg ?_
  rw [decide_eq_true_eq]
  omega

theorem Counted.number_eq {items : List α} (h : Counted number items) {i : Nat} (ha : items[i]? = some a) :
    number a = i + 1 := by
  have hi := (List.getElem?_eq_some_iff.mp ha).1
  have hmap : (items.map number)[i]? = some (number a) := by rw [List.getElem?_map, ha]; rfl
  rw [h, List.getElem?_range' hi, Nat.one_mul, Option.some.injEq] at hmap
  omega

/-- What follows a cursor is numbered from there on. -/
theorem Counted.after {journal items : List α} (h : Counted number journal) {cursor : Nat}
    (hitem : items <+: journal.drop cursor) : items.map number = range' (cursor + 1) items.length := by
  refine ext_getElem (by simp) fun i hi _ => ?_
  rw [length_map] at hi
  have hat : journal[cursor + i]? = some items[i] := by
    obtain ⟨rest, hrest⟩ := hitem
    rw [← getElem?_drop, ← hrest, getElem?_append_left hi, getElem?_eq_getElem hi]
  rw [getElem_map, getElem_range', h.number_eq hat]
  omega

/-- Nothing after the cursor is skipped. -/
theorem newer_eq_self {journal items : List α} (h : Counted number journal) (hi : items <+: journal.drop last) :
    newer number last items = items := by
  cases items with
  | nil => rfl
  | cons a rest =>
    have ha : journal[last]? = some a := by
      obtain ⟨tail, htail⟩ := hi
      have hhead := congrArg (fun l => l[0]?) htail
      rw [getElem?_drop] at hhead
      exact hhead.symm
    refine newer_cons_of_lt ?_ rest
    rw [h.number_eq ha]
    exact lt_succ_self last

/-- One more item heard at a position the reader has reached: it is skipped if it
was obtained before, else it is the next one. -/
theorem newer_next {journal items : List α} (h : Counted number journal) {after pos : Nat}
    (hi : items <+: journal.drop after) (hpos : pos ≤ after + items.length) (ha : journal[pos]? = some a) :
    items ++ newer number (after + items.length) [a] <+: journal.drop after ∧
      pos + 1 ≤ after + (items ++ newer number (after + items.length) [a]).length := by
  have hnumber := h.number_eq ha
  by_cases hs : pos < after + items.length
  · have hskip : newer number (after + items.length) [a] = [] := newer_cons_of_le (hnumber ▸ hs) []
    rw [hskip, append_nil]
    exact ⟨hi, hs⟩
  have hn : pos = after + items.length := by omega
  have hkeep : newer number (after + items.length) [a] = [a] := newer_cons_of_lt (by omega) []
  rw [hkeep]
  refine ⟨?_, ?_⟩
  · obtain ⟨rest, hrest⟩ := hi
    have hat : (journal.drop after)[items.length]? = some a := by
      rw [List.getElem?_drop, ← hn, ha]
    rw [← hrest, List.getElem?_append_right (Nat.le_refl _), Nat.sub_self] at hat
    cases rest with
    | nil => cases hat
    | cons b rest =>
      cases hat
      exact ⟨rest, by rw [← hrest]; simp⟩
  · rw [length_append, length_singleton]
    omega

end Eggwork.Lib
