import Mathlib.Data.List.Infix

/-! A log kept as a window: entries numbered consecutively, old ones dropped
from the front until the rest fits a budget.

`keepSuffix` is the dropping: it returns the longest suffix that fits
(`keepSuffix_longest`). `Numbered` says the entries carry the numbers
`base, base + 1, …` up to `next`, and survives appending the entry `next` and
dropping from the front. -/
namespace Eggwork.Lib
open List

section Suffix
variable {α : Type} (fits : List α → Bool)

/-- Drop entries from the front until the rest fits. -/
def keepSuffix : List α → List α
  | [] => []
  | a :: l => if fits (a :: l) then a :: l else keepSuffix l

theorem keepSuffix_suffix (l : List α) : keepSuffix fits l <:+ l := by
  induction l with
  | nil => exact suffix_rfl
  | cons a l ih =>
    unfold keepSuffix
    split
    · exact suffix_rfl
    · exact ih.trans (suffix_cons a l)

theorem keepSuffix_fits (hnil : fits [] = true) (l : List α) : fits (keepSuffix fits l) = true := by
  induction l with
  | nil => exact hnil
  | cons a l ih =>
    unfold keepSuffix
    split
    · assumption
    · exact ih

/-- Every suffix that fits is kept. -/
theorem keepSuffix_longest (l s : List α) (hs : s <:+ l) (hfit : fits s = true) : s <:+ keepSuffix fits l := by
  induction l with
  | nil => exact hs
  | cons a l ih =>
    unfold keepSuffix
    split
    · exact hs
    rename_i hno
    rcases suffix_cons_iff.mp hs with rfl | hs
    · exact absurd hfit hno
    · exact ih hs

/-- The newest entry is kept if it fits on its own. -/
theorem keepSuffix_newest (l : List α) (a : α) (hfit : fits [a] = true) : keepSuffix fits (l ++ [a]) ≠ [] := by
  intro hnil
  have hs := keepSuffix_longest fits (l ++ [a]) [a] (suffix_append l [a]) hfit
  rw [hnil] at hs
  exact absurd (eq_nil_of_suffix_nil hs) (by simp)

/-- Dropping after every append keeps the same entries as dropping once at the
end, for a budget that a list meets whenever a longer one does. -/
theorem keepSuffix_push (hmono : ∀ l a, fits (l ++ [a]) = true → fits l = true) (l : List α) (a : α) :
    keepSuffix fits (keepSuffix fits l ++ [a]) = keepSuffix fits (l ++ [a]) := by
  induction l with
  | nil => rfl
  | cons b l ih =>
    by_cases hfit : fits (b :: l) = true
    · rw [keepSuffix, if_pos hfit]
    · have hlong : ¬ fits (b :: (l ++ [a])) = true := fun h => hfit (hmono (b :: l) a h)
      rw [keepSuffix, if_neg hfit, ih, cons_append, keepSuffix, if_neg hlong]

end Suffix

/-! ### Numbered entries -/

section Numbered
variable {α : Type} (number : α → Nat)

/-- The entries carry consecutive numbers ending just before `next`. -/
def Numbered (l : List α) (next : Nat) : Prop :=
  ∃ base, l.map number = List.range' base l.length ∧ base + l.length = next

variable {number}

theorem Numbered.push {l : List α} {next : Nat} (h : Numbered number l next) (a : α)
    (ha : number a = next) : Numbered number (l ++ [a]) (next + 1) := by
  obtain ⟨base, hmap, hend⟩ := h
  refine ⟨base, ?_, by simp only [length_append, length_singleton]; omega⟩
  rw [map_append, hmap, length_append, length_singleton, range'_concat]
  simp [ha, hend]

theorem Numbered.suffix {l s : List α} {next : Nat} (h : Numbered number l next) (hs : s <:+ l) :
    Numbered number s next := by
  obtain ⟨base, hmap, hend⟩ := h
  obtain ⟨dropped, rfl⟩ := hs
  refine ⟨base + dropped.length, ?_, by rw [length_append] at hend; omega⟩
  have hdrop := congrArg (drop dropped.length) hmap
  rw [map_append, drop_left' (by simp), drop_range'] at hdrop
  rw [hdrop]
  congr 1 <;> simp

/-- A number is carried exactly when it lies in the window. -/
theorem Numbered.mem {l : List α} {next : Nat} (h : Numbered number l next) {n : Nat} :
    n ∈ l.map number ↔ next - l.length ≤ n ∧ n < next := by
  obtain ⟨base, hmap, hend⟩ := h
  rw [hmap, mem_range'_1]
  omega

/-- The oldest entry carries the smallest number. -/
theorem Numbered.min? {a : α} {l : List α} {next : Nat} (h : Numbered number (a :: l) next) :
    ((a :: l).map number).min? = some (number a) := by
  obtain ⟨base, hmap, _⟩ := h
  have hbase : number a = base := by
    have := congrArg head? hmap
    simpa [range'_succ] using this
  rw [min?_eq_some_iff]
  refine ⟨mem_cons_self, fun n hn => ?_⟩
  rw [hmap, mem_range'_1] at hn
  omega

/-- The entries with a number above `n` are the last ones. -/
theorem Numbered.filter_after {l : List α} {next : Nat} (h : Numbered number l next) (n : Nat) :
    l.filter (fun a => decide (n < number a)) = l.drop (n + 1 + l.length - next) := by
  obtain ⟨base, hmap, hend⟩ := h
  have hfrom : ∀ (l : List α) (base : Nat), l.map number = range' base l.length →
      l.filter (fun a => decide (n < number a)) = l.drop (n + 1 - base) := by
    intro l
    induction l with
    | nil => simp
    | cons a l ih =>
      intro base hmap
      rw [map_cons, length_cons, range'_succ, cons.injEq] at hmap
      obtain ⟨rfl, htail⟩ := hmap
      rw [filter_cons, ih _ htail]
      by_cases ha : n < number a
      · rw [if_pos (decide_eq_true ha), Nat.sub_eq_zero_of_le (by omega), Nat.sub_eq_zero_of_le (by omega)]
        rfl
      · rw [if_neg (by simpa using ha), show n + 1 - number a = n + 1 - (number a + 1) + 1 by omega, drop_succ_cons]
  rw [hfrom l base hmap]
  congr 1
  omega

/-- The first of consecutively numbered entries. -/
theorem numbers_of_beginning {l s : List α} {base n : Nat} (h : l.map number = range' base n) (hs : s <+: l) :
    s.map number = range' base s.length := by
  obtain ⟨rest, rfl⟩ := hs
  have hn : n = s.length + rest.length := by simpa using (congrArg length h).symm
  rw [hn, map_append, ← range'_append_1] at h
  exact append_inj_left h (by simp)

/-- No two entries carry one number. -/
theorem Numbered.nodup {l : List α} {next : Nat} (h : Numbered number l next) : (l.map number).Nodup := by
  obtain ⟨base, hmap, _⟩ := h
  rw [hmap]
  exact nodup_range'

/-- The entries stand in the order of their numbers. -/
theorem Numbered.pairwise {l : List α} {next : Nat} (h : Numbered number l next) :
    l.Pairwise fun a b => number a ≤ number b := by
  obtain ⟨base, hmap, _⟩ := h
  have hs : (l.map number).Pairwise (· ≤ ·) := by
    rw [hmap]
    exact pairwise_le_range'
  exact pairwise_map.mp hs

end Numbered
end Eggwork.Lib
