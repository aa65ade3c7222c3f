import Mathlib.Data.List.Sort
import Eggwork.Lib.Table

/-! Sorting by a key.

A stable sort by a key is a normal form of a list up to order, as long as the key
tells its items apart: two lists sort to the same one exactly if one is the other
reordered (`sortBy_eq_iff`). An ordered map yields its values this way. -/
namespace Eggwork.Lib
open List

variable {α K V : Type} [LinearOrder K]
variable {l l' : List α}

def sortBy (key : α → K) (l : List α) : List α := l.insertionSort fun a b => key a ≤ key b

theorem sortBy_perm (key : α → K) (l : List α) : (sortBy key l).Perm l := perm_insertionSort _ _

theorem mem_sortBy {key : α → K} {a : α} : a ∈ sortBy key l ↔ a ∈ l := (sortBy_perm key l).mem_iff

theorem sortBy_pairwise (key : α → K) (l : List α) : (sortBy key l).Pairwise fun a b => key a ≤ key b := by
  have : Std.Total fun a b : α => key a ≤ key b := ⟨fun a b => le_total (key a) (key b)⟩
  have : IsTrans α fun a b : α => key a ≤ key b := ⟨fun _ _ _ => le_trans⟩
  exact pairwise_insertionSort _ _

theorem filter_orderedInsert (key : α → K) (p : α → Bool) (a : α) (h : l.Pairwise fun a b => key a ≤ key b) :
    (l.orderedInsert (fun a b => key a ≤ key b) a).filter p =
      if p a then (l.filter p).orderedInsert (fun a b => key a ≤ key b) a else l.filter p := by
  induction l with
  | nil => by_cases ha : p a <;> simp [ha]
  | cons b rest ih =>
    obtain ⟨hb, hrest⟩ := pairwise_cons.mp h
    rw [orderedInsert_cons]
    by_cases hab : key a ≤ key b
    · rw [if_pos hab, filter_cons]
      by_cases ha : p a = true
      · rw [if_pos ha, if_pos ha]
        -- the first item that passes is not below the first of all
        cases hf : (b :: rest).filter p with
        | nil => rfl
        | cons c kept =>
          have hc : c ∈ b :: rest := mem_of_mem_filter (hf ▸ mem_cons_self)
          have hac : key a ≤ key c := by
            rcases mem_cons.mp hc with rfl | hc
            · exact hab
            · exact hab.trans (hb c hc)
          rw [orderedInsert_cons, if_pos hac]
      · rw [if_neg ha, if_neg ha]
    · rw [if_neg hab, filter_cons, ih hrest, filter_cons]
      by_cases hp : p b = true
      · rw [if_pos hp, if_pos hp]
        by_cases ha : p a = true
        · rw [if_pos ha, if_pos ha, orderedInsert_cons, if_neg hab]
        · rw [if_neg ha, if_neg ha]
      · rw [if_neg hp, if_neg hp]

/-- The sort is stable: leaving items out does not move the others. -/
theorem sortBy_filter (key : α → K) (p : α → Bool) (l : List α) : sortBy key (l.filter p) = (sortBy key l).filter p := by
  induction l with
  | nil => rfl
  | cons a rest ih =>
    have hi := filter_orderedInsert key p a (sortBy_pairwise key rest)
    rw [← ih] at hi
    show _ = ((sortBy key rest).orderedInsert _ a).filter p
    rw [hi, filter_cons]
    split <;> rfl

/-- Where the key tells the items apart, the order of the list does not show. -/
theorem sortBy_eq_of_perm {key : α → K} (hk : ∀ a ∈ l, ∀ b ∈ l, key a = key b → a = b) (h : l.Perm l') :
    sortBy key l = sortBy key l' := by
  refine List.Perm.eq_of_pairwise ?_ (sortBy_pairwise key l) (sortBy_pairwise key l')
    ((sortBy_perm key l).trans (h.trans (sortBy_perm key l').symm))
  intro a b ha hb hab hba
  exact hk a (mem_sortBy.mp ha) b (h.mem_iff.mpr (mem_sortBy.mp hb)) (le_antisymm hab hba)

/-- Likewise for the last one alone. -/
theorem maxOn?_eq_of_perm {key : α → K} (hk : ∀ a ∈ l, ∀ b ∈ l, key a = key b → a = b) (h : l.Perm l') :
    l.maxOn? key = l'.maxOn? key := by
  cases hmax : l.maxOn? key with
  | none =>
    have hnil : l = [] := by
      by_contra hne
      have hsome := List.isSome_maxOn?_iff (f := key).mpr hne
      rw [hmax] at hsome
      cases hsome
    subst hnil
    rw [← h.nil_eq]
    rfl
  | some a =>
    have ha := List.maxOn?_mem hmax
    obtain ⟨b, hb⟩ := Option.isSome_iff_exists.mp (List.isSome_maxOn?_of_mem (f := key) (h.mem_iff.mp ha))
    have hbl := h.mem_iff.mpr (List.maxOn?_mem hb)
    have hba := List.le_apply_get_maxOn?_of_mem (f := key) hbl
    have hab := List.le_apply_get_maxOn?_of_mem (f := key) (h.mem_iff.mp ha)
    rw [Option.get_of_eq_some _ hmax] at hba
    rw [Option.get_of_eq_some _ hb] at hab
    rw [hb, hk a ha b hbl (le_antisymm hab hba)]

theorem perm_of_sortBy_eq {key : α → K} (h : sortBy key l = sortBy key l') : l.Perm l' :=
  (sortBy_perm key l).symm.trans (h ▸ sortBy_perm key l')

omit [LinearOrder K] in
theorem eq_of_key_eq {key : α → K} (h : (l.map key).Nodup) : ∀ a ∈ l, ∀ b ∈ l, key a = key b → a = b :=
  fun _ ha _ hb => inj_on_of_nodup_map h ha hb

/-- The values of an ordered map, in the order of its keys. -/
def Table.values (t : Table K V) : List V := (sortBy Prod.fst t.rows).map Prod.snd

/-- Where each value tells its key, the values come sorted by it. -/
theorem Table.values_eq {t : Table K V} {key : V → K} {l : List V} (hn : (l.map key).Nodup)
    (h : ∀ {k v}, t.get? k = some v ↔ v ∈ l ∧ key v = k) : t.values = sortBy key l := by
  have hr : ∀ row ∈ sortBy Prod.fst t.rows, row.2 ∈ l ∧ key row.2 = row.1 :=
    fun row hr => h.mp (mem_rows.mp (mem_sortBy.mp hr))
  have hs : t.values.Pairwise fun a b => key a ≤ key b := by
    rw [Table.values, pairwise_map]
    refine (sortBy_pairwise Prod.fst t.rows).imp_of_mem fun {a b} ha hb hab => ?_
    rwa [(hr a ha).2, (hr b hb).2]
  have hperm : t.values.Perm l := by
    refine (perm_ext_iff_of_nodup ?_ (hn.of_map _)).mpr fun v => ?_
    · refine List.Nodup.of_map key ?_
      have hkeys : (sortBy Prod.fst t.rows).map (key ∘ Prod.snd) = (sortBy Prod.fst t.rows).map Prod.fst :=
        map_congr_left fun row hm => (hr row hm).2
      rw [Table.values, map_map, hkeys]
      exact ((sortBy_perm Prod.fst t.rows).map Prod.fst).nodup_iff.mpr t.nodup
    · rw [Table.values, mem_map]
      constructor
      · rintro ⟨row, hm, rfl⟩
        exact (hr row hm).1
      · exact fun hv => ⟨(key v, v), mem_sortBy.mpr (mem_rows.mpr (h.mpr ⟨hv, rfl⟩)), rfl⟩
  refine List.Perm.eq_of_pairwise ?_ hs (sortBy_pairwise key l) (hperm.trans (sortBy_perm key l).symm)
  intro a b ha hb hab hba
  exact eq_of_key_eq hn a (hperm.mem_iff.mp ha) b (mem_sortBy.mp hb) (le_antisymm hab hba)

end Eggwork.Lib
