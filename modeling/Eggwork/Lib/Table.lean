import Mathlib.Algebra.GroupWithZero.Nat
import Mathlib.Data.List.Induction
import Mathlib.Data.List.Nodup

/-! A relational table with a primary key.

Rows are kept in insertion order, each under its key, and no key twice: the
constraint is part of the type, so an `INSERT` on a taken key has no result.
What a statement does to one key is read off `get?` (`get?_insert`, `get?_update`,
`get?_delete`, `get?_put`); what it does to a group of rows is read off `select`. -/
namespace Eggwork.Lib
open Function

structure Table (K V : Type) where
  rows : List (K × V)
  nodup : (rows.map Prod.fst).Nodup
deriving DecidableEq

namespace Table
open List
variable {K V : Type} [DecidableEq K]

def empty : Table K V := ⟨[], List.nodup_nil⟩

/-- The row under a key. -/
def get? (t : Table K V) (k : K) : Option V := (t.rows.find? fun row => row.1 == k).map Prod.snd

/-- `INSERT`: refused when the key is taken. -/
def insert (t : Table K V) (k : K) (v : V) : Option (Table K V) :=
  if h : k ∈ t.rows.map Prod.fst then none
  else some ⟨t.rows ++ [(k, v)], by
    rw [List.map_append, List.nodup_append']
    exact ⟨t.nodup, by simp, by simpa using h⟩⟩

theorem map_update_keys (rows : List (K × V)) (k : K) (f : V → V) :
    (rows.map fun row => if row.1 = k then (row.1, f row.2) else row).map Prod.fst = rows.map Prod.fst := by
  rw [map_map]
  apply map_congr_left
  intro row _
  simp only [comp]
  split <;> rfl

/-- `UPDATE … WHERE` the key is `k`. -/
def update (t : Table K V) (k : K) (f : V → V) : Table K V :=
  ⟨t.rows.map fun row => if row.1 = k then (row.1, f row.2) else row, by
    rw [map_update_keys]
    exact t.nodup⟩

/-- `DELETE … WHERE` the key satisfies `p`. -/
def delete (t : Table K V) (p : K → Bool) : Table K V :=
  ⟨t.rows.filter fun row => !p row.1, (List.filter_sublist.map Prod.fst).nodup t.nodup⟩

/-- `UPDATE … WHERE` the row satisfies `p`. -/
def updateWhere (t : Table K V) (p : K → V → Bool) (f : V → V) : Table K V :=
  ⟨t.rows.map fun row => (row.1, if p row.1 row.2 then f row.2 else row.2), by
    rw [List.map_map]
    exact t.nodup⟩

/-- `DELETE … WHERE` the row satisfies `p`. -/
def deleteWhere (t : Table K V) (p : K → V → Bool) : Table K V :=
  ⟨t.rows.filter fun row => !p row.1 row.2, (List.filter_sublist.map Prod.fst).nodup t.nodup⟩

/-- Insert, or replace what is there: a map's `insert`. -/
def put (t : Table K V) (k : K) (v : V) : Table K V :=
  ⟨(t.rows.filter fun row => !(row.1 == k)) ++ [(k, v)], by
    rw [List.map_append, List.nodup_append']
    refine ⟨(List.filter_sublist.map Prod.fst).nodup t.nodup, by simp, ?_⟩
    intro k' hk'
    obtain ⟨row, hrow, rfl⟩ := List.mem_map.mp hk'
    have hne := (List.mem_filter.mp hrow).2
    simpa using hne⟩

/-- `SELECT … WHERE` the key satisfies `p`. -/
def select (t : Table K V) (p : K → Bool) : List (K × V) := t.rows.filter fun row => p row.1

theorem find?_of_mem {rows : List (K × V)} (h : (rows.map Prod.fst).Nodup) {k : K} {v : V}
    (hm : (k, v) ∈ rows) : rows.find? (fun row => row.1 == k) = some (k, v) := by
  induction rows with
  | nil => cases hm
  | cons row rest ih =>
    rw [map_cons, nodup_cons] at h
    rcases mem_cons.mp hm with rfl | hm
    · simp
    have hne : row.1 ≠ k := fun he => h.1 (he ▸ mem_map_of_mem (f := Prod.fst) hm)
    rw [List.find?_cons_of_neg (by simpa using hne)]
    exact ih h.2 hm

theorem mem_rows {t : Table K V} {k : K} {v : V} : (k, v) ∈ t.rows ↔ t.get? k = some v := by
  constructor
  · intro hm
    simp [get?, find?_of_mem t.nodup hm]
  intro hg
  simp only [get?, Option.map_eq_some_iff] at hg
  obtain ⟨row, hr, rfl⟩ := hg
  have hk : row.1 = k := by simpa using List.find?_some hr
  exact hk ▸ mem_of_find?_eq_some hr

theorem mem_keys {t : Table K V} {k : K} : k ∈ t.rows.map Prod.fst ↔ (t.get? k).isSome := by
  rw [Option.isSome_iff_exists]
  constructor
  · intro hk
    obtain ⟨row, hr, rfl⟩ := mem_map.mp hk
    exact ⟨row.2, mem_rows.mp hr⟩
  · rintro ⟨v, hv⟩
    exact mem_map_of_mem (f := Prod.fst) (mem_rows.mpr hv)

@[simp] theorem get?_empty (k : K) : (empty : Table K V).get? k = none := rfl

theorem insert_eq_some {t t' : Table K V} {k : K} {v : V} :
    t.insert k v = some t' ↔ t.get? k = none ∧ t'.rows = t.rows ++ [(k, v)] := by
  have hf : k ∉ t.rows.map Prod.fst ↔ t.get? k = none := by
    rw [mem_keys, Option.not_isSome_iff_eq_none]
  unfold insert
  split
  · rename_i hk
    simp only [reduceCtorEq, false_iff, not_and]
    intro hn
    exact absurd hk (hf.mpr hn)
  rename_i hk
  simp only [Option.some.injEq, hf.mp hk, true_and]
  constructor
  · rintro rfl
    rfl
  intro hr
  cases t'
  simp only at hr
  subst hr
  rfl

theorem get?_insert {t t' : Table K V} {k : K} {v : V} (h : t.insert k v = some t') (k' : K) :
    t'.get? k' = if k' = k then some v else t.get? k' := by
  obtain ⟨hf, hrows⟩ := insert_eq_some.mp h
  simp only [get?, hrows, List.find?_append]
  by_cases hk : k' = k
  · subst hk
    have hn : t.rows.find? (fun row => row.1 == k') = none := by
      simpa [get?] using hf
    simp [hn]
  · have hne : (k == k') = false := by simpa using fun he => hk he.symm
    simp [hk, hne]

/-- Tables with the same rows under every key differ in order only. -/
theorem rows_perm {t t' : Table K V} (h : ∀ k, t.get? k = t'.get? k) : t.rows.Perm t'.rows := by
  refine (perm_ext_iff_of_nodup (t.nodup.of_map _) (t'.nodup.of_map _)).mpr fun row => ?_
  rw [mem_rows, mem_rows, h]

/-- Tables that agree on the rows a query selects answer it alike, up to order. -/
theorem filter_perm {t t' : Table K V} {p : K × V → Bool}
    (h : ∀ k v, p (k, v) = true → (t.get? k = some v ↔ t'.get? k = some v)) :
    (t.rows.filter p).Perm (t'.rows.filter p) := by
  refine (perm_ext_iff_of_nodup ((t.nodup.of_map _).filter p) ((t'.nodup.of_map _).filter p)).mpr ?_
  rintro ⟨k, v⟩
  rw [mem_filter, mem_filter, mem_rows, mem_rows]
  exact and_congr_left (h k v)

theorem get?_filter_eq {t t' : Table K V} {k : K} {p : V → Bool}
    (h : ∀ v, p v = true → (t.get? k = some v ↔ t'.get? k = some v)) : (t.get? k).filter p = (t'.get? k).filter p := by
  ext v
  rw [Option.filter_eq_some_iff, Option.filter_eq_some_iff]
  exact and_congr_left (h v)

/-- A table with one more row. -/
theorem rows_perm_append {t t' : Table K V} {k : K} {v : V} (hf : t.get? k = none)
    (h : ∀ k', t'.get? k' = if k' = k then some v else t.get? k') : t'.rows.Perm (t.rows ++ [(k, v)]) := by
  have hk : k ∉ t.rows.map Prod.fst := by rw [mem_keys, hf]; exact Bool.false_ne_true
  have hi : t.insert k v = some ⟨t.rows ++ [(k, v)], _⟩ := dif_neg hk
  have hperm := rows_perm fun k' => (h k').trans (get?_insert hi k').symm
  exact hperm

theorem get?_update (t : Table K V) (k : K) (f : V → V) (k' : K) :
    (t.update k f).get? k' = if k' = k then (t.get? k).map f else t.get? k' := by
  obtain ⟨rows, hn⟩ := t
  simp only [get?, update]
  clear hn
  induction rows with
  | nil => simp
  | cons row rest ih =>
    by_cases hr : row.1 = k
    · by_cases hk : k' = k
      · subst hk
        simp [hr]
      · have hne : (row.1 == k') = false := by simpa [hr] using fun he => hk he.symm
        simpa [hr, hk, List.find?_cons, hr ▸ hne] using ih
    by_cases hk : k' = k
    · have hne : (row.1 == k) = false := by simpa using hr
      subst hk
      simpa [hr, List.find?_cons, hne] using ih
    by_cases he : row.1 = k'
    · simp [hk, he]
    · have hne : (row.1 == k') = false := by simpa using he
      simpa [hr, hk, List.find?_cons, hne] using ih

theorem get?_delete (t : Table K V) (p : K → Bool) (k : K) : (t.delete p).get? k = if p k then none else t.get? k := by
  obtain ⟨rows, hn⟩ := t
  simp only [get?, delete]
  clear hn
  induction rows with
  | nil => simp
  | cons row rest ih =>
    cases hp : p row.1
    · by_cases he : row.1 = k
      · subst he
        simp [hp]
      · have hne : (row.1 == k) = false := by simpa using he
        simpa [hp, List.find?_cons, hne] using ih
    · by_cases he : row.1 = k
      · subst he
        simpa [hp] using ih
      · have hne : (row.1 == k) = false := by simpa using he
        simpa [hp, List.find?_cons, hne] using ih

theorem get?_updateWhere (t : Table K V) (p : K → V → Bool) (f : V → V) (k : K) :
    (t.updateWhere p f).get? k = (t.get? k).map fun v => if p k v then f v else v := by
  cases hk : t.get? k with
  | some v =>
    rw [Option.map_some]
    refine mem_rows.mp (mem_map.mpr ⟨(k, v), mem_rows.mpr hk, rfl⟩)
  | none =>
    have hkey : k ∉ (t.updateWhere p f).rows.map Prod.fst := by
      rw [updateWhere, map_map]
      show k ∉ t.rows.map Prod.fst
      rw [mem_keys, hk]
      exact Bool.false_ne_true
    rw [mem_keys, Option.not_isSome_iff_eq_none] at hkey
    exact hkey

theorem get?_deleteWhere (t : Table K V) (p : K → V → Bool) (k : K) :
    (t.deleteWhere p).get? k = (t.get? k).filter fun v => !p k v := by
  refine Option.ext fun v => ?_
  rw [← mem_rows, deleteWhere, mem_filter, mem_rows, Option.filter_eq_some_iff]

theorem get?_put (t : Table K V) (k : K) (v : V) (k' : K) :
    (t.put k v).get? k' = if k' = k then some v else t.get? k' := by
  have hi : (t.delete fun k' => k' == k).insert k v = some (t.put k v) :=
    insert_eq_some.mpr ⟨by rw [get?_delete]; simp, rfl⟩
  rw [get?_insert hi, get?_delete]
  by_cases hk : k' = k <;> simp [hk]

/-! ### All keys at once -/

theorem get?_put_eq (t : Table K V) (k : K) (v : V) : (t.put k v).get? = Function.update t.get? k (some v) :=
  funext fun k' => by rw [get?_put, update_apply]

theorem get?_insert_eq {t t' : Table K V} {k : K} {v : V} (h : t.insert k v = some t') :
    t'.get? = Function.update t.get? k (some v) :=
  funext fun k' => by rw [get?_insert h, update_apply]

theorem get?_delete_eq (t : Table K V) (k : K) : (t.delete (· == k)).get? = Function.update t.get? k none :=
  funext fun k' => by simp [get?_delete, update_apply]

theorem get?_update_eq (t : Table K V) (k : K) (f : V → V) : (t.update k f).get? = Function.update t.get? k ((t.get? k).map f) :=
  funext fun k' => by rw [get?_update, update_apply]

theorem eq_empty {t : Table K V} (h : t.get? = (empty : Table K V).get?) : t = empty := by
  have hperm : t.rows.Perm (empty : Table K V).rows := rows_perm fun k => by rw [h]
  obtain ⟨rows, _⟩ := t
  obtain rfl := hperm.eq_nil
  rfl

/-! ### Sums -/

def total (t : Table K V) (f : V → Nat) : Nat := (t.rows.map fun row => f row.2).sum

/-- The table with every value mapped. -/
def mapValues {W : Type} (f : V → W) (t : Table K V) : Table K W :=
  ⟨t.rows.map fun row => (row.1, f row.2), by
    rw [List.map_map]
    exact t.nodup⟩

theorem get?_mapValues {W : Type} (f : V → W) (t : Table K V) (k : K) : (t.mapValues f).get? k = (t.get? k).map f := by
  simp [get?, mapValues, List.find?_map, comp_def]

/-- The sum depends on the values under the keys only. -/
theorem total_congr {W : Type} {t : Table K V} {t' : Table K W} {f : V → Nat} {g : W → Nat}
    (h : ∀ k, (t.get? k).map f = (t'.get? k).map g) : t.total f = t'.total g := by
  have hperm : (t.mapValues f).rows.Perm (t'.mapValues g).rows :=
    rows_perm fun k => by rw [get?_mapValues, get?_mapValues, h]
  have hsum := (hperm.map Prod.snd).sum_nat
  simpa [mapValues, total, map_map, comp_def] using hsum

/-! ### A table from a list -/

section
variable {α : Type} (key : α → K) (value : α → V)

/-- The table of a list, filled in its order: a later item replaces an earlier one of its key. -/
def collect (l : List α) : Table K V := l.foldl (fun t a => t.put (key a) (value a)) empty

theorem collect_append (l : List α) (a : α) :
    collect key value (l ++ [a]) = (collect key value l).put (key a) (value a) := by
  rw [collect, foldl_append]
  rfl

theorem collect_eq_none {l : List α} {k : K} : (collect key value l).get? k = none ↔ ∀ a ∈ l, key a ≠ k := by
  induction l using List.reverseRecOn with
  | nil => exact ⟨fun _ _ h => (nomatch h), fun _ => rfl⟩
  | append_singleton l a ih =>
    rw [collect_append, get?_put, forall_mem_append, forall_mem_singleton, ← ih]
    by_cases hk : k = key a
    · simp [hk]
    · rw [if_neg hk]
      exact ⟨fun h => ⟨h, fun he => hk he.symm⟩, And.left⟩

/-- The last item of a key is the one kept. -/
theorem get?_collect (l : List α) (k : K) : (collect key value l).get? k = (l.reverse.find? fun a => key a == k).map value := by
  induction l using List.reverseRecOn with
  | nil => rfl
  | append_singleton l a ih =>
    rw [collect_append, get?_put, ih, reverse_append, reverse_singleton, singleton_append, List.find?_cons]
    by_cases hk : k = key a
    · simp [hk]
    · have hne : (key a == k) = false := by simpa using fun he => hk he.symm
      rw [if_neg hk, hne]

/-- With no key twice, nothing of the list is lost. -/
theorem collect_eq_some {l : List α} (h : (l.map key).Nodup) {k : K} {v : V} :
    (collect key value l).get? k = some v ↔ ∃ a ∈ l, value a = v ∧ key a = k := by
  induction l using List.reverseRecOn with
  | nil => exact ⟨fun h => (nomatch h), fun ⟨_, h, _⟩ => (nomatch h)⟩
  | append_singleton l a ih =>
    rw [map_append, nodup_append'] at h
    have hf : ∀ b ∈ l, key b ≠ key a := by
      intro b hb he
      exact h.2.2 (mem_map_of_mem hb) (he ▸ mem_singleton_self _)
    rw [collect_append, get?_put]
    by_cases hk : k = key a
    · rw [if_pos hk, Option.some_inj]
      constructor
      · exact fun hv => ⟨a, mem_append_right _ (mem_singleton_self _), hv, hk.symm⟩
      rintro ⟨b, hb, hv, he⟩
      rcases mem_append.mp hb with hold | hnew
      · exact absurd (he.trans hk) (hf b hold)
      · exact mem_singleton.mp hnew ▸ hv
    · rw [if_neg hk, ih h.1]
      constructor
      · rintro ⟨b, hb, hv, he⟩
        exact ⟨b, mem_append_left _ hb, hv, he⟩
      rintro ⟨b, hb, hv, he⟩
      rcases mem_append.mp hb with hold | hnew
      · exact ⟨b, hold, hv, he⟩
      · exact absurd (he.symm.trans (mem_singleton.mp hnew ▸ rfl)) hk

end

theorem length_update (t : Table K V) (k : K) (f : V → V) : (t.update k f).rows.length = t.rows.length := by
  simp [update]

theorem select_insert {t t' : Table K V} {k : K} {v : V} (h : t.insert k v = some t') (p : K → Bool) :
    t'.select p = t.select p ++ (if p k then [(k, v)] else []) := by
  simp only [select, (insert_eq_some.mp h).2, filter_append]
  cases hp : p k <;> simp [hp]

omit [DecidableEq K] in
theorem select_delete (t : Table K V) (d p : K → Bool) :
    (t.delete d).select p = (t.select p).filter fun row => !d row.1 := by
  simp only [select, delete, filter_filter]
  apply filter_congr
  intro row _
  rw [Bool.and_comm]

theorem mem_select {t : Table K V} {p : K → Bool} {k : K} {v : V} :
    (k, v) ∈ t.select p ↔ t.get? k = some v ∧ p k = true := by
  simp [select, ← mem_rows]

end Table
end Eggwork.Lib
