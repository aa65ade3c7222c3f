import Eggwork.Lib.Sorting
import Eggwork.Server.Quiescence
import Mathlib.Data.Prod.Lex
import Mathlib.Data.String.Basic

/-! The listing of executions, page by page.

Every page loads and decodes all the rows, and takes its totals from the snapshots,
where the update process counts by the column. The two agree on every store the
calls lead to (`active_counts_agree`), and the pages that follow one another are the
executions in order, each once (`listing_partitions`). -/
namespace Eggwork.Server
open Lib Store List

def maxExecutionPage : Nat := 200

inductive OperationsError where
  | data | bounds
deriving DecidableEq

def stateLabel : ExecutionState → String
  | .accepted => "accepted"
  | .preparing => "preparing"
  | .running => "running"
  | .cancelling => "cancelling"
  | .succeeded => "succeeded"
  | .failed => "failed"
  | .cancelled => "cancelled"
  | .timedOut => "timed_out"
  | .interrupted => "interrupted"

/-- What a page says of all executions. -/
structure Totals where
  total : Nat
  activeExecutions : Nat
  states : Table String Nat
  stdoutBytes : Nat
  stderrBytes : Nat
  cleanupFailures : Nat

structure ExecutionPage extends Totals where
  limit : Nat
  offset : Nat
  nextOffset : Option Nat
  executions : List ExecutionSnapshot

def isActive : ExecutionState → Bool
  | .accepted | .preparing | .running | .cancelling => true
  | _ => false

def Totals.of (executions : List ExecutionSnapshot) : Totals where
  total := executions.length
  activeExecutions := executions.countP (isActive ·.state)
  states := executions.foldl (fun states snapshot =>
    states.put (stateLabel snapshot.state) ((states.get? (stateLabel snapshot.state)).getD 0 + 1)) .empty
  stdoutBytes := (executions.filterMap (·.result)).foldl (fun sum result => ExecutionStore.saturatingAdd sum result.stdoutBytes) 0
  stderrBytes := (executions.filterMap (·.result)).foldl (fun sum result => ExecutionStore.saturatingAdd sum result.stderrBytes) 0
  cleanupFailures := (executions.filterMap (·.result)).countP (·.cleanupWarning.isSome)

/-- The order of the pages; the column compares generations as signed numbers. -/
def pageOrder (snapshot : ExecutionSnapshot) : String ×ₗ Nat := toLex (snapshot.executionId.value, snapshot.generation.get.toNat)

variable {J : Serde} {st : ExecutionStore J}

def loadSnapshots (st : ExecutionStore J) : Except OperationsError (List ExecutionSnapshot) :=
  match ((sortBy (fun row => toLex (row.1.1.value, row.1.2)) st.executions.rows).take 2049).mapM fun row =>
    J.snapshot.decode row.2.snapshotJson with
  | none => .error .data
  | some snapshots => if snapshots.length > 2048 then .error .bounds else .ok snapshots

def executionPage (st : ExecutionStore J) (limit offset : Nat) : Except OperationsError ExecutionPage := do
  let limit := max 1 (min limit maxExecutionPage)
  let offset := min offset 2048
  let snapshots ← loadSnapshots st
  let executions := ((sortBy pageOrder snapshots).drop (min offset snapshots.length)).take limit
  let next := offset + executions.length
  return { Totals.of snapshots with
    limit, offset, executions
    nextOffset := if next < snapshots.length then some next else none }

/-- The pages from an offset on, each where the one before it says, up to one that says nothing. -/
inductive Listed (st : ExecutionStore J) (limit : Nat) : Nat → List ExecutionPage → Prop
  | last {offset : Nat} {page : ExecutionPage} (hpage : executionPage st limit offset = .ok page)
      (hlast : page.nextOffset = none) : Listed st limit offset [page]
  | more {offset next : Nat} {page : ExecutionPage} {pages : List ExecutionPage}
      (hpage : executionPage st limit offset = .ok page) (hnext : page.nextOffset = some next)
      (hrest : Listed st limit next pages) : Listed st limit offset (page :: pages)

/-! ### Loading -/

/-- Snapshots loaded from a store: each of its row, and of each row one. -/
structure Loaded (st : ExecutionStore J) (snapshots : List ExecutionSnapshot) : Prop where
  keys : (snapshots.map rowKey).Perm (st.executions.rows.map Prod.fst)
  stored : ∀ snapshot ∈ snapshots, ∃ row, st.executions.get? (rowKey snapshot) = some row ∧
    J.snapshot.decode row.snapshotJson = some snapshot ∧ row.state = stateName snapshot.state

theorem loadSnapshots_eq (hc : Coherent st) : ∃ snapshots, Loaded st snapshots ∧
    loadSnapshots st = if st.executions.rows.length ≤ 2048 then .ok snapshots else .error .bounds := by
  unfold loadSnapshots
  have hperm := sortBy_perm (fun row => toLex (row.1.1.value, row.1.2)) st.executions.rows
  generalize (sortBy (fun row => toLex (row.1.1.value, row.1.2)) st.executions.rows :
    List (RowKey × ExecutionRow J)) = sorted at hperm ⊢
  have hown : ∀ p ∈ sorted, ∃ snap, p.2.snapshotJson = J.snapshot.encode snap ∧ rowKey snap = p.1 ∧
      p.2.state = stateName snap.state := fun p hp => hc p.1 p.2 (Table.mem_rows.mp (hperm.mem_iff.mp hp))
  have hd : ∀ p ∈ sorted, ∃ snap, p.2.snapshotJson = J.snapshot.encode snap ∧ rowKey snap = p.1 :=
    fun p hp => (hown p hp).imp fun _ h => ⟨h.1, h.2.1⟩
  obtain ⟨live, hkeys, hdecode, hl⟩ := decode_rows hd
  refine ⟨live.map Prod.snd, ⟨?_, fun snap hsnap => ?_⟩, ?_⟩
  · have hrows : (live.map Prod.snd).map rowKey = live.map Prod.fst := by
      rw [map_map]
      exact map_congr_left fun p hp => (hl p hp).1
    rw [hrows, hkeys]
    exact hperm.map _
  · obtain ⟨p, hp, rfl⟩ := mem_map.mp hsnap
    obtain ⟨hk, row, hr, he⟩ := hl p hp
    obtain ⟨own, hown, _, hst⟩ := hown _ hr
    have hsame := congrArg J.snapshot.decode (hown.symm.trans he)
    rw [J.snapshot.decode_encode, J.snapshot.decode_encode, Option.some.injEq] at hsame
    refine ⟨row, ?_, by rw [he, J.snapshot.decode_encode], hsame ▸ hst⟩
    rw [hk]
    exact Table.mem_rows.mp (hperm.mem_iff.mp hr)
  have hlen : live.length = st.executions.rows.length := by
    have hsame := congrArg length hkeys
    rwa [length_map, length_map, hperm.length_eq] at hsame
  by_cases hsize : st.executions.rows.length ≤ 2048
  · rw [take_of_length_le (by rw [hperm.length_eq]; omega), hdecode, if_pos hsize]
    exact if_neg (by rw [length_map]; omega)
  · obtain ⟨part, hf, hpart, _⟩ := decode_rows fun p hp => hd p (mem_of_mem_take (i := 2049) hp)
    have hpast := congrArg length hf
    rw [length_map, length_map, length_take, hperm.length_eq] at hpast
    rw [hpart, if_neg hsize]
    exact if_pos (by rw [length_map]; omega)

theorem Loaded.active {snapshots : List ExecutionSnapshot} (h : Loaded st snapshots) :
    snapshots.countP (isActive ·.state) = countActiveExecutions st := by
  have hc : ∀ snap ∈ snapshots,
      isActive snap.state = (st.executions.get? (rowKey snap)).any (isLiveName ·.state) := by
    intro snap hsnap
    obtain ⟨row, hr, _, hst⟩ := h.stored snap hsnap
    rw [hr, Option.any_some, hst, isLiveName_stateName]
    cases snap.state <;> rfl
  have hrows : ∀ row ∈ st.executions.rows, isLiveName row.2.state = (st.executions.get? row.1).any (isLiveName ·.state) := by
    intro row hr
    rw [Table.mem_rows.mp hr, Option.any_some]
  calc snapshots.countP (isActive ·.state)
      = (snapshots.map rowKey).countP fun key => (st.executions.get? key).any (isLiveName ·.state) := by
        rw [countP_map]
        exact countP_congr fun snap hsnap => by rw [hc snap hsnap]; rfl
    _ = (st.executions.rows.map Prod.fst).countP fun key => (st.executions.get? key).any (isLiveName ·.state) := h.keys.countP_eq _
    _ = countActiveExecutions st := by
        rw [countP_map]
        exact countP_congr fun row hr => by rw [hrows row hr]; rfl

/-! ### Paging -/

theorem rowKey_eq {a b : ExecutionSnapshot} (h : pageOrder a = pageOrder b) : rowKey a = rowKey b := by
  obtain ⟨hid, hgeneration⟩ := Prod.mk.inj (toLex.injective h)
  have hg : a.generation = b.generation := ExecutionGeneration.mk.injEq .. ▸ UInt64.toNat.inj hgeneration
  rw [rowKey, rowKey, hg, IdType.eq_of_value hid]

section Paging
variable {snapshots : List ExecutionSnapshot} (hload : loadSnapshots st = .ok snapshots) (limit : Nat)
include hload

theorem executionPage_eq (offset : Nat) : ∃ page, executionPage st limit offset = .ok page ∧
    page.toTotals = Totals.of snapshots ∧
    page.executions = ((sortBy pageOrder snapshots).drop (min (min offset 2048) snapshots.length)).take
      (max 1 (min limit maxExecutionPage)) ∧
    page.nextOffset = if min offset 2048 + page.executions.length < snapshots.length then
      some (min offset 2048 + page.executions.length) else none := by
  unfold executionPage
  rw [hload]
  exact ⟨_, rfl, rfl, rfl, rfl⟩

/-- From an offset on, the pages are the rest; each is one execution further at least. -/
theorem listed_from (hsize : snapshots.length ≤ 2048) {offset : Nat} (ho : offset ≤ snapshots.length) :
    ∃ pages, Listed st limit offset pages ∧ pages.flatMap (·.executions) = (sortBy pageOrder snapshots).drop offset ∧
      ∀ page ∈ pages, page.toTotals = Totals.of snapshots := by
  induction hrest : snapshots.length - offset using Nat.strongRecOn generalizing offset with
  | ind rest ih =>
    obtain ⟨page, hpage, ht, he, hn⟩ := executionPage_eq hload limit offset
    rw [min_eq_left (ho.trans hsize)] at he hn
    rw [min_eq_left ho] at he
    have hs := (sortBy_perm pageOrder snapshots).length_eq
    have hlen : page.executions.length = min (max 1 (min limit maxExecutionPage)) (snapshots.length - offset) := by
      rw [he, length_take, length_drop, hs]
    split at hn
    · rename_i hmore
      obtain ⟨pages, hp, hall, hsame⟩ := ih _ (by omega) hmore.le rfl
      refine ⟨page :: pages, .more hpage hn hp, ?_, fun other hne => ?_⟩
      · have hfull : page.executions.length = max 1 (min limit maxExecutionPage) := by omega
        rw [flatMap_cons, hall, hfull, he, ← drop_drop, take_append_drop]
      · rcases mem_cons.mp hne with rfl | hne
        · exact ht
        · exact hsame other hne
    · rename_i hmore
      refine ⟨[page], .last hpage hn, ?_, fun other hne => mem_singleton.mp hne ▸ ht⟩
      rw [flatMap_cons, flatMap_nil, append_nil, he, take_of_length_le]
      rw [length_drop, hs]
      omega

end Paging

/-- **The two counts agree.** After any calls, the column of a row is the name of the
state in its snapshot, and the update process counts as many active executions as any
page reports. A page is answered as long as there are no more than 2048 rows. -/
theorem active_counts_agree (history : List (Call × Bool)) : let st : ExecutionStore J := play .empty history
    (∀ key row, st.executions.get? key = some row →
      ∃ snapshot, J.snapshot.decode row.snapshotJson = some snapshot ∧ row.state = stateName snapshot.state) ∧
    (∀ limit offset page, executionPage st limit offset = .ok page → activeExecutionCount st false = page.activeExecutions) ∧
    (st.executions.rows.length ≤ 2048 → ∀ limit offset, ∃ page, executionPage st limit offset = .ok page) := by
  intro st
  have hc : Coherent st := Reachable.coherent ⟨history, rfl⟩
  obtain ⟨snapshots, hloaded, hload⟩ := loadSnapshots_eq hc
  refine ⟨fun key row hrow => ?_, fun limit offset page hpage => ?_, fun hsize limit offset => ?_⟩
  · obtain ⟨snapshot, hencoded, _, hstate⟩ := hc key row hrow
    exact ⟨snapshot, by rw [hencoded, J.snapshot.decode_encode], hstate⟩
  · split at hload
    · obtain ⟨own, hown, htotals, _⟩ := executionPage_eq hload limit offset
      cases hown.symm.trans hpage
      rw [htotals]
      exact hloaded.active.symm
    · rw [executionPage, hload] at hpage
      cases hpage
  · rw [if_pos hsize] at hload
    obtain ⟨page, hpage, _⟩ := executionPage_eq hload limit offset
    exact ⟨page, hpage⟩

/-- **The pages are a partition.** With at most 2048 executions in a store the calls lead
to, the pages from the start on come to an end, and together are the executions by id and
generation, each once, with the same totals on every page. -/
theorem listing_partitions (h : Reachable st) (hsize : st.executions.rows.length ≤ 2048) (limit : Nat) :
    ∃ pages, Listed st limit 0 pages ∧
      ((pages.flatMap (·.executions)).map rowKey).Perm (st.executions.rows.map Prod.fst) ∧
      (∀ snapshot ∈ pages.flatMap (·.executions), ∃ row, st.executions.get? (rowKey snapshot) = some row ∧
        J.snapshot.decode row.snapshotJson = some snapshot) ∧
      (pages.flatMap (·.executions)).Pairwise (pageOrder · < pageOrder ·) ∧
      ∃ totals, ∀ page ∈ pages, page.toTotals = totals := by
  obtain ⟨snapshots, hloaded, hload⟩ := loadSnapshots_eq h.coherent
  rw [if_pos hsize] at hload
  have hlength : snapshots.length ≤ 2048 := by
    have hkeys := hloaded.keys.length_eq
    rw [length_map, length_map] at hkeys
    omega
  obtain ⟨pages, hlisted, hall, htotals⟩ := listed_from hload limit hlength (Nat.zero_le _)
  rw [drop_zero] at hall
  have hkeys : ((sortBy pageOrder snapshots).map rowKey).Perm (st.executions.rows.map Prod.fst) :=
    ((sortBy_perm pageOrder snapshots).map rowKey).trans hloaded.keys
  refine ⟨pages, hlisted, hall ▸ hkeys, fun snapshot hsnapshot => ?_, ?_, _, htotals⟩
  · rw [hall, mem_sortBy] at hsnapshot
    obtain ⟨row, hrow, hdecoded, _⟩ := hloaded.stored snapshot hsnapshot
    exact ⟨row, hrow, hdecoded⟩
  · have hdistinct := pairwise_map.mp (hkeys.nodup_iff.mpr st.executions.nodup)
    rw [hall]
    exact (sortBy_pairwise pageOrder snapshots).imp₂ (fun a b hle hne => hle.lt_of_ne fun he => hne (rowKey_eq he)) hdistinct

theorem executionPage_length {limit offset : Nat} {page : ExecutionPage} (h : executionPage st limit offset = .ok page) :
    page.executions.length ≤ max 1 (min limit maxExecutionPage) := by
  obtain ⟨_, _, ⟨⟩⟩ := bind_eq_ok.mp h
  exact length_take_le _ _

namespace Example

def waiting (id : ExecutionId) : Call × Bool :=
  (.reserve { finishedSnapshot .accepted with executionId := id } 1 "digest" "alice" "lease" 1000 0, true)

/-- Three executions, admitted in another order than that of their ids. -/
def three : List (Call × Bool) := [waiting ⟨"beta", by decide⟩, waiting ⟨"gamma", by decide⟩, waiting ⟨"alpha", by decide⟩]

end Example

/-- With two to a page three executions take a second one. -/
theorem listing_partitions_two :
    ∃ first next rest, executionPage (play (.empty : ExecutionStore .json) Example.three) 2 0 = .ok first ∧
      first.nextOffset = some next ∧ Listed (play (.empty : ExecutionStore .json) Example.three) 2 next rest ∧
      (((first :: rest).flatMap (·.executions)).map (·.executionId.value)).Perm ["beta", "gamma", "alpha"] := by
  obtain ⟨pages, hlisted, hkeys, _⟩ := listing_partitions (J := .json) ⟨Example.three, rfl⟩ (by decide) 2
  have hids := hkeys.map fun key : RowKey => key.1.value
  rw [map_map] at hids
  cases hlisted with
  | last hpage =>
    have hlength := hids.length_eq
    rw [length_map, flatMap_cons, flatMap_nil, append_nil] at hlength
    have hfew := executionPage_length hpage
    rw [hlength] at hfew
    exact absurd hfew (by decide)
  | more hpage hnext hrest => exact ⟨_, _, _, hpage, hnext, hrest, hids⟩

end Eggwork.Server
