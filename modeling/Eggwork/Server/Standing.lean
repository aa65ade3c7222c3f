import Eggwork.Server.Filing

/-! What holds of every node, whatever requests are dropped.

The invariants of admission and of runs need no rule on dropped requests. On the
node itself they say that the map leads to records whose rows are stored, and that
what is seen as ended has ended in the store. -/
namespace Eggwork.Server
open Lib Store Option

variable {J : Serde} {config : NodeConfig} {s : Node J}

/-- **Records are backed by the store.** In every such run an entry of the map is a
record of that execution, every record has the row of its generation in the store,
and one that is seen as ended has a terminal row, so that no crash undoes the end. -/
theorem records_are_stored (hrun : Steps (step config) Free (fresh J) s) : (∀ id r, s.executions.get? id = some r →
      ∃ record, s.records[r]? = some record ∧ (rowKey record.snapshot).1 = id) ∧
    ∀ record ∈ s.records, ∃ row, s.store.executions.get? (rowKey record.snapshot) = some row ∧
      (isTerminal record.snapshot.state = true → isTerminalName row.state = true) := by
  have hind := (founded_inductive (J := J) Free).left.and (attested_inductive Free)
  obtain ⟨_, _, ⟨⟨_, hrecorded⟩, _⟩, hattested⟩ := hind.holds hrun ⟨_, Discipline.keeps_fresh, founded_fresh,
    fun _ _ hr => (nomatch hr), fun _ _ _ _ ht => (nomatch ht)⟩
  refine ⟨fun id r hentry => ?_, fun record hrecord => ?_⟩
  · obtain ⟨view, hview, hid⟩ := hrecorded.mapped id r hentry
    rw [← (hrecorded.named r view hview).1] at hid
    rw [view_getElem?] at hview
    obtain ⟨record, hrecord, rfl⟩ := map_eq_some_iff.mp hview
    exact ⟨record, hrecord, hid⟩
  · obtain ⟨r, hr⟩ := List.mem_iff_getElem?.mp hrecord
    obtain ⟨hkey, hstored⟩ := hrecorded.named r _ (view_record hr)
    obtain ⟨row, hrow⟩ := isSome_iff_exists.mp hstored
    refine ⟨row, (congrArg _ hkey).trans hrow, fun hended => ?_⟩
    obtain ⟨row', hrow', hterminal⟩ := hattested.written r _ (view_record hr) hended
    rw [hrow, some.injEq] at hrow'
    rw [hrow']
    exact hterminal

open Example in
theorem records_are_stored_ended : ∃ (s : Node Serde.json) (record : ExecutionRecord) (row : ExecutionRow Serde.json),
    record ∈ s.records ∧ s.store.executions.get? (rowKey record.snapshot) = some row ∧
      isTerminalName row.state = true := by
  have hfollow : (follow (step config) Free (fresh Serde.json) (admitted ++ running ++ ended)).any
      (fun s => s.records.any fun record => isTerminal record.snapshot.state) = true := by
    decide
  obtain ⟨s, hrun, hstate⟩ := follow_reaches hfollow
  obtain ⟨record, hrecord, hended⟩ := List.any_eq_true.mp hstate
  obtain ⟨row, hrow, hterminal⟩ := (records_are_stored hrun).2 record hrecord
  exact ⟨s, record, row, hrecord, hrow, hterminal hended⟩

end Eggwork.Server
