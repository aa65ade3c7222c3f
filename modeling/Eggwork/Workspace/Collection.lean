import Eggwork.Workspace.Manager

/-! Garbage collection of workspaces.

A pass takes the earliest expired workspaces up to its limit, removes their
directories one by one and deletes their rows in one transaction. A directory that
cannot be removed ends the pass and takes the transaction back, but not the
directories that are gone; and the next pass begins with the same window. -/
namespace Eggwork.Workspace
open Lib Effect Function List Nat Table Prod

variable {entries cs : List (WorkspaceId × WorkspaceRow)}

/-- What the schema and the manager keep true of the rows: storage keys are unique and well formed. -/
structure WellFormed (m : Manager) (d : Disk) : Prop where
  unique : (d.workspaces.rows.map fun entry => entry.2.storageKey).Nodup
  valid : ∀ entry ∈ d.workspaces.rows, m.validStorageKey entry.2.storageKey = true

/-- Only removals of directories fail. -/
structure SqlWorks (fates : Fates) : Prop where
  begin_ : fates .collectBegin = .happens
  delete : ∀ id, fates (.collectDelete id) = .happens
  commit : fates .collectCommit = .happens

section
variable {m : Manager} {fates : Fates} {now limit : Nat} {d d' : Disk}

/-- The directory of a workspace cannot be removed. -/
def Stuck (fates : Fates) (entry : WorkspaceId × WorkspaceRow) : Prop :=
  fates (.removeDirectory entry.2.storageKey) ≠ .happens

instance (fates : Fates) (entry : WorkspaceId × WorkspaceRow) : Decidable (Stuck fates entry) := by
  unfold Stuck
  infer_instance

/-! ### One pass -/

def Disk.without (keys : List String) (d : Disk) : Disk := { d with directories := d.directories.delete keys.contains }

theorem Disk.without_nil (d : Disk) : d.without [] = d := by
  have hrows : d.directories.delete [].contains = d.directories := by
    simp [delete]
  rw [Disk.without, hrows]

theorem Disk.without_cons (key : String) (keys : List String) (d : Disk) :
    (d.removeDirectory key).without keys = d.without (key :: keys) := by
  simp only [Disk.without, Disk.removeDirectory, Table.delete, filter_filter, Disk.mk.injEq, Table.mk.injEq, true_and]
  refine filter_congr fun row _ => ?_
  rw [contains_cons, Bool.not_or, Bool.and_comm]

abbrev Rows := Table WorkspaceId WorkspaceRow

/-- The rows without those of some candidates. -/
def dropRows (now : Nat) (rows : Rows) (candidates : List (WorkspaceId × WorkspaceRow)) : Rows :=
  rows.deleteWhere fun id row => candidates.any (fun c => id == c.1) && isExpired now row

theorem dropRows_cons (now : Nat) (rows : Rows) (c : WorkspaceId × WorkspaceRow) (rest : List (WorkspaceId × WorkspaceRow)) :
    dropRows now (rows.deleteWhere fun id row => id == c.1 && isExpired now row) rest = dropRows now rows (c :: rest) := by
  simp only [dropRows, Table.deleteWhere, filter_filter, Table.mk.injEq]
  refine filter_congr fun row _ => ?_
  rw [any_cons]
  cases row.1 == c.1 <;> cases isExpired now row.2 <;> simp

theorem collectOne_apply (hsql : SqlWorks fates) {rows : Rows} {n : Nat} {c : WorkspaceId × WorkspaceRow}
    (hv : m.validStorageKey c.2.storageKey = true) (hs : ¬ Stuck fates c) (s : Disk) :
    collectOne m fates now (rows, n) c s =
      (.ok (rows.deleteWhere fun id row => id == c.1 && isExpired now row, n + 1), s.removeDirectory c.2.storageKey) := by
  have hr := commit_happens (s := s) (g := Disk.removeDirectory c.2.storageKey) (not_not.mp hs)
  have hd (u : Disk) := commit_happens (s := u) (g := id) (hsql.delete c.1)
  simp only [collectOne, hv, if_true, bind_apply, hr, attempt, hd, pure_apply, id]

/-- A pass over directories that can all be removed. -/
theorem collect_loop (hsql : SqlWorks fates) (hv : ∀ c ∈ cs, m.validStorageKey c.2.storageKey = true)
    (hf : ∀ c ∈ cs, ¬ Stuck fates c) (rows : Rows) (n : Nat) (s : Disk) : cs.foldlM (collectOne m fates now) (rows, n) s =
      (.ok (dropRows now rows cs, n + cs.length), s.without (cs.map (·.2.storageKey))) := by
  induction cs generalizing rows n s with
  | nil =>
    have hrows : dropRows now rows [] = rows := by
      simp [dropRows, deleteWhere]
    rw [foldlM_nil, pure_apply, hrows, map_nil, Disk.without_nil]
    rfl
  | cons c rest ih =>
    rw [foldlM_cons, bind_apply, collectOne_apply hsql (hv c mem_cons_self) (hf c mem_cons_self)]
    simp only
    rw [ih (fun c hc => hv c (mem_cons_of_mem _ hc)) (fun c hc => hf c (mem_cons_of_mem _ hc)),
      dropRows_cons, map_cons, Disk.without_cons, length_cons, add_assoc, add_comm 1]

/-- A pass that meets a stuck directory: those before it are gone. -/
theorem collect_loop_stuck (hsql : SqlWorks fates) (hv : ∀ c ∈ cs, m.validStorageKey c.2.storageKey = true)
    (hs : ∃ c ∈ cs, Stuck fates c) (rows : Rows) (n : Nat) (s : Disk) :
    ∃ stop, cs.foldlM (collectOne m fates now) (rows, n) s =
      (.error stop, s.without ((cs.takeWhile fun c => decide (¬ Stuck fates c)).map (·.2.storageKey))) := by
  induction cs generalizing rows n s with
  | nil =>
    obtain ⟨c, hc, _⟩ := hs
    cases hc
  | cons c rest ih =>
    rw [foldlM_cons]
    by_cases hc : Stuck fates c
    · have hr : ∃ stop, collectOne m fates now (rows, n) c s = (.error stop, s) := by
        simp only [collectOne, hv c mem_cons_self, if_true, bind_apply]
        unfold Stuck at hc
        cases hfate : fates (.removeDirectory c.2.storageKey) with
        | happens => exact absurd hfate hc
        | fails error | crashes => exact ⟨_, rfl⟩
      obtain ⟨stop, hr⟩ := hr
      refine ⟨stop, ?_⟩
      rw [bind_apply, hr, takeWhile_cons_of_neg (by simpa using hc), map_nil, Disk.without_nil]
    · have hrest : ∃ c ∈ rest, Stuck fates c := by
        obtain ⟨c', hc', hs'⟩ := hs
        rcases mem_cons.mp hc' with rfl | hm
        · exact absurd hs' hc
        · exact ⟨c', hm, hs'⟩
      obtain ⟨stop, hr⟩ := ih (fun c hc => hv c (mem_cons_of_mem _ hc)) hrest
        (rows.deleteWhere fun id row => id == c.1 && isExpired now row) (n + 1) (s.removeDirectory c.2.storageKey)
      refine ⟨stop, ?_⟩
      rw [bind_apply, collectOne_apply hsql (hv c mem_cons_self) hc]
      simp only
      rw [hr, takeWhile_cons_of_pos (by simpa using hc), map_cons, Disk.without_cons]

/-- What one pass is over. -/
abbrev window (now limit : Nat) (d : Disk) : List (WorkspaceId × WorkspaceRow) := (expired now d).take limit

theorem mem_expired {e : WorkspaceId × WorkspaceRow} :
    e ∈ expired now d ↔ d.workspaces.get? e.1 = some e.2 ∧ isExpired now e.2 = true := by
  rw [expired, mem_sortBy, mem_filter, ← mem_rows]

theorem WellFormed.window (hd : WellFormed m d) :
    ∀ c ∈ window now limit d, m.validStorageKey c.2.storageKey = true := fun c hc =>
  hd.valid c (mem_rows.mpr (mem_expired.mp (mem_of_mem_take hc)).1)

/-- A pass with nothing stuck in its window. -/
theorem garbageCollect_free (hsql : SqlWorks fates) (hd : WellFormed m d)
    (hf : ∀ c ∈ window now limit d, ¬ Stuck fates c) : (garbageCollect m fates now limit false d).2 =
      { d.without ((window now limit d).map (·.2.storageKey)) with
        workspaces := dropRows now d.workspaces (window now limit d) } := by
  have hb : attempt (fates .collectBegin) d = (.ok (), d) := attempt_ok.mpr ⟨hsql.begin_, rfl⟩
  simp only [garbageCollect, bind_apply, hb, get_apply, Bool.false_eq_true, if_false,
    collect_loop hsql hd.window hf, commit_happens hsql.commit, pure_apply]

theorem garbageCollect_stuck (hsql : SqlWorks fates) (hd : WellFormed m d)
    (hs : ∃ c ∈ window now limit d, Stuck fates c) : (garbageCollect m fates now limit false d).2 =
      d.without (((window now limit d).takeWhile fun c => decide (¬ Stuck fates c)).map (·.2.storageKey)) := by
  have hb : attempt (fates .collectBegin) d = (.ok (), d) := attempt_ok.mpr ⟨hsql.begin_, rfl⟩
  obtain ⟨stop, hloop⟩ : ∃ stop, (window now limit d).foldlM (collectOne m fates now) (d.workspaces, 0) d =
      (.error stop, _) := collect_loop_stuck hsql hd.window hs d.workspaces 0 d
  simp only [garbageCollect, bind_apply, hb, get_apply, Bool.false_eq_true, if_false, hloop]

theorem garbageCollect_dry (hsql : SqlWorks fates) : (garbageCollect m fates now limit true d).2 = d := by
  have hb : attempt (fates .collectBegin) d = (.ok (), d) := attempt_ok.mpr ⟨hsql.begin_, rfl⟩
  simp only [garbageCollect, bind_apply, hb, get_apply, if_true, pure_apply, commit_happens hsql.commit]

/-! ### Rows and directories -/

/-- No row is left whose directory the pass removed. -/
def Agrees (d d' : Disk) : Prop :=
  ∀ id row, d'.workspaces.get? id = some row → (d.directories.get? row.storageKey).isSome = true →
    (d'.directories.get? row.storageKey).isSome = true

theorem get?_without (keys : List String) (name : String) :
    (d.without keys).directories.get? name = if name ∈ keys then none else d.directories.get? name := by
  rw [Disk.without, get?_delete]
  simp

theorem WellFormed.entry_eq (hd : WellFormed m d) {a b : WorkspaceId × WorkspaceRow}
    (ha : d.workspaces.get? a.1 = some a.2) (hb : d.workspaces.get? b.1 = some b.2)
    (h : a.2.storageKey = b.2.storageKey) : a = b :=
  eq_of_key_eq hd.unique a (mem_rows.mpr ha) b (mem_rows.mpr hb) h

theorem agrees_free (hd : WellFormed m d) : Agrees d { d.without ((window now limit d).map (·.2.storageKey)) with
      workspaces := dropRows now d.workspaces (window now limit d) } := by
  intro id row hr hdirectory
  have hget := get?_deleteWhere d.workspaces
    (fun id row => (window now limit d).any (fun c => id == c.1) && isExpired now row) id
  obtain ⟨hold, hkept⟩ := Option.filter_eq_some_iff.mp (hget.symm.trans hr)
  show ((d.without _).directories.get? row.storageKey).isSome = true
  rw [get?_without, if_neg]
  · exact hdirectory
  intro hm
  obtain ⟨c, hc, hk⟩ := mem_map.mp hm
  obtain ⟨hold', he⟩ := mem_expired.mp (mem_of_mem_take hc)
  obtain rfl := hd.entry_eq (a := c) (b := (id, row)) hold' hold hk
  have hany : (window now limit d).any (fun c => id == c.1) = true := any_eq_true.mpr ⟨_, hc, beq_self_eq_true _⟩
  rw [hany, Bool.true_and, show isExpired now row = true from he] at hkept
  cases hkept

theorem agrees_stuck {keys : List (WorkspaceId × WorkspaceRow)} (hkeys : ∀ c ∈ keys, d.workspaces.get? c.1 = some c.2) :
    Agrees d (d.without (keys.map (·.2.storageKey))) ↔ ∀ c ∈ keys, d.directories.get? c.2.storageKey = none := by
  constructor
  · intro h c hc
    by_contra hsome
    have hleft := h c.1 c.2 (hkeys c hc) (Option.isSome_iff_ne_none.mpr hsome)
    rw [get?_without, if_pos (mem_map_of_mem (f := fun c => c.2.storageKey) hc)] at hleft
    cases hleft
  intro h id row _ hd
  rw [get?_without, if_neg]
  · exact hd
  intro hm
  obtain ⟨c, hc, hk⟩ := mem_map.mp hm
  have hn := h c hc
  rw [hk] at hn
  rw [hn] at hd
  cases hd

/-- Nothing in the window is stuck, or nothing before the first stuck one has a directory. -/
def Spared (fates : Fates) (now limit : Nat) (d : Disk) : Prop :=
  (∀ c ∈ window now limit d, ¬ Stuck fates c) ∨
    ∀ c ∈ (window now limit d).takeWhile fun c => decide (¬ Stuck fates c), d.directories.get? c.2.storageKey = none

theorem agrees_iff (hsql : SqlWorks fates) (hd : WellFormed m d) (dryRun : Bool) :
    Agrees d (garbageCollect m fates now limit dryRun d).2 ↔ dryRun = true ∨ Spared fates now limit d := by
  cases dryRun with
  | true =>
    rw [garbageCollect_dry hsql]
    exact ⟨fun _ => .inl rfl, fun _ _ _ _ => id⟩
  | false =>
    by_cases hf : ∀ c ∈ window now limit d, ¬ Stuck fates c
    · rw [garbageCollect_free hsql hd hf]
      exact ⟨fun _ => .inr (.inl hf), fun _ => agrees_free hd⟩
    have hs : ∃ c ∈ window now limit d, Stuck fates c := by
      by_contra hn
      exact hf fun c hc hs => hn ⟨c, hc, hs⟩
    rw [garbageCollect_stuck hsql hd hs, agrees_stuck]
    · exact ⟨fun h => .inr (.inr h), fun h => (h.resolve_left nofun).resolve_left hf⟩
    · intro c hc
      exact (mem_expired.mp (mem_of_mem_take (takeWhile_sublist _ |>.subset hc))).1

/-! ### Passes one after another -/

/-- The disk after some passes. -/
def passes (m : Manager) (fates : Fates) (now limit : Nat) (n : Nat) (d : Disk) : Disk :=
  (fun d => (garbageCollect m fates now limit false d).2)^[n] d

theorem expired_nodup (now : Nat) (d : Disk) : ((expired now d).map fst).Nodup :=
  ((sortBy_perm _ _).map fst).nodup_iff.mpr ((filter_sublist.map fst).nodup d.workspaces.nodup)

/-- What is left of a list when its first part is taken out by name. -/
theorem filter_take (h : (entries.map fst).Nodup) (n : Nat) :
    (entries.filter fun e => !(entries.take n).any fun c => e.1 == c.1) = entries.drop n := by
  obtain ⟨first, last, hs, hf, hlast⟩ :
      ∃ first last, entries = first ++ last ∧ entries.take n = first ∧ entries.drop n = last :=
    ⟨_, _, (take_append_drop n entries).symm, rfl, rfl⟩
  rw [hf, hlast, hs, filter_append]
  have hgone : (first.filter fun e => !first.any fun c => e.1 == c.1) = [] := by
    refine filter_eq_nil_iff.mpr fun e hentry => ?_
    have hany : first.any (fun c => e.1 == c.1) = true := any_eq_true.mpr ⟨e, hentry, beq_self_eq_true _⟩
    rw [hany]
    nofun
  have hkept : (last.filter fun e => !first.any fun c => e.1 == c.1) = last := by
    refine filter_eq_self.mpr fun e hentry => ?_
    rw [Bool.not_eq_true', any_eq_false]
    intro c hc he
    rw [hs, map_append, nodup_append'] at h
    exact h.2.2 (mem_map_of_mem hc) (beq_iff_eq.mp he ▸ mem_map_of_mem hentry)
  rw [hgone, hkept, nil_append]

theorem expired_dropRows (hrows : d'.workspaces = dropRows now d.workspaces (window now limit d)) :
    expired now d' = (expired now d).drop limit := by
  rw [← filter_take (expired_nodup now d), expired, expired, ← sortBy_filter, hrows, dropRows, deleteWhere,
    filter_filter, filter_filter]
  refine congrArg _ (filter_congr fun e _ => ?_)
  cases isExpired now e.2 with
  | false => rw [Bool.false_and, Bool.and_false]
  | true =>
    rw [Bool.true_and, Bool.and_true, Bool.and_true]
    rfl

theorem WellFormed.of_sublist (hd : WellFormed m d) (h : d'.workspaces.rows.Sublist d.workspaces.rows) :
    WellFormed m d' :=
  ⟨(h.map _).nodup hd.unique, fun e he => hd.valid e (h.subset he)⟩

/-- One pass, as far as the rows go: the window is gone, or nothing is. -/
theorem pass_cases (hsql : SqlWorks fates) (hd : WellFormed m d) (now limit : Nat) :
    ∃ d', (garbageCollect m fates now limit false d).2 = d' ∧ WellFormed m d' ∧
      ((∀ c ∈ window now limit d, ¬ Stuck fates c) ∧ d'.workspaces = dropRows now d.workspaces (window now limit d) ∨
        (∃ c ∈ window now limit d, Stuck fates c) ∧ d'.workspaces = d.workspaces) := by
  by_cases hf : ∀ c ∈ window now limit d, ¬ Stuck fates c
  · refine ⟨_, garbageCollect_free hsql hd hf, hd.of_sublist filter_sublist, .inl ⟨hf, rfl⟩⟩
  have hs : ∃ c ∈ window now limit d, Stuck fates c := by
    by_contra hn
    exact hf fun c hc hs => hn ⟨c, hc, hs⟩
  exact ⟨_, garbageCollect_stuck hsql hd hs, hd.of_sublist (List.Sublist.refl _), .inr ⟨hs, rfl⟩⟩

theorem expired_congr (h : d'.workspaces = d.workspaces) : expired now d' = expired now d := by
  rw [expired, expired, h]

theorem passes_gone (hsql : SqlWorks fates) (hd : WellFormed m d) {id : WorkspaceId} (h : d.workspaces.get? id = none)
    (n : Nat) : (passes m fates now limit n d).workspaces.get? id = none := by
  induction n generalizing d with
  | zero => exact h
  | succ n ih =>
    obtain ⟨d', hpass, hd', hrows⟩ := pass_cases hsql hd now limit
    rw [passes, iterate_succ_apply, hpass]
    refine ih hd' ?_
    rcases hrows with ⟨_, hrows⟩ | ⟨_, hrows⟩
    · rw [hrows, dropRows, get?_deleteWhere, h]
      rfl
    · rw [hrows, h]

/-- Every expired workspace but one is deleted by passes enough. -/
def Drains (m : Manager) (fates : Fates) (now limit : Nat) (stuck : WorkspaceId × WorkspaceRow) (d : Disk) : Prop :=
  ∃ n, ∀ entry ∈ expired now d, entry ≠ stuck → (passes m fates now limit n d).workspaces.get? entry.1 = none

section
variable {stuck : WorkspaceId × WorkspaceRow}

/-- The stuck workspace comes last, after full windows. -/
def Aligned (limit : Nat) (stuck : WorkspaceId × WorkspaceRow) (entries : List (WorkspaceId × WorkspaceRow)) : Prop :=
  entries.getLast? = some stuck ∧ limit ∣ entries.length - 1

theorem aligned_of_drop (hm : stuck ∈ entries.drop limit) (h : Aligned limit stuck (entries.drop limit)) :
    Aligned limit stuck entries := by
  obtain ⟨hlast, hdvd⟩ := h
  have hlen := length_pos_of_mem hm
  rw [length_drop] at hlen hdvd
  refine ⟨?_, ?_⟩
  · rw [← take_append_drop limit entries, List.getLast?_append, hlast]
    rfl
  · rw [show entries.length - 1 = limit + (entries.length - limit - 1) by omega]
    exact Nat.dvd_add (Nat.dvd_refl limit) hdvd

theorem aligned_drop (hlen : limit < entries.length) (h : Aligned limit stuck entries) :
    Aligned limit stuck (entries.drop limit) := by
  obtain ⟨hlast, hdvd⟩ := h
  refine ⟨?_, ?_⟩
  · rw [List.getLast?_drop, if_neg (by omega), hlast]
  · rw [length_drop, show entries.length - limit - 1 = entries.length - 1 - limit by omega]
    exact Nat.dvd_sub hdvd (Nat.dvd_refl limit)

theorem aligned_of_drains (hsql : SqlWorks fates) (n : Nat) (hd : WellFormed m d) (hs : stuck ∈ expired now d)
    (honly : ∀ e ∈ expired now d, Stuck fates e ↔ e = stuck)
    (h : ∀ e ∈ expired now d, e ≠ stuck → (passes m fates now limit n d).workspaces.get? e.1 = none) :
    Aligned limit stuck (expired now d) := by
  induction n generalizing d with
  | zero =>
    have hall : ∀ e ∈ expired now d, e = stuck := by
      intro e hentry
      by_contra hne
      have hnone : d.workspaces.get? e.1 = none := h e hentry hne
      rw [(mem_expired.mp hentry).1] at hnone
      cases hnone
    have hc := eq_replicate_of_mem hall
    have hnodup := (expired_nodup now d).of_map
    rw [hc, nodup_replicate] at hnodup
    have hone : (expired now d).length = 1 := by
      have := length_pos_of_mem hs
      omega
    rw [hc, hone]
    exact ⟨rfl, Nat.dvd_zero limit⟩
  | succ n ih =>
    obtain ⟨d', hpass, hd', hrows⟩ := pass_cases hsql hd now limit
    have hn : passes m fates now limit (n + 1) d = passes m fates now limit n d' := by
      rw [passes, Function.iterate_succ_apply, hpass]
      rfl
    rw [hn] at h
    rcases hrows with ⟨hf, hrows⟩ | ⟨_, hrows⟩
    · have he := expired_dropRows hrows
      have hm : stuck ∈ (expired now d).drop limit := by
        rw [← take_append_drop limit (expired now d)] at hs
        rcases mem_append.mp hs with hwin | hrest
        · exact absurd ((honly stuck (mem_of_mem_take hwin)).mpr rfl) (hf stuck hwin)
        · exact hrest
      refine aligned_of_drop hm (he ▸ ih hd' (he ▸ hm) ?_ ?_)
      · exact fun e hentry => honly e (mem_of_mem_drop (he ▸ hentry))
      · exact fun e hentry => h e (mem_of_mem_drop (he ▸ hentry))
    · have he : expired now d' = expired now d := expired_congr hrows
      rw [← he]
      exact ih hd' (he ▸ hs) (he ▸ honly) (he ▸ h)

theorem drains_of_aligned (hsql : SqlWorks fates) (hd : WellFormed m d)
    (honly : ∀ e ∈ expired now d, Stuck fates e ↔ e = stuck)
    (h : Aligned limit stuck (expired now d)) : Drains m fates now limit stuck d := by
  induction hlen : (expired now d).length using Nat.strong_induction_on generalizing d with
  | _ length ih =>
    have hm : stuck ∈ expired now d := mem_of_getLast? h.1
    rcases Nat.lt_or_ge 1 length with hmore | hone
    · have hpos : 0 < (expired now d).length - 1 := by omega
      have hl : 0 < limit := Nat.pos_of_dvd_of_pos h.2 hpos
      have hroom : limit ≤ (expired now d).length - 1 := Nat.le_of_dvd hpos h.2
      have hnext := aligned_drop (by omega) h
      -- the stuck one is behind the window, and stands in the list once
      have hf : ∀ c ∈ window now limit d, ¬ Stuck fates c := by
        intro c hc hs
        obtain rfl := (honly c (mem_of_mem_take hc)).mp hs
        have hnodup := (expired_nodup now d).of_map
        rw [← take_append_drop limit (expired now d), nodup_append'] at hnodup
        exact hnodup.2.2 hc (mem_of_getLast? hnext.1)
      obtain ⟨d', hpass, hd', ⟨_, hrows⟩ | ⟨⟨c, hc, hs⟩, _⟩⟩ := pass_cases hsql hd now limit
      · have hexpired : expired now d' = (expired now d).drop limit := expired_dropRows hrows
        have honly' : ∀ e ∈ expired now d', Stuck fates e ↔ e = stuck :=
          fun e he => honly e (mem_of_mem_drop (hexpired ▸ he))
        obtain ⟨n, hn⟩ := ih _ (by rw [hexpired, length_drop]; omega) hd' honly' (hexpired ▸ hnext) rfl
        refine ⟨n + 1, fun e he hne => ?_⟩
        rw [passes, Function.iterate_succ_apply, hpass]
        rw [← take_append_drop limit (expired now d)] at he
        rcases mem_append.mp he with hwin | hrest
        · refine passes_gone hsql hd' ?_ n
          have hany : (window now limit d).any (fun c => e.1 == c.1) = true :=
            any_eq_true.mpr ⟨e, hwin, beq_self_eq_true _⟩
          obtain ⟨hr, hdue⟩ := mem_expired.mp (mem_of_mem_take hwin)
          rw [hrows, dropRows, get?_deleteWhere, hr, Option.filter_some, hany, hdue]
          rfl
        · exact hn e (hexpired ▸ hrest) hne
      · exact absurd hs (hf c hc)
    · refine ⟨0, fun e he hne => absurd ?_ hne⟩
      obtain ⟨only, hlist⟩ := length_eq_one_iff.mp
        (le_antisymm (hlen ▸ hone) (length_pos_of_mem hm))
      rw [hlist, mem_singleton] at hm he
      rw [he, hm]

end
end

/-- After a pass rows and directories agree exactly if it was dry or spared what it
could not finish, and with one directory stuck for good the passes delete all the
rest exactly if that one comes last, behind full windows. -/
theorem collection_agreement {m : Manager} {fates : Fates} {d : Disk} (now limit : Nat) (hsql : SqlWorks fates)
    (hd : WellFormed m d) :
    (∀ dryRun, Agrees d (garbageCollect m fates now limit dryRun d).2 ↔ dryRun = true ∨ Spared fates now limit d) ∧
      ∀ stuck ∈ expired now d, (∀ entry ∈ expired now d, Stuck fates entry ↔ entry = stuck) →
        (Drains m fates now limit stuck d ↔ Aligned limit stuck (expired now d)) := by
  refine ⟨agrees_iff hsql hd, fun stuck hstuck honly => ⟨?_, drains_of_aligned hsql hd honly⟩⟩
  rintro ⟨n, hn⟩
  exact aligned_of_drains hsql n hd hstuck honly hn

namespace Example

def row (storageKey : String) (expires : Nat) : WorkspaceRow :=
  ⟨execution, ⟨1⟩, principal, Sample.blob, storageKey, 3, some expires⟩

def first : WorkspaceId × WorkspaceRow := (⟨"a", by decide⟩, row "workspace-1" 1)
def second : WorkspaceId × WorkspaceRow := (⟨"b", by decide⟩, row "workspace-2" 2)

/-- Two expired workspaces with their directories. -/
def twoExpired : Disk where
  workspaces := ⟨[first, second], by decide⟩
  manifests := Table.empty
  blobs := Sample.threeBytes
  references := Table.empty
  directories := ⟨[("workspace-1", Sample.emptyHost), ("workspace-2", Sample.emptyHost)], by decide⟩

theorem twoExpired_wellFormed : WellFormed manager twoExpired := by
  refine ⟨by decide, fun e he => ?_⟩
  rcases mem_pair.mp he with rfl | rfl <;> decide

theorem sqlWorks (key : String) : SqlWorks (failing (.removeDirectory key)) := ⟨rfl, fun _ => rfl, rfl⟩

end Example

open Example in
theorem collection_agreement_last : Drains manager (failing (.removeDirectory "workspace-2")) 5 1 second twoExpired := by
  refine ((collection_agreement 5 1 (sqlWorks _) twoExpired_wellFormed).2 second (by decide) ?_).mpr
    ⟨by decide, by decide⟩
  decide

open Example in
/-- The second directory is stuck: the first is gone and its row is back. The first
is stuck: the second workspace outlives every pass. -/
theorem stuck_directory :
    ¬ Agrees twoExpired (garbageCollect manager (failing (.removeDirectory "workspace-2")) 5 8 false twoExpired).2 ∧
      ∀ n, (passes manager (failing (.removeDirectory "workspace-1")) 5 8 n twoExpired).workspaces.get? second.1 =
        some second.2 := by
  constructor
  · intro h
    exact absurd (h first.1 first.2 (by decide) (by decide)) (by decide)
  intro n
  have hpass := garbageCollect_stuck (sqlWorks "workspace-1") twoExpired_wellFormed
    (⟨first, by decide, by decide⟩ : ∃ c ∈ window 5 8 twoExpired, _)
  have hnone : ((window 5 8 twoExpired).takeWhile
      fun c => decide (¬ Stuck (failing (.removeDirectory "workspace-1")) c)) = [] := by
    decide
  rw [hnone, map_nil, Disk.without_nil] at hpass
  rw [passes, Function.iterate_fixed hpass]
  decide

end Eggwork.Workspace
