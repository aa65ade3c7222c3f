import Mathlib.Data.List.Basic

/-! Checks in sequence, the first failure reported.

A validator is a block in `Except`: tests that throw, and loops over tests. These
rules take such a block apart: it succeeds exactly if every test passes and every
step of every loop does. -/
namespace Eggwork.Lib
open List

variable {ε α β : Type}

@[simp] theorem bind_eq_ok {x : Except ε α} {f : α → Except ε β} {b : β} :
    (x >>= f) = .ok b ↔ ∃ a, x = .ok a ∧ f a = .ok b := by
  cases x with
  | error e | ok a => simp [bind, Except.bind]

@[simp] theorem pure_eq_ok {a b : α} : (pure a : Except ε α) = .ok b ↔ a = b := Except.ok.injEq a b ▸ Iff.rfl

/-- A test, and what follows it. -/
theorem guard_eq_ok {c : Prop} [Decidable c] {e : ε} {f : β → Except ε α} {rest : Except ε α} {a : α} :
    (if c then (throw e : Except ε β) >>= f else rest) = .ok a ↔ ¬ c ∧ rest = .ok a := by
  split
  · rename_i hc
    exact ⟨fun h => (nomatch h), fun h => absurd hc h.1⟩
  · rename_i hc
    exact ⟨fun h => ⟨hc, h⟩, fun h => h.2⟩

theorem throwing_eq_ok {c : Prop} [Decidable c] {e : ε} {rest : Except ε α} {a : α} :
    (if c then throw e else rest) = .ok a ↔ ¬ c ∧ rest = .ok a := by
  split
  · rename_i hc
    exact ⟨fun h => (nomatch h), fun h => absurd hc h.1⟩
  · rename_i hc
    exact ⟨fun h => ⟨hc, h⟩, fun h => h.2⟩

/-- A loop over tests. -/
theorem forM_eq_ok {f : α → Except ε Unit} {l : List α} : l.forM f = .ok () ↔ ∀ a ∈ l, f a = .ok () := by
  induction l with
  | nil => exact ⟨fun _ _ h => (nomatch h), fun _ => rfl⟩
  | cons a rest ih =>
    show (f a >>= fun _ => rest.forM f) = .ok () ↔ _
    rw [bind_eq_ok, forall_mem_cons, ← ih]
    exact ⟨fun ⟨_, hf, hrest⟩ => ⟨hf, hrest⟩, fun h => ⟨_, h.1, h.2⟩⟩

/-- A loop with a state that is, as long as it goes on, a function of what was seen. -/
theorem foldlM_eq_ok {σ : Type} {f : σ → α → Except ε σ} (state : List α → σ) (good : List α → Prop)
    (hstep : ∀ {seen a s}, good seen → (f (state seen) a = .ok s ↔ good (seen ++ [a]) ∧ s = state (seen ++ [a])))
    (hinit : ∀ {seen rest}, good (seen ++ rest) → good seen) {seen rest : List α} (hseen : good seen) {s : σ} :
    rest.foldlM f (state seen) = .ok s ↔ good (seen ++ rest) ∧ s = state (seen ++ rest) := by
  induction rest generalizing seen with
  | nil =>
    rw [foldlM_nil, pure_eq_ok, append_nil]
    exact ⟨fun h => ⟨hseen, h.symm⟩, fun h => h.2.symm⟩
  | cons a rest ih =>
    rw [foldlM_cons, bind_eq_ok, append_cons]
    constructor
    · rintro ⟨s₁, hf, hrest⟩
      obtain ⟨hgood, rfl⟩ := (hstep hseen).mp hf
      exact (ih hgood).mp hrest
    · rintro ⟨hgood, rfl⟩
      have hf : good (seen ++ [a]) := hinit hgood
      exact ⟨_, (hstep hseen).mpr ⟨hf, rfl⟩, (ih hf).mpr ⟨hgood, rfl⟩⟩

/-- What a loop returns it has got from an element. -/
theorem mem_of_mapM_ok {f : α → Except ε β} {l : List α} {ys : List β} (h : l.mapM f = .ok ys) {y : β} (hy : y ∈ ys) :
    ∃ x ∈ l, f x = .ok y := by
  induction l generalizing ys with
  | nil =>
    cases h
    cases hy
  | cons a rest ih =>
    rw [mapM_cons, bind_eq_ok] at h
    obtain ⟨first, hf, h⟩ := h
    obtain ⟨others, ho, h⟩ := bind_eq_ok.mp h
    cases h
    rcases mem_cons.mp hy with rfl | hy
    · exact ⟨a, mem_cons_self, hf⟩
    · obtain ⟨x, hx, hfound⟩ := ih ho hy
      exact ⟨x, mem_cons_of_mem _ hx, hfound⟩

end Eggwork.Lib
