import Mathlib.Logic.Basic

/-! Programs with durable effects.

A program changes a state step by step and may stop on the way: with an error,
which the caller sees, or with the process. Either way what is done stays done; an
error takes nothing back. One atomic step is a `commit`, whose fate is given from
outside. A run is taken apart at its binds (`bind_ok`, `bind_error`), and a
property that every step keeps is kept however the program ends (`Keeps`). -/
namespace Eggwork.Lib

inductive Stop (E : Type) where
  | failed (error : E)
  | crashed
deriving DecidableEq, Repr

/-- What becomes of one step. -/
inductive Fate (E : Type) where
  | happens
  | fails (error : E)
  | crashes
deriving DecidableEq, Repr

def Effect (S E α : Type) : Type := S → Except (Stop E) α × S

namespace Effect
variable {S E α β : Type}

instance : Monad (Effect S E) where
  pure a := fun s => (.ok a, s)
  bind x f := fun s => match x s with
    | (.ok a, t) => f a t
    | (.error e, t) => (.error e, t)

def fail (error : E) : Effect S E α := fun s => (.error (.failed error), s)

def get (f : S → α) : Effect S E α := fun s => (.ok (f s), s)

/-- A write, made as a whole or not at all. -/
def commit (fate : Fate E) (f : S → S) : Effect S E Unit := fun s =>
  match fate with
  | .happens => (.ok (), f s)
  | .fails error => (.error (.failed error), s)
  | .crashes => (.error .crashed, s)

/-- A write under a constraint, which refuses it with an error of its own. -/
def commit? (fate : Fate E) (refusal : E) (f : S → Option S) : Effect S E Unit := fun s =>
  match fate with
  | .happens =>
    match f s with
    | some t => (.ok (), t)
    | none => (.error (.failed refusal), s)
  | .fails error => (.error (.failed error), s)
  | .crashes => (.error .crashed, s)

/-- A step that writes nothing. -/
def attempt (fate : Fate E) : Effect S E Unit := commit fate id

/-- Make a step and drop its error. -/
def ignore (x : Effect S E Unit) : Effect S E Unit := fun s =>
  match x s with
  | (.error .crashed, t) => (.error .crashed, t)
  | (_, t) => (.ok (), t)

/-- Clean up after an error before it is returned. -/
def orUndo (x : Effect S E α) (undo : Effect S E Unit) : Effect S E α := fun s =>
  match x s with
  | (.error (.failed error), t) => (undo >>= fun _ => fail error) t
  | outcome => outcome

/-- What a caller sees who only asks whether there was an error. -/
def succeeded? : Except (Stop E) Unit → Option Bool
  | .ok _ => some true
  | .error (.failed _) => some false
  | .error .crashed => none

theorem eq_of_isOk {out : Except (Stop E) Unit × S} (h : out.1.isOk = true) : out = (.ok (), out.2) := by
  obtain ⟨_ | _, s⟩ := out
  · cases h
  · rfl

/-! ### Runs -/

variable {x : Effect S E α} {f : α → Effect S E β} {s t u : S}

theorem bind_apply (x : Effect S E α) (f : α → Effect S E β) (s : S) : (x >>= f) s = match x s with
      | (.ok a, t) => f a t
      | (.error e, t) => (.error e, t) := rfl

theorem bind_ok {b : β} : (x >>= f) s = (.ok b, u) ↔ ∃ a t, x s = (.ok a, t) ∧ f a t = (.ok b, u) := by
  rw [bind_apply]
  rcases hx : x s with ⟨_ | a, t⟩
  · exact ⟨nofun, nofun⟩
  refine ⟨fun h => ⟨a, t, rfl, h⟩, ?_⟩
  rintro ⟨_, _, ha, h⟩
  cases ha
  exact h

@[simp] theorem pure_apply (a : α) (s : S) : (pure a : Effect S E α) s = (.ok a, s) := rfl

@[simp] theorem get_apply (g : S → α) (s : S) : (get g : Effect S E α) s = (.ok (g s), s) := rfl

theorem pure_bind_apply (a : α) : ((pure a : Effect S E α) >>= f) s = f a s := rfl

/-- An answer changes no state. -/
theorem bind_pure_state (g : α → β) : ((x >>= fun a => pure (g a) : Effect S E β) s).2 = (x s).2 := by
  rw [bind_apply]
  rcases x s with ⟨_ | a, t⟩ <;> rfl

theorem get_bind (g : S → α) : ((get g : Effect S E α) >>= f) s = f (g s) s := rfl

theorem commit_happens {g : S → S} {fate : Fate E} (h : fate = .happens) : commit fate g s = (.ok (), g s) := by
  rw [h]
  rfl

theorem commit_ok {g : S → S} {fate : Fate E} {a : Unit} : commit fate g s = (.ok a, t) ↔ fate = .happens ∧ t = g s := by
  cases fate with
  | happens => simp [commit, eq_comm]
  | fails error | crashes => simp [commit]

theorem commit?_ok {g : S → Option S} {fate : Fate E} {refusal : E} {a : Unit} :
    commit? fate refusal g s = (.ok a, t) ↔ fate = .happens ∧ g s = some t := by
  cases fate with
  | happens =>
    simp only [commit?, true_and]
    split
    · rename_i hg
      rw [hg]
      simp
    · rename_i hg
      rw [hg]
      simp
  | fails error | crashes => simp [commit?]

theorem commit?_error {g : S → Option S} {fate : Fate E} {refusal : E} {e : Stop E}
    (h : commit? fate refusal g s = (.error e, t)) : t = s ∧ (fate = .happens → g s = none) := by
  cases fate with
  | happens =>
    simp only [commit?] at h
    split at h
    · cases h
    rename_i hg
    cases h
    exact ⟨rfl, fun _ => hg⟩
  | fails error | crashes => cases h; exact ⟨rfl, nofun⟩

theorem attempt_ok {fate : Fate E} {a : Unit} : attempt fate s = (.ok a, t) ↔ fate = .happens ∧ t = s := commit_ok

/-- A loop of writes that comes to its end has made them all. -/
theorem happens_of_forM_ok {A : Type} {fate : A → Fate E} {g : A → S → S} {l : List A} {u : Unit}
    (h : l.forM (fun a => commit (fate a) (g a)) s = (.ok u, t)) : ∀ a ∈ l, fate a = .happens := by
  induction l generalizing s with
  | nil => exact nofun
  | cons a rest ih =>
    obtain ⟨_, s', hf, hrest⟩ := bind_ok.mp h
    exact List.forall_mem_cons.mpr ⟨(commit_ok.mp hf).1, ih hrest⟩

/-- However the program ends, the property is kept. -/
def Keeps (I : S → Prop) (x : Effect S E α) : Prop := ∀ s, I s → I (x s).2

namespace Keeps
variable {I : S → Prop}

theorem pure (a : α) : Keeps I (pure a : Effect S E α) := fun _ => id

theorem fail (error : E) : Keeps I (fail error : Effect S E α) := fun _ => id

theorem get (g : S → α) : Keeps I (get g : Effect S E α) := fun _ => id

theorem of_reads (h : ∀ s, (x s).2 = s) : Keeps I x := by
  intro s hs
  rw [h]
  exact hs

theorem commit {fate : Fate E} {g : S → S} (h : ∀ s, I s → I (g s)) : Keeps I (commit fate g) := by
  intro s hs
  cases fate with
  | happens => exact h s hs
  | fails error | crashes => exact hs

theorem commit? {fate : Fate E} {refusal : E} {g : S → Option S} (h : ∀ s t, I s → g s = some t → I t) :
    Keeps I (commit? fate refusal g) := by
  intro s hs
  cases fate with
  | happens =>
    simp only [Effect.commit?]
    split
    · rename_i t hg
      exact h s t hs hg
    · exact hs
  | fails error | crashes => exact hs

theorem attempt (fate : Fate E) : Keeps I (attempt fate : Effect S E Unit) := commit fun _ => id

/-- A program that keeps one property in its first part and another after it. -/
theorem bind_of_imp {J : S → Prop} (hw : ∀ s, I s → J s) (hx : Keeps I x) (hf : ∀ a s, I s → J (f a s).2) :
    ∀ s, I s → J ((x >>= f) s).2 := by
  intro s hs
  have ht := hx s hs
  rw [bind_apply]
  rcases hr : x s with ⟨_ | a, t⟩
  · rw [hr] at ht
    exact hw t ht
  · rw [hr] at ht
    exact hf a t ht

theorem bind (hx : Keeps I x) (hf : ∀ a, Keeps I (f a)) : Keeps I (x >>= f) :=
  bind_of_imp (fun _ => id) hx hf

theorem guard {c : Prop} [Decidable c] {γ : Type} {error : E} {k : γ → Effect S E α} (h : Keeps I x) :
    Keeps I (if c then Effect.fail error >>= k else x) := by
  split
  · exact fun _ => id
  · exact h

theorem ignore {y : Effect S E Unit} (h : Keeps I y) : Keeps I (ignore y) := by
  intro s hs
  have ht := h s hs
  rw [Effect.ignore]
  rcases hr : y s with ⟨(_ | _) | _, t⟩
  all_goals
    rw [hr] at ht
    exact ht

theorem orUndo {undo : Effect S E Unit} (hx : Keeps I x) (hundo : Keeps I undo) : Keeps I (orUndo x undo) := by
  intro s hs
  have ht := hx s hs
  rw [Effect.orUndo]
  rcases hr : x s with ⟨(error | _) | a, t⟩
  · rw [hr] at ht
    exact (hundo.bind fun _ => fail error) t ht
  · rw [hr] at ht
    exact ht
  · rw [hr] at ht
    exact ht

theorem forM {A : Type} {body : A → Effect S E Unit} {l : List A} (h : ∀ a ∈ l, Keeps I (body a)) :
    Keeps I (l.forM body) := by
  induction l with
  | nil => exact pure ()
  | cons a rest ih =>
    exact (h a List.mem_cons_self).bind fun _ => ih fun a ha => h a (List.mem_cons_of_mem _ ha)

end Keeps
end Effect
end Eggwork.Lib
