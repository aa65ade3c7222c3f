import Eggwork.Lib.Program
import Eggwork.Lib.Transition
import Mathlib.Logic.Function.Basic

/-! Programs side by side over one shared state.

A pool is a shared state and the programs of the calls made so far. A move makes
a call, lets one program perform its next operation, drops a program at an
operation it waits at, or is something the world does. A `Machine` says what an
operation does to the shared state, and what becomes of the guards of a program
that is over. Along a run each program has a local state of a protocol, and an
invariant may relate the shared state to all of them: `Inductive` lists what it
has to survive, `Inductive.holds` is the induction. -/
namespace Eggwork.Lib
open Function

structure Pool (E : Effects) (S : Type) where
  shared : S
  tasks : List (Program E Unit)

/-- `C` is what is decided from outside when an operation is performed, `V` what the
world can do, `K` the calls. -/
inductive Move (C V K : Type) where
  | call (k : K)
  | run (t : Nat) (choice : C)
  | drop (t : Nat)
  | world (event : V)

structure Machine (E : Effects) (S C V K : Type) where
  program : K → Program E Unit
  perform : S → Nat → C → (o : E.Op) → Option (E.Answer o × S)
  /-- Drop the guards of a program that is over. -/
  release : S → Nat → S
  /-- The operations a program can be dropped at. -/
  awaits : E.Op → Bool
  occurs : S → V → Option S

namespace Machine
variable {E : Effects} {S C V K : Type} (M : Machine E S C V K)

/-- A task goes on with a program, in a shared state. -/
def resume (p : Pool E S) (t : Nat) (program : Program E Unit) (s : S) : Pool E S where
  shared := if program.isDone then M.release s t else s
  tasks := p.tasks.set t program

def step (p : Pool E S) : Move C V K → Option (Pool E S)
  | .call k => some { p with tasks := p.tasks ++ [M.program k] }
  | .run t choice =>
    match p.tasks[t]? with
    | some (.perform o next) => (M.perform p.shared t choice o).map fun answer => M.resume p t (next answer.1) answer.2
    | _ => none
  | .drop t =>
    match p.tasks[t]? with
    | some (.perform o _) => if M.awaits o then some (M.resume p t (.done ()) p.shared) else none
    | _ => none
  | .world event => (M.occurs p.shared event).map fun s => { p with shared := s }

end Machine

/-- A pool before any call. -/
def Pool.start {E : Effects} {S : Type} (s : S) : Pool E S := ⟨s, []⟩

/-- The operation a task makes next. -/
def Pool.next {E : Effects} {S : Type} (p : Pool E S) (t : Nat) : Option E.Op :=
  match p.tasks[t]? with
  | some (.perform o _) => some o
  | _ => none

theorem Pool.next_eq_some {E : Effects} {S : Type} {p : Pool E S} {t : Nat} {o : E.Op} :
    p.next t = some o ↔ ∃ next, p.tasks[t]? = some (.perform o next) := by
  unfold Pool.next
  constructor
  · intro h
    split at h
    · rename_i o' next hget
      cases h
      exact ⟨next, hget⟩
    · cases h
  · rintro ⟨next, hget⟩
    rw [hget]

/-! ### Invariants -/

section Invariants
variable {E : Effects} {S C V K G : Type} {M : Machine E S C V K} {P : Protocol E G} {final : G → Prop} {idle : G}

/-- Every task's program conforms from its local state. -/
structure Threaded (P : Protocol E G) (final : G → Prop) (idle : G) (locals : Nat → G)
    (tasks : List (Program E Unit)) : Prop where
  conforms : ∀ {t program}, tasks[t]? = some program → P.Conforms (fun _ => final) (locals t) program
  unborn : ∀ {t}, tasks.length ≤ t → locals t = idle

theorem Threaded.call {ls : Nat → G} {tasks : List (Program E Unit)} (h : Threaded P final idle ls tasks)
    {prog : Program E Unit} {g : G} (hp : P.Conforms (fun _ => final) g prog) :
    Threaded P final idle (update ls tasks.length g) (tasks ++ [prog]) where
  conforms {t found} hget := by
    rcases Nat.lt_trichotomy t tasks.length with hlt | rfl | hgt
    · rw [List.getElem?_append_left hlt] at hget
      rw [update_of_ne (Nat.ne_of_lt hlt)]
      exact h.conforms hget
    · rw [List.getElem?_concat_length] at hget
      cases hget
      rw [update_self]
      exact hp
    · rw [List.getElem?_eq_none (by simp; omega)] at hget
      cases hget
  unborn {t} ht := by
    rw [update_of_ne (by simp at ht; omega)]
    exact h.unborn (by simp at ht; omega)

theorem Threaded.set {ls : Nat → G} {tasks : List (Program E Unit)} (h : Threaded P final idle ls tasks) {t : Nat}
    {prog : Program E Unit} {g : G} (ht : t < tasks.length) (hp : P.Conforms (fun _ => final) g prog) :
    Threaded P final idle (update ls t g) (tasks.set t prog) where
  conforms {t' found} hget := by
    by_cases he : t' = t
    · subst he
      rw [List.getElem?_set_self ht] at hget
      cases hget
      rw [update_self]
      exact hp
    · rw [List.getElem?_set_ne (Ne.symm he)] at hget
      rw [update_of_ne he]
      exact h.conforms hget
  unborn {t'} ht' := by
    rw [List.length_set] at ht'
    rw [update_of_ne (by omega)]
    exact h.unborn ht'

/-- The next operation of a task moves its local state. -/
theorem Threaded.advances {ls : Nat → G} {p : Pool E S} (h : Threaded P final idle ls p.tasks) {t : Nat} {o : E.Op}
    (hn : p.next t = some o) (a : E.Answer o) : ∃ g, P.advance (ls t) o a = some g := by
  obtain ⟨next, hget⟩ := Pool.next_eq_some.mp hn
  obtain ⟨g, hm, _⟩ := h.conforms hget a
  exact ⟨g, hm⟩

/-- A property of the shared state and the local states of all tasks, and what it survives. -/
structure Inductive (M : Machine E S C V K) (P : Protocol E G) (final : G → Prop) (idle : G) (birth : K → G)
    (Rule : Pool E S → Move C V K → Prop) (I : S → (Nat → G) → Prop) : Prop where
  final_idle : final idle
  conforms : ∀ {p k}, Rule p (.call k) → P.Conforms (fun _ => final) (birth k) (M.program k)
  call : ∀ {p locals k}, Threaded P final idle locals p.tasks → Rule p (.call k) → I p.shared locals →
    I p.shared (update locals p.tasks.length (birth k))
  run : ∀ {p locals t choice o answer s g}, Threaded P final idle locals p.tasks → p.next t = some o →
    Rule p (.run t choice) → M.perform p.shared t choice o = some (answer, s) →
    P.advance (locals t) o answer = some g → I p.shared locals → I s (update locals t g)
  ended : ∀ {s locals t}, final (locals t) → I s locals → I (M.release s t) (update locals t idle)
  drop : ∀ {p locals t o}, Threaded P final idle locals p.tasks → p.next t = some o → M.awaits o = true →
    Rule p (.drop t) → I p.shared locals → I (M.release p.shared t) (update locals t idle)
  world : ∀ {p locals event s}, Rule p (.world event) → M.occurs p.shared event = some s → I p.shared locals → I s locals

namespace Inductive
variable {birth : K → G} {Rule : Pool E S → Move C V K → Prop} {I : S → (Nat → G) → Prop}

/-- The state of a pool under an invariant. -/
def Kept (P : Protocol E G) (final : G → Prop) (idle : G) (I : S → (Nat → G) → Prop) (p : Pool E S) : Prop :=
  ∃ locals, Threaded P final idle locals p.tasks ∧ I p.shared locals

theorem resume (h : Inductive M P final idle birth Rule I) {p : Pool E S} {ls : Nat → G}
    (hthreads : Threaded P final idle ls p.tasks) {t : Nat} (ht : t < p.tasks.length) {prog : Program E Unit} {s : S}
    {g : G} (hp : P.Conforms (fun _ => final) g prog) (hI : I s (update ls t g)) :
    Kept P final idle I (M.resume p t prog s) := by
  cases prog with
  | done v =>
    refine ⟨update ls t idle, hthreads.set ht h.final_idle, ?_⟩
    have he := h.ended (t := t) (by rw [update_self]; exact hp) hI
    rw [Function.update_idem] at he
    exact he
  | perform o next | loop name => exact ⟨_, hthreads.set ht hp, hI⟩

theorem step (h : Inductive M P final idle birth Rule I) {p q : Pool E S} {move : Move C V K}
    (hrule : Rule p move) (hstep : M.step p move = some q) (hp : Kept P final idle I p) : Kept P final idle I q := by
  obtain ⟨ls, ht, hI⟩ := hp
  cases move with
  | call k =>
    cases hstep
    exact ⟨_, ht.call (h.conforms hrule), h.call ht hrule hI⟩
  | run t c =>
    simp only [Machine.step] at hstep
    split at hstep
    · rename_i o next hget
      obtain ⟨⟨a, s⟩, hperform, rfl⟩ := Option.map_eq_some_iff.mp hstep
      obtain ⟨g, hm, hn⟩ := ht.conforms hget a
      have hlt : t < p.tasks.length := (List.getElem?_eq_some_iff.mp hget).1
      exact h.resume ht hlt hn
        (h.run ht (Pool.next_eq_some.mpr ⟨next, hget⟩) hrule hperform hm hI)
    · cases hstep
  | drop t =>
    simp only [Machine.step] at hstep
    split at hstep
    · rename_i o next hget
      split at hstep
      · rename_i ha
        cases hstep
        have hlt : t < p.tasks.length := (List.getElem?_eq_some_iff.mp hget).1
        exact ⟨_, ht.set hlt h.final_idle,
          h.drop ht (Pool.next_eq_some.mpr ⟨next, hget⟩) ha hrule hI⟩
      · cases hstep
    · cases hstep
  | world ev =>
    obtain ⟨s, ho, rfl⟩ := Option.map_eq_some_iff.mp hstep
    exact ⟨ls, ht, h.world hrule ho hI⟩

/-- The invariant holds along every run from a state in which it holds with no call made. -/
theorem holds (h : Inductive M P final idle birth Rule I) {s : S} {p : Pool E S} (hr : Steps M.step Rule (Pool.start s) p)
    (hs : I s fun _ => idle) : Kept P final idle I p := by
  refine hr.invariant (Kept P final idle I) h.step ⟨fun _ => idle, ⟨?_, ?_⟩, hs⟩
  · intro t prog hget
    cases hget
  · intro t _
    rfl

end Inductive
end Invariants
end Eggwork.Lib
