/-! Programs that run a step at a time, and protocols they keep to.

A program is a tree: the next operation, and what follows for each answer to it.
Loops are entered by name, so a program is finite between two loop heads. A
`Protocol` gives each program a local state that its operations move, and says
which operations a local state allows; `Conforms` is the check that every path
keeps to it. A system of programs is then argued about through the local states
alone: whatever a conforming program does next is one of the allowed moves. -/
namespace Eggwork.Lib

/-- Operations with the type of their answers, and the names of the loops. -/
structure Effects where
  Op : Type
  Answer : Op → Type
  Loop : Type

inductive Program (E : Effects) (α : Type) where
  | done (value : α)
  | perform (op : E.Op) (next : E.Answer op → Program E α)
  | loop (name : E.Loop)

namespace Program
variable {E : Effects} {α β : Type}
variable {p : Program E α} {allowed : E.Op → Prop} {enters : E.Loop → Prop} {result : α}

def bind : Program E α → (α → Program E β) → Program E β
  | .done value, f => f value
  | .perform op next, f => .perform op fun answer => (next answer).bind f
  | .loop name, _ => .loop name

instance : Monad (Program E) where
  pure := .done
  bind := bind

/-- One operation, returning its answer. -/
def op (o : E.Op) : Program E (E.Answer o) := .perform o .done

/-- Give up the rest and go round a loop. -/
def again (name : E.Loop) : Program E α := .loop name

@[simp] theorem pure_eq (value : α) : (pure value : Program E α) = .done value := rfl

@[simp] theorem bind_done (value : α) (f : α → Program E β) : ((.done value : Program E α) >>= f) = f value := rfl

/-- The program without what it returns. -/
def discard (p : Program E α) : Program E Unit := p.bind fun _ => .done ()

def isDone : Program E α → Bool
  | .done _ => true
  | _ => false

/-- Every path of the program performs an operation with the property. -/
def Leads (goal : E.Op → Prop) : Program E α → Prop
  | .done _ => False
  | .perform o next => goal o ∨ ∀ answer, (next answer).Leads goal
  | .loop _ => False

/-- Every operation of the program, and every loop it enters, is of a given kind. -/
def Uses (allowed : E.Op → Prop) (enters : E.Loop → Prop) : Program E α → Prop
  | .done _ => True
  | .perform o next => allowed o ∧ ∀ answer, (next answer).Uses allowed enters
  | .loop name => enters name

theorem Uses.op {o : E.Op} {f : E.Answer o → Program E β} (h : allowed o)
    (hf : ∀ a, (f a).Uses allowed enters) : (Program.op o >>= f).Uses allowed enters := ⟨h, hf⟩

theorem Uses.bind {f : α → Program E β} (h : p.Uses allowed enters) (hf : ∀ v, (f v).Uses allowed enters) :
    (p >>= f).Uses allowed enters := by
  induction p with
  | done v => exact hf v
  | perform o next ih => exact ⟨h.1, fun a => ih a (h.2 a)⟩
  | loop name => exact h

theorem Uses.mono {allowed' : E.Op → Prop} {enters' : E.Loop → Prop} (hall : ∀ o, allowed o → allowed' o)
    (he : ∀ name, enters name → enters' name) (h : p.Uses allowed enters) : p.Uses allowed' enters' := by
  induction p with
  | done v => trivial
  | perform o next ih => exact ⟨hall o h.1, fun a => ih a (h.2 a)⟩
  | loop name => exact he name h

theorem Uses.bindExcept {ε : Type} {x : ExceptT ε (Program E) α} {f : α → ExceptT ε (Program E) β}
    (h : x.run.Uses allowed enters) (hf : ∀ a, (f a).run.Uses allowed enters) : (x >>= f).run.Uses allowed enters := by
  refine Uses.bind (p := x.run) h fun out => ?_
  cases out with
  | ok a => exact hf a
  | error e => trivial

theorem Uses.bindLift {ε : Type} {f : α → ExceptT ε (Program E) β} (h : p.Uses allowed enters)
    (hf : ∀ a, (f a).run.Uses allowed enters) :
    ((ExceptT.lift p : ExceptT ε (Program E) α) >>= f).run.Uses allowed enters :=
  Uses.bindExcept (h.bind fun _ => trivial) hf

theorem Uses.discard (h : p.Uses allowed enters) : p.discard.Uses allowed enters := h.bind fun _ => trivial

theorem uses_all (p : Program E α) : p.Uses (fun _ => True) fun _ => True := by
  induction p with
  | done v => trivial
  | perform o next ih => exact ⟨trivial, ih⟩
  | loop name => trivial

/-! ### Runs to the end -/

section Runs
variable {S : Type} {s t u : S} {answers : S → (o : E.Op) → E.Answer o → S → Prop}

/-- A run of the program to its end, every operation answered in a state. -/
def Runs (answers : S → (o : E.Op) → E.Answer o → S → Prop) : Program E α → S → α → S → Prop
  | .done value, s, result, t => result = value ∧ t = s
  | .perform o next, s, result, u => ∃ answer t, answers s o answer t ∧ (next answer).Runs answers t result u
  | .loop _, _, _, _ => False

/-- A run of the program that is cut off before any of its operations, or not at all. -/
def Cut (answers : S → (o : E.Op) → E.Answer o → S → Prop) : Program E α → S → S → Prop
  | .done _, s, t => t = s
  | .perform o next, s, u => u = s ∨ ∃ answer t, answers s o answer t ∧ (next answer).Cut answers t u
  | .loop _, s, t => t = s

theorem runs_op {o : E.Op} {f : E.Answer o → Program E β} {result : β} :
    (op o >>= f).Runs answers s result u ↔ ∃ a t, answers s o a t ∧ (f a).Runs answers t result u :=
  Iff.rfl

theorem runs_bind {f : α → Program E β} {result : β} :
    (p >>= f).Runs answers s result u ↔ ∃ v t, p.Runs answers s v t ∧ (f v).Runs answers t result u := by
  induction p generalizing s with
  | done v =>
    constructor
    · exact fun h => ⟨v, s, ⟨rfl, rfl⟩, h⟩
    · rintro ⟨_, _, ⟨rfl, rfl⟩, h⟩
      exact h
  | perform o next ih =>
    constructor
    · rintro ⟨a, t, ha, hrest⟩
      obtain ⟨v, t', hf, hlast⟩ := (ih a).mp hrest
      exact ⟨v, t', ⟨a, t, ha, hf⟩, hlast⟩
    · rintro ⟨v, t', ⟨a, t, ha, hf⟩, hlast⟩
      exact ⟨a, t, ha, (ih a).mpr ⟨v, t', hf, hlast⟩⟩
  | loop name =>
    constructor
    · exact False.elim
    · rintro ⟨_, _, h, _⟩
      exact h

/-- A program of operations that do not change the state ends in the state it started in. -/
theorem Runs.of_uses (hq : ∀ {s o a t}, allowed o → answers s o a t → t = s)
    (huses : p.Uses allowed enters) (h : p.Runs answers s result t) : t = s := by
  induction p generalizing s with
  | done v => exact h.2
  | perform o next ih =>
    obtain ⟨a, s', ha, hrest⟩ := h
    obtain rfl := hq huses.1 ha
    exact ih a (huses.2 a) hrest
  | loop name => cases h

/-- What every operation of the program keeps holds wherever a run of it is cut off. -/
theorem Cut.invariant {I : S → Prop} (hkeep : ∀ {s o a t}, allowed o → answers s o a t → I s → I t)
    (huses : p.Uses allowed enters) (hs : I s) (h : p.Cut answers s t) : I t := by
  induction p generalizing s with
  | done v => exact h ▸ hs
  | perform o next ih =>
    rcases h with rfl | ⟨a, s', ha, hrest⟩
    · exact hs
    · exact ih a (huses.2 a) (hkeep huses.1 ha hs) hrest
  | loop name => exact h ▸ hs

/-- A run to the end is not cut off. -/
theorem Runs.cut (h : p.Runs answers s result t) : p.Cut answers s t := by
  induction p generalizing s with
  | done v => exact h.2
  | perform o next ih =>
    obtain ⟨a, s', ha, hrest⟩ := h
    exact .inr ⟨a, s', ha, ih a hrest⟩
  | loop name => cases h

/-- A program that returns no error had none on the way. -/
theorem runs_bindExcept {ε : Type} {x : ExceptT ε (Program E) α} {f : α → ExceptT ε (Program E) β} {b : β}
    (h : (x >>= f).run.Runs answers s (.ok b) u) :
    ∃ a t, x.run.Runs answers s (.ok a) t ∧ (f a).run.Runs answers t (.ok b) u := by
  obtain ⟨out, t, hf, hlast⟩ := (runs_bind (p := x.run)).mp h
  cases out with
  | ok a => exact ⟨a, t, hf, hlast⟩
  | error e => cases hlast.1

theorem runs_bindLift {ε : Type} {f : α → ExceptT ε (Program E) β} {b : β}
    (h : ((ExceptT.lift p : ExceptT ε (Program E) α) >>= f).run.Runs answers s (.ok b) u) :
    ∃ a t, p.Runs answers s a t ∧ (f a).run.Runs answers t (.ok b) u := by
  obtain ⟨a, t, hf, hlast⟩ := runs_bindExcept h
  obtain ⟨a', t', hr, he, rfl⟩ := (runs_bind (p := p)).mp hf
  cases he
  exact ⟨a, t, hr, hlast⟩

/-- A loop over a list that returns no error: what holds of the rest before each round. -/
theorem runs_forM {ε : Type} {f : α → ExceptT ε (Program E) Unit} {I : List α → S → Prop}
    (hr : ∀ {a rest s t}, I (a :: rest) s → (f a).run.Runs answers s (.ok ()) t → I rest t) {l : List α}
    (hs : I l s) (h : (l.forM f).run.Runs answers s (.ok ()) t) : I [] t := by
  induction l generalizing s with
  | nil => exact h.2 ▸ hs
  | cons a rest ih =>
    obtain ⟨_, s', hf, hlast⟩ := runs_bindExcept (x := f a) h
    exact ih (hr hs hf) hlast

theorem Uses.forM {ε : Type} {f : α → ExceptT ε (Program E) Unit} (h : ∀ a, (f a).run.Uses allowed enters) (l : List α) :
    (l.forM f).run.Uses allowed enters := by
  induction l with
  | nil => trivial
  | cons a rest ih => exact Uses.bindExcept (h a) fun _ => ih

/-- The run on given choices, as far as they settle every answer. -/
def play {C : Type} (perform : S → C → (o : E.Op) → Option (E.Answer o × S)) : Program E α → S → List C → Option (α × S)
  | .done value, s, _ => some (value, s)
  | .perform o next, s, choice :: choices =>
    match perform s choice o with
    | some (answer, t) => (next answer).play perform t choices
    | none => none
  | .perform _ _, _, [] => none
  | .loop _, _, _ => none

theorem play_runs {C : Type} {perform : S → C → (o : E.Op) → Option (E.Answer o × S)}
    (ha : ∀ {s o a t c}, perform s c o = some (a, t) → answers s o a t)
    {choices : List C} (h : p.play perform s choices = some (result, t)) : p.Runs answers s result t := by
  induction p generalizing s choices with
  | done v =>
    cases h
    exact ⟨rfl, rfl⟩
  | perform o next ih =>
    cases choices with
    | nil => cases h
    | cons c choices =>
      simp only [play] at h
      split at h
      · rename_i a s' hp
        exact ⟨a, s', ha hp, ih a h⟩
      · cases h
  | loop name => cases h

/-- A program run in two related states on the same choices returns the same, if every operation it may make
is answered alike and leads to related states again. -/
theorem Uses.play_alike {C : Type} {perform : S → C → (o : E.Op) → Option (E.Answer o × S)} {R : S → S → Prop}
    (ha : ∀ {s s' c o}, allowed o → R s s' →
      Option.Rel (fun x y => x.1 = y.1 ∧ R x.2 y.2) (perform s c o) (perform s' c o))
    (h : p.Uses allowed enters) {s' : S} (hs : R s s') (choices : List C) :
    (p.play perform s choices).map Prod.fst = (p.play perform s' choices).map Prod.fst := by
  induction p generalizing s s' choices with
  | done v | loop name => rfl
  | perform o next ih =>
    cases choices with
    | nil => rfl
    | cons c choices =>
      have hstep : Option.Rel _ (perform s c o) (perform s' c o) := ha h.1 hs
      simp only [play]
      generalize perform s c o = first at hstep ⊢
      generalize perform s' c o = second at hstep ⊢
      cases hstep with
      | none => rfl
      | @some x y hboth =>
        obtain ⟨a, t⟩ := x
        obtain ⟨_, t'⟩ := y
        obtain ⟨rfl, hn⟩ := hboth
        exact ih a (h.2 a) hn choices

/-- The run on given choices, cut off when they are used up. -/
def playCut {C : Type} (perform : S → C → (o : E.Op) → Option (E.Answer o × S)) : Program E α → S → List C → Option S
  | _, s, [] => some s
  | .perform o next, s, choice :: choices =>
    match perform s choice o with
    | some (answer, t) => (next answer).playCut perform t choices
    | none => none
  | _, _, _ :: _ => none

theorem playCut_cut {C : Type} {perform : S → C → (o : E.Op) → Option (E.Answer o × S)}
    (ha : ∀ {s o a t c}, perform s c o = some (a, t) → answers s o a t)
    {choices : List C} (h : p.playCut perform s choices = some t) : p.Cut answers s t := by
  induction choices generalizing p s with
  | nil =>
    cases p with
    | perform o next =>
      cases h
      exact .inl rfl
    | _ =>
      cases h
      rfl
  | cons c choices ih =>
    cases p with
    | perform o next =>
      simp only [playCut] at h
      split at h
      · rename_i a s' hp
        exact .inr ⟨a, s', ha hp, ih h⟩
      · cases h
    | _ => cases h

end Runs

end Program

/-! ### Protocols -/

/-- How the operations move a program's local state; `none` where one is not
allowed. `enter` says in which local states a loop may be entered. -/
structure Protocol (E : Effects) (G : Type) where
  advance : G → (o : E.Op) → E.Answer o → Option G
  enter : E.Loop → G → Prop

namespace Protocol
variable {E : Effects} {G α β : Type} (P : Protocol E G)
variable {g : G} {p : Program E α} {post : α → G → Prop} {o : E.Op} {enters : E.Loop → Prop}

/-- Every path of the program from a local state is allowed, and ends in a value
and a local state related by `post`. -/
def Conforms (post : α → G → Prop) : G → Program E α → Prop
  | g, .done value => post value g
  | g, .perform o next => ∀ answer, ∃ g', P.advance g o answer = some g' ∧ Conforms post g' (next answer)
  | g, .loop name => P.enter name g

variable {P}

theorem Conforms.mono {post' : α → G → Prop} (h : P.Conforms post g p) (hpost : ∀ v g, post v g → post' v g) :
    P.Conforms post' g p := by
  induction p generalizing g with
  | done v => exact hpost v g h
  | perform o next ih =>
    intro a
    obtain ⟨g', hm, hn⟩ := h a
    exact ⟨g', hm, ih a hn⟩
  | loop name => exact h

/-- A first operation, and what follows it. -/
theorem Conforms.op {post : β → G → Prop} {f : E.Answer o → Program E β}
    (h : ∀ a, ∃ g', P.advance g o a = some g' ∧ P.Conforms post g' (f a)) :
    P.Conforms post g (Program.op o >>= f) := h

/-- A first operation that does not move the local state. -/
theorem Conforms.stay {post : β → G → Prop} {f : E.Answer o → Program E β}
    (hstay : ∀ a, P.advance g o a = some g) (h : ∀ a, P.Conforms post g (f a)) :
    P.Conforms post g (Program.op o >>= f) := fun a => ⟨g, hstay a, h a⟩

/-- A last operation. -/
theorem Conforms.last {post : E.Answer o → G → Prop}
    (h : ∀ a, ∃ g', P.advance g o a = some g' ∧ post a g') : P.Conforms post g (Program.op o) := h

/-- A program of operations that lead from a set of local states back into it. -/
theorem Conforms.of_closed {allowed : E.Op → Prop} (inside : G → Prop)
    (hstay : ∀ g o a, inside g → allowed o → ∃ g', P.advance g o a = some g' ∧ inside g')
    (he : ∀ g name, inside g → enters name → P.enter name g) (hg : inside g) (h : p.Uses allowed enters) :
    P.Conforms (fun _ => inside) g p := by
  induction p generalizing g with
  | done v => exact hg
  | perform o next ih =>
    intro a
    obtain ⟨g', hm, hg'⟩ := hstay g o a hg h.1
    exact ⟨g', hm, ih a hg' (h.2 a)⟩
  | loop name => exact he g name hg h

/-- A program of operations that do not move a local state stays in it. -/
theorem Conforms.of_uses {allowed : E.Op → Prop} (hstay : ∀ o, allowed o → ∀ a, P.advance g o a = some g)
    (he : ∀ name, enters name → P.enter name g) (h : p.Uses allowed enters) :
    P.Conforms (fun _ g' => g' = g) g p := by
  refine Conforms.of_closed (fun g' => g' = g) ?_ ?_ rfl h
  · rintro _ o a rfl ho
    exact ⟨_, hstay o ho a, rfl⟩
  · rintro _ name rfl hname
    exact he name hname

/-- Sequencing: the second program conforms from wherever the first ends. -/
theorem Conforms.bind {mid : α → G → Prop} {post : β → G → Prop} {f : α → Program E β} (h : P.Conforms mid g p)
    (hf : ∀ v g', mid v g' → P.Conforms post g' (f v)) : P.Conforms post g (p >>= f) := by
  induction p generalizing g with
  | done v => exact hf v g h
  | perform o next ih =>
    intro a
    obtain ⟨g', hm, hn⟩ := h a
    exact ⟨g', hm, ih a hn⟩
  | loop name => exact h

/-- The first ends where its answer says. -/
theorem Conforms.thence {post : β → G → Prop} {f : α → Program E β} {next : α → G}
    (h : P.Conforms (fun v g' => g' = next v) g p) (hf : ∀ v, P.Conforms post (next v) (f v)) :
    P.Conforms post g (p >>= f) :=
  h.bind fun v _ he => he ▸ hf v

theorem Conforms.discard {final : G → Prop} (h : P.Conforms post g p) (hf : ∀ v g', post v g' → final g') :
    P.Conforms (fun _ => final) g p.discard :=
  h.bind fun v g' hpost => hf v g' hpost

/-- A program that may neither end nor loop in the states of a set reaches, on
every path, an operation that leaves the set. -/
theorem Conforms.leads (inside : G → Prop) {goal : E.Op → Prop} (hdone : ∀ v g, inside g → ¬ post v g)
    (hloop : ∀ name g, inside g → ¬ P.enter name g)
    (hstay : ∀ g o a g', inside g → P.advance g o a = some g' → inside g' ∨ goal o) (hg : inside g)
    (h : P.Conforms post g p) : p.Leads goal := by
  induction p generalizing g with
  | done v => exact hdone v g hg h
  | perform o next ih =>
    by_cases hgoal : goal o
    · exact .inl hgoal
    refine .inr fun a => ?_
    obtain ⟨g', hm, hn⟩ := h a
    exact ih a ((hstay g o a g' hg hm).resolve_right hgoal) hn
  | loop name => exact hloop name g hg h

/-- Sequencing of programs that may return an error. -/
theorem Conforms.bindExcept {ε : Type} {x : ExceptT ε (Program E) α} {f : α → ExceptT ε (Program E) β}
    {mid : Except ε α → G → Prop} {post : Except ε β → G → Prop} (h : P.Conforms mid g x.run)
    (he : ∀ e g', mid (.error e) g' → post (.error e) g')
    (hok : ∀ a g', mid (.ok a) g' → P.Conforms post g' (f a).run) : P.Conforms post g (x >>= f).run := by
  refine Conforms.bind (p := x.run) h fun out g' hmid => ?_
  cases out with
  | ok a => exact hok a g' hmid
  | error e => exact he e g' hmid

theorem Conforms.bindLift {ε : Type} {f : α → ExceptT ε (Program E) β} {mid : α → G → Prop}
    {post : Except ε β → G → Prop} (h : P.Conforms mid g p) (hf : ∀ a g', mid a g' → P.Conforms post g' (f a).run) :
    P.Conforms post g ((ExceptT.lift p : ExceptT ε (Program E) α) >>= f).run := by
  have hlift : P.Conforms (fun out g' => ∃ a, out = .ok a ∧ mid a g') g
      (ExceptT.lift p : ExceptT ε (Program E) α).run := h.bind fun a g' hmid => ⟨a, rfl, hmid⟩
  refine hlift.bindExcept ?_ ?_
  · rintro e g' ⟨a, he, _⟩
    cases he
  rintro a g' ⟨_, he, hmid⟩
  cases he
  exact hf a g' hmid

/-- One operation, by where its answers lead. -/
theorem Conforms.leadsTo (next : E.Answer o → G) (h : ∀ a, P.advance g o a = some (next a)) :
    P.Conforms (fun a g' => g' = next a) g (Program.op o) := fun a => ⟨_, h a, rfl⟩

/-- One operation that moves nothing. -/
theorem Conforms.stays (h : ∀ a, P.advance g o a = some g) :
    P.Conforms (fun _ g' => g' = g) g (Program.op o) := .leadsTo (fun _ => g) h

/-- A part whose error is returned, and what follows it. -/
theorem Conforms.tries {ε : Type} {x : ExceptT ε (Program E) α} {f : α → ExceptT ε (Program E) β}
    {next : Except ε α → G} {post : Except ε β → G → Prop} (h : P.Conforms (fun ans g' => g' = next ans) g x.run)
    (he : ∀ e, post (.error e) (next (.error e))) (hok : ∀ a, P.Conforms post (next (.ok a)) (f a).run) :
    P.Conforms post g (x >>= f).run := by
  refine h.bindExcept ?_ ?_
  · rintro e _ rfl
    exact he e
  · rintro a _ rfl
    exact hok a

/-- A part without an error, and what follows it. -/
theorem Conforms.asks {ε : Type} {f : α → ExceptT ε (Program E) β} {next : α → G} {post : Except ε β → G → Prop}
    (h : P.Conforms (fun ans g' => g' = next ans) g p) (hf : ∀ a, P.Conforms post (next a) (f a).run) :
    P.Conforms post g ((ExceptT.lift p : ExceptT ε (Program E) α) >>= f).run := by
  refine h.bindLift ?_
  rintro a _ rfl
  exact hf a

/-- A loop over a list whose rounds lead from a set of local states back into it, whether they fail or not. -/
theorem Conforms.forM {ε : Type} {f : α → ExceptT ε (Program E) Unit} (inside : G → Prop) {l : List α}
    (h : ∀ a ∈ l, ∀ g, inside g → P.Conforms (fun _ => inside) g (f a).run) (hg : inside g) :
    P.Conforms (fun _ => inside) g (l.forM f).run := by
  induction l generalizing g with
  | nil => exact hg
  | cons a rest ih =>
    refine (h a List.mem_cons_self g hg).bindExcept (fun _ _ hg' => hg') fun _ g' hg' => ?_
    exact ih (fun b hb => h b (List.mem_cons_of_mem _ hb)) hg'

/-! #### What a run does to the state -/

section Track
variable {S : Type} {answers : S → (o : E.Op) → E.Answer o → S → Prop} {Track : G → S → Prop}

/-- A relation between local state and state that every answer keeps holds at the end of a run. -/
theorem Conforms.runs (hstep : ∀ {g s o a t g'}, Track g s → answers s o a t → P.advance g o a = some g' → Track g' t)
    (h : P.Conforms post g p) {s t : S} {result : α} (hs : Track g s) (hr : p.Runs answers s result t) :
    ∃ g', post result g' ∧ Track g' t := by
  induction p generalizing g s with
  | done v =>
    obtain ⟨rfl, rfl⟩ := hr
    exact ⟨g, h, hs⟩
  | perform o next ih =>
    obtain ⟨a, s', ha, hrest⟩ := hr
    obtain ⟨g', hm, hn⟩ := h a
    exact ih a hn (hstep hs ha hm) hrest
  | loop name => cases hr

/-- It holds wherever a run is cut off. -/
theorem Conforms.cut (hstep : ∀ {g s o a t g'}, Track g s → answers s o a t → P.advance g o a = some g' → Track g' t)
    (h : P.Conforms post g p) {s t : S} (hs : Track g s) (hcut : p.Cut answers s t) : ∃ g', Track g' t := by
  induction p generalizing g s with
  | done v => exact ⟨g, hcut ▸ hs⟩
  | perform o next ih =>
    rcases hcut with rfl | ⟨a, s', ha, hrest⟩
    · exact ⟨g, hs⟩
    · obtain ⟨g', hm, hn⟩ := h a
      exact ih a hn (hstep hs ha hm) hrest
  | loop name => exact ⟨g, hcut ▸ hs⟩

end Track

/-! #### Fewer operations -/

/-- The protocol without some of its operations, in some or all local states. -/
def restrict (P : Protocol E G) (allowed : G → E.Op → Bool) : Protocol E G where
  advance g o answer := if allowed g o then P.advance g o answer else none
  enter := P.enter

theorem restrict_advance {allowed : G → E.Op → Bool} {g' : G} {a : E.Answer o} :
    (P.restrict allowed).advance g o a = some g' ↔ allowed g o = true ∧ P.advance g o a = some g' := by
  simp only [restrict]
  split
  · rename_i ho
    exact ⟨fun h => ⟨ho, h⟩, And.right⟩
  · rename_i ho
    exact ⟨nofun, fun h => absurd h.1 ho⟩

/-- A program that stays among local states which allow whatever it uses. -/
theorem Conforms.restrict_of_closed {allowed : G → E.Op → Bool} {used : E.Op → Prop} (inside : G → Prop)
    (hc : ∀ {g o a g'}, inside g → P.advance g o a = some g' → inside g')
    (hall : ∀ {g o}, inside g → used o → allowed g o = true) (hg : inside g) (h : P.Conforms post g p)
    (huses : p.Uses used enters) : (P.restrict allowed).Conforms post g p := by
  induction p generalizing g with
  | done v => exact h
  | perform o next ih =>
    intro a
    obtain ⟨g', hm, hn⟩ := h a
    exact ⟨g', restrict_advance.mpr ⟨hall hg huses.1, hm⟩, ih a (hc hg hm) hn (huses.2 a)⟩
  | loop name => exact h

theorem Conforms.restrict {allowed : E.Op → Bool} (h : P.Conforms post g p)
    (huses : p.Uses (fun o => allowed o = true) enters) : (P.restrict fun _ => allowed).Conforms post g p := by
  refine Conforms.restrict_of_closed (fun _ => True) ?_ ?_ trivial h huses
  · exact fun _ _ => trivial
  · exact fun _ ho => ho

/-! #### Two protocols at once -/

/-- A local state for each of two protocols, both kept to. -/
def prod {H : Type} (P : Protocol E G) (Q : Protocol E H) : Protocol E (G × H) where
  advance gh o answer :=
    match P.advance gh.1 o answer, Q.advance gh.2 o answer with
    | some g, some h => some (g, h)
    | _, _ => none
  enter name gh := P.enter name gh.1 ∧ Q.enter name gh.2

theorem prod_advance {H : Type} {Q : Protocol E H} {gh gh' : G × H} {a : E.Answer o} :
    (P.prod Q).advance gh o a = some gh' ↔ P.advance gh.1 o a = some gh'.1 ∧ Q.advance gh.2 o a = some gh'.2 := by
  simp only [prod]
  constructor
  · intro h
    split at h
    · rename_i g' h' hg hh
      cases h
      exact ⟨hg, hh⟩
    · cases h
  · intro h
    rw [h.1, h.2]

theorem Conforms.prod {H : Type} {Q : Protocol E H} {post' : α → H → Prop} {h : H} (hg : P.Conforms post g p)
    (hh : Q.Conforms post' h p) : (P.prod Q).Conforms (fun v gh => post v gh.1 ∧ post' v gh.2) (g, h) p := by
  induction p generalizing g h with
  | done v => exact ⟨hg, hh⟩
  | perform o next ih =>
    intro a
    obtain ⟨g', hm, hn⟩ := hg a
    obtain ⟨h', hm', hnext'⟩ := hh a
    exact ⟨(g', h'), prod_advance.mpr ⟨hm, hm'⟩, ih a hn hnext'⟩
  | loop name => exact ⟨hg, hh⟩

theorem Conforms.fst {H : Type} {Q : Protocol E H} {post' : α → H → Prop} {gh : G × H}
    (h : (P.prod Q).Conforms (fun v gh => post v gh.1 ∧ post' v gh.2) gh p) : P.Conforms post gh.1 p := by
  induction p generalizing gh with
  | done v => exact h.1
  | perform o next ih =>
    intro a
    obtain ⟨gh', hm, hn⟩ := h a
    exact ⟨gh'.1, (prod_advance.mp hm).1, ih a hn⟩
  | loop name => exact h.1

theorem Conforms.snd {H : Type} {Q : Protocol E H} {post' : α → H → Prop} {gh : G × H}
    (h : (P.prod Q).Conforms (fun v gh => post v gh.1 ∧ post' v gh.2) gh p) : Q.Conforms post' gh.2 p := by
  induction p generalizing gh with
  | done v => exact h.2
  | perform o next ih =>
    intro a
    obtain ⟨gh', hm, hn⟩ := h a
    exact ⟨gh'.2, (prod_advance.mp hm).2, ih a hn⟩
  | loop name => exact h.2

end Protocol

/-! ### Programs within programs -/

/-- The operations of one kind of program among those of another. -/
structure Embedding (E F : Effects) where
  op : E.Op → F.Op
  answer : (o : E.Op) → F.Answer (op o) → E.Answer o
  loop : E.Loop → F.Loop

section Embedding
variable {E F : Effects} {G H α : Type}

def Program.embed (m : Embedding E F) : Program E α → Program F α
  | .done value => .done value
  | .perform o next => .perform (m.op o) fun answer => (next (m.answer o answer)).embed m
  | .loop name => .loop (m.loop name)

/-- What a program keeps to by itself it keeps to inside another, in the place its local states have there. -/
theorem Protocol.Conforms.embed {P : Protocol E G} {Q : Protocol F H} {m : Embedding E F} (place : G → H)
    (hop : ∀ {g o g'} (a : F.Answer (m.op o)), P.advance g o (m.answer o a) = some g' →
      Q.advance (place g) (m.op o) a = some (place g'))
    (hloop : ∀ {g name}, P.enter name g → Q.enter (m.loop name) (place g)) {post : α → G → Prop} {g : G} {p : Program E α}
    (h : P.Conforms post g p) : Q.Conforms (fun v place' => ∃ g', place' = place g' ∧ post v g') (place g) (p.embed m) := by
  induction p generalizing g with
  | done v => exact ⟨g, rfl, h⟩
  | perform o next ih =>
    intro a
    obtain ⟨g', hm, hn⟩ := h (m.answer o a)
    exact ⟨place g', hop a hm, ih _ hn⟩
  | loop name => exact hloop h

end Embedding
end Eggwork.Lib
