/-! Runs of a step function under a rule on its actions.

A system is a partial step function: an action that is not enabled gives no
state. `Steps step Rule s t` is a run from `s` to `t` each of whose actions meets
the rule in the state it is taken in; a property every such step preserves holds
at its end (`Steps.invariant`). A run on given actions is computed by `follow`. -/
namespace Eggwork.Lib

variable {S A : Type} {step : S → A → Option S} {Rule : S → A → Prop}

inductive Steps (step : S → A → Option S) (Rule : S → A → Prop) : S → S → Prop
  | refl (s : S) : Steps step Rule s s
  | tail {s t u : S} {a : A} (h : Steps step Rule s t) (hrule : Rule t a) (hstep : step t a = some u) :
      Steps step Rule s u

/-- An action taken freely. -/
abbrev Free : S → A → Prop := fun _ _ => True

theorem Steps.trans {s t u : S} (h : Steps step Rule s t) (h' : Steps step Rule t u) : Steps step Rule s u := by
  induction h' with
  | refl => exact h
  | tail _ hrule hstep ih => exact .tail ih hrule hstep

/-- A property every step under the rule preserves holds along a run. -/
theorem Steps.invariant (Inv : S → Prop) (hkeep : ∀ {s t a}, Rule s a → step s a = some t → Inv s → Inv t)
    {s t : S} (h : Steps step Rule s t) (hs : Inv s) : Inv t := by
  induction h with
  | refl => exact hs
  | tail _ hrule hstep ih => exact hkeep hrule hstep ih

/-- A run under a rule is a run under any weaker one. -/
theorem Steps.weaken {Weaker : S → A → Prop} (hw : ∀ {s a}, Rule s a → Weaker s a) {s t : S}
    (h : Steps step Rule s t) : Steps step Weaker s t := by
  induction h with
  | refl => exact .refl _
  | tail _ hrule hstep ih => exact .tail ih (hw hrule) hstep

/-! ### Watched runs -/

section Watch
variable {W : Type} {note : S → A → W → W}

/-- The system with an observer, who notes each action taken and the state it is taken in. -/
def watched (step : S → A → Option S) (note : S → A → W → W) (p : S × W) (a : A) : Option (S × W) :=
  (step p.1 a).map fun t => (t, note p.1 a p.2)

/-- A property of state and notes that every step under the rule preserves holds along a watched run. -/
theorem Steps.watched_invariant (Inv : S → W → Prop)
    (hkeep : ∀ {s t a w}, Rule s a → step s a = some t → Inv s w → Inv t (note s a w)) {p q : S × W}
    (h : Steps (watched step note) (fun p => Rule p.1) p q) (hp : Inv p.1 p.2) : Inv q.1 q.2 := by
  refine h.invariant (fun p => Inv p.1 p.2) (fun {p q a} hrule hstep hinv => ?_) hp
  obtain ⟨t, ht, he⟩ := Option.map_eq_some_iff.mp hstep
  cases he
  exact hkeep hrule ht hinv

/-- Without the observer it is the same run. -/
theorem Steps.unwatched {p q : S × W} (h : Steps (watched step note) (fun p => Rule p.1) p q) :
    Steps step Rule p.1 q.1 := by
  induction h with
  | refl => exact .refl _
  | tail _ hrule hstep ih =>
    obtain ⟨t, ht, he⟩ := Option.map_eq_some_iff.mp hstep
    cases he
    exact .tail ih hrule ht

end Watch

section Follow
variable [∀ s a, Decidable (Rule s a)]

/-- The state given actions lead to, if each is enabled and meets the rule. -/
def follow (step : S → A → Option S) (Rule : S → A → Prop) [∀ s a, Decidable (Rule s a)] (s : S) :
    List A → Option S
  | [] => some s
  | a :: rest =>
    if Rule s a then
      match step s a with
      | some t => follow step Rule t rest
      | none => none
    else none

theorem follow_steps {s t : S} {actions : List A} (h : follow step Rule s actions = some t) : Steps step Rule s t := by
  induction actions generalizing s with
  | nil =>
    cases h
    exact .refl _
  | cons a rest ih =>
    obtain ⟨hrule, h⟩ := Option.ite_none_right_eq_some.mp h
    split at h
    · rename_i next hstep
      exact (Steps.tail (.refl s) hrule hstep).trans (ih h)
    · cases h

/-- A property found at the end of given actions is that of a run. -/
theorem follow_reaches {s : S} {actions : List A} {p : S → Bool} (h : (follow step Rule s actions).any p = true) :
    ∃ t, Steps step Rule s t ∧ p t = true := by
  cases hf : follow step Rule s actions with
  | none =>
    rw [hf] at h
    cases h
  | some t =>
    rw [hf] at h
    exact ⟨t, follow_steps hf, h⟩

end Follow
end Eggwork.Lib
