import Mathlib.Logic.Encodable.Basic
import Mathlib.Logic.Equiv.List
import Mathlib.Tactic.DeriveCountable

/-! JSON values, and encodings into them.

A record is an object with its fields in the order of their declaration. What an
encoding loses is asked value by value: `list_injective` and `option_injective`
carry injectivity through sequences and optional values. -/
namespace Eggwork.Lib

instance countableChar : Countable Char :=
  Function.Injective.countable (f := Char.toNat) fun _ _ h => Char.ext (UInt32.toNat_inj.mp h)

instance countableString : Countable String :=
  Function.Injective.countable (f := String.toList) fun _ _ h => String.toList_inj.mp h

mutual

inductive Json where
  | null
  | bool (value : Bool)
  | number (value : Nat)
  | string (value : String)
  | array (items : JsonItems)
  | object (fields : JsonFields)

inductive JsonItems where
  | nil
  | cons (head : Json) (tail : JsonItems)

inductive JsonFields where
  | nil
  | cons (name : String) (value : Json) (tail : JsonFields)

end

deriving instance Countable for Json

namespace Json

def items : List Json → JsonItems
  | [] => .nil
  | head :: tail => .cons head (items tail)

def fields : List (String × Json) → JsonFields
  | [] => .nil
  | (name, value) :: tail => .cons name value (fields tail)

/-- A record. -/
def record (l : List (String × Json)) : Json := .object (fields l)

/-- A sequence. -/
def list {α : Type} (f : α → Json) (l : List α) : Json := .array (items (l.map f))

/-- An optional value: `null` when it is absent. -/
def option {α : Type} (f : α → Json) : Option α → Json
  | none => .null
  | some a => f a

theorem items_injective : Function.Injective items := by
  intro l l' h
  induction l generalizing l' with
  | nil =>
    cases l' with
    | nil => rfl
    | cons _ _ => cases h
  | cons head tail ih =>
    cases l' with
    | nil => cases h
    | cons _ _ =>
      cases JsonItems.cons.inj h with
      | intro hhead htail => rw [hhead, ih htail]

/-- Records of the same fields are compared field by field. -/
@[simp] theorem record_cons {name name' : String} {v value' : Json} {l l' : List (String × Json)} :
    record ((name, v) :: l) = record ((name', value') :: l') ↔ name = name' ∧ v = value' ∧ record l = record l' := by
  simp only [record, fields, Json.object.injEq, JsonFields.cons.injEq]

variable {α : Type} {f : α → Json}

theorem list_injective (hf : Function.Injective f) : Function.Injective (list f) :=
  fun _ _ h => hf.list_map (items_injective (Json.array.inj h))

theorem option_injective (hf : Function.Injective f) (hnull : ∀ a, f a ≠ .null) : Function.Injective (option f)
  | none, none, _ => rfl
  | none, some a, h => absurd h.symm (hnull a)
  | some a, none, h => absurd h (hnull a)
  | some _, some _, h => congrArg some (hf h)

end Json
end Eggwork.Lib
