/-! A broadcast channel: everything sent, and receivers that follow it.

A receiver is a position in what has been sent, starting at the end. The channel
keeps the last `capacity` items: a receiver further behind than that is told it
lagged, one at the end waits. -/
namespace Eggwork.Lib

structure Broadcast (α : Type) where
  sent : List α

inductive Received (α : Type) where
  | item (value : α) (next : Nat)
  | lagged
  | waiting

namespace Broadcast
variable {α : Type}

def channel : Broadcast α := ⟨[]⟩

def send (b : Broadcast α) (value : α) : Broadcast α := ⟨b.sent ++ [value]⟩

def subscribe (b : Broadcast α) : Nat := b.sent.length

def recv (capacity : Nat) (b : Broadcast α) (position : Nat) : Received α :=
  if b.sent.length - position > capacity then .lagged
  else
    match b.sent[position]? with
    | some value => .item value (position + 1)
    | none => .waiting

theorem recv_item {capacity : Nat} {b : Broadcast α} {pos next : Nat} {v : α} (h : b.recv capacity pos = .item v next) :
    b.sent[pos]? = some v ∧ next = pos + 1 := by
  unfold recv at h
  split at h
  · cases h
  split at h
  · cases h
    exact ⟨by assumption, rfl⟩
  · cases h

end Broadcast
end Eggwork.Lib
