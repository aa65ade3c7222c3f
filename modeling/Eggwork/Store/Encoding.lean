import Mathlib.Data.Nat.Digits.Defs
import Eggwork.Store.Operations

/-! The size of an event's JSON text, and a `Serde` with those sizes.

The store reads only the length of an encoded event. `jsonLength`
counts the bytes `serde_json::to_vec` writes: derived objects with their keys, an
externally tagged `kind`, byte vectors as arrays of numbers, strings escaped. In
`Serde.json` a blob stands for the text of the value it encodes. -/
namespace Eggwork.Store

def numberLength (n : Nat) : Nat := (Nat.toDigits 10 n).length

theorem numberLength_le {n e : Nat} (he : 0 < e) (hn : n < 10 ^ e) : numberLength n ≤ e :=
  Nat.toDigits_length 10 n e he hn

/-- Bytes of a character inside a JSON string. -/
def escapedLength (c : Char) : Nat :=
  if c = '"' ∨ c = '\\' then 2
  else if c.toNat = 8 ∨ c.toNat = 9 ∨ c.toNat = 10 ∨ c.toNat = 12 ∨ c.toNat = 13 then 2
  else if c.toNat < 32 then 6
  else c.utf8Size

def stringLength (s : String) : Nat := 2 + (s.toList.map escapedLength).sum

/-- An array: brackets, the elements, a comma between two. -/
def arrayLength (elements : List Nat) : Nat := 2 + elements.sum + (elements.length - 1)

/-- An externally tagged variant: braces, the quoted tag, a colon, the content. -/
def variantLength (tag : String) (content : Nat) : Nat := 2 + stringLength tag + 1 + content

def kindLength : ExecutionEventKind → Nat
  | .state s => variantLength "State" (stringLength (stateName s))
  | .stdout bytes => variantLength "Stdout" (arrayLength (bytes.map fun b => numberLength b.toNat))
  | .stderr bytes => variantLength "Stderr" (arrayLength (bytes.map fun b => numberLength b.toNat))
  | .diagnostic text => variantLength "Diagnostic" (stringLength text)

def metadataLength (m : EventMetadata) : Nat :=
  variantLength "fields" (arrayLength (m.fields.map fun (k, v) => arrayLength [stringLength k, stringLength v]))

/-- The sequence number is a `u64` on the wire. -/
def jsonLength (e : ExecutionEvent) : Nat :=
  -- braces, three quoted keys with their colons, two commas
  2 + (stringLength "sequence" + 1 + numberLength (e.sequence % 2 ^ 64)) + 1 +
    (stringLength "kind" + 1 + kindLength e.kind) + 1 + (stringLength "metadata" + 1 + metadataLength e.metadata)

theorem interrupted_jsonLength (n : Nat) : jsonLength (.plain n (.state .interrupted)) ≤ maxEventBytes := by
  have hd : numberLength (n % 2 ^ 64) ≤ 20 := numberLength_le (by decide) (by omega)
  have hrest : kindLength (.state .interrupted) = 23 ∧ metadataLength ⟨[]⟩ = 13 ∧
      stringLength "sequence" = 10 ∧ stringLength "kind" = 6 ∧ stringLength "metadata" = 10 := by decide
  simp only [jsonLength, ExecutionEvent.plain, hrest, maxEventBytes]
  omega

/-- Blobs as the values they encode, with the size of an event's JSON text; the
store never measures a snapshot. -/
def Serde.json : Serde where
  snapshot := ⟨ExecutionSnapshot, id, some, fun _ => 0, fun _ => rfl⟩
  event := ⟨ExecutionEvent, id, some, jsonLength, fun _ => rfl⟩
  interrupted_length := interrupted_jsonLength

end Eggwork.Store
