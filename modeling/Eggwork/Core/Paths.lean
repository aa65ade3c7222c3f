import Eggwork.Core.Spec

/-! Portable workspace paths.

`validatePortableWorkspacePath` is the check of the crate, component by component;
`Portable` says what it is for: a relative ASCII path that names the same file on
every host. Ancestors are told by components: `a/b` is one of `a/b/c`. -/
namespace Eggwork
open Lib List

def maxWorkspaceDepth : Nat := 128

/-! ### The check -/

/-- Control characters, and what some host forbids in a name. -/
def forbiddenByte (c : Char) : Bool := decide (c.toNat < 0x20) || ['<', '>', ':', '"', '|', '?', '*'].contains c

def deviceNames : List String := ["CON", "PRN", "AUX", "NUL", "CONIN$", "CONOUT$", "CLOCK$"]

def deviceNumbers : List (List Char) := ["1", "2", "3", "4", "5", "6", "7", "8", "9"].map String.toList

/-- The name before the first dot, in capitals. -/
def basename (component : List Char) : List Char := (component.takeWhile (· != '.')).map Char.toUpper

/-- A component that some host takes for a device. -/
def reservedComponent (component : List Char) : Bool :=
  deviceNames.contains (String.ofList (basename component)) ||
    (((basename component).dropPrefix? "COM".toList).or ((basename component).dropPrefix? "LPT".toList)).any
      fun number => deviceNumbers.contains number

def validateComponent (component : List Char) : Except ValidationError Unit := do
  if component.isEmpty || component == ".".toList || component == "..".toList || component.getLast? == some '.' ||
      component.getLast? == some ' ' || component.any forbiddenByte then
    throw (.invalidPath "portable workspace path")
  if reservedComponent component then throw (.invalidPath "reserved workspace path")

def validatePortableWorkspacePath (path : String) : Except ValidationError Unit := do
  if path.isEmpty || decide (path.utf8ByteSize > maxPathBytes) || decide ((components path).length > maxWorkspaceDepth) ||
      !path.toList.all (fun c => decide (c.toNat < 128)) || path.toList.head? == some '/' ||
      path.toList.contains '\\' || containsNul path then
    throw (.invalidPath "portable workspace path")
  (components path).forM validateComponent

/-! ### What it accepts -/

/-- The component names a device: one of the seven, or a numbered port. -/
def ReservedDevice (component : List Char) : Prop :=
  String.ofList (basename component) ∈ deviceNames ∨
    ∃ port ∈ ["COM", "LPT"], ∃ number ∈ deviceNumbers, basename component = port.toList ++ number

structure PortableComponent (component : List Char) : Prop where
  nonempty : component ≠ []
  dotless : component ≠ ['.'] ∧ component ≠ ['.', '.']
  trailing : component.getLast? ≠ some '.' ∧ component.getLast? ≠ some ' '
  permitted : ∀ c ∈ component, 0x20 ≤ c.toNat ∧ c ∉ ['<', '>', ':', '"', '|', '?', '*']
  unreserved : ¬ ReservedDevice component

/-- The path names the same file on every host. -/
structure Portable (path : String) : Prop where
  relative : path.toList.head? ≠ some '/'
  ascii : ∀ c ∈ path.toList, c.toNat < 128
  length : 0 < path.utf8ByteSize ∧ path.utf8ByteSize ≤ maxPathBytes
  depth : (components path).length ≤ maxWorkspaceDepth
  slashed : '\\' ∉ path.toList ∧ Char.ofNat 0 ∉ path.toList
  parts : ∀ component ∈ components path, PortableComponent component

theorem forbiddenByte_eq_false {c : Char} :
    forbiddenByte c = false ↔ 0x20 ≤ c.toNat ∧ c ∉ ['<', '>', ':', '"', '|', '?', '*'] := by
  rw [forbiddenByte, Bool.or_eq_false_iff, decide_eq_false_iff_not, Nat.not_lt, contains_eq_mem, decide_eq_false_iff_not]

theorem reservedComponent_iff {component : List Char} : reservedComponent component = true ↔ ReservedDevice component := by
  unfold reservedComponent ReservedDevice
  generalize basename component = name
  rw [Bool.or_eq_true, contains_iff_mem, Option.any_eq_true]
  refine or_congr Iff.rfl ?_
  simp only [Option.or_eq_some_iff, List.dropPrefix?_eq_some_iff, contains_iff_mem, beq_iff_eq, exists_eq_right]
  constructor
  · rintro ⟨number, hname | ⟨_, hname⟩, hn⟩
    · exact ⟨"COM", by simp, number, hn, hname⟩
    · exact ⟨"LPT", by simp, number, hn, hname⟩
  rintro ⟨port, hport, number, hn, rfl⟩
  rcases mem_pair.mp hport with rfl | rfl
  · exact ⟨number, .inl rfl, hn⟩
  · exact ⟨number, .inr ⟨rfl, rfl⟩, hn⟩

theorem validateComponent_ok {component : List Char} :
    validateComponent component = .ok () ↔ PortableComponent component := by
  unfold validateComponent
  simp only [guard_eq_ok, throwing_eq_ok, pure_eq_ok, reservedComponent_iff, and_true, Bool.or_eq_true, not_or,
    List.isEmpty_iff, beq_iff_eq, Bool.not_eq_true, List.any_eq_false, forbiddenByte_eq_false]
  constructor
  · rintro ⟨⟨⟨⟨⟨⟨he, hdot⟩, hdots⟩, hp⟩, hs⟩, hb⟩, hr⟩
    exact ⟨he, ⟨hdot, hdots⟩, ⟨hp, hs⟩, hb, hr⟩
  · rintro ⟨he, ⟨hdot, hdots⟩, ⟨hp, hs⟩, hb, hr⟩
    exact ⟨⟨⟨⟨⟨⟨he, hdot⟩, hdots⟩, hp⟩, hs⟩, hb⟩, hr⟩

theorem validatePortableWorkspacePath_ok {path : String} :
    validatePortableWorkspacePath path = .ok () ↔ Portable path := by
  unfold validatePortableWorkspacePath
  simp only [guard_eq_ok, forM_eq_ok, validateComponent_ok, Bool.or_eq_true, not_or, decide_eq_true_eq, Nat.not_lt,
    gt_iff_lt, Bool.not_eq_true', Bool.not_eq_false, all_eq_true, beq_iff_eq, containsNul, contains_iff_mem,
    String.isEmpty_iff]
  constructor
  · rintro ⟨⟨⟨⟨⟨⟨⟨he, hlen⟩, hd⟩, ha⟩, hs⟩, hback⟩, hn⟩, hp⟩
    exact ⟨hs, ha, ⟨Nat.pos_of_ne_zero fun h => he (String.utf8ByteSize_eq_zero_iff.mp h), hlen⟩, hd,
      ⟨hback, hn⟩, hp⟩
  · rintro ⟨hs, ha, ⟨hpos, hlen⟩, hd, ⟨hback, hn⟩, hp⟩
    have he : path ≠ "" := fun h => absurd hpos (by rw [h]; decide)
    exact ⟨⟨⟨⟨⟨⟨⟨he, hlen⟩, hd⟩, ha⟩, hs⟩, hback⟩, hn⟩, hp⟩

/-! ### Ancestors -/

theorem components_ne_nil (path : String) : components path ≠ [] := splitOn_ne_nil _ _

/-- A directory on the way to the path: its components are a proper initial part. -/
def IsAncestor (ancestor path : String) : Prop :=
  ∃ rest, rest ≠ [] ∧ components path = components ancestor ++ rest

theorem intercalate_append {sep y : List Char} {xs ys : List (List Char)} (h : xs ≠ []) :
    sep.intercalate (xs ++ y :: ys) = sep.intercalate xs ++ (sep ++ sep.intercalate (y :: ys)) := by
  induction xs with
  | nil => exact absurd rfl h
  | cons x rest ih =>
    cases rest with
    | nil => simp [intercalate_cons_cons]
    | cons x' rest =>
      have hrest := ih (cons_ne_nil _ _)
      rw [cons_append] at hrest
      rw [cons_append, cons_append, intercalate_cons_cons, intercalate_cons_cons, hrest]
      simp only [append_assoc]

theorem isAncestor_iff {ancestor path : String} :
    IsAncestor ancestor path ↔ ∃ rest, path.toList = ancestor.toList ++ '/' :: rest := by
  constructor
  · rintro ⟨rest, hrest, hp⟩
    obtain ⟨part, rest, rfl⟩ := exists_cons_of_ne_nil hrest
    have hpath := congrArg (List.intercalate ['/']) hp
    rw [components, intercalate_splitOn, intercalate_append (components_ne_nil _), components,
      intercalate_splitOn] at hpath
    exact ⟨_, hpath⟩
  · rintro ⟨rest, hpath⟩
    refine ⟨rest.splitOn '/', splitOn_ne_nil _ _, ?_⟩
    rw [components, hpath, components]
    exact splitOn_append_cons_self _ _

theorem exists_parent {path : String} (h : (components path).dropLast ≠ []) :
    ∃ parent, IsAncestor parent path ∧ components parent = (components path).dropLast := by
  have hslash : '/' ∈ path.toList.reverse := by
    by_contra hn
    rw [mem_reverse] at hn
    rw [components, splitOn_eq_singleton hn] at h
    exact h rfl
  obtain ⟨after, before, hpath, ha⟩ := eq_append_cons_of_mem hslash
  have hs : path.toList = before.reverse ++ '/' :: after.reverse := by
    rw [← reverse_reverse path.toList, hpath]
    simp
  refine ⟨String.ofList before.reverse, isAncestor_iff.mpr ⟨after.reverse, by rw [String.toList_ofList, hs]⟩, ?_⟩
  have hlast : after.reverse.splitOn '/' = [after.reverse] := splitOn_eq_singleton (by simpa using ha)
  rw [components, components, String.toList_ofList, hs, splitOn_append_cons_self, hlast, dropLast_concat]

end Eggwork
