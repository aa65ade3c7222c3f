import Eggwork.Lib.Checks
import Eggwork.Lib.Table

/-! A file system as far as creating a tree needs it.

A path is a list of names. Names are compared after `fold`, so a case-insensitive
file system is one whose `fold` drops case; what is stored keeps its spelling.
A new name needs a directory above it and no node under a name that folds alike.
`Becomes` is what creating and then changing one node amounts to. -/
namespace Eggwork.Lib

abbrev FsPath := List (List Char)

inductive FsError where
  | notFound | notADirectory | alreadyExists
deriving DecidableEq, Repr

inductive FsNode where
  | directory (mode : UInt32)
  | file (mode : UInt32) (content : List UInt8)
deriving DecidableEq, Repr

structure FileSystem where
  fold : Char → Char
  umask : UInt32
  /-- Under each folded path, its spelling and what is there. -/
  nodes : Table FsPath (FsPath × FsNode)

namespace FsNode

def withMode (mode : UInt32) : FsNode → FsNode
  | directory _ => directory mode
  | file _ content => file mode content

def write (content : List UInt8) : FsNode → FsNode
  | directory mode => directory mode
  | file mode before => file mode (before ++ content)

end FsNode

namespace FileSystem
variable {fs fs' : FileSystem} {path : FsPath} {node : FsNode}

def key (fs : FileSystem) (path : FsPath) : FsPath := path.map fun name => name.map fs.fold

def find? (fs : FileSystem) (path : FsPath) : Option (FsPath × FsNode) := fs.nodes.get? (fs.key path)

/-- The directory a new name goes into. The root is always there. -/
def enter (fs : FileSystem) (parent : FsPath) : Except FsError Unit :=
  match parent, fs.find? parent with
  | [], _ => .ok ()
  | _, none => .error .notFound
  | _, some (_, .file _ _) => .error .notADirectory
  | _, some (_, .directory _) => .ok ()

def create (fs : FileSystem) (path : FsPath) (node : FsNode) : Except FsError FileSystem := do
  fs.enter path.dropLast
  if path = [] ∨ (fs.find? path).isSome then throw .alreadyExists
  return { fs with nodes := fs.nodes.put (fs.key path) (path, node) }

def createDir (fs : FileSystem) (path : FsPath) : Except FsError FileSystem :=
  fs.create path (.directory (0o777 &&& ~~~ fs.umask))

/-- Opening for writing with `create_new`. -/
def createNew (fs : FileSystem) (path : FsPath) (mode : UInt32) : Except FsError FileSystem :=
  fs.create path (.file (mode &&& ~~~ fs.umask) [])

def change (fs : FileSystem) (path : FsPath) (f : FsNode → FsNode) : Except FsError FileSystem :=
  if (fs.find? path).isSome then .ok { fs with nodes := fs.nodes.update (fs.key path) fun (name, node) => (name, f node) }
  else .error .notFound

def setPermissions (fs : FileSystem) (path : FsPath) (mode : UInt32) : Except FsError FileSystem :=
  fs.change path (FsNode.withMode mode)

def write (fs : FileSystem) (path : FsPath) (content : List UInt8) : Except FsError FileSystem :=
  fs.change path (FsNode.write content)

/-- Opening a node to sync it. -/
def sync (fs : FileSystem) (path : FsPath) : Except FsError Unit :=
  if (fs.find? path).isSome then .ok () else .error .notFound

theorem key_append (fs : FileSystem) (path rest : FsPath) : fs.key (path ++ rest) = fs.key path ++ fs.key rest :=
  List.map_append

theorem enter_ok {name : FsPath} {mode : UInt32} (h : fs.find? path = some (name, .directory mode)) :
    fs.enter path = .ok () := by
  unfold enter
  rw [h]
  cases path <;> rfl

/-- `fs'` is `fs` with `node` at `path`. -/
structure Becomes (fs : FileSystem) (path : FsPath) (node : FsNode) (fs' : FileSystem) : Prop where
  fold : fs'.fold = fs.fold
  get? : ∀ k, fs'.nodes.get? k = if k = fs.key path then some (path, node) else fs.nodes.get? k

theorem create_becomes (node : FsNode) (hp : fs.enter path.dropLast = .ok ()) (hpath : path ≠ []) (hf : fs.find? path = none) :
    ∃ fs', fs.create path node = .ok fs' ∧ fs.Becomes path node fs' := by
  refine ⟨{ fs with nodes := fs.nodes.put (fs.key path) (path, node) }, ?_, rfl, fun k => Table.get?_put ..⟩
  rw [create, hp]
  exact guard_eq_ok.mpr ⟨by simp [hpath, hf], rfl⟩

theorem Becomes.key (h : fs.Becomes path node fs') : fs'.key path = fs.key path := by
  rw [FileSystem.key, FileSystem.key, h.fold]

theorem Becomes.found (h : fs.Becomes path node fs') : fs'.find? path = some (path, node) := by
  rw [find?, h.key, h.get?, if_pos rfl]

theorem Becomes.change (h : fs.Becomes path node fs') (f : FsNode → FsNode) :
    ∃ fs'', fs'.change path f = .ok fs'' ∧ fs.Becomes path (f node) fs'' := by
  refine ⟨_, if_pos (by rw [h.found]; rfl), h.fold, fun k => ?_⟩
  simp only [Table.get?_update, h.key, h.get?]
  split <;> rfl

theorem sync_ok {found : FsPath × FsNode} (h : fs.find? path = some found) : fs.sync path = .ok () :=
  if_pos (by rw [h]; rfl)

/-! ### One node after another -/

/-- `fs` is `base` with the items on top, each under its path, and nothing else. -/
structure Extends (base : FileSystem) (items : List (FsPath × FsNode)) (fs : FileSystem) : Prop where
  fold : fs.fold = base.fold
  get? : ∀ {k v}, fs.nodes.get? k = some v ↔ base.nodes.get? k = some v ∨ (v ∈ items ∧ k = base.key v.1)
  nodes : (fs.nodes.rows.map Prod.snd).Perm (base.nodes.rows.map Prod.snd ++ items)

section
variable {base : FileSystem} {items : List (FsPath × FsNode)}

theorem Extends.refl (fs : FileSystem) : fs.Extends [] fs := ⟨rfl, by simp, by simp⟩

theorem Extends.perm {items' : List (FsPath × FsNode)} (h : base.Extends items fs) (hperm : items.Perm items') :
    base.Extends items' fs where
  fold := h.fold
  get? := by
    intro k v
    rw [h.get?, hperm.mem_iff]
  nodes := h.nodes.trans (hperm.append_left _)

theorem Extends.key (h : base.Extends items fs) (path : FsPath) : fs.key path = base.key path := by
  rw [FileSystem.key, FileSystem.key, h.fold]

theorem Extends.found (h : base.Extends items fs) (hitem : (path, node) ∈ items) : fs.find? path = some (path, node) := by
  rw [FileSystem.find?, h.key]
  exact h.get?.mpr (.inr ⟨hitem, rfl⟩)

theorem Extends.step (h : base.Extends items fs) (hf : fs.find? path = none) (hb : fs.Becomes path node fs') :
    base.Extends (items ++ [(path, node)]) fs' := by
  refine ⟨hb.fold.trans h.fold, fun {k v} => ?_, ?_⟩
  · rw [hb.get?, List.mem_append, List.mem_singleton, h.key]
    by_cases hk : k = base.key path
    · have hold : ¬ fs.nodes.get? k = some v := by
        rw [hk, ← h.key]
        exact fun hsome => (nomatch hf.symm.trans hsome)
      rw [h.get?, not_or] at hold
      rw [if_pos hk, Option.some_inj]
      constructor
      · rintro rfl
        exact .inr ⟨.inr rfl, hk⟩
      rintro (hbase | ⟨hitem | rfl, hkey⟩)
      · exact absurd hbase hold.1
      · exact absurd ⟨hitem, hkey⟩ hold.2
      · rfl
    · rw [if_neg hk, h.get?]
      refine or_congr_right ⟨fun hv => ⟨.inl hv.1, hv.2⟩, ?_⟩
      rintro ⟨hitem | rfl, hkey⟩
      · exact ⟨hitem, hkey⟩
      · exact absurd hkey hk
  · have hrows := (Table.rows_perm_append hf hb.get?).map Prod.snd
    rw [List.map_append] at hrows
    rw [← List.append_assoc]
    exact hrows.trans (h.nodes.append_right _)

end

end FileSystem
end Eggwork.Lib
