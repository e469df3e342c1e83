import Emend.Path.Basic
import Emend.Encoding.Utf8

/-! A file tree gives each path that exists what stands there. The root is always a directory. -/

namespace Emend

inductive Node where
  | file (bytes : Bytes) (mode : Nat)
  | directory
  | link (target : Text)
  | pipe
  deriving DecidableEq, Repr

structure Tree where
  entries : List (Path × Node)

namespace Tree

def empty : Tree := ⟨[]⟩

/-- What stands at a path, links not followed. -/
def get? (tree : Tree) (path : Path) : Option Node :=
  if path = .root then some .directory else tree.entries.lookup path

def erase (tree : Tree) (path : Path) : Tree := ⟨tree.entries.filter fun entry => entry.1 != path⟩

def put (tree : Tree) (path : Path) (node : Node) : Tree := ⟨(path, node) :: (tree.erase path).entries⟩

def eraseAll (tree : Tree) (path : Path) : Tree :=
  ⟨tree.entries.filter fun entry => !path.names.isPrefixOf entry.1.names⟩

def childOf? (directory : Path) (entry : Path × Node) : Option (Name × Node) :=
  match entry.1.names.getLast? with
  | some name => if entry.1.parent = directory then some (name, entry.2) else none
  | none => none

/-- The entries of a directory in the code-unit order of their names. -/
def list (tree : Tree) (directory : Path) : List (Name × Node) :=
  (tree.entries.filterMap (childOf? directory)).mergeSort
    fun a b => !Text.before b.1.text a.1.text

/-- Let there be a directory at a path, and at every path above it. What stands there stays. -/
def makeDirectories (tree : Tree) (path : Path) : Tree :=
  path.ancestors.foldl (fun tree path =>
    match tree.get? path with
    | some _ => tree
    | none => tree.put path .directory) tree

end Tree

end Emend
