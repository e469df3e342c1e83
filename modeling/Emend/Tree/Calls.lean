import Emend.Tree.Resolve

/-! The file system calls of this library on a tree. Each takes the path as it was given, and
reports it in its failures. A call that a tree allows is carried out here; where the system refuses one all the
same, the script that makes it is told so (`Script.under`). -/

namespace Emend

open FileError

/-- A tree and the directory against which relative paths are read. -/
structure Workspace where
  tree : Tree
  directory : Path

namespace Workspace

def naming {α : Type} (call : String) (path : Text) (result : Except Code α) : Except FileError α :=
  if path.contains 0 then .error (.zeroInPath path)
  else result.mapError fun code => .failed code call (some path)

def stat (space : Workspace) (path : Text) : Except FileError Node :=
  naming "stat" path ((space.tree.lookup space.directory true path).map (·.2))

/-- The path to the same place through no link. It is found part by part, so the path as a whole may
have any length. -/
def canonical (space : Workspace) (path : Text) : Except FileError Path :=
  naming "realpath" path
    (((space.tree.resolve space.directory true path).bind Tree.Found.standing).map (·.1))

/-- The bytes of a file. A directory opens but does not read. -/
def readFile (space : Workspace) (path : Text) : Except FileError Bytes := do
  match ← naming "open" path (space.tree.lookup space.directory true path) with
  | (_, .file bytes _) => .ok bytes
  | (_, .directory) => .error (.failed .isDirectory "read" none)
  | _ => .ok []

def modeOf : Node → Nat
  | .file _ mode => 0o100000 + mode
  | .directory => 0o040755
  | .link _ => 0o120777
  | .pipe => 0o010644

def mode (space : Workspace) (path : Text) : Except FileError Nat := (space.stat path).map modeOf

def mask : Nat := 0o022

/-- The permission bits of a new file for which a mode was asked. A tree keeps these nine alone: whether the
bits beside them outlast a write is up to who writes. -/
def maskedMode (mode : Nat) : Nat := (mode % 0o1000) - (mode &&& mask)

/-- Write a file's bytes. A new file gets the mode less the mask, one that is there keeps its
own. -/
def writeFile (space : Workspace) (path : Text) (bytes : Bytes) (mode : Nat) :
    Except FileError Workspace := do
  match ← naming "open" path (space.tree.find space.directory true path) with
  | .missing place => .ok { space with tree := space.tree.put place (.file bytes (maskedMode mode)) }
  | .node place (.file _ mode) => .ok { space with tree := space.tree.put place (.file bytes mode) }
  | .node _ .directory => naming "open" path (.error .isDirectory)
  | .node _ _ => .ok space

/-- Let an entry take the place of another. Links are moved and replaced, not followed. -/
def rename (space : Workspace) (source target : Text) : Except FileError Workspace := do
  let failing {α : Type} (result : Except Code α) : Except FileError α :=
    result.mapError fun code => .failed code "rename" (some (source ++ units "' -> '" ++ target))
  let (place, node) ← failing (space.tree.lookup space.directory false source)
  match ← failing (space.tree.find space.directory false target) with
  | .node _ .directory => failing (.error .isDirectory)
  | .node goal _ | .missing goal => .ok { space with tree := (space.tree.erase place).put goal node }

/-- Remove one entry that is no directory. Nothing happens when it is not there. -/
def remove (space : Workspace) (path : Text) : Except FileError Workspace := do
  match naming "rm" path (space.tree.find space.directory false path) with
  | .ok (.missing _) => .ok space
  | .ok (.node _ .directory) => naming "rm" path (.error .isDirectory)
  | .ok (.node place _) => .ok { space with tree := space.tree.erase place }
  | .error error => if error.isMissing then .ok space else .error error

end Workspace

end Emend
