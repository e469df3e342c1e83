import Emend.Path.Relative
import Emend.Tree.Calls

/-! Setting up a workspace: letting something stand at a path, with the directories above it, and
listing the files of a directory. -/

namespace Emend.Workspace

open Text (repair slash)

/-- The directory that some names lead to, links followed. What is missing is created. -/
def enter (space : Workspace) (path : Text) (directory : Path) :
    List Name → Except FileError (Workspace × Path)
  | [] => .ok (space, directory)
  | name :: rest =>
    match space.tree.lookup directory true name.text with
    | .ok (place, .directory) => enter space path place rest
    | .ok _ => naming "mkdir" path (.error (if rest.isEmpty then .exists else .notDirectory))
    | .error .noEntry =>
      let place := directory.child name
      enter { space with tree := space.tree.put place .directory } path place rest
    | .error code => naming "mkdir" path (.error code)

def usable (path : Path) : Except FileError Text :=
  let text := path.toText
  if text.contains 0 then .error (.zeroInPath text) else .ok text

/-- Let something but a directory stand in a directory. A file takes the place of a file, also through a link;
nothing else may be there. -/
def place (space : Workspace) (path : Text) (directory : Path) (name : Name) (node : Node) :
    Except FileError Workspace :=
  match node, space.tree.find directory true name.text with
  | .file .., .ok (.node place (.file ..)) | .file .., .ok (.missing place) =>
    .ok { space with tree := space.tree.put place node }
  | .file .., .ok (.node _ .directory) => naming "open" path (.error .isDirectory)
  | .file .., .error code => naming "open" path (.error code)
  | _, _ =>
    match space.tree.find directory false name.text with
    | .ok (.missing place) => .ok { space with tree := space.tree.put place node }
    | .ok (.node ..) => naming "symlink" path (.error .exists)
    | .error code => naming "symlink" path (.error code)

/-- Let something stand at a path, where a directory may be already. -/
def install (space : Workspace) (path : Text) (node : Node) : Except FileError Workspace := do
  let goal := space.directory.resolve (repair path)
  match goal.names.getLast?, node with
  | none, _ => .ok space
  | some _, .directory => do
    let (space, _) ← space.enter (← usable goal) .root goal.names
    .ok space
  | some name, node => do
    let (space, directory) ← space.enter (← usable goal.parent) .root goal.parent.names
    space.place (← usable goal) directory name node

def removeAll (space : Workspace) (path : Text) : Workspace :=
  match space.tree.find space.directory false path with
  | .ok (.node place _) => { space with tree := space.tree.eraseAll place }
  | _ => space

/-- The files below a directory, depth first and by name, with their paths as seen from it. -/
def filesBelow (tree : Tree) : (depth : Nat) → (directory : Path) → (shown : Text) →
    List (Text × Bytes × Nat)
  | 0, _, _ => []
  | depth + 1, directory, shown =>
    (tree.list directory).flatMap fun (name, node) =>
      match node with
      | .directory => filesBelow tree depth (directory.child name) (shown ++ name.text ++ [slash])
      | .file bytes mode => [(shown ++ name.text, bytes, mode)]
      | _ => []

def files (space : Workspace) : List (Text × Bytes × Nat) :=
  filesBelow space.tree ((space.tree.entries.map fun entry => entry.1.names.length).foldl max 0 + 1)
    space.directory []

end Emend.Workspace
