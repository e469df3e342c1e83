import Emend.Boundary
import Emend.Text.Case

/-! The files of a corpus: those below a scope with one of the wanted extensions, in the order of a
walk that takes the entries of each directory by name. Links are not followed below the scope and
directories of some names are not entered. A walk that meets a directory which cannot be opened
collects nothing, whether its path is too long or the system refuses to open it. -/

namespace Emend

open Text

namespace Corpus

def defaultExtensions : List Text :=
  [".rs", ".ts", ".tsx", ".mts", ".cts", ".js", ".jsx", ".mjs", ".cjs"].map units

def defaultExcluded : List Text :=
  [".git", "node_modules", "target", "dist", "build", "coverage", "out"].map units

structure Selection where
  /-- The directory against which the scope is read. -/
  directory : Text
  scope : Text
  extensions : Option (List Text)
  excluded : Option (List Text)

def normalizeExtension (extension : Text) : Text :=
  let lower := toLower (trim extension)
  if lower.head? = some dot then lower else [dot] ++ lower

namespace Selection

def wanted (selection : Selection) : List Text :=
  (selection.extensions.getD defaultExtensions).map normalizeExtension

def skipped (selection : Selection) : List Text := selection.excluded.getD defaultExcluded

def accepts (selection : Selection) (name : Text) : Bool :=
  selection.wanted.contains (toLower (extension name))

end Selection

/-- The wanted files below a directory, which is named by a path that may lead through links. The
fuel bounds how deep the walk goes. -/
def walk (tree : Tree) (selection : Selection) : Nat → (place shown : Path) → List Path
  | 0, _, _ => []
  | depth + 1, place, shown =>
    (tree.list place).flatMap fun (name, node) =>
      match node with
      | .directory =>
        if selection.skipped.contains name.text then []
        else walk tree selection depth (place.child name) (shown.child name)
      | .file _ _ => if selection.accepts name.text then [shown.child name] else []
      | _ => []

/-- Why a directory cannot be opened: its path, which goes on from that of the scope, has become too
long as a whole, or the system refuses it. -/
def shut? (refused : Text → Option FileError.Code) (shown : Path) : Option FileError.Code :=
  if Tree.pathLimit ≤ (Utf8.encode shown.toText).length then some .nameTooLong else refused shown.toText

/-- The first directory on a walk that cannot be opened, and why. -/
def unopened? (refused : Text → Option FileError.Code) (tree : Tree) (selection : Selection) :
    Nat → (place shown : Path) → Option (Path × FileError.Code)
  | 0, _, _ => none
  | depth + 1, place, shown =>
    match shut? refused shown with
    | some code => some (shown, code)
    | none => (tree.list place).findSome? fun (name, node) =>
      match node with
      | .directory =>
        if selection.skipped.contains name.text then none
        else unopened? refused tree selection depth (place.child name) (shown.child name)
      | _ => none

def depth (tree : Tree) : Nat := (tree.entries.map fun entry => entry.1.names.length).foldl max 0

/-- The files of a corpus, where the system refuses to open some directories. A scope that is a file is
the whole corpus if it is wanted; a scope that is neither a file nor a directory has none. -/
def collectUnder (refused : Text → Option FileError.Code) (space : Workspace) (selection : Selection) :
    Except Failure (List Path) :=
  let shown := (space.directory.resolve selection.directory).resolve selection.scope
  let path := shown.toText
  match Workspace.naming "stat" path (space.tree.lookup space.directory true path) with
  | .error error => .error (if error.isMissing then .corpusNotFound path else .file error)
  | .ok (_, .file _ _) =>
    .ok (if selection.accepts (shown.names.getLast?.elim [] Name.text) then [shown] else [])
  | .ok (place, .directory) =>
    match unopened? refused space.tree selection (depth space.tree + 1) place shown with
    | some (directory, code) => .error (.file (.failed code "opendir" (some directory.toText)))
    | none => .ok (walk space.tree selection (depth space.tree + 1) place shown)
  | .ok _ => .ok []

/-- The files of a corpus, of which every directory may be opened. -/
def collect (space : Workspace) (selection : Selection) : Except Failure (List Path) :=
  collectUnder (fun _ => none) space selection

end Corpus

end Emend
