import Emend.Failure
import Emend.Path.Relative
import Emend.Tree.Calls

/-! What a run may touch: the repository around the working directory, or that directory itself
when there is none. Links are resolved on both sides before they are compared. -/

namespace Emend.Workspace

open Text

/-- The nearest directory, from one upwards, in which there is a `.git`. -/
def repositoryRoot? (space : Workspace) (start : Path) : Option Path :=
  start.ancestors.find? fun directory =>
    (space.stat ((directory.resolve (units ".git")).toText)).toOption.isSome

/-- The path to where a text leads, through no link; or the text as a path if nothing is there. -/
def canonicalOrGiven (space : Workspace) (path : Text) : Except FileError Path :=
  match space.canonical path with
  | .ok place => .ok place
  | .error error =>
    if error.isMissing then .ok (space.directory.resolve path) else .error error

/-- A path leads to a place inside the boundary of a directory, or the failure that says not. The
label says what the path is. -/
def checkBoundary (space : Workspace) (directory path label : Text) : Except Failure Unit := do
  let repository := space.repositoryRoot? (space.directory.resolve directory)
  let boundary := match repository with
    | some root => root.toText
    | none => directory
  let around ← (space.canonicalOrGiven boundary).mapError .file
  let place ← (space.canonicalOrGiven path).mapError .file
  if around.isWithin place then .ok ()
  else .error (.outside label path (match repository with
    | some root => .repository root.toText
    | none => .directory directory))

end Emend.Workspace
