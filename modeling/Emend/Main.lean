import Emend.Command.Program

/-! The program. What a run can see of the disk is read into a tree, the run works on the tree, and
the files that it changed are written back. -/

namespace Emend

open Text

namespace Disk

/-- What stands at a place, by name, and everything below it. A link is kept with the place it leads
to, or left out when it leads nowhere. What cannot be read is left out. -/
partial def entriesBelow (place : Path) : IO (List (Path × Node)) := do
  let directory ← IO.FS.realPath place.toText.asString
  let mut found := #[]
  for entry in ← directory.readDir do
    let name := units entry.fileName
    if valid : Name.isValid name = true then
      let child := place.child ⟨name, valid⟩
      try
        match (← entry.path.symlinkMetadata).type with
        | .dir => found := found.push (child, .directory) ++ (← entriesBelow child)
        | .file => found := found.push (child, .file (← IO.FS.readBinFile entry.path).toList 0o644)
        | .symlink =>
          found := found.push (child, .link (units (← IO.FS.realPath entry.path).toString))
        | .other => found := found.push (child, .pipe)
      catch _ => pure ()
  return found.toList

/-- Let there be what a link leads to, if the tree does not show it: a directory or an empty file,
which is enough to tell that it lies outside. -/
def showGoal (tree : Tree) (goal : Path) : IO Tree := do
  if (tree.get? goal).isSome then return tree
  let tree := tree.makeDirectories goal.parent
  match (← (← IO.FS.realPath goal.toText.asString).metadata).type with
  | .dir => return tree.put goal .directory
  | .file => return tree.put goal (.file [] 0o644)
  | _ => return tree.put goal .pipe

/-- The outermost directory that a run in a directory can see. -/
def boundaryOf (directory : Path) : IO Path := do
  for place in directory.ancestors do
    if let .ok _ ← (IO.FS.realPath (place.resolve (units ".git")).toText.asString).toBaseIO then
      return place
  return directory

def read (current directory : Path) : IO Workspace := do
  let boundary ← boundaryOf directory
  let real := Path.ofText (units (← IO.FS.realPath boundary.toText.asString).toString)
  let entries ← entriesBelow real
  let mut tree := (⟨entries⟩ : Tree).makeDirectories real
  if boundary ≠ real then
    tree := (tree.makeDirectories boundary.parent).put boundary (.link real.toText)
  for (_, node) in entries do
    if let .link goal := node then tree ← showGoal tree (Path.ofText goal)
  return ⟨tree, current⟩

/-- Write the files that differ between two states of a tree, each in place, so that it keeps its
mode. A file that no longer holds what was read is left alone. -/
def write (before after : Tree) : IO (List Failure) := do
  let mut stale := []
  for (place, node) in after.entries do
    if let .file bytes _ := node then
      let known := match before.get? place with
        | some (.file bytes _) => bytes
        | _ => []
      if known ≠ bytes then
        let name := place.toText.asString
        if (← IO.FS.readBinFile name).toList = known then
          IO.FS.writeBinFile name ⟨bytes.toArray⟩
        else stale := stale ++ [.stale place.toText]
  return stale

end Disk

namespace Command

/-- How a run from the command line is carried out. The tree is in memory by then, so the time is
that of reading it. -/
def meansFor (elapsed : Binary64) : RunMeans :=
  let reading := Duration.format elapsed
  let nothing := Duration.format .zero
  ⟨⟨nothing, nothing, reading, reading, nothing, nothing, fun _ => []⟩, .silent, .turns, Text.ofNat,
    elapsed⟩

def perform (arguments : List String) : IO UInt32 := do
  let words := arguments.map units
  let current := Path.ofText (units (← IO.currentDir).toString)
  let started ← IO.monoNanosNow
  let space ← match workplace? words with
    | some place => Disk.read current (current.resolve place)
    | none => pure ⟨.empty, current⟩
  let elapsed := Duration.ofNanoseconds ((← IO.monoNanosNow) - started : Nat)
  let output ← IO.getStdout
  let library : Library := ⟨units ((← IO.appDir).toString ++ "/data"), space⟩
  let exit := run ⟨library, meansFor elapsed, .plain, ← output.isTty⟩ words
  let stale ← Disk.write space.tree exit.scene.space.tree
  let told : Text := stale.flatMap fun failure => failedLine (failure.message .plain)
  output.putStr exit.output.asString
  (← IO.getStderr).putStr (exit.errors ++ told).asString
  return if stale.isEmpty then UInt32.ofNat (exit.code % 256).toNat else 1

end Command

end Emend

def main (arguments : List String) : IO UInt32 := Emend.Command.perform arguments
