import Emend.Tree.Basic
import Emend.FileError

/-! Finding what a path means: each part is looked up in the directory that the parts before it
lead to, and links are followed on the way, forty of them at most. -/

namespace Emend.Tree

open Text FileError

def nameLimit : Nat := 255

/-- No path that is handed over as one has as many bytes as this. -/
def pathLimit : Nat := 4096

def linkLimit : Nat := 40

inductive Found where
  /-- Something stands there; the path to it goes through no link. -/
  | node (path : Path) (node : Node)
  /-- Nothing stands there, in a directory that exists. -/
  | missing (path : Path)

/-- Where a look-up has got to when it meets a link, or its end. -/
inductive Stride where
  | found (found : Found)
  | failed (code : Code)
  | link (directory : Path) (parts : List Text)

/-- The parts of a text, which hold no surrogate outside a pair, since no name of an entry does. A
slash at its end asks for a directory, as a dot after it would. -/
def parts (t : Text) : List Text :=
  (split slash (repair t)).filter (!·.isEmpty) ++ if t.getLast? = some slash then [[dot]] else []

def startOf (base : Path) (t : Text) : Path := if Path.isAbsolute t then .root else base

/-- Take parts from a directory on until a link or the end. -/
def stride (tree : Tree) (followLast : Bool) : Path → List Text → Stride
  | directory, [] => .found (.node directory .directory)
  | directory, part :: rest =>
    if part = [dot, dot] then stride tree followLast directory.parent rest
    else if valid : Name.isValid part = true then
      if nameLimit < (Utf8.encode part).length then .failed .nameTooLong
      else
        let path := directory.child ⟨part, valid⟩
        match tree.get? path with
        | none => if rest.isEmpty then .found (.missing path) else .failed .noEntry
        | some .directory => stride tree followLast path rest
        | some (.link target) =>
          if rest.isEmpty && !followLast then .found (.node path (.link target))
          else .link (startOf directory target) (parts target ++ rest)
        | some node => if rest.isEmpty then .found (.node path node) else .failed .notDirectory
    else stride tree followLast directory rest

/-- Take parts from a directory on, following a bounded number of links. -/
def walk (tree : Tree) (followLast : Bool) : Nat → Path → List Text → Except Code Found
  | links, directory, parts =>
    match tree.stride followLast directory parts with
    | .found found => .ok found
    | .failed code => .error code
    | .link next parts =>
      match links with
      | 0 => .error .tooManyLinks
      | links + 1 => tree.walk followLast links next parts

/-- What a text of any length means against a directory. Its last part is followed when it is a link,
or not. -/
def resolve (tree : Tree) (base : Path) (followLast : Bool) (t : Text) : Except Code Found :=
  if t.isEmpty then .error .noEntry
  else tree.walk followLast linkLimit (startOf base t) (parts t)

def find (tree : Tree) (base : Path) (followLast : Bool) (t : Text) : Except Code Found :=
  if pathLimit ≤ (Utf8.encode t).length then .error .nameTooLong
  else tree.resolve base followLast t

def Found.standing : Found → Except Code (Path × Node)
  | .node path there => .ok (path, there)
  | .missing _ => .error .noEntry

/-- What a text means against a directory, if something stands there. -/
def lookup (tree : Tree) (base : Path) (followLast : Bool) (t : Text) : Except Code (Path × Node) :=
  (tree.find base followLast t).bind Found.standing

end Emend.Tree
