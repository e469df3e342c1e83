import Emend.Text.Basic

/-! Absolute paths in normal form are lists of names. Texts are read against a directory: a text
that starts with a slash is absolute, empty parts and single dots mean nothing, and two dots take
back the name before them. -/

namespace Emend

open Text

def Name.isValid (t : Text) : Bool :=
  !t.isEmpty && !t.contains slash && t != [dot] && t != [dot, dot]

structure Name where
  text : Text
  valid : Name.isValid text = true
  deriving DecidableEq

structure Path where
  names : List Name
  deriving DecidableEq

namespace Path

def root : Path := ⟨[]⟩

def parent (path : Path) : Path := ⟨path.names.dropLast⟩

def child (path : Path) (name : Name) : Path := ⟨path.names ++ [name]⟩

def step (path : Path) (part : Text) : Path :=
  if part = [dot, dot] then path.parent
  else if valid : Name.isValid part = true then path.child ⟨part, valid⟩
  else path

def isAbsolute (t : Text) : Bool := t.head? == some slash

/-- The path that a text means against a directory. -/
def resolve (base : Path) (t : Text) : Path :=
  (split slash t).foldl step (if isAbsolute t then root else base)

def ofText (t : Text) : Path := root.resolve t

def toText (path : Path) : Text :=
  [slash] ++ join [slash] (path.names.map Name.text)

def ancestors (path : Path) : List Path :=
  (List.range (path.names.length + 1)).reverse.map fun depth => ⟨path.names.take depth⟩

end Path

/-- The last part of a text that is read as a path, trailing slashes ignored. -/
def baseName (t : Text) : Text := ((split slash t).filter (!·.isEmpty)).getLast?.getD []

/-- A text that is read as a path, up to its last part. -/
def directoryPart (t : Text) : Text :=
  let body := (t.reverse.dropWhile (· == slash)).reverse
  if body.isEmpty then t.take 1 else body.take (body.length - (baseName t).length)

/-- The extension of a name: what follows from its last dot on, unless only that dot comes
first or the name is two dots. -/
def extension (name : Text) : Text :=
  let tail := (name.reverse.takeWhile (· != dot)).reverse
  if tail.length + 1 < name.length && name != [dot, dot] then name.drop (name.length - tail.length - 1)
  else []

end Emend
