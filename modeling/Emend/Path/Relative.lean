import Emend.Path.Basic

/-! Relative paths: one directory as seen from another, whether that stays inside, and how a file
is shown to someone who works in a directory. -/

namespace Emend

open Text

namespace Path

def afterShared : List Name → List Name → List Name × List Name
  | a :: rest, b :: others => if a = b then afterShared rest others else (a :: rest, b :: others)
  | rest, others => (rest, others)

/-- The way from one path to another: up to what they share, then down. -/
def relative (base path : Path) : Text :=
  let (up, down) := afterShared base.names path.names
  join [slash] (up.map (fun _ => [dot, dot]) ++ down.map Name.text)

end Path

/-- A relative text that does not lead out of where it starts. -/
def isWithin (relative : Text) : Bool :=
  if relative.isEmpty then true
  else if Path.isAbsolute relative then false
  else relative != [dot, dot] && !([dot, dot, slash] : Text).isPrefixOf relative

def Path.isWithin (base path : Path) : Bool := Emend.isWithin (base.relative path)

/-- Take the next part of a relative text: two dots take back the name before them, if there is
one. -/
def normalizeStep (parts : List Text) (part : Text) : List Text :=
  if part.isEmpty || part = [dot] then parts
  else if part = [dot, dot] && parts.getLast?.any (· != [dot, dot]) then parts.dropLast
  else parts ++ [part]

/-- A text that means the same path without empty parts, dots and needless steps back. -/
def normalize (t : Text) : Text :=
  if Path.isAbsolute t then (Path.ofText t).toText
  else
    let parts := (split slash t).foldl normalizeStep []
    if parts.isEmpty then [dot] else join [slash] parts

/-- A file as shown to someone in a directory: relative if it lies inside, its own name if it is
that directory, and as given if it lies outside. -/
def displayPath (directory file : Text) : Text :=
  let relative := (Path.ofText directory).relative (Path.ofText file)
  if isWithin relative then if relative.isEmpty then baseName file else relative
  else file

end Emend
