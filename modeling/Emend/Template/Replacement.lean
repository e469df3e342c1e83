import Emend.Template.Token

/-! A replacement is a template that is filled in: each named hole with its captured text, as it
stands, and each anonymous hole with nothing. -/

namespace Emend

open Template

structure Replacement where
  source : Text
  tokens : List Token
  deriving Repr

/-- A named hole for which nothing has been captured. -/
structure UnknownHole where
  name : Text
  deriving DecidableEq, Repr

def UnknownHole.message (unknown : UnknownHole) : Text :=
  units "Replacement uses unknown hole \"" ++ unknown.name ++ units "\"."

namespace Replacement

def compile (source : Text) : Except Defect Replacement := do
  return ⟨source, ← Template.tokens source⟩

def holes (replacement : Replacement) : List Text :=
  replacement.tokens.foldl (fun seen token =>
    match token.captureName? with
    | none => seen
    | some name => if seen.contains name then seen else seen ++ [name]) []

def renderToken (captures : List (Text × Text)) : Token → Except UnknownHole Text
  | .literal value => .ok value
  | .hole hole =>
    if hole.anonymous then .ok []
    else match captures.lookup hole.name with
      | some value => .ok value
      | none => if hole.name = reservedName then .ok reservedValue else .error ⟨hole.name⟩

/-- Fill in the holes, the first unknown one failing. -/
def render (replacement : Replacement) (captures : List (Text × Text)) : Except UnknownHole Text :=
  do return (← replacement.tokens.mapM (renderToken captures)).flatten

def fillToken (captures : List (Text × Text)) : Token → Text
  | .literal value => value
  | .hole hole =>
    if hole.anonymous then []
    else match captures.lookup hole.name with
      | some value => value
      | none => if hole.name = reservedName then reservedValue else []

/-- Fill in the holes, all of which have been captured. -/
def fill (replacement : Replacement) (captures : List (Text × Text)) : Text :=
  replacement.tokens.flatMap (fillToken captures)

end Replacement

end Emend
