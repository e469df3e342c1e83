import Emend.Template.Token

/-! A pattern is a template to search for. It becomes one regular expression: literal text stands
for itself except that each run of blanks matches any run of blanks, the first hole of a name
captures, and a repeated name must match the same text again. -/

namespace Emend

open Text

structure Pattern where
  source : Text
  expression : Expression
  /-- The named holes in the order of their first occurrence. -/
  holes : List Text
  deriving Repr

structure Match where
  start : Nat
  stop : Nat
  text : Text
  /-- What each named hole has captured, in the order of the pattern's holes. The reserved name is
  left out. -/
  captures : List (Text × Text)
  deriving DecidableEq, Repr

namespace Pattern

open Template

def trimFirst (trim : Text → Text) : List Token → List Token
  | .literal value :: rest => .literal (trim value) :: rest
  | tokens => tokens

/-- Tokens without the blanks before the first lexeme and after the last one, which are no part of
what the pattern describes. -/
def trimOuter (tokens : List Token) : List Token :=
  let fromStart := trimFirst trimStart tokens
  let fromEnd := (trimFirst trimEnd fromStart.reverse).reverse
  fromEnd.filter fun token => token != .literal []

def isSpecial (u : UInt16) : Bool := (units ".*+?^$\x7b\x7d()|[]\\").contains u

def escapeUnit (u : UInt16) : Text := if isSpecial u then [backslash, u] else [u]

/-- Literal text as a regular expression: each longest run of blanks matches any blanks, and all
else matches itself. -/
def literalSource : (inBlanks : Bool) → Text → Text
  | _, [] => []
  | inBlanks, u :: rest =>
    if isBlank u then
      if inBlanks then literalSource true rest else units "\\s*" ++ literalSource true rest
    else escapeUnit u ++ literalSource false rest

/-- What a hole matches when nothing constrains it: any text but the empty one, the shortest
first. -/
def unconstrained : Text := units "[\\s\\S]+?"

def holeSource (seen : List Text) (hole : Hole) : Text :=
  let body := hole.constraint.getD unconstrained
  if hole.anonymous then units "(?:" ++ body ++ units ")"
  else if seen.contains hole.name then units "\\k<" ++ hole.name ++ units ">"
  else units "(?<" ++ hole.name ++ units ">" ++ body ++ units ")"

def seenAfter (seen : List Text) (token : Token) : List Text :=
  match token.captureName? with
  | none => seen
  | some name => if seen.contains name then seen else seen ++ [name]

/-- Tokens as one regular expression, given the names that have captured before them. -/
def tokensSource (seen : List Text) : List Token → Text
  | [] => []
  | token :: rest =>
    (match token with
      | .literal value => literalSource false value
      | .hole hole => holeSource seen hole) ++
      tokensSource (seenAfter seen token) rest

/-- The named holes of some tokens, each once, in the order of their first occurrence. -/
def holesOf (tokens : List Token) : List Text := tokens.foldl seenAfter []

def ofTokens (source : Text) (tokens : List Token) : Except Defect Pattern :=
  let trimmed := trimOuter tokens
  if trimmed.any Token.isLiteral then
    match Expression.parse (tokensSource [] trimmed) with
    | .ok expression => .ok ⟨source, expression, holesOf trimmed⟩
    | .error reason => .error (.badExpression reason)
  else .error (.noLiteral source)

/-- The tokens of a template that is to be searched for, which must not be blank. -/
def templateTokens (source : Text) : Except Defect (List Token) :=
  if (trim source).isEmpty then .error .blank else tokens source

def compile (source : Text) : Except Defect Pattern := do
  ofTokens source (← templateTokens source)

def matchOf (pattern : Pattern) (text : Array UInt16) (start : Nat) (point : Expression.Point) :
    Match :=
  ⟨start, point.position, Expression.Span.units text ⟨start, point.position⟩,
    (pattern.holes.filter (· != reservedName)).map fun name =>
      (name, (pattern.expression.capture? text point name).getD [])⟩

/-- The matches from a position on, left to right. Each search goes on where the match before it
stopped, and an empty match counts for nothing. -/
def matchesFrom (pattern : Pattern) (text : Array UInt16) (position : Nat) : List Match :=
  if text.size < position then []
  else
    match pattern.expression.node.matchAt text position with
    | none => pattern.matchesFrom text (position + 1)
    | some point =>
      if position < point.position then
        pattern.matchOf text position point :: pattern.matchesFrom text point.position
      else pattern.matchesFrom text (position + 1)
termination_by text.size + 1 - position
decreasing_by all_goals omega

def matchesIn (pattern : Pattern) (text : Text) : List Match := pattern.matchesFrom text.toArray 0

end Pattern

end Emend
