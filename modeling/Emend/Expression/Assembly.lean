import Emend.Expression.Lexeme
import Emend.Expression.Match

/-! Lexemes are put together on a stack of open groups. The innermost frame takes each term; a
closing parenthesis makes the whole frame one term of the frame around it. -/

namespace Emend.Expression

/-- An open group, or the expression itself when nothing is open. -/
structure Frame where
  wrap : Node → Node
  repeatable : Bool
  /-- The alternatives before the current one, the latest first. -/
  branches : List Node
  /-- The terms of the current alternative, the latest first. -/
  terms : List Node
  lastRepeatable : Bool

namespace Frame

def fresh (wrap : Node → Node) (repeatable : Bool) : Frame := ⟨wrap, repeatable, [], [], false⟩

def add (frame : Frame) (node : Node) (repeatable : Bool) : Frame :=
  { frame with terms := node :: frame.terms, lastRepeatable := repeatable }

def alternative (frame : Frame) : Node := .sequenceOf frame.terms.reverse

def branch (frame : Frame) : Frame :=
  { frame with branches := frame.alternative :: frame.branches, terms := [], lastRepeatable := false }

def body (frame : Frame) : Node := .choiceOf (frame.alternative :: frame.branches).reverse

def repeatLast (frame : Frame) (least : Nat) (most : Option Nat) (greedy : Bool) :
    Except Defect Frame :=
  match frame.lastRepeatable, frame.terms with
  | true, last :: terms =>
    .ok { frame with terms := last.repeated least most greedy :: terms, lastRepeatable := false }
  | _, _ => .error .nothingToRepeat

end Frame

/-- The frames under way, the innermost first, and the number of groups met so far. -/
structure Assembly where
  met : Nat
  frame : Frame
  outer : List Frame

namespace Assembly

def start : Assembly := ⟨0, .fresh id false, []⟩

/-- Open a group. A captured group takes the next number; a group that looks ahead may be repeated,
one that looks behind may not. -/
def enter (assembly : Assembly) (kind : Opening) : Assembly :=
  let outer := assembly.frame :: assembly.outer
  match kind with
  | .capture _ => ⟨assembly.met + 1, .fresh (.group (assembly.met + 1)) true, outer⟩
  | .plain => ⟨assembly.met, .fresh id true, outer⟩
  | .look behind negated => ⟨assembly.met, .fresh (.look behind negated) (!behind), outer⟩

def step (assembly : Assembly) (piece : Lexeme) : Except Defect Assembly :=
  match piece with
  | .opening kind => .ok (assembly.enter kind)
  | .closing =>
    match assembly.outer with
    | [] => .error .unmatchedParen
    | around :: outer =>
      let closed := assembly.frame
      .ok ⟨assembly.met, around.add (closed.wrap closed.body) closed.repeatable, outer⟩
  | .bar => .ok { assembly with frame := assembly.frame.branch }
  | .atom node => .ok { assembly with frame := assembly.frame.add node true }
  | .assertion node => .ok { assembly with frame := assembly.frame.add node false }
  | .quantifier least most greedy => do
    let frame ← assembly.frame.repeatLast least most greedy
    .ok { assembly with frame }

def finish (assembly : Assembly) : Except Defect Node :=
  match assembly.outer with
  | [] => .ok assembly.frame.body
  | _ :: _ => .error .unterminatedGroup

end Assembly

def assemble (pieces : List Lexeme) : Except Defect Node := do
  (← pieces.foldlM Assembly.step Assembly.start).finish

end Emend.Expression

namespace Emend

/-- A regular expression: its text, what it matches, and the names of its groups in order. -/
structure Expression where
  text : Text
  node : Expression.Node
  names : List (Text × Nat)
  deriving Repr

namespace Expression

/-- Read a regular expression. A first reading counts and names the groups, which tells the
second one what the references mean. -/
def parse (text : Text) : Except Defect Expression := do
  let groups ← survey (← lexemes ⟨0, []⟩ text)
  let node ← assemble (← lexemes groups text)
  .ok ⟨text, node, groups.names⟩

/-- Write a pattern between slashes: a slash outside a class and every line terminator is escaped,
and a terminator after a backslash uses that backslash. -/
def escapeSource : (escaped inClass : Bool) → Text → Text
  | _, _, [] => []
  | escaped, inClass, u :: rest =>
    let lead : Text := if escaped then [] else [Text.backslash]
    let escapedNext := !escaped && u == Text.backslash
    let inClassNext :=
      if escaped then inClass
      else if u = Text.openBracket then true
      else if u = Text.closeBracket then false
      else inClass
    let written : Text :=
      if u = Text.slash && !escaped && !inClass then [Text.backslash, u]
      else if u = Text.lineFeed then lead ++ units "n"
      else if u = Text.carriageReturn then lead ++ units "r"
      else if u = 0x2028 then lead ++ units "u2028"
      else if u = 0x2029 then lead ++ units "u2029"
      else [u]
    written ++ escapeSource escapedNext inClassNext rest

def source (expression : Expression) : Text := escapeSource false false expression.text

/-- The text that a point's groups have captured under a name, if the group has recorded one. -/
def capture? (expression : Expression) (text : Array UInt16) (point : Point) (name : Text) :
    Option Text := do
  let index ← expression.names.lookup name
  let span ← point.groups index
  return span.units text

end Expression

end Emend
