import Emend.Text.Basic

/-! The abstract form of regular expressions: sets of code units, and nodes that consume text in
either direction. Groups are known by number only; names are resolved while reading. -/

namespace Emend.Expression

inductive UnitSet where
  | range (first last : UInt16)
  | union (left right : UnitSet)
  | complement (set : UnitSet)
  | empty
  deriving DecidableEq, Repr

namespace UnitSet

def contains : UnitSet → UInt16 → Bool
  | range first last, u => first ≤ u && u ≤ last
  | union left right, u => left.contains u || right.contains u
  | complement set, u => !set.contains u
  | empty, _ => false

/-- What two sets hold together. A set and its complement hold every unit. -/
def merge (left right : UnitSet) : UnitSet :=
  if right = empty then left
  else if right = complement left || left = complement right then complement empty
  else union left right

def single (u : UInt16) : UnitSet := range u u

def ofList (sets : List UnitSet) : UnitSet := sets.foldr union empty

def digit : UnitSet := range 0x30 0x39

def word : UnitSet := ofList [range 0x30 0x39, range 0x41 0x5A, single 0x5F, range 0x61 0x7A]

def blank : UnitSet :=
  ofList [range 0x09 0x0D, single 0x20, single 0xA0, single 0x1680, range 0x2000 0x200A,
    range 0x2028 0x2029, single 0x202F, single 0x205F, single 0x3000, single 0xFEFF]

def lineTerminator : UnitSet := ofList [single 0x0A, single 0x0D, range 0x2028 0x2029]

end UnitSet

/-- What an expression matches. A group records the span of its last match under its number, and
a reference to a group that has recorded nothing matches the empty text. -/
inductive Node where
  | empty
  | unit (set : UnitSet)
  | sequence (first second : Node)
  | choice (first second : Node)
  | group (index : Nat) (body : Node)
  | reference (index : Nat)
  | loop (body : Node) (least : Nat) (most : Option Nat) (greedy : Bool)
  | look (behind negated : Bool) (body : Node)
  | start
  | stop
  | wordBoundary (negated : Bool)
  deriving DecidableEq, Repr

namespace Node

def sequenceOf (nodes : List Node) : Node := nodes.foldr sequence empty

def choiceOf : List Node → Node
  | [] => empty
  | [node] => node
  | node :: rest => choice node (choiceOf rest)

def unitSet? : Node → Option UnitSet
  | unit set => some set
  | _ => none

/-- A node that can match nothing but the empty text. What a reference matches is not known. -/
def consumesNothing : Node → Bool
  | unit _ | reference _ => false
  | sequence first second | choice first second =>
    first.consumesNothing && second.consumesNothing
  | group _ body => body.consumesNothing
  | loop body _ most _ => body.consumesNothing || most == some 0
  | empty | look .. | start | stop | wordBoundary _ => true

/-- A node repeated between two counts. What consumes nothing is matched once if it must match at
all, and else not at all: no further run could change anything, and an optional run that consumes
nothing is refused. -/
def repeated (body : Node) (least : Nat) (most : Option Nat) (greedy : Bool) : Node :=
  if body.consumesNothing then if least = 0 then empty else body
  else loop body least most greedy

def groups : Node → List Nat
  | sequence first second => first.groups ++ second.groups
  | choice first second => first.groups ++ second.groups
  | group index body => index :: body.groups
  | loop body _ _ _ => body.groups
  | look _ _ body => body.groups
  | _ => []

end Node

end Emend.Expression
