import Emend.Expression.Basic

/-! Matching by backtracking. A node runs in a direction from a position and hands every way to
match, best first, to what follows it; the first way that lets everything that follows succeed is
the match. -/

namespace Emend.Expression

inductive Direction where
  | forward
  | backward
  deriving DecidableEq, Repr

@[inline] def Direction.read? (direction : Direction) (text : Array UInt16) (position : Nat) :
    Option (UInt16 × Nat) :=
  match direction, position with
  | .forward, position => text[position]?.map (·, position + 1)
  | .backward, 0 => none
  | .backward, position + 1 => text[position]?.map (·, position)

theorem Direction.read?_ne {direction : Direction} {text : Array UInt16} {position next : Nat}
    {u : UInt16} (read : direction.read? text position = some (u, next)) : next ≠ position := by
  cases direction <;> cases position <;> simp [Direction.read?] at read <;> omega

def Direction.room (direction : Direction) (text : Array UInt16) (position : Nat) : Nat :=
  match direction with
  | .forward => text.size - position
  | .backward => position

structure Span where
  start : Nat
  stop : Nat
  deriving DecidableEq, Repr

def Span.units (text : Array UInt16) (span : Span) : Text :=
  (text.extract span.start span.stop).toList

/-- The span that two positions enclose, in whichever order they come. -/
def Span.between (a b : Nat) : Span := ⟨min a b, max a b⟩

abbrev Groups := Nat → Option Span

def Groups.record (groups : Groups) (index : Nat) (span : Span) : Groups :=
  fun other => if other = index then some span else groups other

def Groups.forget (groups : Groups) (indices : List Nat) : Groups :=
  if indices.isEmpty then groups
  else fun other => if indices.contains other then none else groups other

structure Point where
  position : Nat
  groups : Groups

/-- What follows a node: the rest of the match, from where the node ends. -/
abbrev Rest := Point → Option Point

/-- Run a body a fixed number of times, each time with its groups forgotten first. -/
def required (body : Rest → Rest) (indices : List Nat) : Nat → Rest → Rest
  | 0, rest, point => rest point
  | count + 1, rest, point =>
    body (required body indices count rest) { point with groups := point.groups.forget indices }

/-- Run a body up to a number of times, more often first when greedy. A run that consumes nothing
is refused, so as many runs as there are units left are never too few. -/
def optional (body : Rest → Rest) (indices : List Nat) (greedy : Bool) : Nat → Rest → Rest
  | 0, rest, point => rest point
  | count + 1, rest, point =>
    let onward : Rest := fun next =>
      if next.position = point.position then none
      else optional body indices greedy count rest next
    let again := { point with groups := point.groups.forget indices }
    if greedy then
      match body onward again with
      | some found => some found
      | none => rest point
    else
      match rest point with
      | some found => some found
      | none => body onward again

/-- Consume units of a set, up to a number of them, more first when greedy. -/
def optionalUnits (text : Array UInt16) (set : UnitSet) (direction : Direction) (greedy : Bool) :
    Nat → Rest → Rest
  | 0, rest, point => rest point
  | count + 1, rest, point =>
    match direction.read? text point.position with
    | none => rest point
    | some (u, next) =>
      if set.contains u then
        if greedy then
          match optionalUnits text set direction greedy count rest { point with position := next } with
          | some found => some found
          | none => rest point
        else
          match rest point with
          | some found => some found
          | none =>
            optionalUnits text set direction greedy count rest { point with position := next }
      else rest point

def isWordAt (text : Array UInt16) (position : Nat) : Bool :=
  match text[position]? with
  | some u => Text.isWord u
  | none => false

def atWordBoundary (text : Array UInt16) (position : Nat) : Bool :=
  (match position with
    | 0 => false
    | position + 1 => isWordAt text position) != isWordAt text position

def sameUnits (text : Array UInt16) (a b : Nat) : (count : Nat) → Bool
  | 0 => true
  | count + 1 => text[a]? == text[b]? && sameUnits text (a + 1) (b + 1) count

/-- Read the units of a span once more: the position on the other side of them. -/
def Direction.again? (direction : Direction) (text : Array UInt16) (span : Span) (position : Nat) :
    Option Nat :=
  let count := span.stop - span.start
  if direction.room text position < count then none
  else match direction with
    | .forward =>
      if sameUnits text span.start position count then some (position + count) else none
    | .backward =>
      if sameUnits text span.start (position - count) count then some (position - count) else none

/-- How many required runs a loop may need at a point. Of more runs than there are units left, one
consumes nothing, and leaving it out changes neither which matches there are nor which is best. -/
def requiredRuns (least room : Nat) : Nat := min least (room + 1)

/-- How many optional runs a loop may need at a point: what its bound leaves after the required
ones, and never more than there are units to consume. -/
def optionalRuns (least : Nat) (most : Option Nat) (room : Nat) : Nat :=
  match most with
  | some most => min (most - least) room
  | none => room

namespace Node

/-- Match a node from a point and then the rest. -/
def run (text : Array UInt16) : Node → Direction → Rest → Rest
  | empty, _, rest, point => rest point
  | unit set, direction, rest, point =>
    match direction.read? text point.position with
    | some (u, next) => if set.contains u then rest { point with position := next } else none
    | none => none
  | sequence first second, .forward, rest, point =>
    first.run text .forward (second.run text .forward rest) point
  | sequence first second, .backward, rest, point =>
    second.run text .backward (first.run text .backward rest) point
  | choice first second, direction, rest, point =>
    match first.run text direction rest point with
    | some found => some found
    | none => second.run text direction rest point
  | group index body, direction, rest, point =>
    body.run text direction
      (fun next => rest { next with
        groups := next.groups.record index (.between point.position next.position) })
      point
  | reference index, direction, rest, point =>
    match point.groups index with
    | none => rest point
    | some span =>
      match direction.again? text span point.position with
      | some next => rest { point with position := next }
      | none => none
  | loop body least most greedy, direction, rest, point =>
    required (body.run text direction) body.groups
      (requiredRuns least (direction.room text point.position))
      (fun next =>
        let count := optionalRuns least most (direction.room text next.position)
        match body.unitSet? with
        | some set => optionalUnits text set direction greedy count rest next
        | none => optional (body.run text direction) body.groups greedy count rest next)
      point
  | look behind negated body, _, rest, point =>
    match body.run text (if behind then .backward else .forward) some point with
    | some found => if negated then none else rest { point with groups := found.groups }
    | none => if negated then rest point else none
  | start, _, rest, point => if point.position = 0 then rest point else none
  | stop, _, rest, point => if point.position = text.size then rest point else none
  | wordBoundary negated, _, rest, point =>
    if atWordBoundary text point.position != negated then rest point else none

theorem run_unit (text : Array UInt16) (set : UnitSet) (direction : Direction) (rest : Rest)
    (point : Point) :
    (unit set).run text direction rest point =
      match direction.read? text point.position with
      | some (u, next) => if set.contains u then rest { point with position := next } else none
      | none => none := rfl

theorem optionalUnits_eq (text : Array UInt16) (set : UnitSet) (direction : Direction)
    (greedy : Bool) (count : Nat) (rest : Rest) (point : Point) :
    optionalUnits text set direction greedy count rest point =
      optional ((unit set).run text direction) [] greedy count rest point := by
  induction count generalizing point with
  | zero => rfl
  | succ count ih =>
    simp only [optionalUnits, optional, run_unit, Groups.forget, List.isEmpty_nil, if_true]
    cases read : direction.read? text point.position with
    | none => cases greedy <;> cases rest point <;> simp
    | some pair =>
      obtain ⟨u, next⟩ := pair
      by_cases member : set.contains u
      · have moved := direction.read?_ne read
        cases greedy <;> simp [member, moved, ih]
      · cases greedy <;> cases rest point <;> simp [member]

/-- A loop makes its required runs and then its optional ones. -/
theorem run_loop (text : Array UInt16) (body : Node) (least : Nat) (most : Option Nat)
    (greedy : Bool) (direction : Direction) (rest : Rest) (point : Point) :
    (loop body least most greedy).run text direction rest point =
      required (body.run text direction) body.groups
        (requiredRuns least (direction.room text point.position))
        (fun next =>
          optional (body.run text direction) body.groups greedy
            (optionalRuns least most (direction.room text next.position)) rest next)
        point := by
  cases body <;> simp only [run, unitSet?, optionalUnits_eq, groups]

def matchAt (text : Array UInt16) (node : Node) (position : Nat) : Option Point :=
  node.run text .forward some ⟨position, fun _ => none⟩

end Node

end Emend.Expression
