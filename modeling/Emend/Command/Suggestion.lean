import Emend.Text.Basic

/-! What someone may have meant by a word that is no name: the names at the smallest editing
distance. Inserting costs one, deleting three and substituting two; exchanging two neighbours costs
nothing. -/

namespace Emend.Command

open Text

def distanceLimit : Nat := 7

abbrev Cost := Option Nat

def Cost.add (cost : Cost) (amount : Nat) : Cost := cost.map (· + amount)

def Cost.min : Cost → Cost → Cost
  | none, cost => cost
  | cost, none => cost
  | some a, some b => some (Nat.min a b)

/-- A row of costs: the one for nothing written yet, then one for each unit of the name. -/
abbrev Row := List Cost

def cell (row : Row) (column : Nat) : Cost := (row[column]?).getD none

/-- The costs of a unit that was typed, given those of the one before it, of the one before that,
and what was typed before. -/
def nextRow (name : Text) (u : UInt16) (previous : Option UInt16) (above twoAbove : Row) : Row :=
  (name.zipIdx.foldl (fun (row : Row) (v, j) =>
    let change := if u = v then 0 else 1
    let exchanged : Cost :=
      match previous, j with
      | some t, j + 1 => if name[j]? = some u && t = v then cell twoAbove j else none
      | _, _ => none
    let best := ((cell above (j + 1)).add 3).min
      (((cell row j).add 1).min (((cell above j).add (change * 2)).min exchanged))
    row ++ [best]) [(cell above 0).add 3])

def distance (typed name : Text) : Cost :=
  let first : Row := (List.range (name.length + 1)).map some
  let (last, _, _) := typed.foldl (fun ((above, twoAbove, previous) : Row × Row × Option UInt16) u =>
    (nextRow name u previous above twoAbove, above, some u)) (first, [], none)
  cell last name.length

/-- The distance to a name that is near enough, of a length that is. -/
def nearDistance? (typed name : Text) : Option Nat :=
  if typed = name then some 0
  else if distanceLimit < typed.length - name.length + (name.length - typed.length) then none
  else match distance typed name with
    | some cost => if cost ≤ distanceLimit then some cost else none
    | none => none

/-- The names nearest to what was typed: first those that begin with it, each part in order. -/
def suggestions (typed : Text) (names : List Text) : List Text :=
  let near := names.filterMap fun name => (nearDistance? typed name).map fun cost => (name, cost)
  match (near.map (·.2)).min? with
  | none => []
  | some best =>
    let closest := (near.filter (·.2 = best)).map (·.1)
    sort (closest.filter (typed.isPrefixOf ·)) ++ sort (closest.filter (!typed.isPrefixOf ·))

def alternatives : List Text → Text
  | [] => []
  | [one] => one
  | [one, other] => one ++ units " or " ++ other
  | many => join (units ", ") many.dropLast ++ units ", or " ++ many.getLast?.getD []

end Emend.Command
