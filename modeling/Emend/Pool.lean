import Emend.Binary64.Basic

/-! Work on the items of a list, a bounded number of them at a time. Items start in the order of
the list as soon as there is room; the results keep that order too. After the first failure nothing
new starts, and once nothing is running any more that failure is the outcome. A missing item is
passed over and leaves its place in the results empty. -/

namespace Emend

structure Pool (α β ε : Type) where
  limit : Nat
  /-- The items not looked at yet; the first one has the index `next`. -/
  pending : List (Option α)
  next : Nat
  /-- The indices that were started, in order. -/
  started : List Nat
  /-- The indices that are running, in the order they were started. -/
  running : List Nat
  results : List (Nat × β)
  failure : Option ε

namespace Pool

variable {α β ε : Type}

/-- How many items may run at a time: the whole part of a number, and at least one. No number of
items exceeds an infinite limit, and what is not a number lets nothing run. -/
def limitOf (concurrency : Binary64) (count : Nat) : Nat :=
  if concurrency = .nan then 0
  else max 1 (if concurrency = .infinity false then count else concurrency.floor.toNat)

def closed (pool : Pool α β ε) : Bool :=
  pool.failure.isSome || pool.limit ≤ pool.running.length

/-- Look at the next item and start it, unless it is missing. -/
def advance (pool : Pool α β ε) (item : Option α) (rest : List (Option α)) : Pool α β ε :=
  match item with
  | none => { pool with pending := rest, next := pool.next + 1 }
  | some _ =>
    { pool with
      pending := rest
      next := pool.next + 1
      started := pool.started ++ [pool.next]
      running := pool.running ++ [pool.next] }

/-- Start items while there is room, given what is pending. -/
def fillFrom : List (Option α) → Pool α β ε → Pool α β ε
  | [], pool => pool
  | item :: rest, pool => if pool.closed then pool else fillFrom rest (pool.advance item rest)

def fill (pool : Pool α β ε) : Pool α β ε := fillFrom pool.pending pool

/-- Begin with as many items as may run. When none may, none is ever looked at and the work is over
at once. -/
def start (limit : Nat) (items : List (Option α)) : Pool α β ε :=
  fill ⟨limit, if limit = 0 then [] else items, 0, [], [], [], none⟩

/-- A running item returns or fails, which makes room. Nothing happens when it is not running. -/
def complete (pool : Pool α β ε) (index : Nat) (outcome : Except ε β) : Pool α β ε :=
  if pool.running.contains index then
    let left := { pool with running := pool.running.erase index }
    fill (match outcome with
      | .ok value => { left with results := (index, value) :: left.results }
      | .error error => { left with failure := left.failure.or (some error) })
  else pool

/-- The results up to the last one, each in the place of its item. -/
def resultList (pool : Pool α β ε) : List (Option β) :=
  let length := pool.results.foldl (fun length result => max length (result.1 + 1)) 0
  (List.range length).map fun index => pool.results.lookup index

/-- The outcome, once nothing is running and nothing is going to start. -/
def outcome? (pool : Pool α β ε) : Option (Except ε (List (Option β))) :=
  if pool.running.isEmpty then
    match pool.failure with
    | some error => some (.error error)
    | none => if pool.pending.isEmpty then some (.ok pool.resultList) else none
  else none

end Pool

end Emend
