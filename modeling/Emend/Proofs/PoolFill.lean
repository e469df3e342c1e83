import Emend.Pool
import Emend.Proofs.Lookup
import Mathlib.Data.List.Range

/-! What one event does to a pool. Filling it starts the next items in order until there is no room or
nothing is pending, and when every item has returned the results stand in the places of the items. -/

namespace Emend.Pool

variable {α β ε : Type}

/-- Some more items have been started, the next ones in order, and nothing else has changed. -/
structure Started (before : Pool α β ε) (more : Nat) (after : Pool α β ε) : Prop where
  limit : after.limit = before.limit
  pending : after.pending = before.pending.drop more
  enough : more ≤ before.pending.length
  next : after.next = before.next + more
  started : after.started = before.started ++ List.range' before.next more
  running : after.running = before.running ++ List.range' before.next more
  results : after.results = before.results
  failure : after.failure = before.failure

theorem Started.refl (pool : Pool α β ε) : Started pool 0 pool := by
  constructor <;> simp

theorem Started.cons {before middle after : Pool α β ε} {more : Nat} {item : Option α} {rest : List (Option α)}
    (pending : before.pending = item :: rest) (given : item.isSome = true)
    (first : middle = before.advance item rest) (later : Started middle more after) :
    Started before (more + 1) after := by
  obtain ⟨value, rfl⟩ := Option.isSome_iff_exists.mp given
  subst first
  constructor
  · exact later.limit
  · rw [later.pending, pending]
    rfl
  · rw [pending, List.length_cons]
    exact Nat.succ_le_succ later.enough
  · rw [later.next]
    simp only [advance]
    omega
  · rw [later.started, List.range'_succ]
    simp only [advance, List.append_assoc, List.singleton_append]
  · rw [later.running, List.range'_succ]
    simp only [advance, List.append_assoc, List.singleton_append]
  · exact later.results
  · exact later.failure

theorem fill_started (pool : Pool α β ε) (given : ∀ item ∈ pool.pending, item.isSome = true)
    (sound : pool.failure = none) :
    ∃ more, Started pool more pool.fill ∧ (pool.fill.pending ≠ [] → pool.limit ≤ pool.fill.running.length) := by
  suffices filled : ∀ (pending : List (Option α)) (pool : Pool α β ε), pool.pending = pending →
      (∀ item ∈ pending, item.isSome = true) → pool.failure = none →
      ∃ more, Started pool more (fillFrom pending pool) ∧
        ((fillFrom pending pool).pending ≠ [] → pool.limit ≤ (fillFrom pending pool).running.length) from
    filled pool.pending pool rfl given sound
  intro pending
  induction pending with
  | nil =>
    intro pool same _ _
    rw [fillFrom]
    exact ⟨0, .refl pool, fun some => absurd same some⟩
  | cons item rest ih =>
    intro pool same given sound
    rw [fillFrom]
    split
    next closed =>
      refine ⟨0, .refl pool, fun _ => ?_⟩
      rw [Pool.closed, sound] at closed
      simpa using closed
    next =>
      have first := given item List.mem_cons_self
      obtain ⟨value, rfl⟩ := Option.isSome_iff_exists.mp first
      obtain ⟨more, later, full⟩ := ih (pool.advance (some value) rest) rfl
        (fun other member => given other (List.mem_cons_of_mem _ member)) sound
      exact ⟨more + 1, later.cons same rfl rfl, full⟩

/-- A pool of so many items, all of them there and none of them failed. Those before the next one have been
started, and the ones that are running are among them. -/
structure Paced (count : Nat) (pool : Pool α β ε) : Prop where
  sound : pool.failure = none
  given : ∀ item ∈ pool.pending, item.isSome = true
  total : pool.next + pool.pending.length = count
  once : pool.running.Nodup
  begun : ∀ index ∈ pool.running, index < pool.next
  returned : ∀ result ∈ pool.results, result.1 < pool.next

section Pace

variable {count : Nat} {pool : Pool α β ε}

theorem Started.paced {before after : Pool α β ε} {more : Nat} (started : Started before more after)
    (paced : before.Paced count) : after.Paced count where
  sound := started.failure.trans paced.sound
  given := by
    intro item member
    rw [started.pending] at member
    exact paced.given item (List.mem_of_mem_drop member)
  total := by
    have enough := started.enough
    have total := paced.total
    rw [started.next, started.pending, List.length_drop]
    omega
  once := by
    rw [started.running]
    refine List.nodup_append.mpr ⟨paced.once, List.nodup_range', ?_⟩
    intro index old other new same
    have early := paced.begun index old
    have late := (List.mem_range'_1.mp new).1
    omega
  begun := by
    intro index member
    rw [started.running] at member
    rw [started.next]
    rcases List.mem_append.mp member with old | new
    · exact Nat.lt_add_right more (paced.begun index old)
    · exact (List.mem_range'_1.mp new).2
  returned := by
    intro result member
    rw [started.results] at member
    rw [started.next]
    exact Nat.lt_add_right more (paced.returned result member)

theorem Paced.complete (paced : pool.Paced count) {index : Nat} (running : index ∈ pool.running) (value : β) :
    ∃ more, Started { pool with running := pool.running.erase index, results := (index, value) :: pool.results } more
        (pool.complete index (.ok value)) ∧
      (pool.complete index (.ok value)).Paced count ∧
      ((pool.complete index (.ok value)).pending ≠ [] →
        pool.limit ≤ (pool.complete index (.ok value)).running.length) := by
  have left : Paced count
      { pool with running := pool.running.erase index, results := (index, value) :: pool.results } := by
    refine ⟨paced.sound, paced.given, paced.total, paced.once.erase index, ?_, ?_⟩
    · intro other member
      exact paced.begun other (List.mem_of_mem_erase member)
    · intro result member
      rcases List.mem_cons.mp member with rfl | old
      · exact paced.begun _ running
      · exact paced.returned result old
  rw [Pool.complete, if_pos (List.contains_iff_mem.mpr running)]
  obtain ⟨more, started, full⟩ := fill_started _ left.given left.sound
  exact ⟨more, started, started.paced left, full⟩

theorem paced_start {limit : Nat} (room : 1 ≤ limit) {items : List (Option α)}
    (given : ∀ item ∈ items, item.isSome = true) :
    ∃ more, Started ⟨limit, items, 0, [], [], [], none⟩ more (start limit items : Pool α β ε) ∧
      (start limit items : Pool α β ε).Paced items.length ∧
      ((start limit items : Pool α β ε).pending ≠ [] → limit ≤ (start limit items : Pool α β ε).running.length) := by
  have empty : Paced items.length (⟨limit, items, 0, [], [], [], none⟩ : Pool α β ε) := by
    refine ⟨rfl, given, Nat.zero_add _, List.nodup_nil, ?_, ?_⟩
    · intro index member
      cases member
    · intro result member
      cases member
  rw [start, if_neg (Nat.ne_of_gt room)]
  obtain ⟨more, started, full⟩ := fill_started (β := β) (ε := ε) _ given empty.sound
  exact ⟨more, started, started.paced empty, full⟩

end Pace

section Results

variable {results : List (Nat × β)}

private theorem foldl_max_le {bound : Nat} (below : ∀ result ∈ results, result.1 < bound) {start : Nat}
    (small : start ≤ bound) :
    results.foldl (fun length result => max length (result.1 + 1)) start ≤ bound := by
  induction results generalizing start with
  | nil => exact small
  | cons result results ih =>
    rw [List.foldl_cons]
    apply ih fun other member => below other (List.mem_cons_of_mem _ member)
    have first := below result List.mem_cons_self
    omega

private theorem le_foldl_max (start : Nat) :
    start ≤ results.foldl (fun length result => max length (result.1 + 1)) start := by
  induction results generalizing start with
  | nil => exact Nat.le_refl _
  | cons result results ih =>
    rw [List.foldl_cons]
    exact Nat.le_trans (Nat.le_max_left _ _) (ih _)

private theorem lt_foldl_max {result : Nat × β} (member : result ∈ results) (start : Nat) :
    result.1 < results.foldl (fun length result => max length (result.1 + 1)) start := by
  induction results generalizing start with
  | nil => cases member
  | cons first results ih =>
    rw [List.foldl_cons]
    rcases List.mem_cons.mp member with rfl | later
    · exact Nat.lt_of_lt_of_le (Nat.lt_of_succ_le (Nat.le_max_right _ _)) (le_foldl_max _)
    · exact ih later _

theorem resultList_eq {pool : Pool α β ε} {count : Nat} {outcome : Nat → β}
    (below : ∀ result ∈ pool.results, result.1 < count)
    (all : ∀ index < count, pool.results.lookup index = some (outcome index)) :
    pool.resultList = (List.range count).map fun index => some (outcome index) := by
  have length : pool.results.foldl (fun length result => max length (result.1 + 1)) 0 = count := by
    apply Nat.le_antisymm (foldl_max_le below (Nat.zero_le _))
    cases count with
    | zero => exact Nat.zero_le _
    | succ last =>
      exact lt_foldl_max (pair_mem_of_lookup (all last (Nat.lt_succ_self last))) 0
  rw [resultList, length]
  apply List.map_congr_left
  intro index member
  exact all index (List.mem_range.mp member)

end Results

end Emend.Pool
