import Emend.Proofs.PoolRuns

/-! What a pool does once an item has failed. Nothing more is started, the items that are running finish one
by one, and when none is left the failure that came first is the outcome, whatever the others did. -/

namespace Emend.Pool

variable {α β ε : Type} {limit : Nat} {items : List (Option α)} {events : List (Nat × Except ε β)} {pool : Pool α β ε}

theorem limitOf_pos {concurrency : Binary64} (number : concurrency ≠ .nan) (count : Nat) : 1 ≤ limitOf concurrency count := by
  rw [limitOf, if_neg number]
  exact Nat.le_max_left _ _

theorem Reached.last {event : Nat × Except ε β} (reached : Reached limit items (events ++ [event]) pool) :
    ∃ before, Reached limit items events before ∧ event.1 ∈ before.running ∧
      pool = before.complete event.1 event.2 := by
  generalize whole : events ++ [event] = all at reached
  cases reached with
  | start => exact absurd whole (by simp)
  | @complete earlier before index outcome early running =>
    obtain ⟨rfl, same⟩ := List.append_inj' whole rfl
    obtain rfl := (List.cons.inj same).1
    exact ⟨before, early, running, rfl⟩

theorem Reached.room (reached : Reached limit items events pool) (some_ : events ≠ []) : 1 ≤ limit := by
  suffices idle : limit = 0 → pool.running = [] ∧ events = [] by
    by_contra none
    exact some_ (idle (by omega)).2
  intro zero
  subst zero
  clear some_
  induction reached with
  | start => exact ⟨rfl, rfl⟩
  | complete earlier running ih =>
    rw [ih.1] at running
    cases running

theorem fill_of_failed (pool : Pool α β ε) (failed : pool.failure.isSome = true) : pool.fill = pool := by
  rw [fill]
  cases pool.pending with
  | nil => rfl
  | cons item rest => rw [fillFrom, if_pos (by simp [closed, failed])]

/-- A completion starts nothing if it is a failure, or comes after one. -/
theorem complete_of_failed {index : Nat} (running : index ∈ pool.running) (outcome : Except ε β)
    (failed : pool.failure.isSome = true ∨ (errorOf (index, outcome)).isSome = true) :
    (pool.complete index outcome).started = pool.started ∧
      (pool.complete index outcome).failure.isSome = true := by
  rw [complete, if_pos (List.contains_iff_mem.mpr running)]
  cases outcome with
  | ok value =>
    have before : pool.failure.isSome = true := failed.resolve_right (by simp [errorOf])
    have same := fill_of_failed
      { pool with running := pool.running.erase index, results := (index, value) :: pool.results } before
    simp only [same]
    exact ⟨trivial, before⟩
  | error error =>
    have after : (pool.failure.or (some error)).isSome = true := by simp
    have same := fill_of_failed
      { pool with running := pool.running.erase index, failure := pool.failure.or (some error) } after
    simp only [same]
    exact ⟨trivial, after⟩

/-- Since a failure nothing has been started. By induction on the completions that came after it. -/
theorem Reached.stopped {index : Nat} {error : ε} {later : List (Nat × Except ε β)}
    (reached : Reached limit items (events ++ (index, .error error) :: later) pool) :
    ∃ before, Reached limit items events before ∧ index ∈ before.running ∧ pool.started = before.started ∧
      pool.failure.isSome = true := by
  induction later using List.reverseRecOn generalizing pool with
  | nil =>
    obtain ⟨before, early, running, rfl⟩ := reached.last
    obtain ⟨started, failed⟩ := complete_of_failed running (.error error) (.inr rfl)
    exact ⟨before, early, running, started, failed⟩
  | append_singleton later event ih =>
    rw [← List.cons_append, ← List.append_assoc] at reached
    obtain ⟨middle, earlier, running, rfl⟩ := reached.last
    obtain ⟨before, early, own, started, failed⟩ := ih earlier
    obtain ⟨same, still⟩ := complete_of_failed running event.2 (.inl failed)
    exact ⟨before, early, own, same.trans started, still⟩

theorem exists_first_failure (failed : ∃ event ∈ events, (errorOf event).isSome = true) :
    ∃ earlier index error later, events = earlier ++ (index, .error error) :: later ∧
      (∀ event ∈ earlier, errorOf event = none) ∧ events.findSome? errorOf = some error := by
  have found : (events.findSome? errorOf).isSome = true := by rwa [List.findSome?_isSome_iff]
  obtain ⟨error, first⟩ := Option.isSome_iff_exists.mp found
  obtain ⟨earlier, ⟨index, outcome⟩, later, split, here, before⟩ := List.findSome?_eq_some_iff.mp first
  cases outcome with
  | ok value => cases here
  | error other =>
    obtain rfl := Option.some.inj here
    exact ⟨earlier, index, other, later, split, before, first⟩

/-- From the first failure on nothing is started. There is no outcome while something that was started runs,
and then it is that failure, however the others have ended. Each completion since then leaves one less running,
so the outcome comes when those that ran at the failure are through. -/
theorem reached_failed {concurrency : Binary64} {items : List (Option α)} {events : List (Nat × Except ε β)}
    {pool : Pool α β ε} (reached : Reached (limitOf concurrency items.length) items events pool)
    (failed : ∃ event ∈ events, (errorOf event).isSome = true) :
    ∃ earlier index error later before, events = earlier ++ (index, .error error) :: later ∧
      (∀ event ∈ earlier, errorOf event = none) ∧
      Reached (limitOf concurrency items.length) items earlier before ∧ index ∈ before.running ∧
      pool.started = before.started ∧
      pool.running = (pool.started.filter fun index => index ∉ events.map Prod.fst) ∧
      pool.running.length + later.length + 1 = before.running.length ∧
      pool.outcome? = if pool.running = [] then some (.error error) else none := by
  obtain ⟨earlier, index, error, later, rfl, sound, first⟩ := exists_first_failure failed
  have room := reached.room (by simp)
  obtain ⟨before, early, running, started, _⟩ := reached.stopped
  have accounted := reached.accounted room
  refine ⟨earlier, index, error, later, before, rfl, sound, early, running, started, accounted.booked.running, ?_, ?_⟩
  · have counted := accounted.booked.counted
    have countedBefore := (early.accounted room).booked.counted
    rw [started, countedBefore] at counted
    simp only [List.length_map, List.length_append, List.length_cons] at counted
    omega
  · rw [outcome?, accounted.failure, first]
    simp only [List.isEmpty_iff]

/-- Of four items two may run. The second one fails first, and then the first one fails too. -/
theorem reached_failed_lower : ∃ pool : Pool Char Nat String,
    Reached (limitOf between 4) [some 'a', some 'b', none, some 'c'] [(1, .error "b"), (0, .error "a")] pool ∧
      pool.started = [0, 1] ∧ pool.outcome? = some (.error "b") := by
  have reached : Reached (limitOf between 4) [some 'a', some 'b', none, some 'c'] [(1, .error "b"), (0, .error "a")]
      (((start (limitOf between 4) [some 'a', some 'b', none, some 'c'] : Pool Char Nat String).complete 1
        (.error "b")).complete 0 (.error "a")) := by
    refine .complete (.complete .start ?_) ?_ <;> rw [limitOf_between] <;> decide
  obtain ⟨earlier, index, error, later, before, split, sound, _, _, _, _, _, outcome⟩ :=
    reached_failed reached ⟨(1, .error "b"), by simp, rfl⟩
  have idle : (((start (limitOf between 4) [some 'a', some 'b', none, some 'c'] : Pool Char Nat String).complete 1
      (.error "b")).complete 0 (.error "a")).running = [] := by
    rw [limitOf_between]
    decide
  refine ⟨_, reached, ?_, ?_⟩
  · rw [limitOf_between]
    rfl
  · rw [outcome, if_pos idle]
    cases earlier with
    | nil =>
      obtain ⟨rfl, rfl⟩ := Prod.mk.inj (List.cons.inj split).1 |>.imp id Except.error.inj
      rfl
    | cons event rest =>
      obtain rfl := (List.cons.inj split).1
      cases sound _ List.mem_cons_self

end Emend.Pool
