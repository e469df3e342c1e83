import Emend.Proofs.PoolFill

/-! What a pool has started, what runs and what it ends with, in every state that completions lead to.
Their order is left open and items may be missing. While no item has failed, as many run as may. -/

namespace Emend.Pool

variable {α β ε : Type}

def presentBelow (items : List (Option α)) (bound : Nat) : List Nat :=
  (List.range bound).filter fun index => items[index]?.join.isSome

def present (items : List (Option α)) : List Nat := presentBelow items items.length

/-- The pools that some completions lead to, each of an item that is running by then. -/
inductive Reached (limit : Nat) (items : List (Option α)) : List (Nat × Except ε β) → Pool α β ε → Prop where
  | start : Reached limit items [] (start limit items)
  | complete {events : List (Nat × Except ε β)} {pool : Pool α β ε} {index : Nat} {outcome : Except ε β}
      (earlier : Reached limit items events pool) (running : index ∈ pool.running) :
      Reached limit items (events ++ [(index, outcome)]) (pool.complete index outcome)

section

variable {items : List (Option α)} {index bound : Nat}

theorem presentBelow_succ_of_some {value : α} (item : items[bound]? = some (some value)) :
    presentBelow items (bound + 1) = presentBelow items bound ++ [bound] := by
  rw [presentBelow, List.range_succ, List.filter_append]
  simp [presentBelow, item]

theorem presentBelow_succ_of_none (item : items[bound]? = some none) :
    presentBelow items (bound + 1) = presentBelow items bound := by
  rw [presentBelow, List.range_succ, List.filter_append]
  simp [presentBelow, item]

theorem lt_of_mem_presentBelow (member : index ∈ presentBelow items bound) : index < bound :=
  List.mem_range.mp (List.mem_of_mem_filter member)

theorem nodup_presentBelow (items : List (Option α)) (bound : Nat) : (presentBelow items bound).Nodup :=
  List.nodup_range.filter _

theorem exists_take_present (within : bound ≤ items.length) :
    ∃ count, presentBelow items bound = (present items).take count := by
  have start : presentBelow items bound <+: present items := by
    rw [present, ← Nat.add_sub_of_le within, presentBelow, presentBelow, List.range_add, List.filter_append]
    exact List.prefix_append _ _
  exact ⟨_, List.prefix_iff_eq_take.mp start⟩

theorem present_of_given (given : ∀ item ∈ items, item.isSome = true) : present items = List.range items.length := by
  apply List.filter_eq_self.mpr
  intro index inside
  have short := List.mem_range.mp inside
  rw [List.getElem?_eq_getElem short]
  exact given _ (List.getElem_mem short)

end

/-- The books of a pool: it has started what is there among the items it has looked at, and what is started runs until
it is finished. -/
structure Booked (items : List (Option α)) (finished : List Nat) (pool : Pool α β ε) : Prop where
  within : pool.next ≤ items.length
  pending : pool.pending = items.drop pool.next
  started : pool.started = presentBelow items pool.next
  running : pool.running = pool.started.filter fun index => index ∉ finished
  early : ∀ index ∈ finished, index ∈ pool.started
  counted : pool.started.length = pool.running.length + finished.length
  room : pool.running.length ≤ pool.limit

namespace Booked

variable {items : List (Option α)} {finished : List Nat} {pool : Pool α β ε}

theorem once (booked : pool.Booked items finished) : pool.running.Nodup := by
  rw [booked.running, booked.started]
  exact (nodup_presentBelow items _).filter _

theorem advance (booked : pool.Booked items finished) {item : Option α} {rest : List (Option α)}
    (pending : pool.pending = item :: rest) (space : pool.running.length < pool.limit) :
    (pool.advance item rest).Booked items finished := by
  have place : item :: rest = items.drop pool.next := pending.symm.trans booked.pending
  have short : pool.next < items.length := by
    apply Nat.lt_of_not_le
    intro beyond
    rw [List.drop_eq_nil_of_le beyond] at place
    cases place
  rw [List.drop_eq_getElem_cons short] at place
  obtain ⟨here, later⟩ := List.cons.inj place
  have item_eq : items[pool.next]? = some item := by rw [List.getElem?_eq_getElem short, here]
  cases item with
  | none =>
    have same := presentBelow_succ_of_none item_eq
    exact ⟨short, later, booked.started.trans same.symm, booked.running, booked.early, booked.counted, booked.room⟩
  | some value =>
    have more := presentBelow_succ_of_some item_eq
    have fresh : pool.next ∉ finished := by
      intro member
      have early := booked.early _ member
      rw [booked.started] at early
      exact Nat.lt_irrefl _ (lt_of_mem_presentBelow early)
    refine ⟨short, later, ?_, ?_, ?_, ?_, ?_⟩
    · simp only [Pool.advance]
      rw [booked.started, more]
    · simp only [Pool.advance]
      rw [List.filter_append, ← booked.running]
      simp [fresh]
    · intro index member
      exact List.mem_append_left _ (booked.early index member)
    · have counted := booked.counted
      simp only [Pool.advance, List.length_append, List.length_singleton]
      omega
    · simp only [Pool.advance, List.length_append, List.length_singleton]
      exact space

/-- A running item leaves, before others are started. What else is noted of it does not matter here. -/
theorem leave (booked : pool.Booked items finished) {index : Nat} (running : index ∈ pool.running)
    (results : List (Nat × β)) (failure : Option ε) :
    Booked items (finished ++ [index])
      { pool with running := pool.running.erase index, results := results, failure := failure } := by
  have less := List.length_erase_of_mem running
  have some_ := List.length_pos_of_mem running
  have begun : index ∈ pool.started := by
    rw [booked.running] at running
    exact List.mem_of_mem_filter running
  refine ⟨booked.within, booked.pending, booked.started, ?_, ?_, ?_, ?_⟩
  · show pool.running.erase index = _
    rw [booked.once.erase_eq_filter, booked.running, List.filter_filter]
    apply List.filter_congr
    intro other _
    by_cases same : other = index <;> simp [same]
  · intro other member
    rcases List.mem_append.mp member with old | new
    · exact booked.early other old
    · exact List.mem_singleton.mp new ▸ begun
  · have counted := booked.counted
    simp only [List.length_append, List.length_singleton]
    omega
  · have room := booked.room
    show (pool.running.erase index).length ≤ pool.limit
    omega

end Booked

section Fill

variable {items : List (Option α)} {finished : List Nat}

theorem fillFrom_keeps (pending : List (Option α)) (pool : Pool α β ε) :
    (fillFrom pending pool).limit = pool.limit ∧ (fillFrom pending pool).results = pool.results ∧
      (fillFrom pending pool).failure = pool.failure := by
  induction pending generalizing pool with
  | nil => exact ⟨rfl, rfl, rfl⟩
  | cons item rest ih =>
    rw [fillFrom]
    split
    · exact ⟨rfl, rfl, rfl⟩
    · obtain ⟨limit, results, failure⟩ := ih (pool.advance item rest)
      cases item <;> exact ⟨limit, results, failure⟩

theorem Booked.fillFrom {pending : List (Option α)} {pool : Pool α β ε} (booked : pool.Booked items finished)
    (same : pool.pending = pending) :
    (fillFrom pending pool).Booked items finished ∧
      (pool.failure = none → (Pool.fillFrom pending pool).pending ≠ [] →
        pool.limit ≤ (Pool.fillFrom pending pool).running.length) := by
  induction pending generalizing pool with
  | nil => exact ⟨booked, fun _ some => absurd same some⟩
  | cons item rest ih =>
    rw [Pool.fillFrom]
    split
    next closed =>
      refine ⟨booked, ?_⟩
      intro sound _
      rw [Pool.closed, sound] at closed
      simpa using closed
    next opened =>
      have space : pool.running.length < pool.limit := by
        apply Nat.lt_of_not_le
        intro full
        exact opened (by simp [Pool.closed, full])
      have next : (pool.advance item rest).pending = rest := by cases item <;> rfl
      obtain ⟨filled, full⟩ := ih (booked.advance same space) next
      refine ⟨filled, ?_⟩
      intro sound
      cases item <;> exact full sound

end Fill

def errorOf (event : Nat × Except ε β) : Option ε :=
  match event.2 with
  | .error error => some error
  | .ok _ => none

def returnOf (event : Nat × Except ε β) : Option (Nat × β) :=
  match event.2 with
  | .error _ => none
  | .ok value => some (event.1, value)

/-- What is known of a pool after some completions. -/
structure Accounted (limit : Nat) (items : List (Option α)) (events : List (Nat × Except ε β)) (pool : Pool α β ε) :
    Prop where
  limited : pool.limit = limit
  booked : pool.Booked items (events.map Prod.fst)
  results : pool.results = (events.filterMap returnOf).reverse
  failure : pool.failure = events.findSome? errorOf
  full : pool.failure = none → pool.pending ≠ [] → limit ≤ pool.running.length

section

variable {limit : Nat} {items : List (Option α)} {events : List (Nat × Except ε β)} {pool : Pool α β ε}

/-- Filling a pool settles the last part of its account: there is no room left, or nothing is pending. -/
theorem accounted_fill (limited : pool.limit = limit) (booked : pool.Booked items (events.map Prod.fst))
    (results : pool.results = (events.filterMap returnOf).reverse) (failure : pool.failure = events.findSome? errorOf) :
    pool.fill.Accounted limit items events := by
  obtain ⟨sameLimit, sameResults, sameFailure⟩ := fillFrom_keeps pool.pending pool
  obtain ⟨filled, full⟩ := booked.fillFrom rfl
  refine ⟨sameLimit.trans limited, filled, sameResults.trans results, sameFailure.trans failure, ?_⟩
  intro sound
  exact limited ▸ full (sameFailure.symm.trans sound)

theorem accounted_start (room : 1 ≤ limit) : (start limit items : Pool α β ε).Accounted limit items [] := by
  rw [start, if_neg (Nat.ne_of_gt room)]
  have empty : Booked items [] (⟨limit, items, 0, [], [], [], none⟩ : Pool α β ε) :=
    ⟨Nat.zero_le _, rfl, rfl, rfl, List.forall_mem_nil _, rfl, Nat.zero_le _⟩
  exact accounted_fill rfl empty rfl rfl

theorem Accounted.complete (accounted : pool.Accounted limit items events) {index : Nat}
    (running : index ∈ pool.running) (outcome : Except ε β) :
    (pool.complete index outcome).Accounted limit items (events ++ [(index, outcome)]) := by
  have names : (events ++ [(index, outcome)]).map Prod.fst = events.map Prod.fst ++ [index] := by simp
  have left := fun results failure => names ▸ accounted.booked.leave running results failure
  rw [Pool.complete, if_pos (List.contains_iff_mem.mpr running)]
  cases outcome with
  | ok value =>
    apply accounted_fill
    · exact accounted.limited
    · exact left _ _
    · simp [returnOf, accounted.results]
    · simp [errorOf, accounted.failure]
  | error error =>
    apply accounted_fill
    · exact accounted.limited
    · exact left _ _
    · simp [returnOf, accounted.results]
    · simp [errorOf, accounted.failure]

/-- By induction on the completions: the first pool is accounted for, and each completion keeps it so. -/
theorem Reached.accounted (room : 1 ≤ limit) (reached : Reached limit items events pool) :
    pool.Accounted limit items events := by
  induction reached with
  | start => exact accounted_start room
  | complete earlier running ih => exact ih.complete running _

namespace Accounted

/-- While nothing has failed, as many run as may, or all that are left. -/
theorem length_running (accounted : pool.Accounted limit items events) (sound : pool.failure = none) :
    pool.running.length = min limit ((present items).length - events.length) := by
  have counted := accounted.booked.counted
  have room := accounted.limited ▸ accounted.booked.room
  rw [List.length_map] at counted
  by_cases ended : pool.pending = []
  · have all : pool.next = items.length := by
      have none := accounted.booked.pending.symm.trans ended
      exact Nat.le_antisymm accounted.booked.within (List.drop_eq_nil_iff.mp none)
    have started := accounted.booked.started
    rw [all] at started
    rw [present, ← started]
    omega
  · obtain ⟨count, first⟩ := exists_take_present accounted.booked.within
    have some_ : pool.started.length ≤ (present items).length := by
      rw [accounted.booked.started, first]
      exact List.length_take_le' _ _
    have full := accounted.full sound ended
    omega

/-- Nothing is left over when nothing runs, since there would be room for it. -/
theorem pending_eq_nil (accounted : pool.Accounted limit items events) (room : 1 ≤ limit) (sound : pool.failure = none)
    (idle : pool.running = []) : pool.pending = [] := by
  by_contra some
  have full := accounted.full sound some
  rw [idle, List.length_nil] at full
  omega

section Returns

variable {value : Nat → β} (returns : ∀ event ∈ events, event.2 = .ok (value event.1))
include returns

theorem sound_of_returns (accounted : pool.Accounted limit items events) : pool.failure = none := by
  rw [accounted.failure]
  apply List.findSome?_eq_none_iff.mpr
  intro event member
  rw [errorOf, returns event member]

theorem mem_results_iff (accounted : pool.Accounted limit items events) (result : Nat × β) :
    result ∈ pool.results ↔ result.1 ∈ events.map Prod.fst ∧ result.2 = value result.1 := by
  rw [accounted.results, List.mem_reverse, List.mem_filterMap]
  constructor
  · rintro ⟨event, member, noted⟩
    rw [returnOf, returns event member] at noted
    obtain rfl := Option.some.inj noted
    exact ⟨List.mem_map_of_mem member, rfl⟩
  · rintro ⟨member, same⟩
    obtain ⟨event, among, here⟩ := List.mem_map.mp member
    refine ⟨event, among, ?_⟩
    rw [returnOf, returns event among, here, ← same]

theorem running_eq_nil_iff (accounted : pool.Accounted limit items events) (room : 1 ≤ limit)
    (given : ∀ item ∈ items, item.isSome = true) :
    pool.running = [] ↔ ∀ index < items.length, index ∈ events.map Prod.fst := by
  constructor
  · intro idle index short
    have ended := accounted.pending_eq_nil room (accounted.sound_of_returns returns) idle
    have all : items.length ≤ pool.next := List.drop_eq_nil_iff.mp (accounted.booked.pending.symm.trans ended)
    have started : index ∈ pool.started := by
      rw [accounted.booked.started, Nat.le_antisymm accounted.booked.within all]
      rw [← present, present_of_given given]
      exact List.mem_range.mpr short
    have left := accounted.booked.running.symm.trans idle
    simpa using List.filter_eq_nil_iff.mp left index started
  · intro returned
    rw [accounted.booked.running]
    apply List.filter_eq_nil_iff.mpr
    intro index member
    rw [accounted.booked.started] at member
    have short := Nat.lt_of_lt_of_le (lt_of_mem_presentBelow member) accounted.booked.within
    simpa using returned index short

/-- Until something runs no more there is no outcome, and then the results stand in the order of the items. -/
theorem outcome_eq (accounted : pool.Accounted limit items events) (room : 1 ≤ limit)
    (given : ∀ item ∈ items, item.isSome = true) :
    pool.outcome? = if pool.running = [] then
      some (.ok ((List.range items.length).map fun index => some (value index))) else none := by
  have sound := accounted.sound_of_returns returns
  rw [outcome?]
  by_cases idle : pool.running = []
  · have returned := (accounted.running_eq_nil_iff returns room given).mp idle
    have ended := accounted.pending_eq_nil room sound idle
    have results : pool.resultList = (List.range items.length).map fun index => some (value index) := by
      apply resultList_eq
      · intro result member
        obtain ⟨finished, _⟩ := (accounted.mem_results_iff returns result).mp member
        have begun := accounted.booked.early _ finished
        rw [accounted.booked.started] at begun
        exact Nat.lt_of_lt_of_le (lt_of_mem_presentBelow begun) accounted.booked.within
      · intro index short
        have noted := (accounted.mem_results_iff returns (index, value index)).mpr ⟨returned index short, rfl⟩
        obtain ⟨written, found⟩ := exists_lookup_of_mem (List.mem_map_of_mem noted)
        obtain ⟨_, same⟩ := (accounted.mem_results_iff returns (index, written)).mp (pair_mem_of_lookup found)
        exact found.trans (congrArg some same)
    simp [idle, sound, ended, results]
  · simp [idle]

end Returns

end Accounted

end

theorem limitOf_finite {concurrency : Binary64} (finite : concurrency.isFinite = true) (count : Nat) :
    limitOf concurrency count = max 1 concurrency.floor.toNat := by
  cases concurrency with
  | nan => cases finite
  | infinity negative => cases finite
  | finite negative significand exponent => simp [limitOf]

/-- Whatever the order in which items return or fail, each is started at most once and those that are there start in
order. What is started and not finished runs, never more than the limit, and exactly as many as the limit and the
items left allow while none has failed. -/
theorem reached_paced {concurrency : Binary64} (finite : concurrency.isFinite = true) {items : List (Option α)}
    {events : List (Nat × Except ε β)} {pool : Pool α β ε}
    (reached : Reached (limitOf concurrency items.length) items events pool) :
    pool.started.Nodup ∧ (∃ count, pool.started = (present items).take count) ∧
      pool.running = (pool.started.filter fun index => index ∉ events.map Prod.fst) ∧
      pool.running.length ≤ max 1 concurrency.floor.toNat ∧
      ((∀ event ∈ events, errorOf event = none) →
        pool.running.length = min (max 1 concurrency.floor.toNat) ((present items).length - events.length)) := by
  rw [limitOf_finite finite] at reached
  have accounted := reached.accounted (Nat.le_max_left _ _)
  refine ⟨?_, ?_, accounted.booked.running, accounted.limited ▸ accounted.booked.room, ?_⟩
  · rw [accounted.booked.started]
    exact nodup_presentBelow _ _
  · obtain ⟨count, first⟩ := exists_take_present accounted.booked.within
    exact ⟨count, accounted.booked.started.trans first⟩
  · intro sound
    apply accounted.length_running
    rw [accounted.failure]
    exact List.findSome?_eq_none_iff.mpr sound

def between : Binary64 := .finite false 5 (-1)

theorem limitOf_between (count : Nat) : limitOf between count = 2 := by
  rw [limitOf_finite (by decide)]
  decide

/-- One of five items is missing. When the one after it returns, the next one is started in its place. -/
theorem reached_paced_missing : between.isFinite = true ∧ ∃ pool : Pool Char Nat String,
    Reached (limitOf between 5) [some 'a', none, some 'b', some 'c', some 'd'] [(2, .ok 7)] pool ∧
      pool.started = [0, 2, 3] ∧ pool.running = [0, 3] ∧ pool.running.length = min (max 1 between.floor.toNat) (4 - 1) := by
  have finite : between.isFinite = true := by decide
  have reached : Reached (limitOf between 5) [some 'a', none, some 'b', some 'c', some 'd'] [(2, .ok 7)]
      ((start (limitOf between 5) [some 'a', none, some 'b', some 'c', some 'd'] : Pool Char Nat String).complete 2 (.ok 7)) :=
    .complete .start (by rw [limitOf_between]; decide)
  obtain ⟨_, _, _, _, paced⟩ := reached_paced finite reached
  refine ⟨finite, _, reached, ?_, ?_, paced ?_⟩
  · rw [limitOf_between]
    rfl
  · rw [limitOf_between]
    rfl
  · intro event member
    obtain rfl := List.mem_singleton.mp member
    rfl

theorem Reached.settles {concurrency : Binary64} (finite : concurrency.isFinite = true) {items : List (Option α)}
    (given : ∀ item ∈ items, item.isSome = true) {value : Nat → β} {events : List (Nat × Except ε β)} {pool : Pool α β ε}
    (returns : ∀ event ∈ events, event.2 = .ok (value event.1))
    (reached : Reached (limitOf concurrency items.length) items events pool) :
    (pool.running = [] ↔ ∀ index < items.length, index ∈ events.map Prod.fst) ∧
      pool.outcome? = if pool.running = [] then
        some (.ok ((List.range items.length).map fun index => some (value index))) else none := by
  rw [limitOf_finite finite] at reached
  have room : 1 ≤ max 1 concurrency.floor.toNat := Nat.le_max_left _ _
  have accounted := reached.accounted room
  exact ⟨accounted.running_eq_nil_iff returns room given, accounted.outcome_eq returns room given⟩

/-- Where every item is there and none fails, there is an outcome as soon as the last one has returned, and it does not
get stuck before. The outcome has what each item returned in the place of the item, so neither the order in which items
return nor the number that may run at a time makes a difference. -/
theorem reached_outcome {concurrency : Binary64} (finite : concurrency.isFinite = true) {items : List (Option α)}
    (given : ∀ item ∈ items, item.isSome = true) {value : Nat → β} {events : List (Nat × Except ε β)} {pool : Pool α β ε}
    (reached : Reached (limitOf concurrency items.length) items events pool)
    (returns : ∀ event ∈ events, event.2 = .ok (value event.1)) :
    (pool.outcome?.isSome = true ↔ ∀ index < items.length, index ∈ events.map Prod.fst) ∧
      (pool.running = [] → pool.outcome?.isSome = true) ∧
      (∀ outcome, pool.outcome? = some outcome →
        outcome = .ok ((List.range items.length).map fun index => some (value index))) ∧
      ∀ (other : Binary64) (others : List (Nat × Except ε β)) (another : Pool α β ε), other.isFinite = true →
        Reached (limitOf other items.length) items others another →
        (∀ event ∈ others, event.2 = .ok (value event.1)) →
        pool.outcome?.isSome = true → another.outcome?.isSome = true → another.outcome? = pool.outcome? := by
  obtain ⟨idle, outcome⟩ := reached.settles finite given returns
  refine ⟨?_, ?_, ?_, ?_⟩
  · rw [outcome, ← idle]
    by_cases same : pool.running = [] <;> simp [same]
  · intro same
    simp [outcome, same]
  · intro result
    rw [outcome]
    split
    · intro same
      exact (Option.some.inj same).symm
    · intro impossible
      cases impossible
  · intro other others another finite reached returns settled elsewhere
    obtain ⟨_, again⟩ := reached.settles finite given returns
    have ended : pool.running = [] := by
      by_contra some
      simp [outcome, some] at settled
    have endedToo : another.running = [] := by
      by_contra some
      simp [again, some] at elsewhere
    rw [outcome, again, if_pos ended, if_pos endedToo]

/-- Three items, of which the second returns first. -/
theorem reached_outcome_reordered : ∃ pool : Pool Char Nat String,
    Reached (limitOf between 3) [some 'a', some 'b', some 'c'] [(1, .ok 11), (0, .ok 10), (2, .ok 12)] pool ∧
      pool.outcome? = some (.ok [some 10, some 11, some 12]) := by
  have finite : between.isFinite = true := by decide
  have reached : Reached (limitOf between 3) [some 'a', some 'b', some 'c'] [(1, .ok 11), (0, .ok 10), (2, .ok 12)]
      ((((start (limitOf between 3) [some 'a', some 'b', some 'c'] : Pool Char Nat String).complete 1 (.ok 11)).complete 0
        (.ok 10)).complete 2 (.ok 12)) := by
    refine .complete (.complete (.complete .start ?_) ?_) ?_ <;> rw [limitOf_between] <;> decide
  obtain ⟨settled, _, outcome, _⟩ := @reached_outcome _ _ _ _ finite _ (by decide) (· + 10) _ _ reached (by
    intro event member
    simp only [List.mem_cons, List.not_mem_nil, or_false] at member
    rcases member with rfl | rfl | rfl <;> rfl)
  obtain ⟨result, found⟩ := Option.isSome_iff_exists.mp (settled.mpr (by decide))
  exact ⟨_, reached, found.trans (congrArg some (outcome result found))⟩

end Emend.Pool
