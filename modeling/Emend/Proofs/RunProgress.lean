import Emend.Corpus.Run
import Emend.Proofs.PoolFill
import Mathlib.Algebra.GroupWithZero.Nat
import Mathlib.Algebra.Order.BigOperators.Group.List
import Mathlib.Algebra.Order.Group.Nat
import Mathlib.Data.List.Perm.Basic
import Mathlib.Logic.Function.Basic

/-! Scripts of several files that take turns. Whatever the schedule, a property that each call keeps, of
the scene and of the script that makes the call, holds when all scripts are done, and by then each of
them has returned. -/

namespace Emend.Corpus

/-- What is known of scripts in turns: what holds of the scene, given a state for each script, and what
fits a script in its state that makes at most some number of calls. -/
structure Discipline (σ : Type) (count : Nat) (hook : Hook) where
  Holds : Scene → (Nat → σ) → Prop
  Fits : Nat → σ → Nat → Script FileOutcome → Prop
  call : ∀ {scene : Scene} {states : Nat → σ} {index calls : Nat} {script : Script FileOutcome},
    index < count → Holds scene states → Fits index (states index) calls script →
    (∀ outcome, script ≠ .done outcome) →
    ∃ state left, left < calls ∧ Holds (script.step hook scene).1 (Function.update states index state) ∧
      Fits index state left (script.step hook scene).2

section Steps

variable {script : Nat → Script FileOutcome} {hook : Hook} {place index : Nat} {progress : Progress}

theorem step_done {outcome : FileOutcome}
    (found : progress.queue[place % progress.queue.length]? = some (index, .done outcome)) :
    progress.step script hook place =
      { progress with
        pool := progress.pool.complete index (.ok outcome)
        queue := progress.queue.eraseIdx (place % progress.queue.length) ++
          newScripts script progress.pool (progress.pool.complete index (.ok outcome)) } := by
  rw [Progress.step]
  simp only [found]

theorem step_call {waiting : Script FileOutcome} (busy : ∀ outcome, waiting ≠ .done outcome)
    (found : progress.queue[place % progress.queue.length]? = some (index, waiting)) :
    progress.step script hook place =
      { progress with
        scene := (waiting.step hook progress.scene).1
        queue := progress.queue.eraseIdx (place % progress.queue.length) ++
          [(index, (waiting.step hook progress.scene).2)] } := by
  rw [Progress.step]
  simp only [found]

end Steps

section

variable {σ : Type} {count most : Nat} {hook : Hook} (discipline : Discipline σ count hook)
  (script : Nat → Script FileOutcome)

/-- The invariant of a run: the scripts in the queue are those that are running, and every file is
pending, running or has its outcome. -/
structure Underway (most : Nat) (progress : Progress) (states : Nat → σ) (calls : Nat → Nat) : Prop where
  holds : discipline.Holds progress.scene states
  paced : progress.pool.Paced count
  room : 1 ≤ progress.pool.limit
  full : progress.pool.pending ≠ [] → progress.pool.limit ≤ progress.pool.running.length
  queued : (progress.queue.map Prod.fst).Perm progress.pool.running
  fits : ∀ entry ∈ progress.queue, discipline.Fits entry.1 (states entry.1) (calls entry.1) entry.2
  fresh : ∀ index, progress.pool.next ≤ index → index < count →
    discipline.Fits index (states index) (calls index) (script index) ∧ calls index ≤ most
  ended : ∀ index < progress.pool.next, index ∉ progress.pool.running →
    ∃ outcome left, progress.pool.results.lookup index = some outcome ∧
      discipline.Fits index (states index) left (.done outcome)

def remaining (most : Nat) (progress : Progress) (calls : Nat → Nat) : Nat :=
  (progress.queue.map fun entry => calls entry.1 + 1).sum + progress.pool.pending.length * (most + 1)

variable {discipline script} {progress : Progress} {states : Nat → σ} {calls : Nat → Nat}

private theorem split_queue (underway : Underway discipline script most progress states calls) {position : Nat}
    {entry : Nat × Script FileOutcome} (found : progress.queue[position]? = some entry) :
    progress.queue.Perm (entry :: progress.queue.eraseIdx position) ∧
      ((progress.queue.eraseIdx position).map Prod.fst).Perm (progress.pool.running.erase entry.1) ∧
      (∀ other ∈ progress.queue.eraseIdx position, other ∈ progress.queue ∧ other.1 ≠ entry.1) ∧
      entry.1 ∈ progress.pool.running := by
  obtain ⟨inside, rfl⟩ := List.getElem?_eq_some_iff.mp found
  have whole := (List.getElem_cons_eraseIdx_perm inside).symm
  have keys : (progress.queue[position].1 :: (progress.queue.eraseIdx position).map Prod.fst).Perm
      progress.pool.running := by
    rw [← List.map_cons]
    exact (whole.map Prod.fst).symm.trans underway.queued
  have once := keys.nodup_iff.mpr underway.paced.once
  refine ⟨whole, ?_, fun other member => ⟨List.mem_of_mem_eraseIdx member, ?_⟩, keys.subset List.mem_cons_self⟩
  · have erased := keys.erase progress.queue[position].1
    rwa [List.erase_cons_head] at erased
  · intro same
    exact (List.nodup_cons.mp once).1 (List.mem_map.mpr ⟨other, member, same⟩)

theorem Underway.advance (underway : Underway discipline script most progress states calls) {position index : Nat}
    {waiting next : Script FileOutcome} (found : progress.queue[position]? = some (index, waiting)) {scene : Scene}
    {state : σ} {left : Nat} (fewer : left < calls index)
    (holds : discipline.Holds scene (Function.update states index state)) (fits : discipline.Fits index state left next) :
    let after : Progress := { progress with scene, queue := progress.queue.eraseIdx position ++ [(index, next)] }
    Underway discipline script most after (Function.update states index state) (Function.update calls index left) ∧
      remaining most after (Function.update calls index left) < remaining most progress calls := by
  intro after
  obtain ⟨whole, keys, others, running⟩ := split_queue underway found
  have apart {other : Nat} (different : other ≠ index) :
      Function.update states index state other = states other ∧
        Function.update calls index left other = calls other :=
    ⟨Function.update_of_ne different _ _, Function.update_of_ne different _ _⟩
  have behind {other : Nat} (later : progress.pool.next ≤ other) : other ≠ index := by
    rintro rfl
    exact absurd (underway.paced.begun other running) (Nat.not_lt.mpr later)
  refine ⟨⟨holds, underway.paced, underway.room, underway.full, ?_, ?_, ?_, ?_⟩, ?_⟩
  · rw [List.map_append, List.map_singleton]
    have again : progress.pool.running.Perm (progress.pool.running.erase index ++ [index]) :=
      (List.perm_cons_erase running).trans (List.perm_append_singleton _ _).symm
    exact (keys.append_right [index]).trans again.symm
  · intro entry member
    rcases List.mem_append.mp member with old | new
    · obtain ⟨member, different⟩ := others entry old
      rw [(apart different).1, (apart different).2]
      exact underway.fits entry member
    · obtain rfl := List.mem_singleton.mp new
      rw [Function.update_self, Function.update_self]
      exact fits
  · intro other later small
    rw [(apart (behind later)).1, (apart (behind later)).2]
    exact underway.fresh other later small
  · intro other earlier absent
    have different : other ≠ index := by
      rintro rfl
      exact absent running
    rw [(apart different).1]
    exact underway.ended other earlier absent
  · have before := (whole.map fun entry => calls entry.1 + 1).sum_nat
    have same : (progress.queue.eraseIdx position).map (fun entry => Function.update calls index left entry.1 + 1) =
        (progress.queue.eraseIdx position).map fun entry => calls entry.1 + 1 :=
      List.map_congr_left fun entry member => by rw [(apart (others entry member).2).2]
    simp only [List.map_cons, List.sum_cons] at before
    simp only [after, remaining, List.map_append, List.map_singleton, List.sum_append, List.sum_singleton,
      Function.update_self, same]
    omega

theorem Underway.inside (underway : Underway discipline script most progress states calls) {position : Nat}
    {entry : Nat × Script FileOutcome} (found : progress.queue[position]? = some entry) : entry.1 < count := by
  have begun := underway.paced.begun entry.1 (split_queue underway found).2.2.2
  have total := underway.paced.total
  omega

theorem Underway.call (underway : Underway discipline script most progress states calls) {place index : Nat}
    {waiting : Script FileOutcome} (busy : ∀ outcome, waiting ≠ .done outcome)
    (found : progress.queue[place % progress.queue.length]? = some (index, waiting)) :
    ∃ states calls', Underway discipline script most (progress.step script hook place) states calls' ∧
      remaining most (progress.step script hook place) calls' < remaining most progress calls := by
  have own := underway.fits (index, waiting) (List.mem_of_getElem? found)
  obtain ⟨state, left, fewer, holds, fits⟩ := discipline.call (underway.inside found) underway.holds own busy
  rw [step_call busy found]
  exact ⟨_, _, underway.advance found fewer holds fits⟩

section

variable {pool after : Pool Text FileOutcome Fault} {more : Nat}
  (started : after.started = pool.started ++ List.range' pool.next more)

include started

theorem newScripts_eq :
    newScripts script pool after = (List.range' pool.next more).map fun index => (index, script index) := by
  rw [newScripts, started, List.drop_left]

/-- The scripts of new files make no more calls than were reckoned with while these files were pending. -/
theorem newScripts_calls (pending : after.pending = pool.pending.drop more) (enough : more ≤ pool.pending.length)
    (small : ∀ index, pool.next ≤ index → index < pool.next + more → calls index ≤ most) :
    ((newScripts script pool after).map fun entry => calls entry.1 + 1).sum + after.pending.length * (most + 1) ≤
      pool.pending.length * (most + 1) := by
  have each : ∀ size ∈ (newScripts script pool after).map (fun entry => calls entry.1 + 1), size ≤ most + 1 := by
    intro size member
    rw [newScripts_eq started, List.map_map] at member
    obtain ⟨other, among, rfl⟩ := List.mem_map.mp member
    obtain ⟨low, high⟩ := List.mem_range'_1.mp among
    exact Nat.succ_le_succ (small other low high)
  have bounded := List.sum_le_card_nsmul _ _ each
  have length : (newScripts script pool after).length = more := by
    rw [newScripts_eq started, List.length_map, List.length_range']
  rw [List.length_map, length, Nat.nsmul_eq_mul] at bounded
  have shares : more * (most + 1) + after.pending.length * (most + 1) = pool.pending.length * (most + 1) := by
    rw [← Nat.add_mul, pending, List.length_drop, Nat.add_sub_cancel' enough]
  omega

end

theorem Underway.leave (underway : Underway discipline script most progress states calls) {place index : Nat}
    {outcome : FileOutcome}
    (found : progress.queue[place % progress.queue.length]? = some (index, .done outcome)) :
    Underway discipline script most (progress.step script hook place) states calls ∧
      remaining most (progress.step script hook place) calls < remaining most progress calls := by
  obtain ⟨whole, keys, others, running⟩ := split_queue underway found
  have own := underway.fits (index, .done outcome) (List.mem_of_getElem? found)
  rw [step_done found]
  obtain ⟨more, started, paced, full⟩ := underway.paced.complete running outcome
  generalize progress.pool.complete index (.ok outcome) = pool at started paced full
  have scripts : newScripts script progress.pool pool =
      (List.range' progress.pool.next more).map fun index => (index, script index) := newScripts_eq started.started
  have next : pool.next = progress.pool.next + more := started.next
  have results : pool.results = (index, outcome) :: progress.pool.results := started.results
  have nowRunning : pool.running = progress.pool.running.erase index ++ List.range' progress.pool.next more :=
    started.running
  have fresh : ∀ other, progress.pool.next ≤ other → other < progress.pool.next + more →
      discipline.Fits other (states other) (calls other) (script other) ∧ calls other ≤ most := by
    intro other low high
    apply underway.fresh other low
    have := paced.total
    omega
  refine ⟨⟨underway.holds, paced, started.limit ▸ underway.room, started.limit ▸ full, ?_, ?_, ?_, ?_⟩, ?_⟩
  · rw [nowRunning, scripts, List.map_append, List.map_map]
    exact keys.append (List.Perm.of_eq (List.map_id _))
  · intro entry member
    rcases List.mem_append.mp member with old | new
    · exact underway.fits entry (others entry old).1
    · rw [scripts] at new
      obtain ⟨other, among, rfl⟩ := List.mem_map.mp new
      obtain ⟨low, high⟩ := List.mem_range'_1.mp among
      exact (fresh other low high).1
  · intro other low high
    exact underway.fresh other (Nat.le_trans (next ▸ Nat.le_add_right _ more) low) high
  · intro other early absent
    rw [nowRunning, List.mem_append, not_or] at absent
    rw [results, List.lookup_cons]
    by_cases same : other = index
    · subst same
      rw [beq_self_eq_true]
      exact ⟨outcome, _, rfl, own⟩
    · rw [beq_eq_false_iff_ne.mpr same]
      have old : other < progress.pool.next := by
        by_contra late
        exact absent.2 (List.mem_range'_1.mpr ⟨Nat.le_of_not_lt late, next ▸ early⟩)
      apply underway.ended other old
      intro member
      exact absent.1 ((List.mem_erase_of_ne same).mpr member)
  · have before := (whole.map fun entry => calls entry.1 + 1).sum_nat
    rw [List.map_cons, List.sum_cons] at before
    have added : ((newScripts script progress.pool pool).map fun entry => calls entry.1 + 1).sum +
        pool.pending.length * (most + 1) ≤ progress.pool.pending.length * (most + 1) :=
      newScripts_calls started.started started.pending started.enough fun other low high => (fresh other low high).2
    simp only [remaining, List.map_append, List.sum_append]
    omega

/-- Every step of a run keeps the invariant and leaves fewer steps to go. -/
theorem Underway.step (underway : Underway discipline script most progress states calls)
    (busy : progress.queue ≠ []) (place : Nat) :
    ∃ states calls', Underway discipline script most (progress.step script hook place) states calls' ∧
      remaining most (progress.step script hook place) calls' < remaining most progress calls := by
  have inside : place % progress.queue.length < progress.queue.length :=
    Nat.mod_lt _ (List.length_pos_iff.mpr busy)
  have found := List.getElem?_eq_getElem inside
  generalize progress.queue[place % progress.queue.length] = entry at found
  obtain ⟨index, waiting⟩ := entry
  by_cases returned : ∃ outcome, waiting = .done outcome
  · obtain ⟨outcome, rfl⟩ := returned
    exact ⟨states, calls, underway.leave found⟩
  · exact underway.call (fun outcome same => returned ⟨outcome, same⟩) found

/-- A run with enough steps comes to its end. -/
theorem Underway.run (underway : Underway discipline script most progress states calls) (schedule : Schedule)
    {steps : Nat} (enough : remaining most progress calls ≤ steps) :
    ∃ states calls, Underway discipline script most (progress.run script hook schedule steps) states calls ∧
      (progress.run script hook schedule steps).queue = [] := by
  induction steps generalizing progress states calls with
  | zero =>
    refine ⟨states, calls, underway, ?_⟩
    rw [Progress.run]
    cases queue : progress.queue with
    | nil => rfl
    | cons entry queue =>
      rw [remaining, queue, List.map_cons, List.sum_cons] at enough
      omega
  | succ steps ih =>
    rw [Progress.run]
    split
    next idle => exact ⟨states, calls, underway, List.isEmpty_iff.mp idle⟩
    next busy =>
      have some : progress.queue ≠ [] := fun idle => busy (List.isEmpty_iff.mpr idle)
      obtain ⟨states, calls, after, fewer⟩ := underway.step some (schedule steps)
      exact ih after (by omega)

/-- When nothing is in the queue any more, every file has its outcome. -/
theorem Underway.outcomes (underway : Underway discipline script most progress states calls)
    (idle : progress.queue = []) :
    ∃ outcome : Nat → FileOutcome,
      progress.pool.resultList.filterMap id = (List.range count).map outcome ∧
      ∀ index < count, ∃ left, discipline.Fits index (states index) left (.done (outcome index)) := by
  have still : progress.pool.running = [] := by
    have queued := underway.queued
    rw [idle] at queued
    exact queued.symm.eq_nil
  have nothing : progress.pool.pending = [] := by
    cases pending : progress.pool.pending with
    | nil => rfl
    | cons item rest =>
      have full := underway.full (pending ▸ List.cons_ne_nil _ _)
      have room := underway.room
      rw [still] at full
      exact absurd (Nat.le_trans room full) (by decide)
  have all : progress.pool.next = count := by
    have total := underway.paced.total
    rwa [nothing] at total
  have each : ∀ index < count, ∃ outcome left, progress.pool.results.lookup index = some outcome ∧
      discipline.Fits index (states index) left (.done outcome) := by
    intro index inside
    exact underway.ended index (all ▸ inside) (still ▸ List.not_mem_nil)
  refine ⟨fun index => (progress.pool.results.lookup index).getD .unmatched, ?_, fun index inside => ?_⟩
  · have listed : progress.pool.resultList = (List.range count).map fun index =>
        some ((progress.pool.results.lookup index).getD .unmatched) := by
      apply Pool.resultList_eq fun result member => all ▸ underway.paced.returned result member
      intro index inside
      obtain ⟨outcome, _, found, _⟩ := each index inside
      rw [found]
      rfl
    rw [listed, List.filterMap_map]
    simp
  · obtain ⟨outcome, left, found, fits⟩ := each index inside
    simp only [found]
    exact ⟨left, fits⟩

theorem underway_start (scene : Scene) {items : List (Option Text)} (given : ∀ item ∈ items, item.isSome = true)
    (length : items.length = count) (holds : discipline.Holds scene states)
    (own : ∀ index < count, discipline.Fits index (states index) most (script index)) {limit : Nat} (room : 1 ≤ limit) :
    let pool : Pool Text FileOutcome Fault := Pool.start limit items
    let queue := pool.started.map fun index => (index, script index)
    Underway discipline script most ⟨scene, pool, queue⟩ states (fun _ => most) ∧
      remaining most ⟨scene, pool, queue⟩ (fun _ => most) ≤ (most + 1) * count := by
  intro pool queue
  obtain ⟨more, filled, paced, full⟩ := Pool.paced_start (β := FileOutcome) (ε := Fault) room given
  have started : pool.started = List.range' 0 more := filled.started
  have running : pool.running = List.range' 0 more := filled.running
  have next : pool.next = more := filled.next.trans (Nat.zero_add more)
  have enough : more ≤ count := length ▸ filled.enough
  have pending : pool.pending.length = count - more := by
    rw [filled.pending, List.length_drop, length]
  refine ⟨⟨holds, length ▸ paced, filled.limit ▸ room, filled.limit ▸ full, ?_, ?_, ?_, ?_⟩, ?_⟩
  · simp only [queue, List.map_map, started, running]
    exact List.Perm.of_eq (List.map_id _)
  · intro entry member
    simp only [queue, started] at member
    obtain ⟨index, among, rfl⟩ := List.mem_map.mp member
    have early := (List.mem_range'_1.mp among).2
    exact own index (by omega)
  · intro index _ inside
    exact ⟨own index inside, Nat.le_refl most⟩
  · intro index early absent
    simp only [next] at early
    simp only [running] at absent
    exact absurd (List.mem_range'_1.mpr ⟨Nat.zero_le _, by omega⟩) absent
  · simp only [remaining, queue, List.map_map, started, pending, Function.comp_def, List.map_const',
      List.sum_replicate_nat, List.length_range']
    rw [← Nat.add_mul, Nat.add_sub_cancel' enough, Nat.mul_comm]

end

def Progress.start (script : Nat → Script FileOutcome) (limit : Nat) (files : List Text) (scene : Scene) : Progress :=
  let pool := Pool.start limit (files.map some)
  ⟨scene, pool, pool.started.map fun index => (index, script index)⟩

section

variable {σ : Type} {count : Nat} {files : List Text} (length : files.length = count) {hook : Hook}
  (discipline : Discipline σ count hook) {scene : Scene} {states : Nat → σ} (holds : discipline.Holds scene states)
  {limit : Nat} (room : 1 ≤ limit)

include length holds room

section

variable {script : Nat → Script FileOutcome}
  (fits : ∀ index < count, discipline.Fits index (states index) 7 (script index))

include fits

/-- Scripts that keep a discipline keep it when a run begins. -/
theorem Discipline.underway :
    Underway discipline script 7 (.start script limit files scene) states (fun _ => 7) ∧
      remaining 7 (.start script limit files scene) (fun _ => 7) ≤ stepsPerFile * files.length := by
  subst length
  have given : ∀ item ∈ files.map some, item.isSome = true := by
    intro item member
    obtain ⟨file, _, rfl⟩ := List.mem_map.mp member
    rfl
  exact underway_start scene given (List.length_map _) holds fits room

/-- Scripts that keep a discipline keep it in turns, and all of them return. -/
theorem Discipline.runAll (schedule : Schedule) :
    ∃ (final : Nat → σ) (outcome : Nat → FileOutcome),
      discipline.Holds (Corpus.runAll script hook schedule limit files scene).1 final ∧
      (Corpus.runAll script hook schedule limit files scene).2 = (List.range count).map outcome ∧
      ∀ index < count, ∃ left, discipline.Fits index (final index) left (.done (outcome index)) := by
  obtain ⟨underway, budget⟩ := discipline.underway length holds room fits
  obtain ⟨final, _, ended, idle⟩ := underway.run schedule budget
  obtain ⟨outcome, listed, returned⟩ := ended.outcomes idle
  exact ⟨final, outcome, ended.holds, listed, returned⟩

end

end

section Idle

variable {script : Nat → Script FileOutcome} {hook : Hook}

theorem Progress.start_idle {limit : Nat} {files : List Text} (scene : Scene) (nothing : limit = 0 ∨ files = []) :
    Progress.start script limit files scene = ⟨scene, ⟨limit, [], 0, [], [], [], none⟩, []⟩ := by
  have pending : (if limit = 0 then [] else files.map some) = [] := by
    rcases nothing with rfl | rfl
    · rfl
    · exact ite_self _
  have begun : (Pool.start limit (files.map some) : Pool Text FileOutcome Fault) = ⟨limit, [], 0, [], [], [], none⟩ := by
    rw [Pool.start, pending]
    rfl
  rw [Progress.start, begun]
  rfl

theorem Progress.run_idle {progress : Progress} (idle : progress.queue = []) (schedule : Schedule) (steps : Nat) :
    progress.run script hook schedule steps = progress := by
  cases steps with
  | zero => rfl
  | succ steps => rw [Progress.run, idle, List.isEmpty_nil, if_pos rfl]

theorem runAll_none (script : Nat → Script FileOutcome) (hook : Hook) (schedule : Schedule) {limit : Nat}
    {files : List Text} (nothing : limit = 0 ∨ files = []) (scene : Scene) :
    runAll script hook schedule limit files scene = (scene, []) := by
  show (((Progress.start script limit files scene).run _ hook schedule _).scene,
    ((Progress.start script limit files scene).run _ hook schedule _).pool.resultList.filterMap id) = _
  rw [Progress.start_idle scene nothing, Progress.run_idle rfl]
  rfl

end Idle

end Emend.Corpus
