import Emend.Proofs.RevisionReplies
import Emend.Proofs.RefusedCalls

/-! A run whose calls may be answered in any way, so that each of them may fail and anyone else may be at work on the
files. Such a run is never stuck and ends after a bounded number of turns, and then every file has an outcome, to which
the replies to its own calls have led. -/

namespace Emend

namespace Script

inductive Answered {α : Type} : Script α → Reply → Script α → Prop where
  | read {path : Text} {next : Except Fault Bytes → Script α} (answer : Except Fault Bytes) :
      Answered (.read path next) (.read path answer) (next answer)
  | stat {path : Text} {next : Except Fault Nat → Script α} (answer : Except Fault Nat) :
      Answered (.stat path next) (.stat path answer) (next answer)
  | write {path : Text} {bytes : Bytes} {mode : Nat} {next : Except Fault Unit → Script α} (answer : Except Fault Unit) :
      Answered (.write path bytes mode next) (.write path bytes mode answer) (next answer)
  | rename {source target : Text} {next : Except Fault Unit → Script α} (answer : Except Fault Unit) :
      Answered (.rename source target next) (.rename source target answer) (next answer)
  | remove {path : Text} {next : Except Fault Unit → Script α} (answer : Except Fault Unit) :
      Answered (.remove path next) (.remove path answer) (next answer)
  | announce {path text revised : Text} {next : Except Fault Unit → Script α} (answer : Except Fault Unit) :
      Answered (.announce path text revised next) (.announce path text revised answer) (next answer)

section

variable {α : Type} {script left : Script α} {reply : Reply}

theorem Answered.comes (answered : script.Answered reply left) {rest : List Reply} {value : α}
    (comes : left.Comes rest value) : script.Comes (reply :: rest) value := by
  cases answered with
  | read answer => exact .read comes
  | stat answer => exact .stat comes
  | write answer => exact .write comes
  | rename answer => exact .rename comes
  | remove answer => exact .remove comes
  | announce answer => exact .announce comes

/-- What a workspace and a caller answer is one of the answers. -/
theorem answered_step (busy : ∀ value, script ≠ .done value) (hook : Hook) (scene : Scene) :
    ∃ reply, script.Answered reply (script.step hook scene).2 := by
  cases script with
  | done value => exact absurd rfl (busy value)
  | read path next => exact ⟨_, .read _⟩
  | stat path next => exact ⟨_, .stat _⟩
  | write path bytes mode next => exact ⟨_, .write _⟩
  | rename source target next => exact ⟨_, .rename _⟩
  | remove path next => exact ⟨_, .remove _⟩
  | announce path text revised next => exact ⟨_, .announce _⟩

theorem Orderly.answered {path temporary : Text} {stage : Stage} {calls : Nat}
    (orderly : script.Orderly path temporary stage calls) (answered : script.Answered reply left) :
    ∃ later fewer, fewer < calls ∧ left.Orderly path temporary later fewer := by
  cases orderly with
  | done => cases answered
  | read rest =>
    cases answered with
    | read answer => exact ⟨_, _, Nat.lt_succ_self _, rest answer⟩
  | stat rest =>
    cases answered with
    | stat answer => exact ⟨_, _, Nat.lt_succ_self _, rest answer⟩
  | announce shown text revised rest =>
    cases answered with
    | announce answer => exact ⟨_, _, Nat.lt_succ_self _, rest answer⟩
  | write bytes mode refused written =>
    cases answered with
    | write answer =>
      cases answer with
      | error fault => exact ⟨_, _, Nat.lt_succ_self _, refused fault⟩
      | ok => exact ⟨_, _, Nat.lt_succ_self _, written⟩
  | rename refused moved =>
    cases answered with
    | rename answer =>
      cases answer with
      | error fault => exact ⟨_, _, Nat.lt_succ_self _, refused fault⟩
      | ok => exact ⟨_, _, Nat.lt_succ_self _, moved⟩
  | remove rest =>
    cases answered with
    | remove answer => exact ⟨_, _, Nat.lt_succ_self _, rest answer⟩

end

section

variable {α : Type} {script : Script α}

/-- A refusal is one of the answers to a call, so that a script comes to nothing else where some calls are refused. -/
theorem Comes.of_under {refusals : Refusals} {made : Nat} {replies : List Reply} {value : α}
    (comes : (script.under refusals made).Comes replies value) : ∃ heard, script.Comes heard value := by
  induction script generalizing made replies with
  | done result => exact ⟨replies, comes⟩
  | read path next ih =>
    rw [under] at comes
    split at comes
    · exact (ih _ comes).imp' _ fun _ => .read
    · cases comes with
      | read rest => exact (ih _ rest).imp' _ fun _ => .read
  | stat path next ih =>
    rw [under] at comes
    split at comes
    · exact (ih _ comes).imp' _ fun _ => .stat
    · cases comes with
      | stat rest => exact (ih _ rest).imp' _ fun _ => .stat
  | write path bytes mode next ih =>
    rw [under] at comes
    split at comes
    · cases comes with
      | write rest => exact (ih _ rest).imp' _ fun _ => .write
    · exact (ih _ comes).imp' _ fun _ => .write
    · cases comes with
      | write rest => exact (ih _ rest).imp' _ fun _ => .write
  | rename source target next ih =>
    rw [under] at comes
    split at comes
    · exact (ih _ comes).imp' _ fun _ => .rename
    · cases comes with
      | rename rest => exact (ih _ rest).imp' _ fun _ => .rename
  | remove path next ih =>
    rw [under] at comes
    split at comes
    · exact (ih _ comes).imp' _ fun _ => .remove
    · cases comes with
      | remove rest => exact (ih _ rest).imp' _ fun _ => .remove
  | announce path text revised next ih =>
    cases comes with
    | announce rest => exact (ih _ rest).imp' _ fun _ => .announce

end

end Script

namespace Corpus

/-- What may come next in a run: some file in progress makes a call, to which there may be any answer and which may
leave any scene, or it leaves with its outcome. -/
inductive Turn (script : Nat → Script FileOutcome) (progress : Progress) : Progress → Prop where
  | call {position index : Nat} {waiting left : Script FileOutcome} {reply : Reply}
      (found : progress.queue[position]? = some (index, waiting)) (answered : waiting.Answered reply left)
      (scene : Scene) :
      Turn script progress { progress with scene, queue := progress.queue.eraseIdx position ++ [(index, left)] }
  | leave {position index : Nat} {outcome : FileOutcome}
      (found : progress.queue[position]? = some (index, .done outcome)) :
      Turn script progress
        { progress with
          pool := progress.pool.complete index (.ok outcome)
          queue := progress.queue.eraseIdx position ++
            newScripts script progress.pool (progress.pool.complete index (.ok outcome)) }

inductive Turns (script : Nat → Script FileOutcome) (start : Progress) : Nat → Progress → Prop where
  | begin : Turns script start 0 start
  | turn {count : Nat} {progress after : Progress} (before : Turns script start count progress)
      (turn : Turn script progress after) : Turns script start (count + 1) after

section Steps

variable {script : Nat → Script FileOutcome} {start progress : Progress}

theorem turn_step (busy : progress.queue ≠ []) (hook : Hook) (place : Nat) :
    Turn script progress (progress.step script hook place) := by
  have inside : place % progress.queue.length < progress.queue.length :=
    Nat.mod_lt _ (List.length_pos_iff.mpr busy)
  have found := List.getElem?_eq_getElem inside
  generalize progress.queue[place % progress.queue.length] = entry at found
  obtain ⟨index, waiting⟩ := entry
  by_cases returned : ∃ outcome, waiting = .done outcome
  · obtain ⟨outcome, rfl⟩ := returned
    rw [step_done found]
    exact .leave found
  · have calling : ∀ outcome, waiting ≠ .done outcome := fun outcome same => returned ⟨outcome, same⟩
    rw [step_call calling found]
    obtain ⟨reply, answered⟩ := Script.answered_step calling hook progress.scene
    exact .call found answered _

theorem turns_run {count : Nat} (turns : Turns script start count progress) (hook : Hook) (schedule : Schedule)
    (steps : Nat) : ∃ more, Turns script start more (progress.run script hook schedule steps) := by
  induction steps generalizing progress count with
  | zero => exact ⟨count, turns⟩
  | succ steps ih =>
    rw [Progress.run]
    split
    next idle => exact ⟨count, turns⟩
    next busy => exact ih (turns.turn (turn_step (fun idle => busy (List.isEmpty_iff.mpr idle)) hook _))

theorem Turns.of_idle {count : Nat} (turns : Turns script start count progress) (idle : start.queue = []) :
    count = 0 ∧ progress = start := by
  induction turns with
  | begin => exact ⟨rfl, rfl⟩
  | turn before turn ih =>
    obtain ⟨_, rfl⟩ := ih
    cases turn with
    | call found | leave found =>
      rw [idle] at found
      cases found

end Steps

/-- What is left of a script after some replies, with so many calls to go. Whatever it comes to with further replies, the
whole script comes to with all of them. -/
structure Remains (script : Script FileOutcome) (history : List Reply) (calls : Nat) (left : Script FileOutcome) :
    Prop where
  orderly : ∃ path temporary stage, left.Orderly path temporary stage calls
  comes : ∀ rest outcome, left.Comes rest outcome → script.Comes (history ++ rest) outcome

theorem Remains.answered {script waiting left : Script FileOutcome} {history : List Reply} {calls : Nat} {reply : Reply}
    (remains : Remains script history calls waiting) (answered : waiting.Answered reply left) :
    ∃ fewer, fewer < calls ∧ Remains script (history ++ [reply]) fewer left := by
  obtain ⟨⟨path, temporary, stage, orderly⟩, comes⟩ := remains
  obtain ⟨later, fewer, less, ordered⟩ := orderly.answered answered
  refine ⟨fewer, less, ⟨path, temporary, later, ordered⟩, fun rest outcome ends => ?_⟩
  rw [List.append_assoc]
  exact comes _ _ (answered.comes ends)

def replying (script : Nat → Script FileOutcome) (count : Nat) (hook : Hook) : Discipline (List Reply) count hook where
  Holds _ _ := True
  Fits index history calls left := Remains (script index) history calls left
  call := by
    rintro scene states index calls waiting - - remains busy
    obtain ⟨reply, answered⟩ := Script.answered_step busy hook scene
    obtain ⟨fewer, less, next⟩ := remains.answered answered
    exact ⟨_, fewer, less, trivial, next⟩

section

variable {script : Nat → Script FileOutcome} {count most : Nat} {hook : Hook} {progress after : Progress}
  {states : Nat → List Reply} {calls : Nat → Nat}

/-- A turn keeps the replies and leaves fewer turns. -/
theorem Underway.turn (underway : Underway (replying script count hook) script most progress states calls)
    (turn : Turn script progress after) :
    ∃ states calls', Underway (replying script count hook) script most after states calls' ∧
      remaining most after calls' < remaining most progress calls := by
  cases turn with
  | @call position index waiting left reply found answered scene =>
    have remains : Remains (script index) (states index) (calls index) waiting :=
      underway.fits _ (List.mem_of_getElem? found)
    obtain ⟨fewer, less, next⟩ := remains.answered answered
    exact ⟨_, _, underway.advance found less trivial next⟩
  | @leave position index outcome found =>
    have same : position % progress.queue.length = position :=
      Nat.mod_eq_of_lt (List.getElem?_eq_some_iff.mp found).1
    have there : progress.queue[position % progress.queue.length]? = some (index, .done outcome) := same.symm ▸ found
    have left := underway.leave there
    rw [step_done there, same] at left
    exact ⟨states, calls, left⟩

end

/-- Each of some files has an outcome, to which its revision comes with some replies to its calls, and which is a failure
exactly when something has gone wrong there. -/
structure Settled (options : FileOptions) (token : Nat → Text) (files : List Text) (outcomes : List FileOutcome) :
    Prop where
  count : outcomes.length = files.length
  each : ∀ index file outcome, files[index]? = some file → outcomes[index]? = some outcome →
    ∃ replies, Revising options (token index) file replies outcome ∧
      (outcome.failure?.isSome = true ↔ Troubled options file replies)

section

variable {options : FileOptions} {token : Nat → Text} {files : List Text} {limit : Nat} {scene : Scene}
  {script : Nat → Script FileOutcome} {count : Nat} {progress : Progress}

theorem settled_of_comes {outcome : Nat → FileOutcome}
    (comes : ∀ index file, files[index]? = some file →
      ∃ replies, (revise options (token index) file).Comes replies (outcome index)) :
    Settled options token files ((List.range files.length).map outcome) := by
  refine ⟨by simp, fun index file ended found given => ?_⟩
  have inside : index < files.length := (List.getElem?_eq_some_iff.mp found).1
  have value : outcome index = ended := by simpa [inside] using given
  obtain ⟨replies, comes⟩ := comes index file found
  have revising := revising_of_comes (value ▸ comes)
  exact ⟨_, revising, revising.failure_iff⟩

variable (orderly : ∀ index < files.length, ∃ path temporary, (script index).Orderly path temporary .clear 7)

include orderly

theorem replying_start (hook : Hook) (room : 1 ≤ limit) :
    Underway (replying script files.length hook) script 7 (.start script limit files scene) (fun _ => []) (fun _ => 7) ∧
      remaining 7 (.start script limit files scene) (fun _ => 7) ≤ stepsPerFile * files.length := by
  refine Discipline.underway rfl _ trivial room fun index inside => ?_
  obtain ⟨path, temporary, own⟩ := orderly index inside
  exact ⟨⟨path, temporary, .clear, own⟩, fun rest outcome ends => ends⟩

theorem Turns.underway (room : 1 ≤ limit) (turns : Turns script (.start script limit files scene) count progress) :
    ∃ states calls, Underway (replying script files.length .silent) script 7 progress states calls ∧
      remaining 7 progress calls + count ≤ stepsPerFile * files.length := by
  induction turns with
  | begin => exact ⟨_, _, replying_start orderly .silent room⟩
  | turn before turn ih =>
    obtain ⟨states, calls, underway, budget⟩ := ih
    obtain ⟨states, calls, next, fewer⟩ := underway.turn turn
    exact ⟨states, calls, next, by omega⟩

theorem Turns.bounded (turns : Turns script (.start script limit files scene) count progress) :
    count ≤ stepsPerFile * files.length := by
  cases limit with
  | zero =>
    have idle : (Progress.start script 0 files scene).queue = [] :=
      congrArg Progress.queue (Progress.start_idle scene (.inl rfl))
    exact (turns.of_idle idle).1 ▸ Nat.zero_le _
  | succ more =>
    obtain ⟨_, _, _, budget⟩ := turns.underway orderly (Nat.le_add_left 1 more)
    omega

/-- When no file is in progress any more, the script of each of them has come to its outcome. -/
theorem Turns.comes (room : 1 ≤ limit) (turns : Turns script (.start script limit files scene) count progress)
    (idle : progress.queue = []) :
    ∃ outcome : Nat → FileOutcome,
      progress.pool.resultList.filterMap id = (List.range files.length).map outcome ∧
      ∀ index < files.length, ∃ replies, (script index).Comes replies (outcome index) := by
  obtain ⟨states, calls, underway, _⟩ := turns.underway orderly room
  obtain ⟨outcome, listed, returned⟩ := underway.outcomes idle
  refine ⟨outcome, listed, fun index inside => ?_⟩
  obtain ⟨left, _, comes⟩ := returned index inside
  exact ⟨_, comes [] (outcome index) (.done (outcome index))⟩

/-- What a workspace and a caller make of a run is one of its courses, up to the end. -/
theorem exists_turns (hook : Hook) (schedule : Schedule) (room : 1 ≤ limit) :
    ∃ count progress, Turns script (.start script limit files scene) count progress ∧ progress.queue = [] ∧
      runAll script hook schedule limit files scene = (progress.scene, progress.pool.resultList.filterMap id) := by
  obtain ⟨underway, budget⟩ := replying_start orderly hook room
  obtain ⟨_, _, _, idle⟩ := underway.run schedule budget
  obtain ⟨count, turns⟩ := turns_run .begin hook schedule _
  exact ⟨count, _, turns, idle, rfl⟩

end

section

variable (options : FileOptions) (token : Nat → Text) (files : List Text)

theorem orderly_scriptAt : ∀ index < files.length,
    ∃ path temporary, (scriptAt options token files index).Orderly path temporary .clear 7 :=
  @forall_scriptAt _ _ _ (fun _ script => ∃ path temporary, script.Orderly path temporary .clear 7)
    fun _ _ _ => ⟨_, _, orderly_revise⟩

theorem orderly_scriptUnder (refusals : Nat → Refusals) : ∀ index < files.length,
    ∃ path temporary, (scriptUnder refusals options token files index).Orderly path temporary .clear 7 := by
  intro index inside
  obtain ⟨path, temporary, orderly⟩ := orderly_scriptAt options token files index inside
  exact ⟨path, temporary, orderly.under (refusals index) 0⟩

variable {options token files} {limit : Nat} {scene : Scene} (room : 1 ≤ limit)

include room

/-- When no file is in progress any more, all of them have their outcomes. -/
theorem Turns.settled {count : Nat} {progress : Progress}
    (turns : Turns (scriptAt options token files) (.start (scriptAt options token files) limit files scene) count
      progress)
    (idle : progress.queue = []) : Settled options token files (progress.pool.resultList.filterMap id) := by
  obtain ⟨outcome, listed, comes⟩ := turns.comes (orderly_scriptAt options token files) room idle
  rw [listed]
  refine settled_of_comes fun index file found => ?_
  obtain ⟨replies, comes⟩ := comes index (List.getElem?_eq_some_iff.mp found).1
  rw [scriptAt, found] at comes
  exact ⟨replies, comes⟩

theorem reviseAllUnder_settled (refusals : Nat → Refusals) (hook : Hook) (schedule : Schedule) :
    Settled options token files (reviseAllUnder refusals options token hook schedule limit files scene).2 := by
  have orderly := orderly_scriptUnder options token files refusals
  obtain ⟨count, progress, turns, idle, same⟩ := @exists_turns files limit scene _ orderly hook schedule room
  obtain ⟨outcome, listed, comes⟩ := turns.comes orderly room idle
  rw [reviseAllUnder, same, listed]
  refine settled_of_comes fun index file found => ?_
  obtain ⟨replies, comes⟩ := comes index (List.getElem?_eq_some_iff.mp found).1
  rw [scriptUnder, scriptAt, found] at comes
  exact comes.of_under

end

end Corpus

end Emend
