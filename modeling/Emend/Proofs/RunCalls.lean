import Emend.Corpus.Event
import Emend.Proofs.RunProgress
import Emend.Proofs.ScriptEnds

/-! The calls of a run: the states that it goes through, whatever the schedule, and the entries that the next
call of a script may create, replace or remove. A call leaves all other entries as they were. -/

namespace Emend

open Text FileError

def Script.call? {α : Type} : Script α → Option Event
  | .done _ | .announce .. => none
  | .read path _ => some (.read path)
  | .stat path _ => some (.stat path)
  | .write path bytes mode _ => some (.write path bytes mode)
  | .rename source target _ => some (.rename source target)
  | .remove path _ => some (.remove path)

def Tree.Found.place : Found → Path
  | .node path _ | .missing path => path

theorem Tree.endAt_place (tree : Tree) (path : Path) : (tree.endAt path).place = path := by
  rw [endAt]
  split <;> rfl

namespace Event

def looked? : Event → Option Text
  | .read path | .stat path => some path
  | .write .. | .rename .. | .remove _ => none

/-- The entries of directories that a call creates, replaces or removes, if it succeeds. -/
inductive Touches (space : Workspace) : Event → Path → Prop where
  | written {path : Text} {bytes : Bytes} {mode : Nat} {found : Tree.Found}
      (reach : space.tree.find space.directory true path = .ok found) : Touches space (.write path bytes mode) found.place
  | moved {source target : Text} {found : Tree.Found}
      (reach : space.tree.find space.directory false source = .ok found) : Touches space (.rename source target) found.place
  | replaced {source target : Text} {found : Tree.Found}
      (reach : space.tree.find space.directory false target = .ok found) : Touches space (.rename source target) found.place
  | removed {path : Text} {found : Tree.Found}
      (reach : space.tree.find space.directory false path = .ok found) : Touches space (.remove path) found.place

end Event

namespace Workspace

section Found

variable {space after : Workspace} {path target : Text} {bytes : Bytes} {mode : Nat}

theorem contains_of_naming {α : Type} {call : String} {result : Except Code α} {value : α}
    (named : naming call path result = .ok value) : path.contains 0 = false := by
  rw [naming] at named
  split at named
  · cases named
  next plain => exact Bool.eq_false_iff.mpr plain

/-- What is read stands where the path leads, and is no directory. -/
theorem readFile_found (read : space.readFile path = .ok bytes) :
    path.contains 0 = false ∧ ∃ place node,
      space.tree.lookup space.directory true path = .ok (place, node) ∧ node ≠ .directory := by
  rw [readFile] at read
  cases named : naming "open" path (space.tree.lookup space.directory true path) with
  | error error =>
    rw [named] at read
    cases read
  | ok entry =>
    rw [named] at read
    obtain ⟨place, node⟩ := entry
    refine ⟨contains_of_naming named, place, node, Corpus.naming_eq_ok named, ?_⟩
    rintro rfl
    cases read

theorem mode_of_lookup (plain : path.contains 0 = false) {place : Path} {node : Node}
    (looked : space.tree.lookup space.directory true path = .ok (place, node)) : space.mode path = .ok (modeOf node) := by
  rw [Workspace.mode, Workspace.stat, naming, looked, if_neg (by simp only [plain, Bool.false_eq_true, not_false_iff])]
  rfl

theorem writeFile_found (written : space.writeFile path bytes mode = .ok after) :
    ∃ found, space.tree.find space.directory true path = .ok found ∧
      (after = space ∨ ∃ kept, after = { space with tree := space.tree.put found.place (.file bytes kept) }) := by
  rw [writeFile] at written
  cases named : naming "open" path (space.tree.find space.directory true path) with
  | error error =>
    rw [named] at written
    cases written
  | ok found =>
    refine ⟨found, Corpus.naming_eq_ok named, ?_⟩
    rw [named] at written
    cases found with
    | missing place => exact .inr ⟨_, (Except.ok.inj written).symm⟩
    | node place node =>
      cases node with
      | file old own => exact .inr ⟨_, (Except.ok.inj written).symm⟩
      | directory =>
        have failed := Corpus.naming_eq_ok written
        cases failed
      | link target | pipe => exact .inl (Except.ok.inj written).symm

theorem writeFile_missing {place : Path} (reach : space.tree.find space.directory true path = .ok (.missing place))
    (written : space.writeFile path bytes mode = .ok after) :
    after = { space with tree := space.tree.put place (.file bytes (maskedMode mode)) } := by
  rw [writeFile, reach] at written
  cases named : naming "open" path (.ok (.missing place) : Except Code Tree.Found) with
  | error error =>
    rw [named] at written
    cases written
  | ok found =>
    obtain rfl := Except.ok.inj (Corpus.naming_eq_ok named)
    rw [named] at written
    exact (Except.ok.inj written).symm

/-- What is moved stands where the target was found, and no longer where it was. -/
theorem rename_found (moved : space.rename path target = .ok after) :
    ∃ place node goal, space.tree.lookup space.directory false path = .ok (place, node) ∧
      space.tree.find space.directory false target = .ok goal ∧
      after = { space with tree := (space.tree.erase place).put goal.place node } := by
  rw [rename] at moved
  cases looked : space.tree.lookup space.directory false path with
  | error code =>
    rw [looked] at moved
    cases moved
  | ok there =>
    obtain ⟨place, node⟩ := there
    rw [looked] at moved
    cases reach : space.tree.find space.directory false target with
    | error code =>
      rw [reach] at moved
      cases moved
    | ok goal =>
      refine ⟨place, node, goal, rfl, rfl, ?_⟩
      rw [reach] at moved
      cases goal with
      | missing goal => exact (Except.ok.inj moved).symm
      | node goal old =>
        cases old with
        | directory => cases moved
        | file bytes mode | link target | pipe => exact (Except.ok.inj moved).symm

theorem remove_found (removed : space.remove path = .ok after) :
    after = space ∨ ∃ found, space.tree.find space.directory false path = .ok found ∧
      after = { space with tree := space.tree.erase found.place } := by
  rw [remove] at removed
  cases named : naming "rm" path (space.tree.find space.directory false path) with
  | error error =>
    rw [named] at removed
    simp only at removed
    split at removed
    · exact .inl (Except.ok.inj removed).symm
    · cases removed
  | ok found =>
    rw [named] at removed
    cases found with
    | missing place => exact .inl (Except.ok.inj removed).symm
    | node place node =>
      cases node with
      | directory =>
        have failed := Corpus.naming_eq_ok removed
        cases failed
      | file old own | link target | pipe =>
        exact .inr ⟨_, Corpus.naming_eq_ok named, (Except.ok.inj removed).symm⟩

end Found

end Workspace

namespace Site

variable {before : Tree} {shown place : Path}

theorem found_place (site : Site before shown place) {after : Tree} (keeps : before.Keeps after) {base : Path}
    {follow : Bool} (plain : follow = true → ∀ target, after.get? place ≠ some (.link target)) {found : Tree.Found}
    (reach : after.find base follow shown.toText = .ok found) : found.place = place := by
  rw [site.find keeps base follow plain] at reach
  split at reach
  · cases reach
  · obtain rfl := Except.ok.inj reach
    exact after.endAt_place place

theorem writeFile_free {space after : Workspace} (site : Site space.tree shown place)
    (free : space.tree.get? place = none) {bytes : Bytes} {mode : Nat}
    (written : space.writeFile shown.toText bytes mode = .ok after) :
    after = { space with tree := space.tree.put place (.file bytes (Workspace.maskedMode mode)) } := by
  obtain ⟨found, reach, _⟩ := Workspace.writeFile_found written
  have unlinked : true = true → ∀ target, space.tree.get? place ≠ some (.link target) := by
    intro _ target link
    cases free.symm.trans link
  have ends := site.find (.refl space.tree) space.directory true unlinked
  rw [reach, Tree.endAt, free] at ends
  split at ends
  · cases ends
  · exact Workspace.writeFile_missing (reach.trans ends) written

end Site

section Elsewhere

variable {space after : Workspace} {path : Path}

theorem Workspace.writeFile_elsewhere {target : Text} {bytes : Bytes} {mode : Nat}
    (written : space.writeFile target bytes mode = .ok after)
    (untouched : ¬ (Event.write target bytes mode).Touches space path) :
    after.tree.get? path = space.tree.get? path := by
  obtain ⟨found, reach, rfl | ⟨kept, rfl⟩⟩ := writeFile_found written
  · rfl
  · have apart : path ≠ found.place := by
      rintro rfl
      exact untouched (.written reach)
    exact Tree.get?_put_of_ne space.tree apart _

theorem Workspace.rename_elsewhere {source target : Text} (moved : space.rename source target = .ok after)
    (untouched : ¬ (Event.rename source target).Touches space path) :
    after.tree.get? path = space.tree.get? path := by
  obtain ⟨place, node, goal, looked, reach, rfl⟩ := rename_found moved
  have apart : path ≠ place := by
    rintro rfl
    exact untouched (.moved (Corpus.find_of_lookup looked))
  have other : path ≠ goal.place := by
    rintro rfl
    exact untouched (.replaced reach)
  exact (Tree.get?_put_of_ne _ other _).trans (Tree.get?_erase_of_ne _ apart)

theorem Workspace.remove_elsewhere {target : Text} (removed : space.remove target = .ok after)
    (untouched : ¬ (Event.remove target).Touches space path) :
    after.tree.get? path = space.tree.get? path := by
  rcases remove_found removed with rfl | ⟨found, reach, rfl⟩
  · rfl
  · have apart : path ≠ found.place := by
      rintro rfl
      exact untouched (.removed reach)
    exact Tree.get?_erase_of_ne space.tree apart

end Elsewhere

private theorem answering_elsewhere {scene : Scene} {result : Except FileError Workspace} {path : Path}
    (kept : ∀ after, result = .ok after → after.tree.get? path = scene.space.tree.get? path) :
    (Script.answering scene result).1.space.tree.get? path = scene.space.tree.get? path := by
  cases result with
  | error error => rfl
  | ok after => exact kept after rfl

/-- A step of a script changes nothing but what its call touches. -/
theorem Script.step_elsewhere {α : Type} {hook : Hook} (quiet : hook.Quiet) (scene : Scene) (script : Script α)
    {path : Path} (untouched : ∀ event, script.call? = some event → ¬ event.Touches scene.space path) :
    (script.step hook scene).1.space.tree.get? path = scene.space.tree.get? path := by
  cases script with
  | done value | read file next | stat file next => rfl
  | write file bytes mode next =>
    exact answering_elsewhere fun after written => Workspace.writeFile_elsewhere written (untouched _ rfl)
  | rename source target next =>
    exact answering_elsewhere fun after moved => Workspace.rename_elsewhere moved (untouched _ rfl)
  | remove file next =>
    exact answering_elsewhere fun after removed => Workspace.remove_elsewhere removed (untouched _ rfl)
  | announce file text revised next =>
    have same : (hook scene.space ⟨file, text, revised⟩).1 = scene.space := quiet _ _
    exact congrArg (fun space : Workspace => space.tree.get? path) same

namespace Corpus

/-- The states that a run goes through from one state on, when any script in the queue may be the next one. -/
inductive Passes (script : Nat → Script FileOutcome) (hook : Hook) (start : Progress) : Progress → Prop where
  | start : Passes script hook start start
  | step {progress : Progress} (earlier : Passes script hook start progress) (busy : progress.queue ≠ []) (place : Nat) :
      Passes script hook start (progress.step script hook place)

section

variable {script : Nat → Script FileOutcome} {hook : Hook} {start progress : Progress}

theorem Passes.eq_start (idle : start.queue = []) (passes : Passes script hook start progress) : progress = start := by
  induction passes with
  | start => rfl
  | step earlier busy place ih =>
    rw [ih] at busy
    exact absurd idle busy

theorem Passes.run (passes : Passes script hook start progress) (schedule : Schedule) (steps : Nat) :
    Passes script hook start (progress.run script hook schedule steps) := by
  induction steps generalizing progress with
  | zero => exact passes
  | succ steps ih =>
    rw [Progress.run]
    split
    · exact passes
    next busy => exact ih (passes.step (fun idle => busy (List.isEmpty_iff.mpr idle)) (schedule steps))

/-- A run ends in one of the states that it may go through. -/
theorem runAll_passes (script : Nat → Script FileOutcome) (hook : Hook) (schedule : Schedule) (limit : Nat)
    (files : List Text) (scene : Scene) :
    ∃ progress, Passes script hook (.start script limit files scene) progress ∧
      (runAll script hook schedule limit files scene).1 = progress.scene :=
  ⟨_, Passes.run .start schedule (stepsPerFile * files.length), rfl⟩

/-- Scripts that keep a discipline keep it in every state that a run goes through. -/
theorem Passes.underway {σ : Type} {count most : Nat} {discipline : Discipline σ count hook} {states : Nat → σ}
    {calls : Nat → Nat} (passes : Passes script hook start progress)
    (begun : Underway discipline script most start states calls) :
    ∃ states calls, Underway discipline script most progress states calls := by
  induction passes with
  | start => exact ⟨states, calls, begun⟩
  | step earlier busy place ih =>
    obtain ⟨states, calls, underway⟩ := ih
    obtain ⟨after, left, again, _⟩ := underway.step busy place
    exact ⟨after, left, again⟩

theorem Underway.queued_fits {σ : Type} {count most : Nat} {discipline : Discipline σ count hook} {states : Nat → σ}
    {calls : Nat → Nat} (underway : Underway discipline script most progress states calls) {index : Nat}
    {waiting : Script FileOutcome} (queued : (index, waiting) ∈ progress.queue) :
    index < count ∧ discipline.Fits index (states index) (calls index) waiting := by
  refine ⟨?_, underway.fits _ queued⟩
  have running := underway.queued.subset (List.mem_map_of_mem queued)
  have begun := underway.paced.begun index running
  have total := underway.paced.total
  omega

/-- What a run has changed has been touched by the next call of a script in one of its states. -/
theorem Passes.touched (quiet : hook.Quiet) (passes : Passes script hook start progress) {path : Path}
    (changed : progress.scene.space.tree.get? path ≠ start.scene.space.tree.get? path) :
    ∃ earlier, Passes script hook start earlier ∧ ∃ index waiting event, (index, waiting) ∈ earlier.queue ∧
      waiting.call? = some event ∧ event.Touches earlier.scene.space path := by
  induction passes with
  | start => exact absurd rfl changed
  | @step progress earlier busy place ih =>
    by_cases before : progress.scene.space.tree.get? path = start.scene.space.tree.get? path
    · have inside : place % progress.queue.length < progress.queue.length :=
        Nat.mod_lt _ (List.length_pos_iff.mpr busy)
      have found := List.getElem?_eq_getElem inside
      generalize progress.queue[place % progress.queue.length] = entry at found
      obtain ⟨index, waiting⟩ := entry
      have queued := List.mem_of_getElem? found
      by_contra untouched
      have kept : (waiting.step hook progress.scene).1.space.tree.get? path = progress.scene.space.tree.get? path :=
        waiting.step_elsewhere quiet progress.scene fun event call touches =>
          untouched ⟨progress, earlier, index, waiting, event, queued, call, touches⟩
      apply changed
      by_cases returned : ∃ outcome, waiting = .done outcome
      · obtain ⟨outcome, rfl⟩ := returned
        rw [step_done found]
        exact before
      · rw [step_call (fun outcome same => returned ⟨outcome, same⟩) found]
        exact kept.trans before
    · exact ih before

end

end Corpus

end Emend
