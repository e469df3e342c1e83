import Emend.Corpus.Run
import Emend.Proofs.Territory

/-! How a script that is confined to one file and its sibling can end, told from the contents of these
two. A step that it makes in turns with other scripts is a step that it makes on its contents alone. -/

namespace Emend

open FileError

/-- A caller that never changes the workspace. -/
def Hook.Quiet (hook : Hook) : Prop := ∀ space announcement, (hook space announcement).1 = space

def Hook.Replies (hook : Hook) (announcement : Announcement) (reply : Except Fault Unit) : Prop :=
  ∃ space, (hook space announcement).2 = reply

namespace Territory

/-- What a changing call leaves of the contents, and its answer. -/
def changing (contents : Contents) : Except FileError Contents → Contents × Except Fault Unit
  | .ok changed => (changed, .ok ())
  | .error error => (contents, .error (.call error))

variable {α : Type} {before : Tree} (territory : Territory before)

/-- From some contents a script can end with others and with a value, when the caller gives some of these
replies. -/
inductive Ends (replies : Announcement → Except Fault Unit → Prop) :
    Contents → Script α → Contents → α → Prop where
  | done (contents : Contents) (value : α) : Ends replies contents (.done value) contents value
  | read {contents after : Contents} {next : Except Fault Bytes → Script α} {value : α}
      (rest : Ends replies contents (next ((territory.read contents).mapError .call)) after value) :
      Ends replies contents (.read territory.path.toText next) after value
  | stat {contents after : Contents} {next : Except Fault Nat → Script α} {value : α}
      (rest : Ends replies contents (next ((territory.stat contents).mapError .call)) after value) :
      Ends replies contents (.stat territory.path.toText next) after value
  | write {contents after : Contents} {bytes : Bytes} {mode : Nat} {next : Except Fault Unit → Script α} {value : α}
      (rest : Ends replies (changing contents (territory.write contents bytes mode)).1
        (next (changing contents (territory.write contents bytes mode)).2) after value) :
      Ends replies contents (.write territory.temporary.toText bytes mode next) after value
  | rename {contents after : Contents} {next : Except Fault Unit → Script α} {value : α}
      (rest : Ends replies (changing contents (territory.rename contents)).1
        (next (changing contents (territory.rename contents)).2) after value) :
      Ends replies contents (.rename territory.temporary.toText territory.path.toText next) after value
  | remove {contents after : Contents} {next : Except Fault Unit → Script α} {value : α}
      (rest : Ends replies (changing contents (territory.remove contents)).1
        (next (changing contents (territory.remove contents)).2) after value) :
      Ends replies contents (.remove territory.temporary.toText next) after value
  | announce {contents after : Contents} {path text revised : Text} {next : Except Fault Unit → Script α} {value : α}
      {reply : Except Fault Unit} (given : replies ⟨path, text, revised⟩ reply)
      (rest : Ends replies contents (next reply) after value) :
      Ends replies contents (.announce path text revised next) after value

/-- A script makes so many calls at most, all of them on the file and on its sibling. -/
inductive Confined : Nat → Script α → Prop where
  | done (calls : Nat) (value : α) : Confined calls (.done value)
  | read {calls : Nat} {next : Except Fault Bytes → Script α} (rest : ∀ answer, Confined calls (next answer)) :
      Confined (calls + 1) (.read territory.path.toText next)
  | stat {calls : Nat} {next : Except Fault Nat → Script α} (rest : ∀ answer, Confined calls (next answer)) :
      Confined (calls + 1) (.stat territory.path.toText next)
  | write {calls : Nat} {next : Except Fault Unit → Script α} (bytes : Bytes) (mode : Nat)
      (rest : ∀ answer, Confined calls (next answer)) :
      Confined (calls + 1) (.write territory.temporary.toText bytes mode next)
  | rename {calls : Nat} {next : Except Fault Unit → Script α} (rest : ∀ answer, Confined calls (next answer)) :
      Confined (calls + 1) (.rename territory.temporary.toText territory.path.toText next)
  | remove {calls : Nat} {next : Except Fault Unit → Script α} (rest : ∀ answer, Confined calls (next answer)) :
      Confined (calls + 1) (.remove territory.temporary.toText next)
  | announce {calls : Nat} {next : Except Fault Unit → Script α} (path text revised : Text)
      (rest : ∀ answer, Confined calls (next answer)) :
      Confined (calls + 1) (.announce path text revised next)

section Steps

variable {territory} {hook : Hook} {scene : Scene} {contents : Contents}

/-- A changing call has its effect on the scene, and answers as it does on the contents alone. -/
theorem answering_of_effect {result : Except FileError Workspace} {expected : Except FileError Contents}
    (has : territory.Has scene.space.tree contents) (effect : territory.Effect scene.space result expected) :
    (Script.answering scene result).2 = (changing contents expected).2 ∧
      territory.Has (Script.answering scene result).1.space.tree (changing contents expected).1 ∧
      territory.Outside scene.space.tree (Script.answering scene result).1.space.tree ∧
      (Script.answering scene result).1.space.directory = scene.space.directory := by
  cases effect with
  | failed error => exact ⟨rfl, has, fun _ _ _ => rfl, rfl⟩
  | changed after outside => exact ⟨rfl, after, outside, rfl⟩

/-- A call of a confined script leaves it confined, changes nothing outside of its territory, and is one
that the script makes on its contents alone. -/
theorem Confined.step (quiet : hook.Quiet) (has : territory.Has scene.space.tree contents) {calls : Nat}
    {script : Script α} (confined : territory.Confined calls script) (busy : ∀ value, script ≠ .done value) :
    ∃ changed left, left < calls ∧ territory.Has (script.step hook scene).1.space.tree changed ∧
      territory.Outside scene.space.tree (script.step hook scene).1.space.tree ∧
      (script.step hook scene).1.space.directory = scene.space.directory ∧
      territory.Confined left (script.step hook scene).2 ∧
      ∀ after value, territory.Ends hook.Replies changed (script.step hook scene).2 after value →
        territory.Ends hook.Replies contents script after value := by
  cases confined with
  | done calls value => exact absurd rfl (busy value)
  | @read calls next rest =>
    refine ⟨contents, calls, Nat.lt_succ_self calls, has, fun _ _ _ => rfl, rfl, rest _, fun after value ends => ?_⟩
    rw [Script.step, readFile_eq has] at ends
    exact .read ends
  | @stat calls next rest =>
    refine ⟨contents, calls, Nat.lt_succ_self calls, has, fun _ _ _ => rfl, rfl, rest _, fun after value ends => ?_⟩
    rw [Script.step, mode_eq has] at ends
    exact .stat ends
  | @write calls next bytes mode rest =>
    obtain ⟨answer, after, outside, same⟩ := answering_of_effect has (writeFile_effect has bytes mode)
    refine ⟨_, calls, Nat.lt_succ_self calls, after, outside, same, rest _, fun after value ends => .write ?_⟩
    rw [← answer]
    exact ends
  | @rename calls next rest =>
    obtain ⟨answer, after, outside, same⟩ := answering_of_effect has (rename_effect has)
    refine ⟨_, calls, Nat.lt_succ_self calls, after, outside, same, rest _, fun after value ends => .rename ?_⟩
    rw [← answer]
    exact ends
  | @remove calls next rest =>
    obtain ⟨answer, after, outside, same⟩ := answering_of_effect has (remove_effect has)
    refine ⟨_, calls, Nat.lt_succ_self calls, after, outside, same, rest _, fun after value ends => .remove ?_⟩
    rw [← answer]
    exact ends
  | @announce calls next path text revised rest =>
    have kept := quiet scene.space ⟨path, text, revised⟩
    have space : (Script.step hook scene (.announce path text revised next)).1.space = scene.space := kept
    refine ⟨contents, calls, Nat.lt_succ_self calls, ?_, ?_, ?_, rest _, fun after value ends => ?_⟩
    · rw [space]
      exact has
    · rw [space]
      exact fun _ _ _ => rfl
    · rw [space]
    · exact .announce ⟨scene.space, rfl⟩ ends

end Steps

end Territory

end Emend
