import Emend.Corpus.Run

/-! In which order the script of one file makes its calls. It looks at the file first. Then it writes the
sibling, and after that it only moves the sibling over the file or removes it. -/

namespace Emend

open Corpus

/-- How far a script has come with the sibling of its file. -/
inductive Stage where
  | clear
  | written
  /-- No more calls: the sibling has been moved or removed, or it could not be written. -/
  | ended
  deriving DecidableEq, Repr

/-- What becomes of the sibling and of the workspace by one call. -/
inductive Stage.Moves (hook : Hook) (temporary : Text) (space : Workspace) : Stage → Stage → Workspace → Prop where
  | stays (stage : Stage) : Moves hook temporary space stage stage space
  | tells (stage : Stage) (announcement : Announcement) :
      Moves hook temporary space stage stage (hook space announcement).1
  | writes {bytes : Bytes} {mode : Nat} {after : Workspace} (written : space.writeFile temporary bytes mode = .ok after) :
      Moves hook temporary space .clear .written after
  | ends (stage : Stage) (after : Workspace) : Moves hook temporary space stage .ended after

/-- A script makes so many calls at most, all of them on a file and on its sibling and in their order. -/
inductive Script.Orderly (path temporary : Text) {α : Type} : Stage → Nat → Script α → Prop where
  | done (stage : Stage) (calls : Nat) (value : α) : Orderly path temporary stage calls (.done value)
  | read {calls : Nat} {next : Except Fault Bytes → Script α}
      (rest : ∀ answer, Orderly path temporary .clear calls (next answer)) :
      Orderly path temporary .clear (calls + 1) (.read path next)
  | stat {calls : Nat} {next : Except Fault Nat → Script α}
      (rest : ∀ answer, Orderly path temporary .clear calls (next answer)) :
      Orderly path temporary .clear (calls + 1) (.stat path next)
  | announce {calls : Nat} {next : Except Fault Unit → Script α} (shown text revised : Text)
      (rest : ∀ answer, Orderly path temporary .clear calls (next answer)) :
      Orderly path temporary .clear (calls + 1) (.announce shown text revised next)
  | write {calls : Nat} {next : Except Fault Unit → Script α} (bytes : Bytes) (mode : Nat)
      (refused : ∀ fault, Orderly path temporary .ended calls (next (.error fault)))
      (written : Orderly path temporary .written calls (next (.ok ()))) :
      Orderly path temporary .clear (calls + 1) (.write temporary bytes mode next)
  | rename {calls : Nat} {next : Except Fault Unit → Script α}
      (refused : ∀ fault, Orderly path temporary .written calls (next (.error fault)))
      (moved : Orderly path temporary .ended calls (next (.ok ()))) :
      Orderly path temporary .written (calls + 1) (.rename temporary path next)
  | remove {calls : Nat} {next : Except Fault Unit → Script α}
      (rest : ∀ answer, Orderly path temporary .ended calls (next answer)) :
      Orderly path temporary .written (calls + 1) (.remove temporary next)

namespace Script.Orderly

variable {path temporary : Text}

theorem bind {α β : Type} {stage : Stage} {calls : Nat} {script : Script α} {next : α → Script β}
    (orderly : script.Orderly path temporary stage calls) (ends : ∀ value, ∃ result, next value = .done result) :
    (script.bind next).Orderly path temporary stage calls := by
  induction orderly with
  | done stage calls value =>
    obtain ⟨result, last⟩ := ends value
    rw [Script.bind, last]
    exact .done stage calls result
  | read _ ih => exact .read ih
  | stat _ ih => exact .stat ih
  | announce shown text revised _ ih => exact .announce shown text revised ih
  | write bytes mode _ _ refused written => exact .write bytes mode refused written
  | rename _ _ refused moved => exact .rename refused moved
  | remove _ ih => exact .remove ih

theorem step {α : Type} {stage : Stage} {calls : Nat} {script : Script α}
    (orderly : script.Orderly path temporary stage calls) (hook : Hook) (scene : Scene)
    (busy : ∀ value, script ≠ .done value) :
    ∃ later left, left < calls ∧ Stage.Moves hook temporary scene.space stage later (script.step hook scene).1.space ∧
      (script.step hook scene).2.Orderly path temporary later left := by
  cases orderly with
  | done stage calls value => exact absurd rfl (busy value)
  | read rest => exact ⟨.clear, _, Nat.lt_succ_self _, .stays _, rest _⟩
  | stat rest => exact ⟨.clear, _, Nat.lt_succ_self _, .stays _, rest _⟩
  | announce shown text revised rest => exact ⟨.clear, _, Nat.lt_succ_self _, .tells _ ⟨shown, text, revised⟩, rest _⟩
  | write bytes mode refused written =>
    rw [Script.step]
    cases result : scene.space.writeFile temporary bytes mode with
    | error error => exact ⟨.ended, _, Nat.lt_succ_self _, .ends _ _, refused (.call error)⟩
    | ok after => exact ⟨.written, _, Nat.lt_succ_self _, .writes result, written⟩
  | rename refused moved =>
    rw [Script.step]
    cases scene.space.rename temporary path with
    | error error => exact ⟨.written, _, Nat.lt_succ_self _, .stays _, refused (.call error)⟩
    | ok after => exact ⟨.ended, _, Nat.lt_succ_self _, .ends _ _, moved⟩
  | remove rest => exact ⟨.ended, _, Nat.lt_succ_self _, .ends _ _, rest _⟩

end Script.Orderly

namespace Corpus

variable {token path encoding text : Text} {options : FileOptions}

theorem orderly_moveOver (temporary : Text) : (moveOver temporary path).Orderly path temporary .written 2 := by
  apply Script.Orderly.rename
  · intro fault
    exact .remove fun _ => .done .ended 0 _
  · exact .done .ended 1 _

theorem orderly_replace {file : File} :
    (replace token file text encoding).Orderly file.path (temporaryPath token file.path) .clear 5 := by
  rw [replace]
  split
  · exact .done .clear 5 _
  · apply Script.Orderly.read
    intro current
    cases current with
    | error fault => exact .done .clear 4 _
    | ok current =>
      apply Script.Orderly.stat
      intro mode
      cases mode with
      | error fault => exact .done .clear 3 _
      | ok mode =>
        simp only
        split
        · apply Script.Orderly.write
          · intro fault
            exact .done .ended 2 _
          · exact orderly_moveOver _
        · exact .done .clear 3 _

theorem orderly_writeRevision {file : File} (revision : Revision) :
    (writeRevision options token file revision).Orderly file.path (temporaryPath token file.path) .clear 6 := by
  apply Script.Orderly.announce
  intro reply
  cases reply with
  | error fault => exact .done .clear 5 _
  | ok =>
    apply orderly_replace.bind
    intro written
    cases written <;> exact ⟨_, rfl⟩

theorem decodeFile_ok {bytes : Bytes} {file : File} (decoded : decodeFile path encoding bytes = .ok file) :
    file.path = path ∧ file.bytes = bytes ∧ decodeLosslessly bytes encoding path = .ok file.text := by
  rw [decodeFile] at decoded
  cases read : decodeLosslessly bytes encoding path with
  | error error =>
    rw [read] at decoded
    cases decoded
  | ok text =>
    rw [read] at decoded
    obtain rfl := Except.ok.inj decoded
    exact ⟨rfl, rfl, rfl⟩

/-- Revising a file takes seven calls at most, on the file and on its sibling. -/
theorem orderly_revise : (revise options token path).Orderly path (temporaryPath token path) .clear 7 := by
  simp only [revise, Corpus.read, Bind.bind, Script.bind]
  apply Script.Orderly.read
  intro answer
  cases answer with
  | error fault => exact .done .clear 6 _
  | ok bytes =>
    simp only
    split
    next => exact .done .clear 6 _
    next file decoded =>
      obtain ⟨rfl, _⟩ := decodeFile_ok decoded
      split
      next => exact .done .clear 6 _
      next =>
        split
        next => exact orderly_writeRevision _
        next => exact .done .clear 6 _

end Corpus

end Emend
