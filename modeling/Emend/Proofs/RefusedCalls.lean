import Emend.Proofs.ScriptOrder

/-! Scripts of which some calls are refused. They call for nothing that they would not have called for, and where
nothing is refused they are what they were. -/

namespace Emend

open Corpus

namespace Script

variable {α β : Type}

theorem under_none (script : Script α) (made : Nat) : script.under .none made = script := by
  induction script generalizing made with
  | done value => rfl
  | read path next ih => exact congrArg (read path) (funext fun answer => ih answer _)
  | stat path next ih => exact congrArg (stat path) (funext fun answer => ih answer _)
  | write path bytes mode next ih => exact congrArg (write path bytes mode) (funext fun answer => ih answer _)
  | rename source target next ih => exact congrArg (rename source target) (funext fun answer => ih answer _)
  | remove path next ih => exact congrArg (remove path) (funext fun answer => ih answer _)
  | announce path text revised next ih => exact congrArg (announce path text revised) (funext fun answer => ih answer _)

theorem under_bind {next : α → Script β} (ends : ∀ value, ∃ result, next value = .done result) (script : Script α)
    (refusals : Refusals) (made : Nat) :
    (script.bind next).under refusals made = (script.under refusals made).bind next := by
  induction script generalizing made with
  | done value =>
    obtain ⟨result, last⟩ := ends value
    rw [bind, under, bind, last, under]
  | read path answer ih | stat path answer ih | rename source target answer ih | remove path answer ih =>
    simp only [bind, under]
    split
    · exact ih _ _
    · simp only [bind, ih]
  | write path bytes mode answer ih =>
    simp only [bind, under]
    split
    · simp only [bind, ih]
    · exact ih _ _
    · simp only [bind, ih]
  | announce path text revised answer ih => simp only [bind, under, ih]

namespace Orderly

variable {path temporary : Text} {stage : Stage} {calls : Nat} {script : Script α}

theorem of_ended (orderly : script.Orderly path temporary .ended calls) (stage : Stage) (more : Nat) :
    script.Orderly path temporary stage more := by
  cases orderly with
  | done _ _ value => exact .done stage more value

theorem weaken (orderly : script.Orderly path temporary stage calls) :
    script.Orderly path temporary stage (calls + 1) := by
  induction orderly with
  | done stage calls value => exact .done stage _ value
  | read _ ih => exact .read ih
  | stat _ ih => exact .stat ih
  | announce shown text revised _ ih => exact .announce shown text revised ih
  | write bytes mode _ _ refused written => exact .write bytes mode refused written
  | rename _ _ refused moved => exact .rename refused moved
  | remove _ ih => exact .remove ih

/-- Refusals leave out calls and change nothing of their order. -/
theorem under (orderly : script.Orderly path temporary stage calls) (refusals : Refusals) (made : Nat) :
    (script.under refusals made).Orderly path temporary stage calls := by
  induction orderly generalizing made with
  | done stage calls value => exact .done stage calls value
  | read _ ih =>
    rw [Script.under]
    split
    · exact (ih _ _).weaken
    · exact .read fun answer => ih answer _
  | stat _ ih =>
    rw [Script.under]
    split
    · exact (ih _ _).weaken
    · exact .stat fun answer => ih answer _
  | announce shown text revised _ ih => exact .announce shown text revised fun answer => ih answer _
  | write bytes mode _ _ refused written =>
    rw [Script.under]
    split
    · exact .write _ mode (fun fault => refused fault _) ((refused _ _).of_ended _ _)
    · exact (refused _ _).of_ended _ _
    · exact .write bytes mode (fun fault => refused fault _) (written _)
  | rename _ _ refused moved =>
    rw [Script.under]
    split
    · exact (refused _ _).weaken
    · exact .rename (fun fault => refused fault _) (moved _)
  | remove _ ih =>
    rw [Script.under]
    split
    · exact (ih _ _).of_ended _ _
    · exact .remove fun answer => ih answer _

end Orderly

end Script

namespace Corpus

section

variable {options : FileOptions} {token : Nat → Text} {files : List Text}

theorem forall_scriptAt {good : Nat → Script FileOutcome → Prop}
    (each : ∀ index file, files[index]? = some file → good index (revise options (token index) file)) :
    ∀ index < files.length, good index (scriptAt options token files index) := by
  intro index inside
  have found := List.getElem?_eq_getElem inside
  rw [scriptAt, found]
  exact each index _ found

theorem scriptUnder_none (options : FileOptions) (token : Nat → Text) (files : List Text) :
    scriptUnder (fun _ => .none) options token files = scriptAt options token files :=
  funext fun index => (scriptAt options token files index).under_none 0

/-- Where nothing is refused, files are revised as they were. -/
theorem reviseAllUnder_none (options : FileOptions) (token : Nat → Text) (hook : Hook) (schedule : Schedule)
    (limit : Nat) (files : List Text) (scene : Scene) :
    reviseAllUnder (fun _ => .none) options token hook schedule limit files scene =
      reviseAll options token hook schedule limit files scene := by
  rw [reviseAllUnder, scriptUnder_none, reviseAll]

end

end Corpus

end Emend
