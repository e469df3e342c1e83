import Emend.Proofs.CorpusRun

/-! What reading the files of a corpus already tells of a run. A preview of a run says just that and leaves the
workspace as it is, and so does any run that has nothing to write. -/

namespace Emend

open Corpus

/-- The script of a file that has nothing to write reads the file, if it may, and says what comes of it. -/
def Script.Glances (space : Workspace) (outcome : FileOutcome) (script : Script FileOutcome) : Prop :=
  script = .done outcome ∨
    ∃ path next, script = .read path next ∧ next ((space.readFile path).mapError .call) = .done outcome

theorem Script.Glances.run {space : Workspace} {outcome : FileOutcome} {script : Script FileOutcome}
    (glances : script.Glances space outcome) (hook : Hook) (announced : List Announcement) :
    script.run hook ⟨space, announced⟩ = (⟨space, announced⟩, outcome) := by
  rcases glances with rfl | ⟨path, next, rfl, answered⟩
  · rfl
  · rw [Script.run, answered, Script.run]

namespace Corpus

variable {options : FileOptions} {token path : Text} {space : Workspace}

/-- What can be told of a file without writing it. -/
def outlook (space : Workspace) (options : FileOptions) (path : Text) : FileOutcome :=
  match space.readFile path with
  | .error error => options.failed path .read (.file error)
  | .ok bytes =>
    match decodeFile path options.encoding bytes with
    | .error failure => options.failed path .read failure
    | .ok file =>
      let revision := options.plan.revise file.text
      if revision.untouched then .unmatched else options.matched file revision

/-- What can be told of a file that one may not even read. -/
def outlookUnder (refusals : Refusals) (space : Workspace) (options : FileOptions) (path : Text) : FileOutcome :=
  match refusals.reading with
  | some refusal => options.failed path .read (.file refusal.error)
  | none => outlook space options path

/-- A file is read first. Only what was read and the revision of its text say whether more calls are made. -/
theorem revise_eq (options : FileOptions) (token path : Text) :
    revise options token path = .read path fun answer =>
      match answer with
      | .error fault => .done (options.failed path .read fault.toFailure)
      | .ok bytes =>
        match decodeFile path options.encoding bytes with
        | .error failure => .done (options.failed path .read failure)
        | .ok file =>
          if (options.plan.revise file.text).untouched then .done .unmatched
          else if (options.plan.revise file.text).changed && !options.preview then
            writeRevision options token file (options.plan.revise file.text)
          else .done (options.matched file (options.plan.revise file.text)) := by
  simp only [revise, Corpus.read, Bind.bind, Script.bind, Script.read.injEq, true_and]
  funext answer
  cases answer with
  | error fault => rfl
  | ok bytes => cases decodeFile path options.encoding bytes <;> rfl

theorem read_revise (settled : options.preview = true ∨ (outlook space options path).change? = none) :
    ∃ next, revise options token path = .read path next ∧
      next ((space.readFile path).mapError .call) = .done (outlook space options path) := by
  rw [revise_eq]
  refine ⟨_, rfl, ?_⟩
  rw [outlook] at settled ⊢
  cases read : space.readFile path with
  | error error => rfl
  | ok bytes =>
    simp only [read, Except.mapError] at settled ⊢
    cases decoded : decodeFile path options.encoding bytes with
    | error failure => rfl
    | ok file =>
      simp only [decoded] at settled ⊢
      split
      · rfl
      next touched =>
        rw [if_neg touched] at settled
        split
        next real =>
          rw [Bool.and_eq_true, Bool.not_eq_true'] at real
          obtain ⟨report, changed, _⟩ := options.matched_changed file real.1
          rcases settled with preview | unchanged
          · cases preview.symm.trans real.2
          · cases unchanged.symm.trans changed
        · rfl

theorem revise_glances (refusals : Refusals)
    (settled : options.preview = true ∨ (outlookUnder refusals space options path).change? = none) :
    ((revise options token path).under refusals 0).Glances space (outlookUnder refusals space options path) := by
  rw [outlookUnder, Refusals.reading] at settled ⊢
  cases reads : refusals 0 with
  | some refusal =>
    rw [revise_eq, Script.under, reads]
    exact .inl rfl
  | none =>
    rw [reads] at settled
    obtain ⟨next, first, answered⟩ := @read_revise options token path space settled
    rw [first, Script.under, reads]
    refine .inr ⟨path, _, rfl, ?_⟩
    rw [answered]
    rfl

def glancing (hook : Hook) (scene : Scene) (count : Nat) (outcome : Nat → FileOutcome) : Discipline Unit count hook where
  Holds now _ := now = scene
  Fits index _ calls script :=
    script = .done (outcome index) ∨ 0 < calls ∧ script.Glances scene.space (outcome index)
  call := by
    rintro now states index calls script - rfl (rfl | ⟨some, rfl | ⟨path, next, rfl, answered⟩⟩) busy
    · exact absurd rfl (busy _)
    · exact absurd rfl (busy _)
    · exact ⟨(), 0, some, rfl, .inl answered⟩

theorem reviseAllUnder_glances {files : List Text} {scene : Scene} (refusals : Nat → Refusals) (hook : Hook)
    (token : Nat → Text) (schedule : Schedule) {limit : Nat} (room : 1 ≤ limit)
    (settled : ∀ index file, files[index]? = some file →
      options.preview = true ∨ (outlookUnder (refusals index) scene.space options file).change? = none) :
    reviseAllUnder refusals options token hook schedule limit files scene =
      (scene, files.mapIdx fun index file => outlookUnder (refusals index) scene.space options file) := by
  let expected (index : Nat) : FileOutcome :=
    (files[index]?.map (outlookUnder (refusals index) scene.space options)).getD .unmatched
  let discipline := glancing hook scene files.length expected
  have fits : ∀ index < files.length,
      discipline.Fits index () 7 (scriptUnder refusals options token files index) := by
    refine @forall_scriptAt options token files
      (fun index script => discipline.Fits index () 7 (script.under (refusals index) 0)) fun index file found => ?_
    have own : expected index = outlookUnder (refusals index) scene.space options file := by
      simp only [expected, found]; rfl
    refine .inr ⟨by decide, ?_⟩
    rw [own]
    exact revise_glances _ (settled index file found)
  obtain ⟨_, outcome, same, listed, returned⟩ := discipline.runAll rfl rfl room fits schedule
  refine Prod.ext same (listed.trans (List.ext_getElem (by simp) fun index inside _ => ?_))
  have within : index < files.length := by simpa using inside
  obtain ⟨left, ended⟩ := returned index within
  have own : outcome index = expected index := by
    rcases ended with value | ⟨_, value | ⟨path, next, read, _⟩⟩
    · exact Script.done.inj value
    · exact Script.done.inj value
    · cases read
  simp [own, expected, within]

end Corpus

end Emend
