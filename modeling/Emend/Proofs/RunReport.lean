import Emend.Proofs.DisplayNames
import Emend.Proofs.EncodedLength
import Emend.Proofs.PlanSkips
import Emend.Proofs.RunFailures
import Emend.Proofs.RunReads

/-! The report of a run as an account of its corpus. It has an entry for a file of which there is something to say and none
for the others, both in the order of the corpus, and the outcome of every file can be read back from it. A file that has
been written has grown by what the report says. -/

namespace Emend

open Text FileError

/-- An outcome that a report shows under a name, if it shows it at all. -/
def FileOutcome.Shows (name : Text) : FileOutcome → Prop
  | unmatched => True
  | matched report => report.file = name
  | failed failure => failure.file = name

namespace Tally

def outcomeOf (tally : Tally) (name : Text) : FileOutcome :=
  match tally.files.find? fun report => report.file == name with
  | some report => .matched report
  | none =>
    match tally.failures.find? fun failure => failure.file == name with
    | some failure => .failed failure
    | none => .unmatched

/-- A report has at most one entry for each of some names, in their order, and its figures are those of its entries. -/
structure Accounts (tally : Tally) (names : List Text) : Prop where
  files : (tally.files.map FileReport.file).Sublist names
  failures : (tally.failures.map FileFailure.file).Sublist names
  once : (tally.files.map FileReport.file ++ tally.failures.map FileFailure.file).Nodup
  scanned : tally.scanned = names.length
  matched : tally.matched = tally.files.length
  changed : tally.changed = tally.files.countP FileReport.changed
  structural : tally.structural = (tally.files.map FileReport.structural).sum
  phrases : tally.phrases = (tally.files.map FileReport.phrases).sum

section

variable {names : List Text} {outcomes : List FileOutcome}

theorem shown_sublist {β : Type} {pick : FileOutcome → Option β} {field : β → Text}
    (own : ∀ {name outcome found}, FileOutcome.Shows name outcome → pick outcome = some found → field found = name)
    (shows : List.Forall₂ FileOutcome.Shows names outcomes) :
    ((outcomes.filterMap pick).map field).Sublist names := by
  induction shows with
  | nil => exact .slnil
  | @cons name outcome names outcomes first rest ih =>
    rw [List.filterMap_cons]
    cases picked : pick outcome with
    | none => exact ih.cons _
    | some found =>
      rw [List.map_cons, own first picked]
      exact ih.cons_cons _

theorem files_sublist (shows : List.Forall₂ FileOutcome.Shows names outcomes) :
    ((outcomes.filterMap FileOutcome.report?).map FileReport.file).Sublist names := by
  apply shown_sublist _ shows
  intro name outcome found first picked
  cases outcome with
  | matched report => exact Option.some.inj picked ▸ first
  | unmatched | failed failure => cases picked

theorem failures_sublist (shows : List.Forall₂ FileOutcome.Shows names outcomes) :
    ((outcomes.filterMap FileOutcome.failure?).map FileFailure.file).Sublist names := by
  apply shown_sublist _ shows
  intro name outcome found first picked
  cases outcome with
  | failed failure => exact Option.some.inj picked ▸ first
  | unmatched | matched report => cases picked

/-- No file is both among the matched ones and among the failures. -/
theorem shown_once (shows : List.Forall₂ FileOutcome.Shows names outcomes) (distinct : names.Nodup) :
    ((outcomes.filterMap FileOutcome.report?).map FileReport.file ++
      (outcomes.filterMap FileOutcome.failure?).map FileFailure.file).Nodup := by
  induction shows with
  | nil => exact List.nodup_nil
  | @cons name outcome names outcomes first rest ih =>
    obtain ⟨absent, distinct⟩ := List.nodup_cons.mp distinct
    have kept := ih distinct
    have new : name ∉ (outcomes.filterMap FileOutcome.report?).map FileReport.file ++
        (outcomes.filterMap FileOutcome.failure?).map FileFailure.file := by
      intro member
      rcases List.mem_append.mp member with among | among
      · exact absent ((files_sublist rest).subset among)
      · exact absent ((failures_sublist rest).subset among)
    cases outcome with
    | unmatched => exact kept
    | matched report =>
      obtain rfl : report.file = name := first
      exact List.nodup_cons.mpr ⟨new, kept⟩
    | failed failure =>
      obtain rfl : failure.file = name := first
      exact List.nodup_middle.mpr (List.nodup_cons.mpr ⟨new, kept⟩)

theorem find?_of_absent {β : Type} {name : Text} {field : β → Text} {entries : List β}
    (absent : name ∉ entries.map field) : entries.find? (fun entry => field entry == name) = none := by
  apply List.find?_eq_none.mpr
  intro entry among same
  exact absent (List.mem_map.mpr ⟨entry, among, beq_iff_eq.mp same⟩)

/-- The outcome of every file can be read back from the report. -/
theorem outcomeOf_eq (scope : Text) (preview : Bool) (scanned : Nat)
    (shows : List.Forall₂ FileOutcome.Shows names outcomes) (distinct : names.Nodup) :
    names.map (ofOutcomes scope preview scanned outcomes).outcomeOf = outcomes := by
  induction shows with
  | nil => rfl
  | @cons name outcome names outcomes first rest ih =>
    obtain ⟨absent, distinct⟩ := List.nodup_cons.mp distinct
    have unmatched := find?_of_absent fun among => absent ((files_sublist rest).subset among)
    have unfailed := find?_of_absent fun among => absent ((failures_sublist rest).subset among)
    have others (other : Text) (among : other ∈ names) :
        (ofOutcomes scope preview scanned (outcome :: outcomes)).outcomeOf other =
          (ofOutcomes scope preview scanned outcomes).outcomeOf other := by
      have apart : (name == other) = false := beq_eq_false_iff_ne.mpr fun same => absent (same ▸ among)
      cases outcome with
      | unmatched => rfl
      | matched report =>
        obtain rfl : report.file = name := first
        simp only [outcomeOf, ofOutcomes, List.filterMap_cons, FileOutcome.report?, FileOutcome.failure?,
          List.find?_cons, apart]
      | failed failure =>
        obtain rfl : failure.file = name := first
        simp only [outcomeOf, ofOutcomes, List.filterMap_cons, FileOutcome.report?, FileOutcome.failure?,
          List.find?_cons, apart]
    have own : (ofOutcomes scope preview scanned (outcome :: outcomes)).outcomeOf name = outcome := by
      cases outcome with
      | unmatched =>
        simp only [outcomeOf, ofOutcomes, List.filterMap_cons, FileOutcome.report?, FileOutcome.failure?, unmatched,
          unfailed]
      | matched report =>
        obtain rfl : report.file = name := first
        simp only [outcomeOf, ofOutcomes, List.filterMap_cons, FileOutcome.report?, List.find?_cons, beq_self_eq_true]
      | failed failure =>
        obtain rfl : failure.file = name := first
        simp only [outcomeOf, ofOutcomes, List.filterMap_cons, FileOutcome.report?, FileOutcome.failure?, unmatched,
          List.find?_cons, beq_self_eq_true]
    rw [List.map_cons, own, List.map_congr_left others]
    exact congrArg _ (ih distinct)

theorem accounts (scope : Text) (preview : Bool) {scanned : Nat} (shows : List.Forall₂ FileOutcome.Shows names outcomes)
    (distinct : names.Nodup) (count : scanned = names.length) :
    (ofOutcomes scope preview scanned outcomes).Accounts names where
  files := files_sublist shows
  failures := failures_sublist shows
  once := shown_once shows distinct
  scanned := count
  matched := rfl
  changed := List.countP_eq_length_filter.symm
  structural := rfl
  phrases := rfl

end

end Tally

namespace Corpus

/-- What lies behind the outcome of a file. What is said of the file comes of the bytes it was read with, and it has
grown, if it has been written, by as much as is said. -/
inductive Accounted (options : FileOptions) (path : Text) (was is : Bytes → Prop) : FileOutcome → Prop where
  /-- No rule and no phrase applies to the text of the file. -/
  | unmatched {bytes : Bytes} {text : Text} (read : was bytes)
      (decoded : decodeLosslessly bytes options.encoding path = .ok text) (misses : options.plan.Misses text) :
      Accounted options path was is .unmatched
  | kept {bytes : Bytes} {text : Text} (read : was bytes)
      (decoded : decodeLosslessly bytes options.encoding path = .ok text) (applies : ¬ options.plan.Misses text)
      (same : (options.plan.revise text).changed = false) :
      Accounted options path was is (.matched ⟨displayPath options.directory path, false,
        (options.plan.revise text).structural, (options.plan.revise text).phrases, 0⟩)
  | written {bytes encoded : Bytes} {text : Text} (read : was bytes)
      (decoded : decodeLosslessly bytes options.encoding path = .ok text) (applies : ¬ options.plan.Misses text)
      (holds : is encoded) :
      Accounted options path was is (.matched ⟨displayPath options.directory path, true,
        (options.plan.revise text).structural, (options.plan.revise text).phrases,
        (encoded.length : Int) - bytes.length⟩)
  | failed (failure : FileFailure) (own : failure.file = displayPath options.directory path) :
      Accounted options path was is (.failed failure)

section

variable {options : FileOptions} {token path : Text} {replies : List Reply} {outcome : FileOutcome}

theorem Revising.shows (revising : Revising options token path replies outcome) :
    outcome.Shows (displayPath options.directory path) := by
  cases revising with
  | unmatched => trivial
  | unread | undecoded | kept | refused | unreplaced | replaced => rfl

theorem not_misses {plan : Plan} {text : Text} (touched : (plan.revise text).untouched = false) : ¬ plan.Misses text := by
  intro misses
  cases (Plan.untouched_iff_misses.mpr misses).symm.trans touched

theorem matched_kept {bytes : Bytes} {text : Text} (same : (options.plan.revise text).changed = false) :
    options.matched ⟨path, bytes, text⟩ (options.plan.revise text) =
      .matched ⟨displayPath options.directory path, false, (options.plan.revise text).structural,
        (options.plan.revise text).phrases, 0⟩ := by
  rw [FileOptions.matched, same]
  rfl

theorem matched_written {bytes encoded : Bytes} {text : Text} (changed : (options.plan.revise text).changed = true)
    (holds : encodeLosslessly (options.plan.revise text).text options.encoding path = .ok encoded) :
    options.matched ⟨path, bytes, text⟩ (options.plan.revise text) =
      .matched ⟨displayPath options.directory path, true, (options.plan.revise text).structural,
        (options.plan.revise text).phrases, (encoded.length : Int) - bytes.length⟩ := by
  rw [FileOptions.matched, changed, if_pos rfl, byteLengthNamed_eq holds]

/-- The replies to the calls for a file account for its outcome. -/
theorem Revising.accounted (revising : Revising options token path replies outcome) (real : options.preview = false)
    {was is : Bytes → Prop} (first : ∀ bytes, .read path (.ok bytes) ∈ replies.head? → was bytes)
    (last : ∀ bytes text encoded mode, .read path (.ok bytes) ∈ replies.head? →
      decodeLosslessly bytes options.encoding path = .ok text → (options.plan.revise text).changed = true →
      encodeLosslessly (options.plan.revise text).text options.encoding path = .ok encoded →
      outcome = options.matched ⟨path, bytes, text⟩ (options.plan.revise text) →
      .write (temporaryPath token path) encoded mode (.ok ()) ∈ replies →
      .rename (temporaryPath token path) path (.ok ()) ∈ replies → is encoded) :
    Accounted options path was is outcome := by
  cases revising with
  | unread fault => exact .failed _ rfl
  | undecoded refused => exact .failed _ rfl
  | unmatched decoded untouched => exact .unmatched (first _ rfl) decoded (Plan.untouched_iff_misses.mp untouched)
  | kept decoded touched still =>
    rw [real, Bool.not_false, Bool.and_true] at still
    rw [matched_kept still]
    exact .kept (first _ rfl) decoded (not_misses touched) still
  | refused decoded touched writes fault => exact .failed _ rfl
  | unreplaced decoded touched writes replacing => exact .failed _ rfl
  | replaced decoded touched writes replacing =>
    rw [real, Bool.not_false, Bool.and_true] at writes
    cases replacing with
    | moved holds mode =>
      have written := last _ _ _ mode rfl decoded writes holds rfl (by simp) (by simp)
      rw [matched_written writes holds]
      exact .written (first _ rfl) decoded (not_misses touched) written

end

end Corpus

def Workspace.Holds (space : Workspace) (path : Text) (bytes : Bytes) : Prop := space.readFile path = .ok bytes

namespace Territory

section

variable {α : Type} {before : Tree} {territory : Territory before} {contents after : Contents}
  {given : Announcement → Except Fault Unit → Prop}

theorem Ends.comes {script : Script α} {value : α} (ends : territory.Ends given contents script after value) :
    ∃ replies, script.Comes replies value := by
  induction ends with
  | done contents value => exact ⟨_, .done value⟩
  | read rest ih => exact ih.imp' _ fun _ => .read
  | stat rest ih => exact ih.imp' _ fun _ => .stat
  | write rest ih => exact ih.imp' _ fun _ => .write
  | rename rest ih => exact ih.imp' _ fun _ => .rename
  | remove rest ih => exact ih.imp' _ fun _ => .remove
  | announce given rest ih => exact ih.imp' _ fun _ => .announce

end

open Corpus

/-- A file that nobody else changes is accounted for by what it is read as before and after. -/
theorem accounted {space after : Workspace} {territory : Territory space.tree} {refusals : Refusals}
    {options : FileOptions} {token : Text} {given : Announcement → Except Fault Unit → Prop} {contents : Contents}
    {outcome : FileOutcome} (real : options.preview = false)
    (beside : temporaryPath token territory.path.toText = territory.temporary.toText)
    (ends : territory.Ends given territory.initial
      ((revise options token territory.path.toText).under refusals 0) contents outcome)
    (has : territory.Has after.tree contents) :
    Accounted options territory.path.toText (space.Holds territory.path.toText) (after.Holds territory.path.toText)
      outcome := by
  have revised : territory.RevisedUnder refusals options territory.initial contents outcome := ends.of_revise rfl beside
  rw [revise_eq, Script.under] at ends
  split at ends
  · obtain ⟨_, rfl⟩ := Ends.of_done ends
    exact .failed _ rfl
  obtain ⟨replies, comes⟩ := ends.of_read.comes
  obtain ⟨heard, comes⟩ := comes.of_under
  have whole : (revise options token territory.path.toText).Comes
      (.read territory.path.toText ((territory.read territory.initial).mapError .call) :: heard) outcome := by
    rw [revise_eq]
    exact .read comes
  have revising := revising_of_comes whole
  have found (bytes : Bytes) (first : .read territory.path.toText (.ok bytes) ∈
      (Reply.read territory.path.toText ((territory.read territory.initial).mapError .call) :: heard).head?) :
      territory.read territory.initial = .ok bytes := by
    have same := (Reply.read.inj (Option.some.inj first)).2
    cases read : territory.read territory.initial with
    | error error => rw [read] at same; cases same
    | ok other => rw [read] at same; exact congrArg _ (Except.ok.inj same)
  apply revising.accounted real
  · intro bytes first
    exact (readFile_eq territory.has_initial).trans (found bytes first)
  · intro bytes text encoded mode first decoded changed holds own _ _
    have read := found bytes first
    obtain rfl := (read_ok read).1
    cases revised with
    | stranded => cases own
    | clean revised =>
      cases revised with
      | unmatched => cases own
      | failed phase failure => cases own
      | @kept other _ decodedToo same =>
        obtain rfl := Except.ok.inj (decodedToo.symm.trans decoded)
        rw [real, changed] at same
        cases same
      | @written other stored _ decodedToo _ _ encodes =>
        obtain rfl := Except.ok.inj (decodedToo.symm.trans decoded)
        obtain rfl := Except.ok.inj (encodes.symm.trans (encodeLosslessly_eq_ok_iff.mp holds).1)
        exact (readFile_eq has).trans (read_again read _)

end Territory

namespace Corpus

section

variable {refusals : Refusals} {space after : Workspace} {options : FileOptions} {path : Text}

theorem outlook_accounted {is : Bytes → Prop} (settled : (outlook space options path).change? = none) :
    Accounted options path (space.Holds path) is (outlook space options path) := by
  rw [outlook] at settled ⊢
  cases read : space.readFile path with
  | error error => exact .failed _ rfl
  | ok bytes =>
    simp only [read] at settled ⊢
    cases decoded : decodeFile path options.encoding bytes with
    | error failure => exact .failed _ rfl
    | ok file =>
      obtain ⟨own, same, text⟩ := file
      obtain ⟨rfl, rfl, reads⟩ := decodeFile_ok decoded
      simp only [decoded] at settled ⊢
      by_cases untouched : (options.plan.revise text).untouched = true
      · rw [if_pos untouched]
        exact .unmatched read reads (Plan.untouched_iff_misses.mp untouched)
      · rw [if_neg untouched] at settled ⊢
        have applies := not_misses (Bool.eq_false_iff.mpr untouched)
        cases changed : (options.plan.revise text).changed with
        | false =>
          rw [matched_kept changed]
          exact .kept read reads applies changed
        | true =>
          obtain ⟨report, reported, _⟩ := options.matched_changed ⟨own, same, text⟩ changed
          cases settled.symm.trans reported

theorem outlookUnder_accounted {is : Bytes → Prop} (settled : (outlookUnder refusals space options path).change? = none) :
    Accounted options path (space.Holds path) is (outlookUnder refusals space options path) := by
  rw [outlookUnder] at settled ⊢
  cases reads : refusals.reading with
  | some refusal => exact .failed _ rfl
  | none =>
    rw [reads] at settled
    exact outlook_accounted settled

theorem Foretells.accounted {hook : Hook} {token : Text} {written : Option Bytes} {outcome : FileOutcome}
    (foretells : Foretells refusals hook space options token path (outlookUnder refusals space options path) written
      outcome)
    (leaves : ∀ bytes encoded, space.readFile path = .ok bytes → written = some encoded → after.Holds path encoded) :
    Accounted options path (space.Holds path) (after.Holds path) outcome := by
  generalize told : outlookUnder refusals space options path = foretold at foretells
  cases foretells with
  | settled unchanged =>
    subst told
    exact outlookUnder_accounted unchanged
  | hindered => exact .failed _ rfl
  | @written bytes encoded text read decoded changed clear holds =>
    rw [matched_written changed holds]
    have applies : ¬ options.plan.Misses text := by
      intro misses
      have idle := Plan.revise_of_untouched (Plan.untouched_iff_misses.mpr misses)
      rw [idle] at changed
      cases changed
    exact .written read decoded applies (leaves bytes encoded read rfl)

end

variable {space : Workspace} {files : List Path} {entryOf : Path → Path} {scope : Path} {token : Nat → Text}
  {hook : Hook} {options : FileOptions}

theorem linked_accounted (refusals : Nat → Refusals) {entry place : Path} (linked : space.Linked scope entry place)
    (fresh : FreshTokens token 1 space.tree) (quiet : hook.Quiet) (real : options.preview = false) (schedule : Schedule)
    {limit : Nat} (room : 1 ≤ limit) {outcome : FileOutcome}
    (ended : (reviseAllUnder refusals options token hook schedule limit [scope.toText] ⟨space, []⟩).2[0]? =
      some outcome) :
    Accounted options scope.toText (space.Holds scope.toText)
      ((reviseAllUnder refusals options token hook schedule limit [scope.toText] ⟨space, []⟩).1.space.Holds scope.toText)
      outcome := by
  obtain ⟨seat, rfl⟩ := exists_linked_seat linked fresh
  rw [reviseAllUnder_single options token hook schedule room] at ended ⊢
  simp only [reviseInOrder] at ended ⊢
  obtain rfl := Option.some.inj ended
  obtain ⟨written, left, foretells, leaves, clean⟩ := seat.run_revise quiet real rfl
  apply foretells.accounted
  rintro bytes encoded read rfl
  obtain rfl := clean (.inr (Option.some_ne_none encoded))
  exact linked.reads_replaced (fun _ => leaves.clean) leaves.entry (Workspace.readFile_found read).1

theorem Layout.accounted (refusals : Nat → Refusals) (layout : Layout space scope files entryOf)
    (fresh : FreshTokens token files.length space.tree) (quiet : hook.Quiet) (real : options.preview = false)
    (schedule : Schedule) {limit : Nat} (room : 1 ≤ limit) {index : Nat} {file : Path} {outcome : FileOutcome}
    (found : files[index]? = some file)
    (ended : (reviseAllUnder refusals options token hook schedule limit (files.map Path.toText)
      ⟨space, []⟩).2[index]? = some outcome) :
    Accounted options file.toText (space.Holds file.toText)
      ((reviseAllUnder refusals options token hook schedule limit (files.map Path.toText)
        ⟨space, []⟩).1.space.Holds file.toText) outcome := by
  cases layout with
  | sited sited =>
    obtain ⟨territories, assigned⟩ := exists_territories sited fresh
    obtain ⟨contents, outcomeOf, _, shares, listed, ends⟩ :=
      reviseAllUnder_ends (List.length_map Path.toText) assigned.separate quiet options assigned.listed assigned.beside
        schedule room refusals
    obtain ⟨inside, rfl⟩ := List.getElem?_eq_some_iff.mp found
    rw [listed, List.getElem?_map, List.getElem?_range inside] at ended
    obtain rfl := Option.some.inj ended
    have accounted := Territory.accounted real (assigned.beside ⟨index, inside⟩) (ends ⟨index, inside⟩)
      (shares.has ⟨index, inside⟩)
    rwa [assigned.path] at accounted
  | linked linked =>
    cases index with
    | succ index => cases found
    | zero =>
      obtain rfl := Option.some.inj found
      exact linked_accounted refusals linked fresh quiet real schedule room ended

end Corpus

namespace Workspace

variable {space : Workspace} {options : RunOptions} {means : RunMeans} {files : List Path}

def shownAs (space : Workspace) (options : RunOptions) (file : Path) : Text :=
  displayPath (space.directoryOf options.directory).toText file.toText

theorem Settles.shows {plan : Plan} {outcomes : List FileOutcome}
    (settles : space.Settles plan options means files outcomes) :
    List.Forall₂ FileOutcome.Shows (files.map (space.shownAs options)) outcomes := by
  have count : outcomes.length = files.length := by
    rw [settles.count, List.length_map]
  apply List.forall₂_iff_get.mpr
  constructor
  · rw [count, List.length_map]
  · intro index inside insideToo
    rw [List.length_map] at inside
    have found : (files.map Path.toText)[index]? = some files[index].toText := by
      rw [List.getElem?_map, List.getElem?_eq_getElem inside]
      rfl
    obtain ⟨replies, revising, _⟩ := settles.each index _ _ found (List.getElem?_eq_getElem insideToo)
    rw [List.get_eq_getElem, List.get_eq_getElem, List.getElem_map]
    exact revising.shows

/-- The report of a run accounts for every file of its corpus. Each has at most one entry, among the matched files or
among the failures, in the order of the corpus, and the figures are those of the entries. Where the number of files in
progress is not a number no file is even read, and there are no entries. Otherwise a file without an entry has been read,
and no rule and no phrase applies to its text; a file that has been written has grown by as many bytes as its entry says.
These are the bytes that the calls for the file got and gave, whoever else is at work on it, and where nobody is, they are
those of the file before and after the run. -/
theorem reviseCorpus_accounts (refusals : RunRefusals) (plan : Plan) (means : RunMeans)
    (wellFormed : space.tree.WellFormed) (real : options.preview = false)
    (taken : space.TakesOnUnder refusals.opening options files) :
    ∃ tally, (space.reviseCorpusUnder refusals plan options means).2.2 = .ok tally ∧
      (files.map (space.shownAs options)).Nodup ∧ tally.Accounts (files.map (space.shownAs options)) ∧
      (options.concurrencyValue = .nan → tally.files = [] ∧ tally.failures = [] ∧
        (space.reviseCorpusUnder refusals plan options means).2.1 = ⟨space, []⟩) ∧
      (options.concurrencyValue ≠ .nan → ∀ index file, files[index]? = some file → ∃ replies,
        Corpus.Revising (options.fileOptions plan (space.directoryOf options.directory)) (means.token index) file.toText
          replies (tally.outcomeOf (space.shownAs options file)) ∧
        Corpus.Accounted (options.fileOptions plan (space.directoryOf options.directory)) file.toText
          (fun bytes => .read file.toText (.ok bytes) ∈ replies)
          (fun encoded => ∃ mode,
            .write (Corpus.temporaryPath (means.token index) file.toText) encoded mode (.ok ()) ∈ replies ∧
            .rename (Corpus.temporaryPath (means.token index) file.toText) file.toText (.ok ()) ∈ replies)
          (tally.outcomeOf (space.shownAs options file))) ∧
      (options.concurrencyValue ≠ .nan → means.hook.Quiet →
        Corpus.FreshTokens means.token files.length space.tree → ∀ file ∈ files,
          Corpus.Accounted (options.fileOptions plan (space.directoryOf options.directory)) file.toText
            (space.Holds file.toText)
            ((space.reviseCorpusUnder refusals plan options means).2.1.space.Holds file.toText)
            (tally.outcomeOf (space.shownAs options file))) := by
  obtain ⟨entryOf, layout⟩ := Corpus.collect_layout wellFormed taken.collected
  have distinct : (files.map (space.shownAs options)).Nodup := layout.shown_nodup (space.directoryOf options.directory)
  rw [reviseCorpusUnder_taken taken]
  refine ⟨_, rfl, distinct, ?_⟩
  by_cases number : options.concurrencyValue = .nan
  · rw [revisedUnder_of_nan plan _ number]
    refine ⟨?_, fun _ => ⟨rfl, rfl, rfl⟩, fun other => absurd number other, fun other => absurd number other⟩
    exact ⟨List.nil_sublist _, List.nil_sublist _, List.nodup_nil, (List.length_map _).symm, rfl, rfl, rfl, rfl⟩
  · have settles : space.Settles plan options means files (space.revisedUnder refusals.calls plan options means files).2 :=
      revisedUnder_settles refusals.calls plan means files number
    have back := Tally.outcomeOf_eq ((space.directoryOf options.directory).resolve options.scopeText).toText
      options.preview files.length settles.shows distinct
    have ended (index : Nat) (file : Path) (found : files[index]? = some file) :
        (space.revisedUnder refusals.calls plan options means files).2[index]? =
          some ((Tally.ofOutcomes ((space.directoryOf options.directory).resolve options.scopeText).toText
            options.preview files.length (space.revisedUnder refusals.calls plan options means files).2).outcomeOf
              (space.shownAs options file)) := by
      conv => lhs; rw [← back]
      rw [List.getElem?_map, List.getElem?_map, found]
      rfl
    refine ⟨Tally.accounts _ _ settles.shows distinct (List.length_map _).symm, fun nan => absurd nan number, ?_, ?_⟩
    · intro _ index file found
      have own : (files.map Path.toText)[index]? = some file.toText := by
        rw [List.getElem?_map, found]
        rfl
      obtain ⟨replies, revising, _⟩ := settles.each index _ _ own (ended index file found)
      refine ⟨replies, revising, ?_⟩
      apply revising.accounted real
      · intro bytes first
        exact List.mem_of_mem_head? first
      · intro _ _ encoded mode _ _ _ _ _ written moved
        exact ⟨mode, written, moved⟩
    · intro _ quiet fresh file member
      obtain ⟨index, inside, rfl⟩ := List.getElem_of_mem member
      have found := List.getElem?_eq_getElem inside
      exact layout.accounted refusals.calls fresh quiet real means.schedule
        (Pool.limitOf_pos number files.length) found (ended index _ found)

private def ledgerSpace : Workspace :=
  ⟨⟨[(.ofText (units "/d"), .directory), (.ofText (units "/d/a.ts"), .file [0x78] 0o644),
    (.ofText (units "/d/b.ts"), .file [0x78, 0xFF] 0o644)]⟩, .root⟩

private def ledgerPlan : Plan := ⟨[], [⟨[⟨units "x", units "uv"⟩], by decide, by decide⟩]⟩

private def ledgerOptions : RunOptions := ⟨[], [], some (units "d"), none, false, none, none, none, none, none⟩

private def ledgerUnnumbered : RunOptions := { ledgerOptions with concurrency := some .nan }

private def ledgerMeans : RunMeans :=
  ⟨⟨[], [], [], [], [], [], fun _ => []⟩, .silent, .turns, fun index => units "0a-" ++ [UInt16.ofNat (0x30 + index)],
    .zero⟩

private def ledgerFiles : List Path := [.ofText (units "/d/a.ts"), .ofText (units "/d/b.ts")]

private theorem ledgerSpace_takesOn : ledgerSpace.TakesOn ledgerOptions ledgerFiles := by
  have listed : ledgerSpace.tree.list (.ofText (units "/d")) =
      [(⟨units "a.ts", rfl⟩, .file [0x78] 0o644), (⟨units "b.ts", rfl⟩, .file [0x78, 0xFF] 0o644)] :=
    List.mergeSort_of_pairwise (by decide +kernel)
  have named : Workspace.naming "stat" (units "/d") (ledgerSpace.tree.lookup ledgerSpace.directory true (units "/d")) =
      .ok (.ofText (units "/d"), .directory) := by decide +kernel
  have scope : ((ledgerSpace.directory.resolve (ledgerSpace.directoryOf ledgerOptions.directory).toText).resolve
      ledgerOptions.scopeText) = .ofText (units "/d") := by decide +kernel
  have text : (Path.ofText (units "/d")).toText = units "/d" := by decide +kernel
  refine ⟨by decide +kernel, ?_⟩
  rw [Corpus.collect, Corpus.collectUnder]
  simp only [scope, text, named, Corpus.unopened?, Corpus.shut?, Corpus.walk, listed]
  decide +kernel

/-- The one file is written, the other one is a failure. -/
theorem reviseCorpus_accounts_ledger : ∃ tally bytes encoded,
    (ledgerSpace.reviseCorpus ledgerPlan ledgerOptions ledgerMeans).2.2 = .ok tally ∧
      tally.Accounts [units "d/a.ts", units "d/b.ts"] ∧ ledgerSpace.Holds (units "/d/a.ts") bytes ∧
      (ledgerSpace.reviseCorpus ledgerPlan ledgerOptions ledgerMeans).2.1.space.Holds (units "/d/a.ts") encoded ∧
      tally.outcomeOf (units "d/a.ts") =
        .matched ⟨units "d/a.ts", true, 0, 1, (encoded.length : Int) - bytes.length⟩ ∧
      (tally.outcomeOf (units "d/b.ts")).failure?.isSome = true := by
  have wellFormed : ledgerSpace.tree.WellFormed := ⟨by decide +kernel, by decide +kernel⟩
  have fresh : Corpus.FreshTokens ledgerMeans.token ledgerFiles.length ledgerSpace.tree :=
    ⟨by decide +kernel, by decide +kernel, by decide +kernel⟩
  obtain ⟨tally, returned, _, accounts, _, _, quietly⟩ :=
    reviseCorpus_accounts .none ledgerPlan ledgerMeans wellFormed rfl (takesOnUnder_none.mpr ledgerSpace_takesOn)
  have told : tally = Tally.ofOutcomes (units "/d") false 2
      (ledgerSpace.revised ledgerPlan ledgerOptions ledgerMeans ledgerFiles).2 := by
    have ran : (ledgerSpace.reviseCorpus ledgerPlan ledgerOptions ledgerMeans).2 = _ :=
      reviseCorpus_taken ledgerSpace_takesOn
    exact Except.ok.inj (returned.symm.trans (congrArg Prod.snd ran))
  have names : ledgerFiles.map (ledgerSpace.shownAs ledgerOptions) = [units "d/a.ts", units "d/b.ts"] := by
    decide +kernel
  have matched : tally.outcomeOf (units "d/a.ts") = .matched ⟨units "d/a.ts", true, 0, 1, 1⟩ := by
    rw [told]
    decide +kernel
  have failed : (tally.outcomeOf (units "d/b.ts")).failure?.isSome = true := by
    rw [told]
    decide +kernel
  have written := quietly (by decide) (fun _ _ => rfl) fresh (.ofText (units "/d/a.ts")) List.mem_cons_self
  have name : ledgerSpace.shownAs ledgerOptions (.ofText (units "/d/a.ts")) = units "d/a.ts" := by decide +kernel
  rw [name, matched] at written
  generalize own : FileOutcome.matched ⟨units "d/a.ts", true, 0, 1, 1⟩ = outcome at written
  cases written with
  | unmatched | kept | failed => cases own
  | @written bytes encoded text read decoded applies holds =>
    refine ⟨tally, bytes, encoded, returned, names ▸ accounts, read, holds, ?_, failed⟩
    rw [matched, (FileReport.mk.inj (FileOutcome.matched.inj own)).2.2.2.2]

/-- Where the number of files in progress is not a number, a file to which a phrase applies has no entry. -/
theorem reviseCorpus_omits :
    ledgerSpace.tree.WellFormed ∧ ledgerMeans.hook.Quiet ∧ ledgerSpace.TakesOn ledgerUnnumbered ledgerFiles ∧
      Corpus.FreshTokens ledgerMeans.token ledgerFiles.length ledgerSpace.tree ∧
      (ledgerSpace.reviseCorpus ledgerPlan ledgerUnnumbered ledgerMeans).2.2.map
        (fun tally => (tally.scanned, tally.failures)) = .ok (2, []) ∧
      ¬ ∀ tally, (ledgerSpace.reviseCorpus ledgerPlan ledgerUnnumbered ledgerMeans).2.2 = .ok tally →
        ∀ file ∈ ledgerFiles, tally.outcomeOf (ledgerSpace.shownAs ledgerUnnumbered file) = .unmatched →
          ∀ bytes text, ledgerSpace.Holds file.toText bytes →
            decodeLosslessly bytes ledgerUnnumbered.encodingName file.toText = .ok text → ledgerPlan.Misses text := by
  have taken : ledgerSpace.TakesOn ledgerUnnumbered ledgerFiles :=
    ⟨ledgerSpace_takesOn.inside, ledgerSpace_takesOn.collected⟩
  have ran : (ledgerSpace.reviseCorpus ledgerPlan ledgerUnnumbered ledgerMeans).2 = _ := reviseCorpus_taken taken
  rw [revised_of_nan ledgerPlan rfl] at ran
  refine ⟨⟨by decide +kernel, by decide +kernel⟩, fun _ _ => rfl, taken,
    ⟨by decide +kernel, by decide +kernel, by decide +kernel⟩, by rw [ran]; rfl, fun every => ?_⟩
  have held : ledgerSpace.Holds (Path.ofText (units "/d/a.ts")).toText [0x78] := by
    rw [Holds]
    decide +kernel
  have text : decodeLosslessly [0x78] ledgerUnnumbered.encodingName (Path.ofText (units "/d/a.ts")).toText =
      .ok (units "x") := by decide +kernel
  rw [ran] at every
  have misses := every _ rfl (.ofText (units "/d/a.ts")) List.mem_cons_self rfl [0x78] (units "x") held text
  exact absurd (Plan.untouched_iff_misses.mpr misses) (by decide +kernel)

end Workspace

end Emend
