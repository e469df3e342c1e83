import Emend.Proofs.CorpusRewrite

/-! What a whole run leaves behind. The files that are reported as changed have the encoded revision of
their text; no other byte of the tree has changed, and nothing has come or gone but for siblings that stay behind
where calls are refused. -/

namespace Emend

open Text FileError

namespace Corpus

/-- Tokens that tell the siblings of so many files from each other and from all that is in a tree. -/
structure FreshTokens (token : Nat → Text) (count : Nat) (tree : Tree) : Prop where
  plain : ∀ index < count, isToken (token index) = true
  distinct : ∀ first < count, ∀ second < count, token first = token second → first = second
  unused : ∀ index < count, ∀ entry ∈ tree.entries, ∀ name ∈ entry.1.names, ¬ ending (token index) <:+ name.text

theorem FreshTokens.free {token : Nat → Text} {count : Nat} {tree : Tree} (fresh : FreshTokens token count tree)
    {index : Nat} (inside : index < count) (plain : isToken (token index) = true) (directory : Path) (name : Name) :
    tree.get? (directory.child (sibling (token index) plain name)) = none := by
  rw [Tree.get?_of_ne tree (Path.child_ne_root _ _), lookup_eq_none_iff_not_mem]
  intro member
  obtain ⟨entry, among, same⟩ := List.mem_map.mp member
  apply fresh.unused index inside entry among (sibling (token index) plain name)
  · rw [same]
    simp [Path.child]
  · exact List.suffix_append _ _

/-- The territories of some files and of their siblings, which stand beside them. -/
structure Assigned {tree : Tree} (files : List Path) (placeOf : Path → Path) (token : Nat → Text)
    (territories : Fin files.length → Territory tree) : Prop where
  separate : Separate territories
  path : ∀ index : Fin files.length, (territories index).path = files[index]
  place : ∀ index : Fin files.length, (territories index).place = placeOf files[index]
  listed : ∀ index : Fin files.length, (files.map Path.toText)[(index : Nat)]? = some (territories index).path.toText
  beside : ∀ index : Fin files.length,
    temporaryPath (token index) (territories index).path.toText = (territories index).temporary.toText
  level : ∀ index : Fin files.length, (territories index).sibling.parent = (territories index).place.parent

theorem exists_territories {tree : Tree} {files : List Path} {placeOf : Path → Path} (sited : Sited tree files placeOf)
    {token : Nat → Text} (fresh : FreshTokens token files.length tree) :
    ∃ territories : Fin files.length → Territory tree, Assigned files placeOf token territories := by
  have each : ∀ index : Fin files.length, ∃ territory : Territory tree, territory.path = files[index] ∧
      territory.place = placeOf files[index] ∧
      temporaryPath (token index) territory.path.toText = territory.temporary.toText ∧
      ∃ name : Name, territory.sibling =
        territory.place.parent.child (sibling (token index) (fresh.plain index index.isLt) name) := by
    intro index
    have member : files[index] ∈ files := List.getElem_mem index.isLt
    obtain ⟨bytes, mode, there⟩ := sited.there _ member
    obtain ⟨temporary, place, same, beside, name, shape⟩ :=
      (sited.site _ member).sibling (fresh.plain index index.isLt)
    exact ⟨⟨files[index], temporary, placeOf files[index], place, (bytes, mode), sited.site _ member, beside, there,
      shape ▸ fresh.free index.isLt _ _ _⟩, rfl, rfl, same, name, shape⟩
  choose territories path place beside siblings using each
  refine ⟨territories, fun first second different => ⟨fun same => ?_, fun same => ?_⟩, path, place, fun index => ?_, beside,
    fun index => ?_⟩
  · rw [place first, place second] at same
    have equal := sited.apart _ (List.getElem_mem first.isLt) _ (List.getElem_mem second.isLt) same
    exact different (Fin.ext ((List.Nodup.getElem_inj_iff sited.once).mp equal))
  · obtain ⟨name, shape⟩ := siblings first
    obtain ⟨second_, shapeToo⟩ := siblings second
    rw [shape, shapeToo] at same
    exact different (Fin.ext (fresh.distinct _ first.isLt _ second.isLt
      (sibling_injective _ _ (Path.child_injective same).2)))
  · rw [List.getElem?_map, List.getElem?_eq_getElem index.isLt, path index]
    rfl
  · obtain ⟨name, shape⟩ := siblings index
    rw [shape, Path.child_parent]

end Corpus

def FileOutcome.change? (outcome : FileOutcome) : Option FileReport := outcome.report?.filter FileReport.changed

theorem Tally.changed_eq (scope : Text) (preview : Bool) {scanned : Nat} (outcomes : List FileOutcome) :
    (Tally.ofOutcomes scope preview scanned outcomes).files.filter FileReport.changed =
      outcomes.filterMap FileOutcome.change? := by
  rw [Tally.ofOutcomes, List.filter_filterMap]
  rfl

section

variable (options : Corpus.FileOptions) (file : Corpus.File) {revision : Revision}

theorem Corpus.FileOptions.matched_unchanged (same : revision.changed = false) :
    (options.matched file revision).change? = none := by
  rw [FileOutcome.change?, matched, FileOutcome.report?, Option.filter_some, if_neg]
  exact ne_true_of_eq_false same

theorem Corpus.FileOptions.matched_changed (changed : revision.changed = true) :
    ∃ report, (options.matched file revision).change? = some report ∧
      report.file = displayPath options.directory file.path :=
  ⟨_, if_pos changed, rfl⟩

theorem Corpus.FileOptions.matched_shown {report : FileReport}
    (changed : (options.matched file revision).change? = some report) :
    report.file = displayPath options.directory file.path := by
  obtain ⟨reported, _⟩ := Option.filter_eq_some_iff.mp changed
  obtain rfl := Option.some.inj reported
  rfl

end

structure Change where
  report : FileReport
  file : Path
  place : Path
  bytes : Bytes
  mode : Nat
  text : Text
  encoded : Bytes

/-- Before a run the file of a change had the bytes and the mode that are given, and now it has the encoded
revision of its text, which is what is reported. -/
structure Change.Made (change : Change) (options : Corpus.FileOptions) (before after : Workspace) : Prop where
  shown : change.report.file = displayPath options.directory change.file.toText
  found : before.tree.lookup before.directory true change.file.toText =
    .ok (change.place, .file change.bytes change.mode)
  decoded : decodeLosslessly change.bytes options.encoding change.file.toText = .ok change.text
  encoded : encodeNamed options.encoding (options.plan.revise change.text).text = .ok change.encoded
  standing : after.tree.get? change.place =
    some (.file change.encoded (Workspace.maskedMode (0o100000 + change.mode)))
  reads : after.readFile change.file.toText = .ok change.encoded

/-- A sibling that has stayed behind, and what is reported of its file, which has an index in the corpus. -/
structure Leftover where
  failure : FileFailure
  index : Nat
  file : Path
  place : Path
  bytes : Bytes

/-- Where the sibling of a leftover was to be there was nothing before a run, and what stands there now was to be the
revision of the file. -/
structure Leftover.Left (leftover : Leftover) (refusals : Nat → Refusals) (options : Corpus.FileOptions)
    (token : Nat → Text) (before after : Workspace) : Prop where
  named : before.tree.find before.directory false
    (Corpus.temporaryPath (token leftover.index) leftover.file.toText) = .ok (.missing leftover.place)
  standing : ∃ mode, after.tree.get? leftover.place = some (.file leftover.bytes mode)
  stranded : ∃ bytes text encoded error, before.readFile leftover.file.toText = .ok bytes ∧
    decodeLosslessly bytes options.encoding leftover.file.toText = .ok text ∧
    encodeNamed options.encoding (options.plan.revise text).text = .ok encoded ∧
    (refusals leftover.index).Strands encoded leftover.bytes error ∧
    leftover.failure =
      ⟨displayPath options.directory leftover.file.toText, .write, (Failure.file error).message .plain⟩

namespace Territory

section

variable {before : Workspace} {territory : Territory before.tree} {options : Corpus.FileOptions}
  {contents : Contents} {outcome : FileOutcome}

/-- When files are to be written, either nothing has changed and no change is reported, or the change that
is reported has been made. -/
theorem Revised.change? (revised : territory.Revised options territory.initial contents outcome)
    (real : options.preview = false) {after : Workspace} (has : territory.Has after.tree contents) :
    contents = territory.initial ∧ outcome.change? = none ∨
      contents.sibling = none ∧ ∃ change : Change, outcome.change? = some change.report ∧
        change.file = territory.path ∧ change.place = territory.place ∧ change.Made options before after := by
  cases revised with
  | unmatched => exact .inl ⟨rfl, rfl⟩
  | failed phase failure => exact .inl ⟨rfl, rfl⟩
  | @kept text read decoded same =>
    rw [real, Bool.not_false, Bool.and_true] at same
    exact .inl ⟨rfl, options.matched_unchanged _ same⟩
  | @written text encoded read decoded changed _ encodes =>
    have short := (read_ok read).2
    have lookup : before.tree.lookup before.directory true territory.path.toText =
        .ok (territory.place, .file territory.file.1 territory.file.2) := by
      rw [Tree.lookup, find_path territory.has_initial true, short]
      rfl
    have reads : after.readFile territory.path.toText = .ok encoded := by
      rw [readFile_eq has, read_again read]
    obtain ⟨report, reported, shown⟩ := options.matched_changed ⟨territory.path.toText, territory.file.1, text⟩ changed
    exact .inr ⟨rfl, ⟨report, territory.path, territory.place, territory.file.1, territory.file.2, text, encoded⟩,
      reported, rfl, rfl, ⟨shown, lookup, decoded, encodes, has.file, reads⟩⟩

end

/-- What a run has made of a territory: perhaps a change, perhaps a leftover, and otherwise nothing. -/
structure Comes {before : Workspace} (territory : Territory before.tree) (refusals : Nat → Refusals)
    (options : Corpus.FileOptions) (token : Nat → Text) (index : Nat) (after : Workspace) (contents : Contents)
    (outcome : FileOutcome) (change : Option Change) (leftover : Option Leftover) : Prop where
  report : change.map Change.report = outcome.change?
  file : change = none → contents.file = territory.file
  sibling : leftover = none → contents.sibling = none
  changed : ∀ made, change = some made → made.file = territory.path ∧ made.place = territory.place ∧
    made.Made options before after
  left : ∀ stays, leftover = some stays → outcome.failure? = some stays.failure ∧ stays.index = index ∧
    stays.file = territory.path ∧ stays.place = territory.sibling ∧ stays.Left refusals options token before after

theorem RevisedUnder.comes {before : Workspace} {territory : Territory before.tree} {refusals : Nat → Refusals}
    {options : Corpus.FileOptions} {token : Nat → Text} {index : Nat} {contents : Contents} {outcome : FileOutcome}
    (revised : territory.RevisedUnder (refusals index) options territory.initial contents outcome)
    (beside : Corpus.temporaryPath (token index) territory.path.toText = territory.temporary.toText)
    (real : options.preview = false) {after : Workspace} (has : territory.Has after.tree contents) :
    ∃ change leftover, territory.Comes refusals options token index after contents outcome change leftover := by
  cases revised with
  | clean revised =>
    rcases revised.change? real has with ⟨rfl, unreported⟩ | ⟨clean, change, reported, file, place, made⟩
    · refine ⟨none, none, unreported.symm, fun _ => rfl, fun _ => rfl, ?_, ?_⟩
      · rintro _ ⟨⟩
      · rintro _ ⟨⟩
    · refine ⟨some change, none, reported.symm, ?_, fun _ => clean, ?_, ?_⟩
      · rintro ⟨⟩
      · intro other same
        obtain rfl := Option.some.inj same
        exact ⟨file, place, made⟩
      · rintro _ ⟨⟩
  | @stranded text encoded left error read decoded encodes short strands =>
    have missing := @find_temporary before.tree territory before territory.initial territory.has_initial false
    rw [short, ← beside] at missing
    have reads : before.readFile territory.path.toText = .ok territory.file.1 := by
      rw [readFile_eq territory.has_initial, read]
      rfl
    let stays : Leftover := ⟨⟨displayPath options.directory territory.path.toText, .write,
      (Failure.file error).message .plain⟩, index, territory.path, territory.sibling, left⟩
    refine ⟨none, some stays, rfl, fun _ => rfl, ?_, ?_, ?_⟩
    · rintro ⟨⟩
    · rintro _ ⟨⟩
    · intro other same
      obtain rfl := Option.some.inj same
      exact ⟨rfl, rfl, rfl, rfl, missing, ⟨_, has.sibling⟩, _, text, encoded, error, reads, decoded, encodes, strands, rfl⟩

end Territory

namespace Corpus

/-- A run makes these changes to files of the corpus and leaves these siblings behind. It leaves everything else as it
was, and nothing else comes or goes. -/
structure Rewrites (refusals : Nat → Refusals) (options : FileOptions) (token : Nat → Text) (files : List Path)
    (before after : Workspace) (changes : List Change) (leftovers : List Leftover) : Prop where
  listed : (changes.map Change.file).Sublist files
  apart : (changes.map Change.place).Nodup
  made : ∀ change ∈ changes, change.Made options before after
  stranded : ∀ leftover ∈ leftovers, files[leftover.index]? = some leftover.file ∧
    leftover.Left refusals options token before after
  elsewhere : ∀ path, path ∉ changes.map Change.place → path ∉ leftovers.map Leftover.place →
    after.tree.get? path = before.tree.get? path
  standing : ∀ path, path ∉ leftovers.map Leftover.place →
    (after.tree.get? path).isSome = (before.tree.get? path).isSome

section

variable {refusals : Nat → Refusals} {options : FileOptions} {token : Nat → Text} {files : List Path}

/-- Where whatever is refused leaves no sibling, none is left. -/
theorem Rewrites.tidy {before after : Workspace} {changes : List Change} {leftovers : List Leftover}
    (rewrites : Rewrites refusals options token files before after changes leftovers)
    (tidy : ∀ index, (refusals index).Tidy) : leftovers = [] := by
  rw [List.eq_nil_iff_forall_not_mem]
  intro leftover member
  obtain ⟨_, _, _, _, _, _, _, strands, _⟩ := (rewrites.stranded leftover member).2.stranded
  exact (tidy leftover.index).not_strands strands

theorem rewrites_none (space : Workspace) : Rewrites refusals options token files space space [] [] where
  listed := List.nil_sublist files
  apart := List.nodup_nil
  made _ member := by cases member
  stranded _ member := by cases member
  elsewhere _ _ _ := rfl
  standing _ _ := rfl

private theorem filterMap_sublist {α β γ : Type} {pick : α → Option β} {field : β → γ} {value : α → Option γ}
    (own : ∀ item found, pick item = some found → value item = some (field found)) (items : List α) :
    ((items.filterMap pick).map field).Sublist (items.filterMap value) := by
  induction items with
  | nil => exact .slnil
  | cons item items ih =>
    rw [List.filterMap_cons]
    cases picked : pick item with
    | none => exact ih.trans ((List.sublist_cons_self item items).filterMap value)
    | some found =>
      rw [List.map_cons, List.filterMap_cons_some (own item found picked)]
      exact ih.cons_cons _

theorem Shares.rewrites {before after : Workspace} {territories : Fin files.length → Territory before.tree}
    (separate : Separate territories) (own : ∀ index : Fin files.length, (territories index).path = files[index])
    {contents : Nat → Contents} {outcome : Nat → FileOutcome} (shares : Shares territories after.tree contents)
    {change : Fin files.length → Option Change} {leftover : Fin files.length → Option Leftover}
    (comes : ∀ index : Fin files.length, (territories index).Comes refusals options token index after (contents index)
      (outcome index) (change index) (leftover index)) :
    ∃ changes leftovers,
      changes.map Change.report = ((List.range files.length).map outcome).filterMap FileOutcome.change? ∧
      (leftovers.map Leftover.failure).Sublist
        (((List.range files.length).map outcome).filterMap FileOutcome.failure?) ∧
      Rewrites refusals options token files before after changes leftovers := by
  have every : (List.range files.length).map outcome =
      (List.finRange files.length).map fun index : Fin files.length => outcome index := by
    rw [← List.map_coe_finRange_eq_range, List.map_map]
    rfl
  have reports : ((List.finRange files.length).filterMap change).map Change.report =
      (List.finRange files.length).filterMap fun index : Fin files.length => (outcome index).change? := by
    rw [List.map_filterMap]
    exact List.filterMap_congr fun index _ => (comes index).report
  have failures : (((List.finRange files.length).filterMap leftover).map Leftover.failure).Sublist
      ((List.finRange files.length).filterMap fun index : Fin files.length => (outcome index).failure?) :=
    filterMap_sublist (fun index stays found => ((comes index).left stays found).1) _
  have listed : (((List.finRange files.length).filterMap change).map Change.file).Sublist files := by
    have sublist := @filterMap_sublist _ _ _ change Change.file (fun index : Fin files.length => some files[index])
      (fun index made found => congrArg some (((comes index).changed made found).1.trans (own index)).symm)
      (List.finRange files.length)
    rw [List.filterMap_eq_map'] at sublist
    simpa only [Fin.getElem_fin, List.map_getElem_finRange] using sublist
  have places : (((List.finRange files.length).filterMap change).map Change.place).Sublist
      ((List.finRange files.length).map fun index => (territories index).place) := by
    have sublist := @filterMap_sublist _ _ _ change Change.place (fun index => some (territories index).place)
      (fun index made found => congrArg some ((comes index).changed made found).2.1.symm) (List.finRange files.length)
    rwa [List.filterMap_eq_map'] at sublist
  have injective : Function.Injective fun index => (territories index).place := by
    intro first second same
    by_contra different
    exact (separate first second different).1 same
  have picked {index : Fin files.length} {made : Change} (found : change index = some made) :
      (territories index).place ∈ ((List.finRange files.length).filterMap change).map Change.place :=
    List.mem_map.mpr ⟨made, List.mem_filterMap.mpr ⟨index, List.mem_finRange index, found⟩,
      ((comes index).changed made found).2.1⟩
  have left {index : Fin files.length} {stays : Leftover} (found : leftover index = some stays) :
      (territories index).sibling ∈ ((List.finRange files.length).filterMap leftover).map Leftover.place :=
    List.mem_map.mpr ⟨stays, List.mem_filterMap.mpr ⟨index, List.mem_finRange index, found⟩,
      ((comes index).left stays found).2.2.2.1⟩
  -- At the place of a file without a change, and of a sibling that is not left, there is what was there before.
  have elsewhere : ∀ path, path ∉ ((List.finRange files.length).filterMap change).map Change.place →
      path ∉ ((List.finRange files.length).filterMap leftover).map Leftover.place →
      after.tree.get? path = before.tree.get? path := by
    intro path unchanged unleft
    by_cases place : ∃ index, path = (territories index).place
    · obtain ⟨index, rfl⟩ := place
      have unpicked : change index = none :=
        Option.eq_none_iff_forall_ne_some.mpr fun made found => unchanged (picked found)
      rw [(shares.has index).file, (comes index).file unpicked, (territories index).standing]
    · by_cases sibling : ∃ index, path = (territories index).sibling
      · obtain ⟨index, rfl⟩ := sibling
        have cleared : leftover index = none :=
          Option.eq_none_iff_forall_ne_some.mpr fun stays found => unleft (left found)
        rw [(shares.has index).sibling, (comes index).sibling cleared, (territories index).free]
        rfl
      · exact shares.elsewhere path fun index => ⟨fun same => place ⟨index, same⟩, fun same => sibling ⟨index, same⟩⟩
  refine ⟨(List.finRange files.length).filterMap change, (List.finRange files.length).filterMap leftover, ?_, ?_, listed,
    places.nodup ((List.nodup_finRange _).map injective), ?_, ?_, elsewhere, ?_⟩
  · rw [reports, every, List.filterMap_map]
    rfl
  · rw [every, List.filterMap_map]
    exact failures
  · intro made member
    obtain ⟨index, _, found⟩ := List.mem_filterMap.mp member
    exact ((comes index).changed made found).2.2
  · intro stays member
    obtain ⟨index, _, found⟩ := List.mem_filterMap.mp member
    obtain ⟨_, place, file, _, kept⟩ := (comes index).left stays found
    refine ⟨?_, kept⟩
    rw [place, file, own]
    exact List.getElem?_eq_getElem index.isLt
  · intro path unleft
    by_cases place : ∃ index, path = (territories index).place
    · obtain ⟨index, rfl⟩ := place
      rw [(shares.has index).file, (territories index).standing]
      rfl
    · rw [elsewhere path (fun member => ?_) unleft]
      obtain ⟨index, _, same⟩ := List.mem_map.mp (places.subset member)
      exact place ⟨index, same.symm⟩

/-- The revision of some files makes the changes that their outcomes report, and no other, and what it leaves behind is
reported as a failure. -/
theorem reviseAllUnder_rewrites {space : Workspace} {placeOf : Path → Path} (sited : Sited space.tree files placeOf)
    (fresh : FreshTokens token files.length space.tree) (real : options.preview = false) {hook : Hook}
    (quiet : hook.Quiet) (schedule : Schedule) (limit : Nat) :
    ∃ changes leftovers, changes.map Change.report =
        (reviseAllUnder refusals options token hook schedule limit (files.map Path.toText) ⟨space, []⟩).2.filterMap
          FileOutcome.change? ∧
      (leftovers.map Leftover.failure).Sublist
        ((reviseAllUnder refusals options token hook schedule limit (files.map Path.toText) ⟨space, []⟩).2.filterMap
          FileOutcome.failure?) ∧
      Rewrites refusals options token files space
        (reviseAllUnder refusals options token hook schedule limit (files.map Path.toText) ⟨space, []⟩).1.space changes
        leftovers := by
  cases limit with
  | zero =>
    rw [reviseAllUnder, runAll_none _ _ _ (.inl rfl)]
    exact ⟨[], [], rfl, .slnil, rewrites_none space⟩
  | succ more =>
    obtain ⟨territories, assigned⟩ := exists_territories sited fresh
    obtain ⟨contents, outcome, shares, listed, revised⟩ := reviseAllUnder_revised (List.length_map Path.toText)
      assigned.separate quiet options assigned.listed assigned.beside schedule (Nat.le_add_left 1 more) refusals
    have each (index : Fin files.length) := (revised index).comes (assigned.beside index) real (shares.has index)
    choose change leftover comes using each
    rw [listed]
    exact shares.rewrites assigned.separate assigned.path comes

end

end Corpus

def RunOptions.fileOptions (options : RunOptions) (plan : Plan) (directory : Path) : Corpus.FileOptions :=
  ⟨plan, directory.toText, options.encodingName, options.preview⟩

namespace Workspace

variable {space : Workspace} {plan : Plan} {options : RunOptions} {means : RunMeans} {files : List Path}

/-- The files that a run takes on: its scope is inside the boundary, and they are the corpus. -/
structure TakesOn (space : Workspace) (options : RunOptions) (files : List Path) : Prop where
  inside : space.checkBoundary (space.directoryOf options.directory).toText
    ((space.directoryOf options.directory).resolve options.scopeText).toText (units "Scope") = .ok ()
  collected : Corpus.collect space ⟨(space.directoryOf options.directory).toText, options.scopeText,
    options.extensions, options.excluded⟩ = .ok files

/-- The files that a run takes on where the system refuses to open some directories. -/
structure TakesOnUnder (space : Workspace) (opening : Text → Option FileError.Code) (options : RunOptions)
    (files : List Path) : Prop where
  inside : space.checkBoundary (space.directoryOf options.directory).toText
    ((space.directoryOf options.directory).resolve options.scopeText).toText (units "Scope") = .ok ()
  collected : Corpus.collectUnder opening space ⟨(space.directoryOf options.directory).toText, options.scopeText,
    options.extensions, options.excluded⟩ = .ok files

theorem takesOnUnder_none : space.TakesOnUnder RunRefusals.none.opening options files ↔ space.TakesOn options files :=
  ⟨fun taken => ⟨taken.inside, taken.collected⟩, fun taken => ⟨taken.inside, taken.collected⟩⟩

def revised (space : Workspace) (plan : Plan) (options : RunOptions) (means : RunMeans) (files : List Path) :
    Scene × List FileOutcome :=
  Corpus.reviseAll (options.fileOptions plan (space.directoryOf options.directory)) means.token means.hook means.schedule
    (Pool.limitOf options.concurrencyValue files.length) (files.map Path.toText) ⟨space, []⟩

def revisedUnder (refusals : Nat → Refusals) (space : Workspace) (plan : Plan) (options : RunOptions) (means : RunMeans)
    (files : List Path) : Scene × List FileOutcome :=
  Corpus.reviseAllUnder refusals (options.fileOptions plan (space.directoryOf options.directory)) means.token means.hook
    means.schedule (Pool.limitOf options.concurrencyValue files.length) (files.map Path.toText) ⟨space, []⟩

theorem revisedUnder_none (space : Workspace) (plan : Plan) (options : RunOptions) (means : RunMeans)
    (files : List Path) :
    space.revisedUnder RunRefusals.none.calls plan options means files = space.revised plan options means files :=
  Corpus.reviseAllUnder_none _ _ _ _ _ _ _

section

variable {refusals : RunRefusals}

theorem reviseCorpusUnder_taken (taken : space.TakesOnUnder refusals.opening options files) :
    (space.reviseCorpusUnder refusals plan options means).2 =
      ((space.revisedUnder refusals.calls plan options means files).1,
        .ok (Tally.ofOutcomes ((space.directoryOf options.directory).resolve options.scopeText).toText
          options.preview files.length (space.revisedUnder refusals.calls plan options means files).2)) := by
  rw [reviseCorpusUnder, taken.inside]
  simp only [taken.collected, List.length_map]
  rfl

theorem reviseCorpusUnder_stopped (refused : ∀ files, ¬ space.TakesOnUnder refusals.opening options files) :
    ∃ failure, (space.reviseCorpusUnder refusals plan options means).2 = (⟨space, []⟩, .error failure) := by
  rw [reviseCorpusUnder]
  split
  next failure _ => exact ⟨failure, rfl⟩
  next inside =>
    split
    next failure _ => exact ⟨failure, rfl⟩
    next files collected => exact absurd ⟨inside, collected⟩ (refused files)

end

theorem reviseCorpus_taken (taken : space.TakesOn options files) :
    (space.reviseCorpus plan options means).2 = ((space.revised plan options means files).1,
      .ok (Tally.ofOutcomes ((space.directoryOf options.directory).resolve options.scopeText).toText
        options.preview files.length (space.revised plan options means files).2)) := by
  rw [reviseCorpus, reviseCorpusUnder_taken (takesOnUnder_none.mpr taken), revisedUnder_none]

def IsLink (space : Workspace) (path : Path) : Prop :=
  ∃ place target, space.tree.find space.directory false path.toText = .ok (.node place (.link target))

/-- A run that takes on some files returns, whatever the system refuses. The files that are reported as changed have the
encoded revision of their text, and every other file has the bytes it had. No path has come or gone but for siblings that
have stayed behind, each of them because a write broke off or because it could neither be moved nor removed, and each
one's file is reported as a failure. A run that takes on none fails and leaves the workspace as it was. -/
theorem reviseCorpus_rewrites (refusals : RunRefusals) (wellFormed : space.tree.WellFormed)
    (real : options.preview = false) (quiet : means.hook.Quiet)
    (unlinked : ¬ space.IsLink ((space.directoryOf options.directory).resolve options.scopeText))
    (fresh : ∀ files, space.TakesOnUnder refusals.opening options files →
      Corpus.FreshTokens means.token files.length space.tree) :
    (∀ files, space.TakesOnUnder refusals.opening options files → ∃ tally changes leftovers,
      (space.reviseCorpusUnder refusals plan options means).2.2 = .ok tally ∧
      changes.map Change.report = tally.files.filter FileReport.changed ∧
      (leftovers.map Leftover.failure).Sublist tally.failures ∧
      Corpus.Rewrites refusals.calls (options.fileOptions plan (space.directoryOf options.directory)) means.token files
        space (space.reviseCorpusUnder refusals plan options means).2.1.space changes leftovers) ∧
    ((∀ files, ¬ space.TakesOnUnder refusals.opening options files) →
      ∃ failure, (space.reviseCorpusUnder refusals plan options means).2 = (⟨space, []⟩, .error failure)) := by
  refine ⟨fun files taken => ?_, reviseCorpusUnder_stopped⟩
  have apart : ∀ place target, space.tree.find space.directory false
      ((space.directory.resolve (space.directoryOf options.directory).toText).resolve options.scopeText).toText ≠
        .ok (.node place (.link target)) := by
    rw [Path.resolve_toText]
    exact fun place target found => unlinked ⟨place, target, found⟩
  obtain ⟨placeOf, sited⟩ := Corpus.collect_sited wellFormed taken.collected apart
  have plain : (options.fileOptions plan (space.directoryOf options.directory)).preview = false := real
  obtain ⟨changes, leftovers, reports, failures, rewrites⟩ := Corpus.reviseAllUnder_rewrites sited (fresh files taken)
    plain quiet means.schedule (Pool.limitOf options.concurrencyValue files.length)
  rw [← revisedUnder] at reports failures rewrites
  rw [reviseCorpusUnder_taken taken]
  exact ⟨_, changes, leftovers, rfl, reports.trans (Tally.changed_eq _ _ _).symm, failures, rewrites⟩

/-- A directory with two files, and outside it another file and a link. -/
private def sampleSpace : Workspace :=
  ⟨⟨[(.ofText (units "/d"), .directory), (.ofText (units "/d/a.ts"), .file [0x78] 0o644),
    (.ofText (units "/d/b.ts"), .file [0x78] 0o644), (.ofText (units "/b.ts"), .file [0x78] 0o600),
    (.ofText (units "/c.ts"), .link (units "d/a.ts"))]⟩, .root⟩

private def samplePlan : Plan := ⟨[], [⟨[⟨units "x", units "y"⟩], by decide, by decide⟩]⟩

private def sampleOptions : RunOptions := ⟨[], [], some (units "d"), none, false, none, none, none, none, none⟩

private def sampleMeans : RunMeans :=
  ⟨⟨[], [], [], [], [], [], fun _ => []⟩, .silent, .turns, fun index => units "0a-" ++ [UInt16.ofNat (0x30 + index)],
    .zero⟩

private def sampleRefusals : RunRefusals where
  opening _ := none
  calls index call := if index = 1 ∧ 4 ≤ call then some ⟨.failed .accessDenied "rename" none, none⟩ else none

private def sampleFiles : List Path := [.ofText (units "/d/a.ts"), .ofText (units "/d/b.ts")]

private theorem sampleSpace_wellFormed : sampleSpace.tree.WellFormed := ⟨by decide +kernel, by decide +kernel⟩

private theorem sampleSpace_takesOn : sampleSpace.TakesOnUnder sampleRefusals.opening sampleOptions sampleFiles := by
  have listed : sampleSpace.tree.list (.ofText (units "/d")) =
      [(⟨units "a.ts", rfl⟩, .file [0x78] 0o644), (⟨units "b.ts", rfl⟩, .file [0x78] 0o644)] :=
    List.mergeSort_of_pairwise (by decide +kernel)
  have named : Workspace.naming "stat" (units "/d") (sampleSpace.tree.lookup sampleSpace.directory true (units "/d")) =
      .ok (.ofText (units "/d"), .directory) := by decide +kernel
  have scope : ((sampleSpace.directory.resolve (sampleSpace.directoryOf sampleOptions.directory).toText).resolve
      sampleOptions.scopeText) = .ofText (units "/d") := by decide +kernel
  have text : (Path.ofText (units "/d")).toText = units "/d" := by decide +kernel
  refine ⟨by decide +kernel, ?_⟩
  rw [Corpus.collectUnder]
  simp only [scope, text, named, Corpus.unopened?, Corpus.shut?, Corpus.walk, listed]
  decide +kernel

private theorem sampleSpace_unlinked : ¬ sampleSpace.IsLink
    ((sampleSpace.directoryOf sampleOptions.directory).resolve sampleOptions.scopeText) := by
  rintro ⟨place, target, found⟩
  cases found

private theorem sampleSpace_fresh : Corpus.FreshTokens sampleMeans.token sampleFiles.length sampleSpace.tree :=
  ⟨by decide +kernel, by decide +kernel, by decide +kernel⟩

/-- A phrase stands in all files. One of those in the scope is rewritten, and the other one has a sibling afterwards. -/
theorem reviseCorpus_rewrites_sample : ∃ tally changes leftovers,
    (sampleSpace.reviseCorpusUnder sampleRefusals samplePlan sampleOptions sampleMeans).2.2 = .ok tally ∧
      tally.changed = 1 ∧ changes.map Change.report = tally.files.filter FileReport.changed ∧
      (leftovers.map Leftover.failure).Sublist tally.failures ∧
      Corpus.Rewrites sampleRefusals.calls (sampleOptions.fileOptions samplePlan .root) sampleMeans.token sampleFiles
        sampleSpace (sampleSpace.reviseCorpusUnder sampleRefusals samplePlan sampleOptions sampleMeans).2.1.space changes
        leftovers := by
  have fresh : ∀ files, sampleSpace.TakesOnUnder sampleRefusals.opening sampleOptions files →
      Corpus.FreshTokens sampleMeans.token files.length sampleSpace.tree := by
    intro files other
    obtain rfl := Except.ok.inj (sampleSpace_takesOn.collected.symm.trans other.collected)
    exact sampleSpace_fresh
  obtain ⟨tally, changes, leftovers, returned, reports, failures, rewrites⟩ :=
    (reviseCorpus_rewrites sampleRefusals sampleSpace_wellFormed rfl (fun _ _ => rfl) sampleSpace_unlinked fresh).1
      sampleFiles sampleSpace_takesOn
  have one : (sampleSpace.reviseCorpusUnder sampleRefusals samplePlan sampleOptions sampleMeans).2.2.map Tally.changed =
      .ok 1 := by
    rw [reviseCorpusUnder_taken sampleSpace_takesOn]
    decide +kernel
  rw [returned] at one
  exact ⟨tally, changes, leftovers, returned, Except.ok.inj one, reports, failures, rewrites⟩

/-- No call that is refused has had an effect, and yet the run has created a path. -/
theorem reviseCorpus_litters :
    sampleSpace.tree.WellFormed ∧ sampleMeans.hook.Quiet ∧
      sampleSpace.TakesOnUnder sampleRefusals.opening sampleOptions sampleFiles ∧
      ¬ sampleSpace.IsLink ((sampleSpace.directoryOf sampleOptions.directory).resolve sampleOptions.scopeText) ∧
      Corpus.FreshTokens sampleMeans.token sampleFiles.length sampleSpace.tree ∧
      (∀ index call refusal, sampleRefusals.calls index call = some refusal → refusal.begun = none) ∧
      ¬ ∀ path, ((sampleSpace.reviseCorpusUnder sampleRefusals samplePlan sampleOptions sampleMeans).2.1.space.tree.get?
        path).isSome = (sampleSpace.tree.get? path).isSome := by
  refine ⟨sampleSpace_wellFormed, fun _ _ => rfl, sampleSpace_takesOn, sampleSpace_unlinked, sampleSpace_fresh, ?_, ?_⟩
  · intro index call refusal refused
    simp only [sampleRefusals] at refused
    split at refused
    · exact Option.some.inj refused ▸ rfl
    · cases refused
  · intro standing
    rw [reviseCorpusUnder_taken sampleSpace_takesOn] at standing
    exact absurd (standing (.ofText (units "/d/.b.ts.rulecast-0a-1.tmp"))) (by decide +kernel)

end Workspace

namespace Library

variable {library : Library} {options : RunOptions} {loaded : LoadedPlan}

theorem runUnder_loaded [Schema.Validation]
    (loads : library.loadPlan options.rules options.phrases ⟨options.directory, none⟩ = .ok loaded)
    (refusals : RunRefusals) (means : RunMeans) :
    (library.runUnder refusals options means).scene =
        (library.space.reviseCorpusUnder refusals loaded.plan options means).2.1 ∧
      (library.runUnder refusals options means).outcome =
        (library.space.reviseCorpusUnder refusals loaded.plan options means).2.2.map fun tally =>
          ⟨tally, loaded.ruleSets, loaded.phraseTables.map Loaded.name, means.elapsedMs⟩ := by
  rw [runUnder, loads]
  exact ⟨rfl, rfl⟩

theorem runUnder_unloaded [Schema.Validation] {failure : Failure}
    (fails : library.loadPlan options.rules options.phrases ⟨options.directory, none⟩ = .error failure)
    (refusals : RunRefusals) (means : RunMeans) :
    library.runUnder refusals options means = ⟨[], ⟨library.space, []⟩, .error failure⟩ := by
  rw [runUnder, fails]

end Library

end Emend
