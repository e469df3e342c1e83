import Emend.Proofs.BoundaryPlaces
import Emend.Proofs.PhrasePass
import Emend.Proofs.RunCalls
import Emend.Proofs.RunOrder

/-! A scope at which there is nothing. No run takes it on, and none does anything. What the run says depends on how the
look-up ends, and on whether the scope as it was given goes on from the boundary: links on the way to the boundary have
been followed by then, and those on the way to nothing have not. -/

namespace Emend

open Text FileError

namespace Path

theorem foldl_step_below (base : Path) {pieces : List Text} (onward : [dot, dot] ∉ pieces) :
    base.names <+: (pieces.foldl step base).names := by
  induction pieces generalizing base with
  | nil => exact List.prefix_rfl
  | cons piece pieces ih =>
    obtain ⟨apart, rest⟩ := List.ne_and_not_mem_of_not_mem_cons onward
    have first : base.names <+: (base.step piece).names := by
      rw [step, if_neg apart.symm]
      split
      · exact List.prefix_append _ _
      · exact List.prefix_rfl
    exact first.trans (ih _ rest)

/-- A relative text without steps back leads to a path below the one it is read against. -/
theorem resolve_below (base : Path) {t : Text} (relative : isAbsolute t = false)
    (onward : [dot, dot] ∉ split slash t) : base.names <+: (base.resolve t).names := by
  rw [resolve, relative]
  exact foldl_step_below base onward

theorem mem_toText_of_prefix {path above : Path} (start : above.names <+: path.names) {u : UInt16}
    (member : u ∈ above.toText) : u ∈ path.toText := by
  rw [toText] at member ⊢
  rcases List.mem_append.mp member with head | tail
  · exact List.mem_append_left _ head
  · rcases mem_join tail with between | ⟨piece, among, inside⟩
    · exact List.mem_append_left _ between
    · obtain ⟨name, own, rfl⟩ := List.mem_map.mp among
      have below : name.text ∈ path.names.map Name.text := List.mem_map_of_mem (start.subset own)
      exact List.mem_append_right _ ((infix_join_of_mem below).subset inside)

end Path

namespace Workspace

def boundaryOf (space : Workspace) (directory : Path) : Boundary :=
  match space.repositoryRoot? directory with
  | some root => .repository root.toText
  | none => .directory directory.toText

def nowhere (call : String) (path : Path) : FileError := .failed .noEntry call (some path.toText)

/-- What a run can say of a scope that leads nowhere. -/
inductive Absent (space : Workspace) (directory scope : Path) : Failure → Prop where
  /-- The look-up does not end at a missing entry: it meets a file on its way, say, or goes round in links. -/
  | unresolved {error : FileError} (fails : space.canonical scope.toText = .error error)
      (other : error ≠ nowhere "realpath" scope) : Absent space directory scope (.file error)
  /-- The boundary is another one once links have been followed. -/
  | outside {around : Path} (fails : space.canonical scope.toText = .error (nowhere "realpath" scope))
      (bounds : space.Bounds directory around) (apart : ¬ around.names <+: scope.names) :
      Absent space directory scope (.outside (units "Scope") scope.toText (space.boundaryOf directory))
  | long {around : Path} (fails : space.canonical scope.toText = .error (nowhere "realpath" scope))
      (bounds : space.Bounds directory around) (inside : around.names <+: scope.names)
      (long : Tree.pathLimit ≤ (Utf8.encode scope.toText).length) :
      Absent space directory scope (.file (.failed .nameTooLong "stat" (some scope.toText)))
  | notFound {around : Path} (fails : space.canonical scope.toText = .error (nowhere "realpath" scope))
      (bounds : space.Bounds directory around) (inside : around.names <+: scope.names)
      (short : (Utf8.encode scope.toText).length < Tree.pathLimit) :
      Absent space directory scope (.corpusNotFound scope.toText)

section

variable {space : Workspace} {directory scope : Path} {failure other : Failure}

theorem Bounds.unique {around another : Path} (one : space.Bounds directory around)
    (two : space.Bounds directory another) : around = another := by
  rw [bounds_iff] at one two
  exact Except.ok.inj (one.symm.trans two)

theorem Absent.unique (one : space.Absent directory scope failure) (two : space.Absent directory scope other) :
    failure = other := by
  cases one with
  | unresolved fails apart =>
    cases two with
    | unresolved failsToo => rw [Except.error.inj (fails.symm.trans failsToo)]
    | outside failsToo | long failsToo | notFound failsToo =>
      exact absurd (Except.error.inj (fails.symm.trans failsToo)) apart
  | outside fails bounds apart =>
    cases two with
    | unresolved failsToo other => exact absurd (Except.error.inj (failsToo.symm.trans fails)) other
    | outside => rfl
    | long _ boundsToo inside | notFound _ boundsToo inside => exact absurd (bounds.unique boundsToo ▸ inside) apart
  | long fails bounds inside long =>
    cases two with
    | unresolved failsToo other => exact absurd (Except.error.inj (failsToo.symm.trans fails)) other
    | outside _ boundsToo apart => exact absurd (bounds.unique boundsToo ▸ inside) apart
    | long => rfl
    | notFound _ _ _ short => exact absurd long (Nat.not_le.mpr short)
  | notFound fails bounds inside short =>
    cases two with
    | unresolved failsToo other => exact absurd (Except.error.inj (failsToo.symm.trans fails)) other
    | outside _ boundsToo apart => exact absurd (bounds.unique boundsToo ▸ inside) apart
    | long _ _ _ long => exact absurd long (Nat.not_le.mpr short)
    | notFound => rfl

theorem naming_missing {α : Type} {call : String} {path : Path} {result : Except Code α} {error : FileError}
    (fails : naming call path.toText result = .error error) (missing : error.isMissing = true) :
    error = nowhere call path ∧ result = .error .noEntry := by
  rw [naming] at fails
  split at fails
  · cases fails
    cases missing
  · cases result with
    | ok value => cases fails
    | error code =>
      obtain rfl := Except.error.inj fails
      cases code with
      | noEntry => exact ⟨rfl, rfl⟩
      | _ => cases missing

theorem HasRepository.canonical {root : Path} (own : space.HasRepository root) :
    ∃ around, space.canonical root.toText = .ok around := by
  obtain ⟨node, there⟩ := own
  obtain ⟨place, reach, _⟩ := stat_found there
  have plain : root.toText.contains 0 = false := by
    rw [Bool.eq_false_iff, ne_eq, List.contains_iff_mem]
    intro zero
    have further : (0 : UInt16) ∈ (root.child repositoryName).toText :=
      Path.mem_toText_of_prefix (List.prefix_append _ _) zero
    exact Bool.eq_false_iff.mp (contains_of_naming there) (List.contains_iff_mem.mpr further)
  have way := (Corpus.resolve_of_find reach).2
  have split : (root.child repositoryName).repaired.names.map Name.text =
      root.repaired.names.map Name.text ++ [repositoryName.repaired.text] := by
    rw [Path.child_repaired]
    simp [Path.child]
  rw [Tree.resolve_toText, split] at way
  obtain ⟨around, leads⟩ := Tree.walk_directory space.tree true _ way
  refine ⟨around, ?_⟩
  rw [Workspace.canonical, Tree.resolve_toText, leads, naming, if_neg (Bool.eq_false_iff.mp plain)]
  rfl

theorem exists_bounds {node : Node} (stands : space.stat directory.toText = .ok node) :
    ∃ around, space.Bounds directory around := by
  have belongs := belongsTo_root space directory
  generalize (space.repositoryRoot? directory).getD directory = root at belongs
  cases belongs with
  | repository above own nearest =>
    obtain ⟨around, canonical⟩ := own.canonical
    exact ⟨around, _, .repository above own nearest, canonical⟩
  | alone none =>
    obtain ⟨around, _, canonical⟩ := stat_found stands
    exact ⟨around, _, .alone none, canonical⟩

theorem checkBoundary_eq {around : Path} (bounds : space.Bounds directory around) (path label : Text) :
    space.checkBoundary directory.toText path label = (do
      let place ← (space.canonicalOrGiven path).mapError .file
      if around.isWithin place then .ok () else .error (.outside label path (space.boundaryOf directory))) := by
  have canonical := bounds_iff.mp bounds
  rw [checkBoundary, Path.resolve_toText, boundaryOf]
  cases repository : space.repositoryRoot? directory with
  | none =>
    rw [repository, Option.getD_none] at canonical
    rw [canonicalOrGiven, canonical]
    rfl
  | some root =>
    rw [repository, Option.getD_some] at canonical
    rw [canonicalOrGiven, canonical]
    rfl

/-- A directory whose path goes through no link lies within its boundary as it is spelled. -/
theorem Bounds.above (wellFormed : space.tree.WellFormed) {around : Path} (bounds : space.Bounds directory around)
    (stands : space.stat directory.toText = .ok .directory) (own : space.canonical directory.toText = .ok directory) :
    around.names <+: directory.names := by
  obtain ⟨root, belongs, canonical⟩ := bounds
  have above : root.names <+: directory.names := by
    cases belongs with
    | repository above => exact above
    | alone => exact List.prefix_rfl
  obtain ⟨place, reach, leads⟩ := stat_found stands
  obtain rfl := Except.ok.inj (own.symm.trans leads)
  have settled := Tree.resolve_settled (Corpus.resolve_of_find reach).2
  have plain : ∀ target, Node.directory ≠ .link target := fun target same => by cases same
  obtain ⟨node, found⟩ := settled.resolve_above wellFormed plain above space.directory
  have free := contains_of_naming canonical
  rw [Workspace.canonical, found, naming, if_neg (Bool.eq_false_iff.mp free)] at canonical
  obtain rfl := Except.ok.inj canonical
  exact above

end

section

variable {space : Workspace} {options : RunOptions} {scope : Path} (refusals : RunRefusals) (plan : Plan)
  (means : RunMeans)

theorem canonicalOrGiven_error {error : FileError} (fails : space.canonical scope.toText = .error error) :
    space.canonicalOrGiven scope.toText = if error = nowhere "realpath" scope then .ok scope else .error error := by
  simp only [canonicalOrGiven, fails, Path.resolve_toText]
  by_cases missing : error.isMissing = true
  · rw [if_pos missing, if_pos (naming_missing fails missing).1]
  · have other : error ≠ nowhere "realpath" scope := by
      rintro rfl
      exact missing rfl
    rw [if_neg missing, if_neg other]

theorem collect_nowhere (fails : space.canonical scope.toText = .error (nowhere "realpath" scope))
    (refused : Text → Option Code) {selection : Corpus.Selection}
    (reads : (space.directory.resolve selection.directory).resolve selection.scope = scope) :
    Corpus.collectUnder refused space selection = .error (if Tree.pathLimit ≤ (Utf8.encode scope.toText).length then
      .file (.failed .nameTooLong "stat" (some scope.toText)) else .corpusNotFound scope.toText) := by
  have plain : ¬ scope.toText.contains 0 = true := by
    intro zero
    rw [Workspace.canonical, naming, if_pos zero] at fails
    cases fails
  have none := (naming_missing fails rfl).2
  have looked : space.tree.lookup space.directory true scope.toText =
      .error (if Tree.pathLimit ≤ (Utf8.encode scope.toText).length then .nameTooLong else .noEntry) := by
    rw [Tree.lookup, Tree.find]
    split
    · rfl
    · cases reach : space.tree.resolve space.directory true scope.toText with
      | error code =>
        rw [reach] at none
        cases none
        rfl
      | ok found =>
        rw [reach] at none
        cases found with
        | node place there => cases none
        | missing place => rfl
  rw [Corpus.collectUnder, reads, looked, naming, if_neg plain]
  by_cases long : Tree.pathLimit ≤ (Utf8.encode scope.toText).length
  · rw [if_pos long, if_pos long]
    rfl
  · rw [if_neg long, if_neg long]
    rfl

/-- A run on a scope that leads nowhere ends in one of these ways, and nothing has been done then. -/
theorem reviseCorpus_absent {around : Path} (bounds : space.Bounds (space.directoryOf options.directory) around)
    (vacant : ∀ place, space.canonical ((space.directoryOf options.directory).resolve options.scopeText).toText ≠
      .ok place) :
    ∃ failure, (space.reviseCorpusUnder refusals plan options means).2 = (⟨space, []⟩, .error failure) ∧
      space.Absent (space.directoryOf options.directory)
        ((space.directoryOf options.directory).resolve options.scopeText) failure := by
  have check := checkBoundary_eq bounds
    ((space.directoryOf options.directory).resolve options.scopeText).toText (units "Scope")
  cases fails : space.canonical ((space.directoryOf options.directory).resolve options.scopeText).toText with
  | ok place => exact absurd fails (vacant place)
  | error error =>
    rw [canonicalOrGiven_error fails] at check
    by_cases missing : error = nowhere "realpath" ((space.directoryOf options.directory).resolve options.scopeText)
    · subst missing
      rw [if_pos rfl] at check
      by_cases inside : around.isWithin ((space.directoryOf options.directory).resolve options.scopeText) = true
      · have passes := check.trans (if_pos inside)
        have read : (space.directory.resolve (space.directoryOf options.directory).toText).resolve options.scopeText =
            (space.directoryOf options.directory).resolve options.scopeText := by rw [Path.resolve_toText]
        refine ⟨_, reviseCorpusUnder_uncollected plan passes (collect_nowhere fails refusals.opening read), ?_⟩
        have within := Path.within_iff_prefix.mp inside
        split
        next long => exact .long fails bounds within long
        next short => exact .notFound fails bounds within (Nat.not_le.mp short)
      · refine ⟨_, reviseCorpusUnder_outside plan (check.trans (if_neg inside)), ?_⟩
        exact .outside fails bounds fun within => inside <| Path.within_iff_prefix.mpr within
    · rw [if_neg missing] at check
      exact ⟨_, reviseCorpusUnder_outside plan check, .unresolved fails missing⟩

/-- A run on a relative scope that leads nowhere, without steps back and from a directory that is there, fails and leaves
everything as it was. It says that the corpus is not there where the boundary, with links followed, is a beginning of
the scope as it was given, so always when the path of the directory goes through no link; elsewhere it says that the
scope is outside. A look-up that meets a file on its way, or cannot be made, is its own failure. -/
theorem reviseCorpus_nowhere (wellFormed : space.tree.WellFormed)
    (stands : space.stat (space.directoryOf options.directory).toText = .ok .directory)
    (relative : Path.isAbsolute options.scopeText = false) (onward : [dot, dot] ∉ split slash options.scopeText)
    (vacant : ∀ place, space.canonical ((space.directoryOf options.directory).resolve options.scopeText).toText ≠
      .ok place) :
    ∃ failure, (space.reviseCorpusUnder refusals plan options means).2 = (⟨space, []⟩, .error failure) ∧
      (∀ other, space.Absent (space.directoryOf options.directory)
        ((space.directoryOf options.directory).resolve options.scopeText) other ↔ failure = other) ∧
      (space.canonical (space.directoryOf options.directory).toText = .ok (space.directoryOf options.directory) →
        space.canonical ((space.directoryOf options.directory).resolve options.scopeText).toText =
          .error (nowhere "realpath" ((space.directoryOf options.directory).resolve options.scopeText)) →
        (Utf8.encode ((space.directoryOf options.directory).resolve options.scopeText).toText).length <
          Tree.pathLimit →
        failure.message .plain = units "Corpus not found: " ++
          ((space.directoryOf options.directory).resolve options.scopeText).toText) := by
  obtain ⟨around, bounds⟩ := exists_bounds stands
  obtain ⟨failure, stopped, absent⟩ := reviseCorpus_absent refusals plan means bounds vacant
  refine ⟨failure, stopped, fun other => ⟨absent.unique, fun same => same ▸ absent⟩, ?_⟩
  intro own fails short
  have inside := (bounds.above wellFormed stands own).trans (Path.resolve_below _ relative onward)
  obtain rfl := absent.unique (.notFound fails bounds inside short)
  rfl

private def vacantSpace : Workspace :=
  ⟨⟨[(.ofText (units "/d"), .directory), (.ofText (units "/k"), .link (units "d"))]⟩, .root⟩

private def vacantOptions (directory : String) : RunOptions :=
  ⟨[], [], some (units "gone"), some (units directory), false, none, none, none, none, none⟩

private def vacantMeans : RunMeans :=
  ⟨⟨[], [], [], [], [], [], fun _ => []⟩, .silent, .turns, fun _ => units "0a-1f", .zero⟩

private theorem vacantSpace_wellFormed : vacantSpace.tree.WellFormed := ⟨by decide +kernel, by decide +kernel⟩

/-- From the directory a run says that the corpus is not there; from the link it cannot say so. -/
theorem reviseCorpus_nowhere_linked :
    (∃ failure, (vacantSpace.reviseCorpus ⟨[], []⟩ (vacantOptions "d") vacantMeans).2 =
        (⟨vacantSpace, []⟩, .error failure) ∧ failure.message .plain = units "Corpus not found: /d/gone") ∧
      ∃ failure, (vacantSpace.reviseCorpus ⟨[], []⟩ (vacantOptions "k") vacantMeans).2 =
        (⟨vacantSpace, []⟩, .error failure) ∧
      failure.message .plain = units "Scope resolves outside cwd: scope=/k/gone cwd=/k." := by
  have vacant : ∀ place, vacantSpace.canonical
      ((vacantSpace.directoryOf (vacantOptions "d").directory).resolve (vacantOptions "d").scopeText).toText ≠
        .ok place := by
    have fails : (vacantSpace.canonical (units "/d/gone")).toBool = false := by decide +kernel
    intro place leads
    cases (congrArg Except.toBool leads).symm.trans fails
  have vacantToo : ∀ place, vacantSpace.canonical
      ((vacantSpace.directoryOf (vacantOptions "k").directory).resolve (vacantOptions "k").scopeText).toText ≠
        .ok place := by
    have fails : (vacantSpace.canonical (units "/k/gone")).toBool = false := by decide +kernel
    intro place leads
    cases (congrArg Except.toBool leads).symm.trans fails
  constructor
  · obtain ⟨failure, stopped, _, found⟩ := reviseCorpus_nowhere .none ⟨[], []⟩ vacantMeans vacantSpace_wellFormed
      (by decide +kernel) (by decide) (by decide) vacant
    exact ⟨failure, stopped, found (by decide +kernel) (by decide +kernel) (by decide +kernel)⟩
  · obtain ⟨failure, stopped, absent, _⟩ := reviseCorpus_nowhere .none ⟨[], []⟩ vacantMeans vacantSpace_wellFormed
      (by decide +kernel) (by decide) (by decide) vacantToo
    refine ⟨failure, stopped, ?_⟩
    have around : vacantSpace.Bounds (vacantSpace.directoryOf (vacantOptions "k").directory) (.ofText (units "/d")) :=
      bounds_iff.mpr (by decide +kernel)
    obtain rfl := (absent _).mp (.outside (by decide +kernel) around (by decide +kernel))
    decide +kernel

/-- The directory is there and the scope below it leads nowhere, and yet a run from the link to the directory does not
say so. -/
theorem reviseCorpus_mistaken :
    vacantSpace.tree.WellFormed ∧
      vacantSpace.stat (vacantSpace.directoryOf (vacantOptions "k").directory).toText = .ok .directory ∧
      Path.isAbsolute (vacantOptions "k").scopeText = false ∧ [dot, dot] ∉ split slash (vacantOptions "k").scopeText ∧
      vacantSpace.canonical (units "/k/gone") =
        .error (.failed .noEntry "realpath" (some (units "/k/gone"))) ∧
      ((vacantSpace.reviseCorpus ⟨[], []⟩ (vacantOptions "k") vacantMeans).2.2.map fun _ => ()) =
        .error (.outside (units "Scope") (units "/k/gone") (.directory (units "/k"))) :=
  ⟨vacantSpace_wellFormed, by decide +kernel, by decide, by decide, by decide +kernel, by decide +kernel⟩

end

end Workspace

end Emend
