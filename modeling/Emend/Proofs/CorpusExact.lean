import Emend.Proofs.AlikeCorpora
import Emend.Proofs.CanonicalPlaces

/-! Which files a corpus has, and in which order. A walk meets each file that is below its scope, and not below a
directory of an excluded name or behind a link, and it meets them in the order of their names. Nothing is collected if
a directory on the way cannot be opened. -/

namespace Emend

open Text FileError

def Path.below (path : Path) (names : List Name) : Path := ⟨path.names ++ names⟩

theorem Path.below_cons (path : Path) (name : Name) (names : List Name) :
    path.below (name :: names) = (path.child name).below names := by
  simp [below, child]

theorem Path.below_nil (path : Path) : path.below [] = path := congrArg mk (List.append_nil _)

namespace Corpus

/-- There are directories all the way down from a place, and the names of those below it are not excluded. -/
structure Enters (tree : Tree) (selection : Selection) (place : Path) (names : List Name) : Prop where
  standing : ∀ front, front <+: names → tree.get? (place.below front) = some .directory
  entered : ∀ name ∈ names, name.text ∉ selection.skipped

/-- A file stands below a place, in a directory that is entered, and its extension is one of those asked for. -/
structure Belongs (tree : Tree) (selection : Selection) (place : Path) (names : List Name) (name : Name) : Prop where
  enters : Enters tree selection place names
  file : ∃ bytes mode, tree.get? (place.below (names ++ [name])) = some (.file bytes mode)
  wanted : toLower (extension name.text) ∈ selection.wanted

section

variable {tree : Tree} {selection : Selection} {place shown : Path} {name last : Name} {names : List Name}

theorem Enters.start (enters : Enters tree selection place names) : tree.get? place = some .directory := by
  simpa [Path.below_nil] using enters.standing [] List.nil_prefix

theorem enters_nil : Enters tree selection place [] ↔ tree.get? place = some .directory := by
  constructor
  · exact Enters.start
  · intro standing
    refine ⟨fun front start => ?_, fun _ none => nomatch none⟩
    rwa [List.prefix_nil.mp start, Path.below_nil]

theorem enters_cons : Enters tree selection place (name :: names) ↔
    tree.get? place = some .directory ∧ name.text ∉ selection.skipped ∧
      Enters tree selection (place.child name) names := by
  constructor
  · intro enters
    refine ⟨enters.start, enters.entered name List.mem_cons_self, fun front start => ?_,
      fun other member => enters.entered other (List.mem_cons_of_mem _ member)⟩
    rw [← Path.below_cons]
    exact enters.standing (name :: front) (List.cons_prefix_cons.mpr ⟨rfl, start⟩)
  · rintro ⟨standing, own, enters⟩
    refine ⟨fun front start => ?_, List.forall_mem_cons.mpr ⟨own, enters.entered⟩⟩
    rcases List.prefix_cons_iff.mp start with rfl | ⟨rest, rfl, further⟩
    · rwa [Path.below_nil]
    · rw [Path.below_cons]
      exact enters.standing rest further

theorem belongs_nil : Belongs tree selection place [] last ↔
    tree.get? place = some .directory ∧ (∃ bytes mode, tree.get? (place.child last) = some (.file bytes mode)) ∧
      toLower (extension last.text) ∈ selection.wanted := by
  constructor
  · intro ⟨enters, file, wanted⟩
    exact ⟨enters_nil.mp enters, file, wanted⟩
  · intro ⟨standing, file, wanted⟩
    exact ⟨enters_nil.mpr standing, file, wanted⟩

theorem belongs_cons : Belongs tree selection place (name :: names) last ↔
    tree.get? place = some .directory ∧ name.text ∉ selection.skipped ∧
      Belongs tree selection (place.child name) names last := by
  have same : place.below (name :: names ++ [last]) = (place.child name).below (names ++ [last]) :=
    place.below_cons name (names ++ [last])
  constructor
  · intro ⟨enters, file, wanted⟩
    obtain ⟨standing, own, enters⟩ := enters_cons.mp enters
    exact ⟨standing, own, enters, same ▸ file, wanted⟩
  · intro ⟨standing, own, enters, file, wanted⟩
    exact ⟨enters_cons.mpr ⟨standing, own, enters⟩, same ▸ file, wanted⟩

theorem mem_entryFiles_iff {fuel : Nat} {node : Node} {file : Path} :
    file ∈ entryFiles tree selection fuel place shown (name, node) ↔
      (node = .directory ∧ name.text ∉ selection.skipped ∧
        file ∈ walk tree selection fuel (place.child name) (shown.child name)) ∨
      ((∃ bytes mode, node = .file bytes mode) ∧ toLower (extension name.text) ∈ selection.wanted ∧
        file = shown.child name) := by
  cases node with
  | directory => simp [entryFiles]
  | file bytes mode => simp [entryFiles, Selection.accepts]
  | link target | pipe => simp [entryFiles]

end

section Walking

variable {refused : Text → Option Code} {tree : Tree} (wellFormed : tree.WellFormed) {selection : Selection} {fuel : Nat}
  {place shown : Path}

include wellFormed

theorem length_le_depth {path : Path} {node : Node} (there : tree.get? path = some node) :
    path.names.length ≤ depth tree :=
  (depth_le_iff wellFormed).mp (Nat.le_refl _) path (by rw [there]; rfl)

/-- By induction on how deep the walk may go. It may go deeper than the tree is, so it ends at no directory. -/
theorem mem_walk_iff (standing : tree.get? place = some .directory) (room : depth tree < fuel + place.names.length)
    {file : Path} : file ∈ walk tree selection fuel place shown ↔
      ∃ names last, file = shown.below (names ++ [last]) ∧ Belongs tree selection place names last := by
  induction fuel generalizing place shown with
  | zero =>
    have within := length_le_depth wellFormed standing
    omega
  | succ fuel ih =>
    have deeper (name : Name) : depth tree < fuel + (place.child name).names.length := by
      rw [Path.child, List.length_append, List.length_singleton]
      omega
    rw [walk_succ, List.mem_flatMap]
    constructor
    · rintro ⟨⟨name, node⟩, member, inside⟩
      have there := (Tree.mem_list_iff wellFormed).mp member
      rcases mem_entryFiles_iff.mp inside with ⟨rfl, own, further⟩ | ⟨⟨bytes, mode, rfl⟩, wanted, rfl⟩
      · obtain ⟨names, last, rfl, belongs⟩ := (ih there (deeper name)).mp further
        exact ⟨name :: names, last, (shown.below_cons name _).symm, belongs_cons.mpr ⟨standing, own, belongs⟩⟩
      · exact ⟨[], name, rfl, belongs_nil.mpr ⟨standing, ⟨bytes, mode, there⟩, wanted⟩⟩
    · rintro ⟨names, last, rfl, belongs⟩
      cases names with
      | nil =>
        obtain ⟨_, ⟨bytes, mode, there⟩, wanted⟩ := belongs_nil.mp belongs
        exact ⟨(last, .file bytes mode), (Tree.mem_list_iff wellFormed).mpr there,
          mem_entryFiles_iff.mpr (.inr ⟨⟨bytes, mode, rfl⟩, wanted, rfl⟩)⟩
      | cons name names =>
        obtain ⟨_, own, belongs⟩ := belongs_cons.mp belongs
        have there := belongs.enters.start
        exact ⟨(name, .directory), (Tree.mem_list_iff wellFormed).mpr there, mem_entryFiles_iff.mpr
          (.inl ⟨rfl, own, (ih there (deeper name)).mpr ⟨names, last, shown.below_cons name _, belongs⟩⟩)⟩

omit wellFormed in
theorem entryFiles_names {entry : Name × Node} {file : Path}
    (member : file ∈ entryFiles tree selection fuel place shown entry) :
    ∃ rest, file.names = shown.names ++ entry.1 :: rest := by
  induction fuel generalizing place shown entry with
  | zero =>
    obtain ⟨name, node⟩ := entry
    rcases mem_entryFiles_iff.mp member with ⟨_, _, further⟩ | ⟨_, _, rfl⟩
    · rw [walk] at further
      cases further
    · exact ⟨[], rfl⟩
  | succ fuel ih =>
    obtain ⟨name, node⟩ := entry
    rcases mem_entryFiles_iff.mp member with ⟨_, _, further⟩ | ⟨_, _, rfl⟩
    · rw [walk_succ, List.mem_flatMap] at further
      obtain ⟨other, _, inside⟩ := further
      obtain ⟨rest, names⟩ := ih inside
      exact ⟨other.1 :: rest, by rw [names, Path.child, List.append_assoc]; rfl⟩
    · exact ⟨[], rfl⟩

theorem list_increasing (directory : Path) :
    (tree.list directory).Pairwise fun a b => a.1.text < b.1.text := by
  refine ((Tree.list_sorted tree directory).and (list_names_nodup wellFormed directory)).imp ?_
  rintro a b ⟨order, apart⟩
  exact (List.le_iff_lt_or_eq.mp order).resolve_right fun same => apart (Name.ext same)

/-- A walk goes through the files in the order of their names, from the first name on. -/
theorem walk_increasing (fuel : Nat) (place shown : Path) : (walk tree selection fuel place shown).Pairwise
    fun a b => a.names.map Name.text < b.names.map Name.text := by
  induction fuel generalizing place shown with
  | zero =>
    rw [walk]
    exact .nil
  | succ fuel ih =>
    rw [walk_succ, List.pairwise_flatMap]
    constructor
    · rintro ⟨name, node⟩ _
      cases node with
      | directory =>
        simp only [entryFiles]
        split
        · exact .nil
        · exact ih _ _
      | file bytes mode =>
        simp only [entryFiles]
        split
        · exact List.pairwise_singleton _ _
        · exact .nil
      | link target | pipe => exact .nil
    · refine (list_increasing wellFormed place).imp fun {a b} order => ?_
      intro file member other memberToo
      obtain ⟨rest, names⟩ := entryFiles_names member
      obtain ⟨restToo, namesToo⟩ := entryFiles_names memberToo
      rw [names, namesToo, List.map_append, List.map_append, List.map_cons, List.map_cons]
      exact List.append_left_lt (List.cons_lt_cons_iff.mpr (.inl order))

theorem enters_of_unopened? (standing : tree.get? place = some .directory) {directory : Path} {code : Code}
    (found : unopened? refused tree selection fuel place shown = some (directory, code)) :
    ∃ names, directory = shown.below names ∧ Enters tree selection place names ∧
      shut? refused directory = some code := by
  induction fuel generalizing place shown with
  | zero =>
    rw [unopened?] at found
    cases found
  | succ fuel ih =>
    rw [unopened?] at found
    split at found
    next shut =>
      obtain ⟨rfl, rfl⟩ := Prod.mk.inj (Option.some.inj found)
      exact ⟨[], shown.below_nil.symm, enters_nil.mpr standing, shut⟩
    next =>
      obtain ⟨⟨name, node⟩, member, inside⟩ := List.exists_of_findSome?_eq_some found
      have there := (Tree.mem_list_iff wellFormed).mp member
      cases node with
      | directory =>
        simp only at inside
        split at inside
        · cases inside
        next own =>
          obtain ⟨names, rfl, enters, shut⟩ := ih there inside
          rw [List.contains_iff_mem] at own
          exact ⟨name :: names, (shown.below_cons name names).symm, enters_cons.mpr ⟨standing, own, enters⟩, shut⟩
      | file bytes mode | link target | pipe => cases inside

/-- Where everything that a walk meets can be opened, so can each directory that is entered. -/
theorem opens_of_unopened? (room : depth tree < fuel + place.names.length)
    (none : unopened? refused tree selection fuel place shown = none) {names : List Name}
    (enters : Enters tree selection place names) : shut? refused (shown.below names) = .none := by
  induction fuel generalizing place shown names with
  | zero =>
    have within := length_le_depth wellFormed enters.start
    omega
  | succ fuel ih =>
    rw [unopened?] at none
    split at none
    next => cases none
    next opens =>
      cases names with
      | nil =>
        rw [Path.below_nil]
        exact opens
      | cons name names =>
        obtain ⟨_, own, enters⟩ := enters_cons.mp enters
        have member := (Tree.mem_list_iff wellFormed).mpr enters.start
        have inside := List.findSome?_eq_none_iff.mp none _ member
        simp only [List.contains_iff_mem, if_neg own] at inside
        rw [Path.below_cons]
        exact ih (by rw [Path.child, List.length_append, List.length_singleton]; omega) inside enters

end Walking

end Corpus

namespace Tree

variable {tree : Tree} {entries : List (Path × Node)}

theorem WellFormed.perm (wellFormed : tree.WellFormed) (same : entries.Perm tree.entries) :
    (Tree.mk entries).WellFormed where
  once := (same.map Prod.fst).nodup_iff.mpr wellFormed.once
  named entry member := wellFormed.named entry (same.mem_iff.mp member)

theorem get?_perm (wellFormed : tree.WellFormed) (same : entries.Perm tree.entries) (path : Path) :
    (Tree.mk entries).get? path = tree.get? path := by
  by_cases top : path = .root
  · rw [top, get?_root, get?_root]
  · rw [get?_of_ne _ top, get?_of_ne _ top]
    have own := (wellFormed.perm same).once
    cases found : tree.entries.lookup path with
    | none =>
      rw [lookup_eq_none_iff_not_mem] at found ⊢
      exact fun member => found ((same.map Prod.fst).mem_iff.mp member)
    | some node =>
      exact lookup_of_mem own (same.mem_iff.mpr (pair_mem_of_lookup found))

end Tree

namespace Corpus

theorem resolve_scope {space : Workspace} {shown place : Path} (scope : space.stat shown.toText = .ok .directory)
    (leads : space.canonical shown.toText = .ok place) :
    space.tree.resolve space.directory true shown.toText = .ok (.node place .directory) ∧
      Workspace.naming "stat" shown.toText (space.tree.lookup space.directory true shown.toText) =
        .ok (place, .directory) := by
  have looked := naming_eq_ok scope
  have ends := naming_eq_ok leads
  cases found : space.tree.lookup space.directory true shown.toText with
  | error code =>
    rw [found] at looked
    cases looked
  | ok there =>
    obtain ⟨other, node⟩ := there
    rw [found] at looked
    obtain rfl : node = .directory := Except.ok.inj looked
    have resolved := (resolve_of_find (find_of_lookup found)).2
    rw [resolved] at ends
    obtain rfl : other = place := Except.ok.inj ends
    refine ⟨resolved, ?_⟩
    rw [Workspace.stat, Workspace.naming] at scope
    split at scope
    · cases scope
    next plain => rw [Workspace.naming, if_neg plain, Except.mapError]

section

variable {refused : Text → Option Code} {space : Workspace} (wellFormed : space.tree.WellFormed) {selection : Selection}
  {shown place : Path} (resolved : (space.directory.resolve selection.directory).resolve selection.scope = shown)
  (scope : space.stat shown.toText = .ok .directory) (leads : space.canonical shown.toText = .ok place)

include resolved scope leads

theorem collect_directory : collectUnder refused space selection =
    match unopened? refused space.tree selection (depth space.tree + 1) place shown with
    | some (directory, code) => .error (.file (.failed code "opendir" (some directory.toText)))
    | none => .ok (walk space.tree selection (depth space.tree + 1) place shown) := by
  have met := (resolve_scope scope leads).2
  cases found : unopened? refused space.tree selection (depth space.tree + 1) place shown with
  | none => simp only [collectUnder, resolved, met, found]
  | some unopened => simp only [collectUnder, resolved, met, found]

include wellFormed

theorem collect_opened
    (opens : ∀ names, Enters space.tree selection place names → shut? refused (shown.below names) = none) :
    ∃ files, collectUnder refused space selection = .ok files ∧
      (∀ file, file ∈ files ↔
        ∃ names last, file = shown.below (names ++ [last]) ∧ Belongs space.tree selection place names last) ∧
      files.Nodup ∧ files.Pairwise fun a b => a.names.map Name.text < b.names.map Name.text := by
  have collects := @collect_directory refused space selection shown place resolved scope leads
  have standing := (Tree.resolve_settled (resolve_scope scope leads).1).standing
  have opened : unopened? refused space.tree selection (depth space.tree + 1) place shown = none := by
    rw [Option.eq_none_iff_forall_not_mem]
    rintro ⟨directory, code⟩ found
    obtain ⟨names, rfl, enters, shut⟩ := enters_of_unopened? wellFormed standing found
    cases (opens names enters).symm.trans shut
  rw [opened] at collects
  have increasing : (walk space.tree selection (depth space.tree + 1) place shown).Pairwise fun a b =>
      a.names.map Name.text < b.names.map Name.text := walk_increasing wellFormed (depth space.tree + 1) place shown
  refine ⟨_, collects, fun file => mem_walk_iff wellFormed standing (by omega), increasing.imp ?_, increasing⟩
  rintro file _ less rfl
  exact List.lt_irrefl _ less

theorem collect_unopened {names : List Name} (enters : Enters space.tree selection place names)
    (shut : shut? refused (shown.below names) ≠ none) :
    ∃ names code, Enters space.tree selection place names ∧ shut? refused (shown.below names) = some code ∧
      collectUnder refused space selection = .error (.file (.failed code "opendir" (some (shown.below names).toText))) := by
  have collects := @collect_directory refused space selection shown place resolved scope leads
  have standing := (Tree.resolve_settled (resolve_scope scope leads).1).standing
  cases found : unopened? refused space.tree selection (depth space.tree + 1) place shown with
  | none => exact absurd (opens_of_unopened? wellFormed (by omega) found enters) shut
  | some unopened =>
    obtain ⟨directory, code⟩ := unopened
    rw [found] at collects
    obtain ⟨others, rfl, entersToo, shutToo⟩ := enters_of_unopened? wellFormed standing found
    exact ⟨others, code, entersToo, shutToo, collects⟩

end

theorem collect_perm {space : Workspace} (wellFormed : space.tree.WellFormed) {entries : List (Path × Node)}
    (same : entries.Perm space.tree.entries) (refused : Text → Option Code) (selection : Selection) :
    collectUnder refused ⟨⟨entries⟩, space.directory⟩ selection = collectUnder refused space selection := by
  have alike : space.tree.Alike ⟨entries⟩ := fun path => by rw [Tree.get?_perm wellFormed same]
  exact @collect_alike space ⟨⟨entries⟩, space.directory⟩ alike wellFormed (wellFormed.perm same) rfl refused selection

/-- Which files are collected below a scope that is a directory. If each directory that is entered can be opened, its path
not being too long and the system not refusing it, they are the files that belong to the scope, each of them once, and
they come in the order of their names, component by component. If one cannot, this is reported, and nothing is collected.
Either way the order in which the file system lists its entries makes no difference. -/
theorem collect_exact {space : Workspace} (wellFormed : space.tree.WellFormed) {selection : Selection}
    {shown place : Path} (resolved : (space.directory.resolve selection.directory).resolve selection.scope = shown)
    (scope : space.stat shown.toText = .ok .directory) (leads : space.canonical shown.toText = .ok place)
    (refused : Text → Option Code) :
    ((∀ names, Enters space.tree selection place names → shut? refused (shown.below names) = none) →
      ∃ files, collectUnder refused space selection = .ok files ∧
        (∀ file, file ∈ files ↔
          ∃ names last, file = shown.below (names ++ [last]) ∧ Belongs space.tree selection place names last) ∧
        files.Nodup ∧ files.Pairwise fun a b => a.names.map Name.text < b.names.map Name.text) ∧
      (∀ names, Enters space.tree selection place names → shut? refused (shown.below names) ≠ none →
        ∃ names code, Enters space.tree selection place names ∧ shut? refused (shown.below names) = some code ∧
          collectUnder refused space selection =
            .error (.file (.failed code "opendir" (some (shown.below names).toText)))) ∧
      ∀ entries, entries.Perm space.tree.entries →
        collectUnder refused ⟨⟨entries⟩, space.directory⟩ selection = collectUnder refused space selection :=
  ⟨collect_opened wellFormed resolved scope leads, fun _ => collect_unopened wellFormed resolved scope leads,
    fun _ same => collect_perm wellFormed same refused selection⟩

/-- A directory with files in it and below it, whose names are prefixes of one another, an excluded one, a link and a
pipe. -/
private def mixedSpace : Workspace :=
  ⟨⟨[(.ofText (units "/s"), .directory), (.ofText (units "/s/a"), .directory),
    (.ofText (units "/s/a.ts"), .file [] 0o644), (.ofText (units "/s/l.ts"), .link (units "a.ts")),
    (.ofText (units "/s/out"), .directory), (.ofText (units "/s/p.ts"), .pipe),
    (.ofText (units "/s/a/b.TS"), .file [] 0o644), (.ofText (units "/s/out/c.ts"), .file [] 0o644)]⟩, .root⟩

private def mixedSelection : Selection := ⟨units "/", units "s", some [units " TS"], none⟩

private def mixedScope : Path := .ofText (units "/s")

private def mixedFiles : List Path := [.ofText (units "/s/a/b.TS"), .ofText (units "/s/a.ts")]

private def mixedRefused (directory : Text) : Option Code :=
  if directory = units "/s/out" then some .accessDenied else none

theorem collect_exact_mixed :
    mixedSpace.tree.WellFormed ∧
      (mixedSpace.directory.resolve mixedSelection.directory).resolve mixedSelection.scope = mixedScope ∧
      mixedSpace.stat mixedScope.toText = .ok .directory ∧ mixedSpace.canonical mixedScope.toText = .ok mixedScope ∧
      (∀ names, Enters mixedSpace.tree mixedSelection mixedScope names →
        shut? mixedRefused (mixedScope.below names) = none) ∧
      collectUnder mixedRefused mixedSpace mixedSelection = .ok mixedFiles ∧
      (∀ file, file ∈ mixedFiles ↔ ∃ names last, file = mixedScope.below (names ++ [last]) ∧
        Belongs mixedSpace.tree mixedSelection mixedScope names last) ∧
      mixedFiles.Nodup ∧ mixedFiles.Pairwise (fun a b => a.names.map Name.text < b.names.map Name.text) ∧
      collectUnder mixedRefused ⟨⟨mixedSpace.tree.entries.reverse⟩, .root⟩ mixedSelection = .ok mixedFiles := by
  have wellFormed : mixedSpace.tree.WellFormed := ⟨by decide +kernel, by decide +kernel⟩
  have resolved : (mixedSpace.directory.resolve mixedSelection.directory).resolve mixedSelection.scope = mixedScope := by
    decide +kernel
  have scope : mixedSpace.stat mixedScope.toText = .ok .directory := by decide +kernel
  have leads : mixedSpace.canonical mixedScope.toText = .ok mixedScope := by decide +kernel
  -- a sort does not compute: what it leaves in place is a lemma
  have above : mixedSpace.tree.list mixedScope =
      [(⟨units "a", rfl⟩, .directory), (⟨units "a.ts", rfl⟩, .file [] 0o644), (⟨units "l.ts", rfl⟩, .link (units "a.ts")),
        (⟨units "out", rfl⟩, .directory), (⟨units "p.ts", rfl⟩, .pipe)] :=
    List.mergeSort_of_pairwise (by decide +kernel)
  have below : mixedSpace.tree.list (mixedScope.child ⟨units "a", rfl⟩) = [(⟨units "b.TS", rfl⟩, .file [] 0o644)] :=
    List.mergeSort_of_pairwise (by decide +kernel)
  have excluded : mixedSelection.skipped.contains (units "out") = true := by decide +kernel
  have entered : mixedSelection.skipped.contains (units "a") = false := by decide +kernel
  have opened : unopened? mixedRefused mixedSpace.tree mixedSelection (depth mixedSpace.tree + 1) mixedScope mixedScope =
      none := by
    have open₀ : shut? mixedRefused mixedScope = none := by decide +kernel
    have open₁ : shut? mixedRefused (mixedScope.child ⟨units "a", rfl⟩) = none := by decide +kernel
    rw [show depth mixedSpace.tree = 3 by decide +kernel]
    simp only [unopened?, open₀, open₁, above, below, List.findSome?, excluded, entered]
    decide +kernel
  have opens : ∀ names, Enters mixedSpace.tree mixedSelection mixedScope names →
      shut? mixedRefused (mixedScope.below names) = none := fun _ =>
    opens_of_unopened? wellFormed (by omega) opened
  have collected : collectUnder mixedRefused mixedSpace mixedSelection = .ok mixedFiles := by
    rw [collect_directory resolved scope leads, opened, show depth mixedSpace.tree = 3 by decide +kernel]
    simp only [walk, above, below, List.flatMap_cons, List.flatMap_nil, excluded, entered]
    decide +kernel
  obtain ⟨collects, _, anyOrder⟩ := collect_exact wellFormed resolved scope leads mixedRefused
  obtain ⟨files, same, members, once, increasing⟩ := collects opens
  obtain rfl := Except.ok.inj (collected.symm.trans same)
  exact ⟨wellFormed, resolved, scope, leads, opens, collected, members, once, increasing,
    (anyOrder _ (List.reverse_perm _)).trans collected⟩

private def longName (u : UInt16) (plain : Name.isValid (List.replicate Tree.nameLimit u) = true) : Name := ⟨_, plain⟩

private def deepName : Name := longName 0x64 (by decide +kernel)

private def linkName : Name := longName 0x6C (by decide +kernel)

private def deepPlace : Path := ⟨[⟨units "s", by decide⟩]⟩

private def deepFile : Name := ⟨units "f.ts", by decide⟩

/-- Directories in one another, with a file in the last one, and beside the first one a link to it. -/
private def deepSpace : Workspace :=
  ⟨⟨[(⟨[linkName]⟩, .link (units "s")), (deepPlace.below (List.replicate 15 deepName ++ [deepFile]), .file [] 0o644)] ++
    (List.range 16).map fun depth => (deepPlace.below (List.replicate depth deepName), .directory)⟩, .root⟩

private def deepSelection : Selection := ⟨units "/", linkName.text, none, none⟩

private theorem length_deepPath (depth : Nat) :
    (Utf8.encode ((Path.mk [linkName]).below (List.replicate depth deepName)).toText).length = 256 * (depth + 1) := by
  induction depth with
  | zero => decide +kernel
  | succ depth ih =>
    have further : (Path.mk [linkName]).below (List.replicate (depth + 1) deepName) =
        ((Path.mk [linkName]).below (List.replicate depth deepName)).child deepName := by
      rw [List.replicate_succ']
      rfl
    have ascii : ∀ u ∈ slash :: deepName.text, u.toNat < 0x80 := by
      intro u inside
      rcases List.mem_cons.mp inside with rfl | repeated
      · decide
      · rw [List.eq_of_mem_replicate repeated]
        decide
    rw [further, Path.toText_child_of_ne_root (by simp [Path.below, Path.root]), Utf8.length_encode_append _ ascii, ih]
    have long : (slash :: deepName.text).length = 256 := by decide +kernel
    omega

/-- The file belongs to the scope, but the path of its directory, which goes on from the link, is too long. -/
theorem collect_too_deep :
    deepSpace.tree.WellFormed ∧
      (deepSpace.directory.resolve deepSelection.directory).resolve deepSelection.scope = ⟨[linkName]⟩ ∧
      deepSpace.stat (Path.mk [linkName]).toText = .ok .directory ∧
      deepSpace.canonical (Path.mk [linkName]).toText = .ok deepPlace ∧
      Belongs deepSpace.tree deepSelection deepPlace (List.replicate 15 deepName) deepFile ∧
      ∃ directory, collect deepSpace deepSelection = .error (.file (.failed .nameTooLong "opendir" (some directory))) := by
  have wellFormed : deepSpace.tree.WellFormed := by
    constructor
    · -- paths of one length differ in the length of their first names
      apply List.Nodup.of_map fun path : Path => (path.names.length, path.names.head?.map (·.text.length))
      decide +kernel
    · decide +kernel
  have there {path : Path} {node : Node} (below : path ≠ .root) (member : (path, node) ∈ deepSpace.tree.entries) :
      deepSpace.tree.get? path = some node :=
    (Tree.get?_of_ne _ below).trans (lookup_of_mem wellFormed.once member)
  have resolved : (deepSpace.directory.resolve deepSelection.directory).resolve deepSelection.scope = ⟨[linkName]⟩ := by
    decide +kernel
  have scope : deepSpace.stat (Path.mk [linkName]).toText = .ok .directory := by decide +kernel
  have leads : deepSpace.canonical (Path.mk [linkName]).toText = .ok deepPlace := by decide +kernel
  have enters : Enters deepSpace.tree deepSelection deepPlace (List.replicate 15 deepName) := by
    refine ⟨fun front start => there (by simp [deepPlace, Path.below, Path.root]) ?_, ?_⟩
    · obtain ⟨within, same⟩ := List.prefix_replicate_iff.mp start
      exact List.mem_append_right _ (List.mem_map.mpr ⟨front.length, List.mem_range.mpr (by omega), by rw [← same]⟩)
    · rintro name member
      rw [List.eq_of_mem_replicate member]
      decide +kernel
  have long : Tree.pathLimit ≤
      (Utf8.encode ((Path.mk [linkName]).below (List.replicate 15 deepName)).toText).length :=
    Nat.le_of_eq (length_deepPath 15).symm
  have shut : shut? (fun _ => none) ((Path.mk [linkName]).below (List.replicate 15 deepName)) ≠ none := by
    rw [shut?, if_pos long]
    exact Option.some_ne_none _
  obtain ⟨names, code, _, why, failed⟩ := collect_unopened wellFormed resolved scope leads enters shut
  obtain rfl : code = .nameTooLong := by
    rw [shut?] at why
    split at why
    · exact (Option.some.inj why).symm
    · cases why
  refine ⟨wellFormed, resolved, scope, leads, ⟨enters, ⟨[], 0o644, ?_⟩, by decide +kernel⟩, _, failed⟩
  exact there (by simp [deepPlace, Path.below, Path.root]) (List.mem_append_left _ (by simp))

end Corpus

end Emend
