import Emend.Proofs.RevisionAlone
import Emend.Proofs.RunOrder

/-! How the files of a corpus lie in the tree: each has a place of its own, or there is a single one, to which a link
leads. Either way every file of a run ends as it does alone, so what comes of the run can be told from reading its
files beforehand. -/

namespace Emend

open Text FileError

/-- A path names a link, and that leads to a file. -/
structure Workspace.Linked (space : Workspace) (path entry place : Path) : Prop where
  link : ∃ target, space.tree.find space.directory false path.toText = .ok (.node entry (.link target))
  file : ∃ bytes mode, space.tree.find space.directory true path.toText = .ok (.node place (.file bytes mode))

theorem Workspace.Linked.site {space : Workspace} {path entry place : Path} (linked : space.Linked path entry place) :
    Site space.tree path entry ∧ path.isLong = false ∧ ∃ target, space.tree.get? entry = some (.link target) := by
  obtain ⟨target, link⟩ := linked.link
  obtain ⟨bytes, mode, found⟩ := linked.file
  obtain ⟨own, site, short, _⟩ := Corpus.exists_site found
  rw [site.find (.refl space.tree) space.directory false (fun follow => by cases follow), short] at link
  have ends : space.tree.endAt own = .node entry (.link target) := Except.ok.inj link
  obtain rfl : own = entry := (space.tree.endAt_place own).symm.trans (congrArg Tree.Found.place ends)
  exact ⟨site, short, target, Tree.get?_of_endAt_node _ ends⟩

namespace Corpus

theorem zero_not_mem_ending {token : Text} (plain : isToken token = true) : 0 ∉ ending token := by
  rw [ending, List.mem_append, List.mem_append]
  rintro ((before | inside) | after)
  · exact absurd before (by decide)
  · have zero := List.all_eq_true.mp plain 0 inside
    exact absurd zero (by decide)
  · exact absurd after (by decide)

/-- The path of a sibling holds no zero, unless the path of the file does. -/
theorem temporaryPath_plain {token : Text} (plain : isToken token = true) {tree : Tree} {shown place : Path}
    (site : Site tree shown place) (named : shown.toText.contains 0 = false) :
    (temporaryPath token shown.toText).contains 0 = false := by
  cases site with
  | @mk front directory name reach =>
    rw [Bool.eq_false_iff, ne_eq, List.contains_iff_mem] at named ⊢
    rw [Path.toText_child, List.mem_append, not_or] at named
    rw [temporaryPath_child plain, Path.toText_child, sibling, List.mem_append, List.mem_append, List.mem_append]
    rintro (before | (dotted | inside) | after)
    · exact named.1 before
    · exact absurd dotted (by decide)
    · exact named.2 inside
    · exact zero_not_mem_ending plain after

inductive Layout (space : Workspace) (scope : Path) : List Path → (Path → Path) → Prop where
  | sited {files : List Path} {placeOf : Path → Path} (sited : Sited space.tree files placeOf) :
      Layout space scope files placeOf
  /-- The scope is a link to a file. -/
  | linked {entry place : Path} (linked : space.Linked scope entry place) : Layout space scope [scope] fun _ => entry

theorem collect_layout {space : Workspace} {refused : Text → Option FileError.Code} {selection : Selection}
    {files : List Path} (wellFormed : space.tree.WellFormed)
    (collected : collectUnder refused space selection = .ok files) :
    ∃ entryOf, Layout space ((space.directory.resolve selection.directory).resolve selection.scope) files entryOf := by
  by_cases unlinked : ∀ place target, space.tree.find space.directory false
      ((space.directory.resolve selection.directory).resolve selection.scope).toText ≠ .ok (.node place (.link target))
  · obtain ⟨placeOf, sited⟩ := collect_sited wellFormed collected unlinked
    exact ⟨placeOf, .sited sited⟩
  · have reaches := collect_reaches collected
    generalize (space.directory.resolve selection.directory).resolve selection.scope = scope at reaches unlinked
    simp only [not_forall, not_not] at unlinked
    obtain ⟨entry, target, link⟩ := unlinked
    cases reaches with
    | file found alone =>
      rcases alone with rfl | rfl
      · exact ⟨_, .linked ⟨⟨target, link⟩, _, _, found⟩⟩
      · exact ⟨id, .sited (sited_nil _)⟩
    | directory reach =>
      obtain ⟨placeOf, sited, _⟩ := walk_sited selection wellFormed _ reach
      exact ⟨placeOf, .sited sited⟩
    | other => exact ⟨id, .sited (sited_nil _)⟩

/-- What stands in the entry of a path before and after these bytes were written there, or none. -/
def Leaves (space : Workspace) (path : Text) (before after : Option Node) : Option Bytes → Prop
  | none => after = before
  | some encoded => ∃ mode, space.mode path = .ok mode ∧ after = some (.file encoded (Workspace.maskedMode mode))

/-- Each file of a run has come to what was told of it beforehand. Where nothing stays behind, nothing but the entries of
its files may have changed. -/
structure Foretold (refusals : Nat → Refusals) (hook : Hook) (options : FileOptions) (token : Nat → Text)
    (files : List Path) (entryOf : Path → Path) (space after : Workspace) (outcomes : List FileOutcome) : Prop where
  count : outcomes.length = files.length
  each : ∀ index file outcome, files[index]? = some file → outcomes[index]? = some outcome →
    ∃ written, Foretells (refusals index) hook space options (token index) file.toText
        (outlookUnder (refusals index) space options file.toText) written outcome ∧
      Leaves space file.toText (space.tree.get? (entryOf file)) (after.tree.get? (entryOf file)) written
  elsewhere : (∀ index, (refusals index).Tidy) →
    ∀ path, path ∉ files.map entryOf → after.tree.get? path = space.tree.get? path
  directory : after.directory = space.directory

end Corpus

def Territory.seat {space : Workspace} (territory : Territory space.tree) {token : Text}
    (plain : Corpus.isToken token = true)
    (beside : Corpus.temporaryPath token territory.path.toText = territory.temporary.toText) :
    Seat space token territory.path where
  entry := territory.place
  node := .file territory.file.1 territory.file.2
  target := territory.place
  file := territory.file
  temporary := territory.temporary
  sibling := territory.sibling
  site := territory.site
  there := territory.standing
  firm := fun same => by cases same
  leads := Territory.find_path territory.has_initial true
  beside := territory.beside
  named := beside
  free := territory.free
  plain := fun named => beside ▸ Corpus.temporaryPath_plain plain territory.site named

namespace Seat

variable {space after : Workspace} {token : Text} {shown : Path} {seat : Seat space token shown}
  {written left : Option Bytes}

/-- Where nothing stays in the place beside it, a revision changes nothing but the entry. -/
theorem Leaves.clean (leaves : seat.Leaves written none after) {path : Path} (apart : path ≠ seat.entry) :
    after.tree.get? path = space.tree.get? path := by
  by_cases aside : path = seat.sibling
  · rw [aside, leaves.sibling, seat.free]
    rfl
  · exact leaves.elsewhere path apart aside

theorem Leaves.standing (leaves : seat.Leaves written left after) {refusals : Refusals} {hook : Hook}
    {options : Corpus.FileOptions} {told outcome : FileOutcome}
    (foretells : Corpus.Foretells refusals hook space options token shown.toText told written outcome) :
    Corpus.Leaves space shown.toText (space.tree.get? seat.entry) (after.tree.get? seat.entry) written := by
  have entry := leaves.entry
  cases foretells with
  | settled | hindered => exact entry
  | written read => exact ⟨_, (seat.of_read read).2.2.2, entry⟩

end Seat

namespace Corpus

variable {space : Workspace} {files : List Path} {entryOf : Path → Path} {token : Nat → Text} {hook : Hook}
  {options : FileOptions}

theorem Sited.foretold (refusals : Nat → Refusals) (sited : Sited space.tree files entryOf)
    (fresh : FreshTokens token files.length space.tree) (steady : hook.Steady) (real : options.preview = false)
    (schedule : Schedule) {limit : Nat} (room : 1 ≤ limit) :
    let run := reviseAllUnder refusals options token hook schedule limit (files.map Path.toText) ⟨space, []⟩
    Foretold refusals hook options token files entryOf space run.1.space run.2 := by
  intro run
  obtain ⟨territories, assigned⟩ := exists_territories sited fresh
  obtain ⟨contents, outcome, directory, shares, listed, ends⟩ :=
    reviseAllUnder_ends (List.length_map Path.toText) assigned.separate steady.quiet options assigned.listed
      assigned.beside schedule room refusals
  let seat (index : Fin files.length) :=
    (territories index).seat (fresh.plain index index.isLt) (assigned.beside index)
  have alone : ∀ index : Fin files.length, ∃ after,
      (seat index).Comes (refusals index) hook options
        (outlookUnder (refusals index) space options (territories index).path.toText) (outcome index) after ∧
      (territories index).Has after.tree (contents index) := by
    intro index
    have start : (territories index).Has (Scene.mk space []).space.tree (territories index).initial :=
      (territories index).has_initial
    have confined : (territories index).Confined 7
        ((revise options (token index) (territories index).path.toText).under (refusals index) 0) :=
      Territory.confined_revise (assigned.beside index) (refusals index)
    obtain ⟨changed, ended, has, _, _⟩ := confined.run steady.quiet start
    obtain ⟨rfl, same⟩ := (ends index).unique steady ended
    exact ⟨_, same ▸ (seat index).run_revise steady.quiet real rfl, has⟩
  refine ⟨?_, fun index file result found ended => ?_, fun tidy path absent => ?_, directory⟩
  · rw [listed, List.length_map, List.length_range]
  · obtain ⟨inside, rfl⟩ := List.getElem?_eq_some_iff.mp found
    obtain ⟨after, ⟨written, left, foretells, leaves, _⟩, has⟩ := alone ⟨index, inside⟩
    rw [listed, List.getElem?_map, List.getElem?_range inside] at ended
    obtain rfl := Option.some.inj ended
    have standing := leaves.standing foretells
    have path : (territories ⟨index, inside⟩).path = files[index] := assigned.path ⟨index, inside⟩
    have place : (seat ⟨index, inside⟩).entry = entryOf files[index] := assigned.place ⟨index, inside⟩
    have same := (shares.has ⟨index, inside⟩).file.trans has.file.symm
    rw [← place, ← path]
    exact ⟨written, foretells, same ▸ standing⟩
  · by_cases sibling : ∃ index, path = (territories index).sibling
    · obtain ⟨index, rfl⟩ := sibling
      obtain ⟨after, ⟨written, left, _, leaves, clean⟩, has⟩ := alone index
      obtain rfl := clean (.inl (tidy index))
      rw [(shares.has index).sibling, ← has.sibling]
      exact leaves.clean (territories index).apart
    · refine shares.elsewhere path fun index => ⟨fun same => absent ?_, fun same => sibling ⟨index, same⟩⟩
      rw [same, assigned.place]
      exact List.mem_map_of_mem (List.getElem_mem index.isLt)

theorem exists_linked_seat {scope entry place : Path} (linked : space.Linked scope entry place)
    (fresh : FreshTokens token 1 space.tree) : ∃ seat : Seat space (token 0) scope, seat.entry = entry := by
  have plain := fresh.plain 0 Nat.one_pos
  obtain ⟨site, short, target, link⟩ := linked.site
  obtain ⟨bytes, mode, reach⟩ := linked.file
  obtain ⟨temporary, sibling, named, beside, name, shape⟩ := site.sibling plain
  refine ⟨{
    entry, node := .link target, target := place, file := (bytes, mode), temporary, sibling, site, there := link
    firm := fun same => by cases same
    leads := by rw [short, reach]; rfl
    beside, named
    free := shape ▸ fresh.free Nat.one_pos plain entry.parent name
    plain := fun unzeroed => named ▸ temporaryPath_plain plain site unzeroed }, rfl⟩

/-- A link that is the whole corpus is replaced itself, and the file to which it leads is left alone. -/
theorem linked_foretold (refusals : Nat → Refusals) {scope entry place : Path} (linked : space.Linked scope entry place)
    (fresh : FreshTokens token 1 space.tree) (quiet : hook.Quiet) (real : options.preview = false) (schedule : Schedule)
    {limit : Nat} (room : 1 ≤ limit) :
    let run := reviseAllUnder refusals options token hook schedule limit [scope.toText] ⟨space, []⟩
    Foretold refusals hook options token [scope] (fun _ => entry) space run.1.space run.2 := by
  obtain ⟨seat, rfl⟩ := exists_linked_seat linked fresh
  rw [reviseAllUnder_single options token hook schedule room]
  simp only [reviseInOrder]
  generalize ran : ((revise options (token 0) scope.toText).under (refusals 0) 0).run hook ⟨space, []⟩ = run
  obtain ⟨written, left, foretells, leaves, clean⟩ := seat.run_revise quiet real ran
  refine ⟨rfl, fun index file outcome found listed => ?_, fun tidy path absent => ?_, leaves.directory⟩
  · cases index with
    | zero =>
      obtain rfl := Option.some.inj found
      obtain rfl := Option.some.inj listed
      exact ⟨written, foretells, leaves.standing foretells⟩
    | succ index => cases found
  · obtain rfl := clean (.inl (tidy 0))
    exact leaves.clean fun same => absent (List.mem_singleton.mpr same)

/-- However its files lie, a run comes to what was told of them. -/
theorem Layout.foretold (refusals : Nat → Refusals) {scope : Path} (layout : Layout space scope files entryOf)
    (fresh : FreshTokens token files.length space.tree) (steady : hook.Steady) (real : options.preview = false)
    (schedule : Schedule) {limit : Nat} (room : 1 ≤ limit) :
    let run := reviseAllUnder refusals options token hook schedule limit (files.map Path.toText) ⟨space, []⟩
    Foretold refusals hook options token files entryOf space run.1.space run.2 := by
  cases layout with
  | sited sited => exact sited.foretold refusals fresh steady real schedule room
  | linked linked => exact linked_foretold refusals linked fresh steady.quiet real schedule room

end Corpus

end Emend
