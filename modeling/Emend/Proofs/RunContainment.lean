import Emend.Proofs.BoundaryPlaces
import Emend.Proofs.CorpusRun
import Emend.Proofs.RunCalls

/-! A run stays inside of its boundary. Each file that it looks into has its canonical path there. Each entry
that it creates, replaces or removes lies in a directory that has, unless the scope is a link to a file: what
is checked is where the scope leads, while what is replaced is its own entry, which may stand outside. -/

namespace Emend

open Text FileError

namespace Workspace

def LeadsInto (space : Workspace) (around : Path) (path : Text) : Prop :=
  ∃ place, space.canonical path = .ok place ∧ around.names <+: place.names

/-- An entry of a directory inside of a boundary. The path of that directory leads to itself, so it is the
canonical one. -/
def Encloses (space : Workspace) (around entry : Path) : Prop :=
  ∃ directory name, entry = directory.child name ∧ around.names <+: directory.names ∧
    space.tree.resolve space.directory true directory.toText = .ok (.node directory .directory)

end Workspace

/-- A call looks into no file outside of a boundary. -/
def Event.LooksWithin (space : Workspace) (around : Path) (event : Event) : Prop :=
  ∀ path node, event.looked? = some path → space.stat path = .ok node → space.LeadsInto around path

/-- A call touches no entry of a directory outside of a boundary. -/
def Event.TouchesWithin (space : Workspace) (around : Path) (event : Event) : Prop :=
  ∀ entry, event.Touches space entry → space.Encloses around entry

section Sites

variable {before : Tree} {shown place around : Path}

/-- Where the directory of a place is inside of a boundary, so is the entry, as long as directories stay. -/
theorem Site.encloses (wellFormed : before.WellFormed) (site : Site before shown place) {space : Workspace}
    (keeps : before.Keeps space.tree) (inside : around.names <+: place.parent.names) : space.Encloses around place := by
  cases site with
  | @mk front directory name reach =>
    have firm := (Tree.walk_settled (Tree.Firm.root before) reach).firm
    have spelled := wellFormed.spelled (firm directory List.prefix_rfl)
    rw [Path.child_parent] at inside
    exact ⟨directory, name.repaired, rfl, inside, Tree.resolve_firm true spelled (firm.keeps keeps) _⟩

theorem Site.prefix_of_parent (site : Site before shown place) (inside : around.names <+: place.parent.names) :
    around.names <+: place.names := by
  cases site with
  | mk name reach =>
    rw [Path.child_parent] at inside
    exact inside.trans (List.prefix_append _ _)

theorem Site.prefix_parent (site : Site before shown place) (above : around.names <+: place.names)
    (apart : around ≠ place) : around.names <+: place.parent.names := by
  cases site with
  | @mk front directory name reach =>
    rw [Path.child_parent]
    rcases Path.prefix_child_iff.mp above with whole | shorter
    · exact absurd whole apart
    · exact shorter

end Sites

inductive Event.On (path temporary : Text) : Event → Prop where
  | read : On path temporary (.read path)
  | stat : On path temporary (.stat path)
  | write (bytes : Bytes) (mode : Nat) : On path temporary (.write temporary bytes mode)
  | rename : On path temporary (.rename temporary path)
  | remove : On path temporary (.remove temporary)

section Calls

variable {before : Tree} {space : Workspace} {path temporary place sibling around : Path} {event : Event}

theorem Event.On.looksWithin {path temporary : Text} (own : event.On path temporary)
    (looks : event.looked? ≠ none → ∀ node, space.stat path = .ok node → space.LeadsInto around path) :
    event.LooksWithin space around := by
  intro shown node looked there
  cases own with
  | read | stat =>
    obtain rfl := Option.some.inj looked
    exact looks (Option.some_ne_none _) node there
  | write bytes mode | rename | remove => cases looked

/-- Such a call touches what it may where the file and the sibling have a directory inside of the boundary. -/
theorem Event.On.touchesWithin (wellFormed : before.WellFormed) (site : Site before path place)
    (beside : Site before temporary sibling) (keeps : before.Keeps space.tree)
    (unlinked : ∀ target, space.tree.get? sibling ≠ some (.link target))
    (inside : around.names <+: place.parent.names) (level : sibling.parent = place.parent)
    (own : event.On path.toText temporary.toText) : event.TouchesWithin space around := by
  have file : ∀ found, space.tree.find space.directory false path.toText = .ok found →
      space.Encloses around found.place := by
    intro found reach
    rw [site.found_place keeps (fun follow => by cases follow) reach]
    exact site.encloses wellFormed keeps inside
  have other : ∀ follow found, space.tree.find space.directory follow temporary.toText = .ok found →
      space.Encloses around found.place := by
    intro follow found reach
    rw [beside.found_place keeps (fun _ => unlinked) reach]
    exact beside.encloses wellFormed keeps (level ▸ inside)
  intro entry touches
  cases own with
  | read | stat => cases touches
  | write bytes mode =>
    cases touches with
    | written reach => exact other true _ reach
  | rename =>
    cases touches with
    | moved reach => exact other false _ reach
    | replaced reach => exact file _ reach
  | remove =>
    cases touches with
    | removed reach => exact other false _ reach

variable {calls : Nat} {script : Script FileOutcome}

theorem Territory.Confined.contained {territory : Territory before} {contents : Contents}
    (wellFormed : before.WellFormed) (has : territory.Has space.tree contents)
    (inside : around.names <+: territory.place.parent.names)
    (level : territory.sibling.parent = territory.place.parent) (confined : territory.Confined calls script)
    (call : script.call? = some event) : event.LooksWithin space around ∧ event.TouchesWithin space around := by
  have own : event.On territory.path.toText territory.temporary.toText := by
    cases confined with
    | done calls value | announce path text revised rest => cases call
    | read rest | stat rest | write bytes mode rest | rename rest | remove rest =>
      obtain rfl := Option.some.inj call
      constructor
  constructor
  · refine own.looksWithin fun _ node there => ?_
    obtain ⟨place, reach, canonical⟩ := Workspace.stat_found there
    obtain rfl : place = territory.place := by
      apply territory.site.found_place has.keeps _ reach
      intro _ target link
      rw [has.file] at link
      cases link
    exact ⟨_, canonical, territory.site.prefix_of_parent inside⟩
  · refine own.touchesWithin wellFormed territory.site territory.beside has.keeps ?_ inside level
    intro target link
    rw [has.sibling] at link
    obtain ⟨kept, _, other⟩ := Option.map_eq_some_iff.mp link
    cases other

theorem Script.Orderly.on {path temporary : Text} {stage : Stage} (orderly : script.Orderly path temporary stage calls)
    (call : script.call? = some event) : event.On path temporary ∧ (stage ≠ .clear → event.looked? = none) := by
  cases orderly with
  | done stage calls value | announce shown text revised rest => cases call
  | read rest | stat rest | write bytes mode refused written =>
    obtain rfl := Option.some.inj call
    exact ⟨by constructor, fun later => absurd rfl later⟩
  | rename refused moved | remove rest =>
    obtain rfl := Option.some.inj call
    exact ⟨by constructor, fun _ => rfl⟩

end Calls

namespace Corpus

section Lone

/-- What the script of a lone file has made of the workspace by the time it has come so far. Once the sibling
has been moved or removed the script makes no more calls. -/
inductive Lone (space : Workspace) (sibling : Path) : Stage → Workspace → Prop where
  | clear : Lone space sibling .clear space
  | written (bytes : Bytes) (mode : Nat) :
      Lone space sibling .written { space with tree := space.tree.put sibling (.file bytes mode) }
  | ended (after : Workspace) : Lone space sibling .ended after

variable {space : Workspace} {path temporary entry sibling : Path} (beside : Site space.tree temporary sibling)
  (free : space.tree.get? sibling = none)

include free

theorem unlinked_of_free (target : Text) : space.tree.get? sibling ≠ some (.link target) := by
  intro there
  rw [free] at there
  cases there

include beside

theorem Lone.writeFile {bytes : Bytes} {mode : Nat} {after : Workspace}
    (written : space.writeFile temporary.toText bytes mode = .ok after) : Lone space sibling .written after := by
  rw [beside.writeFile_free free written]
  exact .written _ _

theorem Lone.step {hook : Hook} (quiet : hook.Quiet) {now after : Workspace} {stage later : Stage}
    (lone : Lone space sibling stage now) (moves : Stage.Moves hook temporary.toText now stage later after) :
    Lone space sibling later after := by
  cases moves with
  | stays => exact lone
  | tells _ announcement =>
    rw [quiet]
    exact lone
  | writes written =>
    cases lone
    exact Lone.writeFile beside free written
  | ends => exact .ended after

def lone {hook : Hook} (quiet : hook.Quiet) (path : Path) : Discipline Stage 1 hook where
  Holds scene stages := Lone space sibling (stages 0) scene.space
  Fits _ stage calls script := script.Orderly path.toText temporary.toText stage calls
  call := by
    intro scene stages index calls script inside lone orderly busy
    obtain rfl : index = 0 := Nat.lt_one_iff.mp inside
    obtain ⟨later, left, fewer, moves, again⟩ := orderly.step hook scene busy
    refine ⟨later, left, fewer, ?_, again⟩
    rw [Function.update_self]
    exact lone.step beside free quiet moves

/-- A lone file is looked into where it leads, and touched where its entry is. -/
theorem Lone.contained (wellFormed : space.tree.WellFormed) (site : Site space.tree path entry)
    {around target : Path} {node : Node}
    (found : space.tree.find space.directory true path.toText = .ok (.node target node))
    (leads : around.names <+: target.names) (level : sibling.parent = entry.parent) {now : Workspace} {stage : Stage}
    (lone : Lone space sibling stage now) {calls : Nat} {script : Script FileOutcome}
    (orderly : script.Orderly path.toText temporary.toText stage calls) {event : Event}
    (call : script.call? = some event) :
    event.LooksWithin now around ∧ (around.names <+: entry.parent.names → event.TouchesWithin now around) := by
  obtain ⟨own, blind⟩ := orderly.on call
  cases lone with
  | clear =>
    refine ⟨own.looksWithin fun _ node there => ?_,
      fun inside => own.touchesWithin wellFormed site beside (.refl _) (unlinked_of_free free) inside level⟩
    obtain ⟨place, reach, canonical⟩ := Workspace.stat_found there
    obtain ⟨rfl, _⟩ := Tree.Found.node.inj (Except.ok.inj (reach.symm.trans found))
    exact ⟨_, canonical, leads⟩
  | written bytes mode =>
    have kept := Tree.keeps_put free (.file bytes mode)
    refine ⟨own.looksWithin fun looked => absurd (blind (by decide)) looked,
      fun inside => own.touchesWithin wellFormed site beside kept ?_ inside level⟩
    intro target link
    rw [Tree.get?_put _ beside.place_ne_root, if_pos rfl] at link
    cases link
  | ended after =>
    cases orderly with
    | done stage calls value => cases call

end Lone

/-- The files below a directory stand in that directory or in directories below it. -/
theorem walk_inside (selection : Selection) {tree : Tree} (wellFormed : tree.WellFormed) (depth : Nat) {place shown : Path}
    (reach : tree.walk true Tree.linkLimit .root (shown.repaired.names.map Name.text) = .ok (.node place .directory)) :
    ∃ placeOf, Sited tree (walk tree selection depth place shown) placeOf ∧
      ∀ file ∈ walk tree selection depth place shown, place.names <+: (placeOf file).parent.names := by
  obtain ⟨placeOf, sited, below⟩ := walk_sited selection wellFormed depth reach
  refine ⟨placeOf, sited, fun file member => (sited.site file member).prefix_parent (below file member) ?_⟩
  have firm := (Tree.walk_settled (Tree.Firm.root tree) reach).firm
  intro same
  obtain ⟨bytes, mode, there⟩ := sited.there file member
  rw [← same, firm place List.prefix_rfl] at there
  cases there

section Runs

variable {space : Workspace} (wellFormed : space.tree.WellFormed) {hook : Hook} (quiet : hook.Quiet)
  {refusals : Nat → Refusals} {options : FileOptions} {token : Nat → Text} {limit : Nat} {around : Path}
  {progress : Progress} {index : Nat} {waiting : Script FileOutcome} {event : Event}

include wellFormed quiet

/-- Files that have places of their own are revised inside of a boundary around their directories. -/
theorem Passes.contained_sited {files : List Path} {placeOf : Path → Path} (sited : Sited space.tree files placeOf)
    (fresh : FreshTokens token files.length space.tree) (room : 1 ≤ limit)
    (inside : ∀ file ∈ files, around.names <+: (placeOf file).parent.names)
    (passes : Passes (scriptUnder refusals options token (files.map Path.toText)) hook
      (.start (scriptUnder refusals options token (files.map Path.toText)) limit (files.map Path.toText) ⟨space, []⟩)
      progress)
    (queued : (index, waiting) ∈ progress.queue) (call : waiting.call? = some event) :
    event.LooksWithin progress.scene.space around ∧ event.TouchesWithin progress.scene.space around := by
  obtain ⟨territories, assigned⟩ := exists_territories sited fresh
  let discipline := confinement assigned.separate space.directory quiet fun index =>
    scriptUnder refusals options token (files.map Path.toText) index
  have start : discipline.Holds ⟨space, []⟩ (startContents territories) := ⟨rfl, shares_start territories⟩
  have confined := confined_scriptUnder options assigned.listed assigned.beside refusals
  obtain ⟨begun, _⟩ := discipline.underway (List.length_map Path.toText) start room fun index _ =>
    confinement_fits assigned.separate quiet confined index
  obtain ⟨contents, calls, underway⟩ := passes.underway begun
  obtain ⟨short, fits⟩ := underway.queued_fits queued
  obtain ⟨confined, _⟩ := fits short
  refine confined.contained wellFormed (underway.holds.2.has ⟨index, short⟩) ?_ (assigned.level ⟨index, short⟩) call
  rw [assigned.place]
  exact inside _ (List.getElem_mem short)

/-- A lone file is read inside of a boundary around what it leads to, and replaced inside of one around its own
directory. -/
theorem Passes.contained_lone {scope entry target : Path} {node : Node} (site : Site space.tree scope entry)
    (found : space.tree.find space.directory true scope.toText = .ok (.node target node))
    (leads : around.names <+: target.names) (fresh : FreshTokens token 1 space.tree) (room : 1 ≤ limit)
    (passes : Passes (scriptUnder refusals options token [scope.toText]) hook
      (.start (scriptUnder refusals options token [scope.toText]) limit [scope.toText] ⟨space, []⟩) progress)
    (queued : (index, waiting) ∈ progress.queue) (call : waiting.call? = some event) :
    event.LooksWithin progress.scene.space around ∧
      (around.names <+: entry.parent.names → event.TouchesWithin progress.scene.space around) := by
  have plain := fresh.plain 0 Nat.one_pos
  obtain ⟨temporary, place, same, beside, name, rfl⟩ := site.sibling plain
  have free := fresh.free Nat.one_pos plain entry.parent name
  let discipline := lone beside free quiet scope
  have start : discipline.Holds ⟨space, []⟩ fun _ => .clear := Lone.clear
  have fits : ∀ index < 1, discipline.Fits index .clear 7
      (scriptUnder refusals options token [scope.toText] index) := by
    intro index inside
    obtain rfl : index = 0 := Nat.lt_one_iff.mp inside
    show ((revise options (token 0) scope.toText).under (refusals 0) 0).Orderly scope.toText temporary.toText .clear 7
    rw [← same]
    exact orderly_revise.under _ _
  have length : [scope.toText].length = 1 := rfl
  obtain ⟨begun, _⟩ := discipline.underway length start room fits
  obtain ⟨stages, calls, underway⟩ := passes.underway begun
  obtain ⟨short, orderly⟩ := underway.queued_fits queued
  obtain rfl : index = 0 := Nat.lt_one_iff.mp short
  exact Lone.contained beside free wellFormed site found leads (Path.child_parent _ _) underway.holds orderly call

end Runs

end Corpus

namespace Workspace

variable (space : Workspace) (plan : Plan) (options : RunOptions) (means : RunMeans)

def scriptsUnder (refusals : Nat → Refusals) (files : List Path) : Nat → Script FileOutcome :=
  Corpus.scriptUnder refusals (options.fileOptions plan (space.directoryOf options.directory)) means.token
    (files.map Path.toText)

/-- The states that a run on some files goes through, whatever the schedule. -/
def GoesThrough (refusals : Nat → Refusals) (files : List Path) (progress : Corpus.Progress) : Prop :=
  Corpus.Passes (space.scriptsUnder plan options means refusals files) means.hook
    (.start (space.scriptsUnder plan options means refusals files) (Pool.limitOf options.concurrencyValue files.length)
      (files.map Path.toText) ⟨space, []⟩)
    progress

/-- A scope that leads to a file has its own directory inside of the boundary. -/
def ScopeInside : Prop :=
  ∀ bytes mode around, space.stat ((space.directoryOf options.directory).resolve options.scopeText).toText =
      .ok (.file bytes mode) →
    space.Bounds (space.directoryOf options.directory) around →
    space.LeadsInto around ((space.directoryOf options.directory).resolve options.scopeText).parent.toText

variable {space options means} {files : List Path} {refusals : RunRefusals}

/-- Either a run makes no calls at all, or there is a boundary inside of which it makes all of them. -/
theorem goesThrough_contained (wellFormed : space.tree.WellFormed) (quiet : means.hook.Quiet)
    (taken : space.TakesOnUnder refusals.opening options files)
    (fresh : Corpus.FreshTokens means.token files.length space.tree) :
    (∀ progress, space.GoesThrough plan options means refusals.calls files progress → progress.queue = []) ∨
      ∃ around, space.Bounds (space.directoryOf options.directory) around ∧
        ∀ progress, space.GoesThrough plan options means refusals.calls files progress →
          ∀ index waiting event, (index, waiting) ∈ progress.queue → waiting.call? = some event →
            event.LooksWithin progress.scene.space around ∧
              (space.ScopeInside options → event.TouchesWithin progress.scene.space around) := by
  have idle : Pool.limitOf options.concurrencyValue files.length = 0 ∨ files = [] →
      ∀ progress, space.GoesThrough plan options means refusals.calls files progress → progress.queue = [] := by
    intro nothing progress passes
    have idle := nothing.imp id (congrArg (List.map Path.toText))
    obtain rfl := Corpus.Passes.eq_start (by rw [Corpus.Progress.start_idle _ idle]) passes
    rw [Corpus.Progress.start_idle _ idle]
  by_cases nothing : Pool.limitOf options.concurrencyValue files.length = 0
  · exact .inl (idle (.inl nothing))
  have room : 1 ≤ Pool.limitOf options.concurrencyValue files.length := Nat.one_le_iff_ne_zero.mpr nothing
  have reaches := Corpus.collect_reaches taken.collected
  rw [Path.resolve_toText] at reaches
  have inside := taken.inside
  simp only [ScopeInside]
  generalize (space.directoryOf options.directory).resolve options.scopeText = scope at reaches inside
  cases reaches with
  | @file _ target bytes mode found alone =>
    rcases alone with rfl | rfl
    · right
      obtain ⟨canonical, around, bounds, leads⟩ :=
        bounds_of_check wellFormed inside (Corpus.resolve_of_find found).2 fun target same => by cases same
      obtain ⟨entry, site, _, way⟩ := Corpus.exists_site found
      refine ⟨around, bounds, fun progress passes index waiting event queued call => ?_⟩
      obtain ⟨looks, touches⟩ :=
        Corpus.Passes.contained_lone wellFormed quiet site found leads fresh room passes queued call
      refine ⟨looks, fun own => touches ?_⟩
      obtain ⟨place, reached, near⟩ := own bytes mode around (stat_of_find found canonical) bounds
      rw [Workspace.canonical, way] at reached
      obtain rfl := Except.ok.inj (Corpus.naming_eq_ok reached)
      exact near
    · exact .inl (idle (.inr rfl))
  | @directory place reach =>
    right
    have resolved : space.tree.resolve space.directory true scope.toText = .ok (.node place .directory) := by
      rw [Tree.resolve_toText, reach]
    obtain ⟨canonical, around, bounds, leads⟩ :=
      bounds_of_check wellFormed inside resolved fun target same => by cases same
    obtain ⟨placeOf, sited, below⟩ := Corpus.walk_inside _ wellFormed _ reach
    refine ⟨around, bounds, fun progress passes index waiting event queued call => ?_⟩
    obtain ⟨looks, touches⟩ := Corpus.Passes.contained_sited wellFormed quiet sited fresh room
      (fun file member => leads.trans (below file member)) passes queued call
    exact ⟨looks, fun _ => touches⟩
  | other => exact .inl (idle (.inr rfl))

/-- Whatever the schedule, every call of a run that takes on some files looks into files inside of the boundary of its
directory only. Where the scope is inside with its own directory, every call touches entries of directories inside
of that boundary only, and so what the run has changed lies there. A run that takes on no files fails and leaves the
workspace as it was. All this holds whatever is refused to the run. -/
theorem reviseCorpus_contained (refusals : RunRefusals) (wellFormed : space.tree.WellFormed) (quiet : means.hook.Quiet)
    (fresh : ∀ files, space.TakesOnUnder refusals.opening options files →
      Corpus.FreshTokens means.token files.length space.tree) :
    (∀ files, space.TakesOnUnder refusals.opening options files →
      (∀ progress, space.GoesThrough plan options means refusals.calls files progress →
        ∀ index waiting event, (index, waiting) ∈ progress.queue → waiting.call? = some event →
          ∃ around, space.Bounds (space.directoryOf options.directory) around ∧
            event.LooksWithin progress.scene.space around ∧
            (space.ScopeInside options → event.TouchesWithin progress.scene.space around)) ∧
      ∃ progress, space.GoesThrough plan options means refusals.calls files progress ∧
        (space.reviseCorpusUnder refusals plan options means).2.1 = progress.scene ∧
        (space.ScopeInside options → ∀ path, progress.scene.space.tree.get? path ≠ space.tree.get? path →
          ∃ around, space.Bounds (space.directoryOf options.directory) around ∧
            around.names <+: path.parent.names)) ∧
    ((∀ files, ¬ space.TakesOnUnder refusals.opening options files) →
      ∃ failure, (space.reviseCorpusUnder refusals plan options means).2 = (⟨space, []⟩, .error failure)) := by
  refine ⟨fun files taken => ?_, reviseCorpusUnder_stopped⟩
  have calls : ∀ progress, space.GoesThrough plan options means refusals.calls files progress →
      ∀ index waiting event, (index, waiting) ∈ progress.queue → waiting.call? = some event →
        ∃ around, space.Bounds (space.directoryOf options.directory) around ∧
          event.LooksWithin progress.scene.space around ∧
          (space.ScopeInside options → event.TouchesWithin progress.scene.space around) := by
    intro progress passes index waiting event queued call
    rcases goesThrough_contained plan wellFormed quiet taken (fresh files taken) with idle | ⟨around, bounds, contained⟩
    · rw [idle progress passes] at queued
      cases queued
    · exact ⟨around, bounds, contained progress passes index waiting event queued call⟩
  obtain ⟨progress, passes, last⟩ := Corpus.runAll_passes (space.scriptsUnder plan options means refusals.calls files)
    means.hook means.schedule (Pool.limitOf options.concurrencyValue files.length) (files.map Path.toText) ⟨space, []⟩
  refine ⟨calls, progress, passes, ?_, fun own path changed => ?_⟩
  · rw [reviseCorpusUnder_taken taken]
    exact last
  · obtain ⟨earlier, before, index, waiting, event, queued, call, touches⟩ := passes.touched quiet changed
    obtain ⟨around, bounds, _, within⟩ := calls earlier before index waiting event queued call
    obtain ⟨directory, name, rfl, inside, _⟩ := within own path touches
    rw [Path.child_parent]
    exact ⟨around, bounds, inside⟩

/-- A repository with a file, and two links to that file: one beside it and one outside. -/
private def linkedSpace : Workspace :=
  ⟨⟨[(.ofText (units "/r"), .directory), (.ofText (units "/r/.git"), .directory),
    (.ofText (units "/r/a.ts"), .file [0x78] 0o644), (.ofText (units "/r/k.ts"), .link (units "a.ts")),
    (.ofText (units "/l.ts"), .link (units "r/a.ts"))]⟩, .root⟩

private def linkedPlan : Plan := ⟨[], [⟨[⟨units "x", units "z"⟩], by decide, by decide⟩]⟩

private def linkedOptions (scope : String) : RunOptions :=
  ⟨[], [], some (units scope), some (units "r"), false, none, none, none, none, none⟩

private def linkedMeans : RunMeans :=
  ⟨⟨[], [], [], [], [], [], fun _ => []⟩, .silent, .turns, fun _ => units "0a-1f", .zero⟩

private theorem linkedSpace_wellFormed : linkedSpace.tree.WellFormed := ⟨by decide +kernel, by decide +kernel⟩

private theorem linkedSpace_bounds (around : Path) :
    linkedSpace.Bounds (.ofText (units "/r")) around ↔ around = .ofText (units "/r") := by
  rw [bounds_iff]
  have canonical : linkedSpace.canonical
      ((linkedSpace.repositoryRoot? (.ofText (units "/r"))).getD (.ofText (units "/r"))).toText =
        .ok (.ofText (units "/r")) := by decide +kernel
  rw [canonical, Except.ok.injEq, eq_comm]

/-- The link beside the file is the scope, and it is replaced where it is. -/
theorem reviseCorpus_contained_link :
    linkedSpace.TakesOn (linkedOptions "k.ts") [.ofText (units "/r/k.ts")] ∧
      (linkedSpace.reviseCorpus linkedPlan (linkedOptions "k.ts") linkedMeans).2.1.space.tree.get?
        (.ofText (units "/r/k.ts")) = some (.file [0x7a] 0o644) ∧
      linkedSpace.ScopeInside (linkedOptions "k.ts") ∧
      ∀ path, (linkedSpace.reviseCorpus linkedPlan (linkedOptions "k.ts") linkedMeans).2.1.space.tree.get? path ≠
          linkedSpace.tree.get? path →
        ∃ around, linkedSpace.Bounds (linkedSpace.directoryOf (linkedOptions "k.ts").directory) around ∧
          around.names <+: path.parent.names := by
  have taken : linkedSpace.TakesOn (linkedOptions "k.ts") [.ofText (units "/r/k.ts")] :=
    ⟨by decide +kernel, by decide +kernel⟩
  have own : linkedSpace.ScopeInside (linkedOptions "k.ts") := by
    intro bytes mode around _ bounds
    have same := (linkedSpace_bounds around).mp bounds
    exact ⟨.ofText (units "/r"), by decide +kernel, same ▸ List.prefix_rfl⟩
  have fresh : ∀ files, linkedSpace.TakesOnUnder RunRefusals.none.opening (linkedOptions "k.ts") files →
      Corpus.FreshTokens linkedMeans.token files.length linkedSpace.tree := by
    intro files other
    obtain rfl := Except.ok.inj (taken.collected.symm.trans other.collected)
    exact ⟨by decide +kernel, by decide +kernel, by decide +kernel⟩
  obtain ⟨_, progress, _, last, inside⟩ :=
    (reviseCorpus_contained linkedPlan .none linkedSpace_wellFormed (fun _ _ => rfl) fresh).1 _
      (takesOnUnder_none.mpr taken)
  rw [← last] at inside
  exact ⟨taken, by decide +kernel, own, inside own⟩

/-- The link outside leads inside, so it is taken on, and it is replaced where it is: outside of the boundary. -/
theorem reviseCorpus_not_contained :
    linkedSpace.tree.WellFormed ∧ linkedMeans.hook.Quiet ∧
      linkedSpace.TakesOn (linkedOptions "../l.ts") [.ofText (units "/l.ts")] ∧
      Corpus.FreshTokens linkedMeans.token 1 linkedSpace.tree ∧
      ¬ ∀ path, (linkedSpace.reviseCorpus linkedPlan (linkedOptions "../l.ts") linkedMeans).2.1.space.tree.get? path ≠
          linkedSpace.tree.get? path →
        ∃ around, linkedSpace.Bounds (linkedSpace.directoryOf (linkedOptions "../l.ts").directory) around ∧
          around.names <+: path.parent.names := by
  refine ⟨linkedSpace_wellFormed, fun _ _ => rfl, ⟨by decide +kernel, by decide +kernel⟩,
    ⟨by decide +kernel, by decide +kernel, by decide +kernel⟩, fun inside => ?_⟩
  obtain ⟨around, bounds, within⟩ := inside (.ofText (units "/l.ts")) (by decide +kernel)
  obtain rfl := (linkedSpace_bounds around).mp bounds
  exact absurd within (by decide +kernel)

end Workspace

end Emend
