import Emend.Proofs.CorpusExact
import Emend.Proofs.PathSegments
import Emend.Proofs.RunTrees
import Emend.Proofs.TablePasses
import Emend.Tree.Edit

/-! Workspaces that are set up. A name comes into a tree only after it has been looked up there, repaired and found
not to be too long. So a tree that grows from nothing is well formed, and no file in it is missed in a listing. -/

namespace Emend

open Text FileError

theorem Text.repair_repair (t : Text) : repair (repair t) = repair t := by
  induction t using repair_induction with
  | nil => rfl
  | plain u t own ih => rw [repair_cons_plain own, repair_cons_plain own, ih]
  | pair u v t high low ih => rw [repair_pair high low, repair_pair high low, ih]
  | lone u t half alone ih => rw [repair_cons_lone half alone, repair_cons_plain (by decide), ih]

theorem Text.repair_of_mem_split {t piece : Text} (member : piece ∈ split slash (repair t)) : repair piece = piece := by
  obtain ⟨first, rest, cut⟩ := List.exists_cons_of_ne_nil (split_ne_nil (repair t) : split slash (repair t) ≠ [])
  have joined : repair t = join [slash] ((first :: rest).map repair) := by
    rw [← repair_join (by decide), ← cut, join_split, repair_repair]
  have free : ∀ other ∈ (first :: rest).map repair, slash ∉ other := by
    intro other among inside
    obtain ⟨part, own, rfl⟩ := List.mem_map.mp among
    exact not_mem_of_mem_split (cut ▸ own) (mem_of_mem_repair (by decide) inside)
  have same : (first :: rest).map repair = (first :: rest).map id := by
    rw [List.map_id]
    exact (split_join free).symm.trans ((congrArg (split slash) joined).symm.trans cut)
  exact List.map_inj_left.mp same piece (cut ▸ member)

namespace Path.Spelled

variable {path : Path}

theorem root : Path.root.Spelled := fun _ none => nomatch none

theorem child (spelled : path.Spelled) {name : Name} (same : repair name.text = name.text)
    (fits : (Utf8.encode name.text).length ≤ Tree.nameLimit) : (path.child name).Spelled := by
  intro other member
  rcases List.mem_append.mp member with before | last
  · exact spelled other before
  · obtain rfl := List.mem_singleton.mp last
    exact ⟨Name.ext same, fits⟩

end Path.Spelled

namespace Tree

variable {tree : Tree} {directory : Path}

/-- A look-up has got to a place that is spelled as the file system has it, and so are the parts that are left. -/
def Stride.Spelled : Stride → Prop
  | .found there => there.place.Spelled
  | .failed _ => True
  | .link directory parts => directory.Spelled ∧ ∀ part ∈ parts, repair part = part

theorem repair_of_mem_parts {t part : Text} (member : part ∈ parts t) : repair part = part := by
  rcases List.mem_append.mp member with inside | last
  · exact repair_of_mem_split (List.mem_of_mem_filter inside)
  · split at last
    · obtain rfl := List.mem_singleton.mp last
      rfl
    · cases last

theorem startOf_spelled (spelled : directory.Spelled) (t : Text) : (startOf directory t).Spelled := by
  rw [startOf]
  split
  · exact .root
  · exact spelled

theorem stride_spelled (tree : Tree) (follow : Bool) (spelled : directory.Spelled) {parts : List Text}
    (repaired : ∀ part ∈ parts, repair part = part) : (tree.stride follow directory parts).Spelled := by
  induction parts generalizing directory with
  | nil => exact spelled
  | cons part rest ih =>
    have further : ∀ part ∈ rest, repair part = part := fun other member => repaired other (List.mem_cons_of_mem _ member)
    rcases part_cases part with rfl | ⟨name, rfl⟩ | ⟨apart, blank⟩
    · rw [stride_back]
      exact ih (spelled.above (List.dropLast_prefix _)) further
    · rw [stride_name]
      split
      · trivial
      next fits =>
        have entry : (directory.child name).Spelled :=
          spelled.child (repaired _ List.mem_cons_self) (Nat.not_lt.mp fits)
        cases there : tree.get? (directory.child name) with
        | none =>
          rw [arrive]
          split
          · exact entry
          · trivial
        | some node =>
          cases node with
          | directory => exact ih entry further
          | link target =>
            rw [arrive]
            split
            · exact entry
            · refine ⟨startOf_spelled spelled target, fun other member => ?_⟩
              exact (List.mem_append.mp member).elim repair_of_mem_parts (further other)
          | file bytes mode | pipe =>
            simp only [arrive]
            split
            · exact entry
            · trivial
    · rw [stride_blank _ _ _ _ apart blank]
      exact ih spelled further

theorem walk_spelled {follow : Bool} {links : Nat} (spelled : directory.Spelled) {parts : List Text} {found : Found}
    (repaired : ∀ part ∈ parts, repair part = part) (reach : tree.walk follow links directory parts = .ok found) :
    found.place.Spelled := by
  induction links generalizing directory parts with
  | zero =>
    have stop := stride_spelled tree follow spelled repaired
    rw [walk] at reach
    cases got : tree.stride follow directory parts with
    | found other =>
      rw [got] at reach stop
      obtain rfl := Except.ok.inj reach
      exact stop
    | failed code => rw [got] at reach; cases reach
    | link next left => rw [got] at reach; cases reach
  | succ links ih =>
    have stop := stride_spelled tree follow spelled repaired
    rw [walk] at reach
    cases got : tree.stride follow directory parts with
    | found other =>
      rw [got] at reach stop
      obtain rfl := Except.ok.inj reach
      exact stop
    | failed code => rw [got] at reach; cases reach
    | link next left =>
      rw [got] at reach stop
      exact ih stop.1 stop.2 reach

theorem find_spelled {base : Path} {follow : Bool} {t : Text} {found : Found} (spelled : base.Spelled)
    (reach : tree.find base follow t = .ok found) : found.place.Spelled :=
  walk_spelled (startOf_spelled spelled t) (fun _ => repair_of_mem_parts) (walk_of_find reach).2.2

theorem empty_wellFormed : empty.WellFormed where
  once := List.nodup_nil
  named _ none := nomatch none

theorem WellFormed.put (wellFormed : tree.WellFormed) {path : Path} (spelled : path.Spelled) (node : Node) :
    (tree.put path node).WellFormed := by
  have once : tree.Once := wellFormed.once
  refine ⟨once.put path node, List.forall_mem_cons.mpr ⟨spelled, fun entry member => ?_⟩⟩
  exact wellFormed.named entry (List.mem_of_mem_filter member)

theorem WellFormed.erase (wellFormed : tree.WellFormed) (path : Path) : (tree.erase path).WellFormed where
  once := List.Nodup.sublist (List.filter_sublist.map Prod.fst) wellFormed.once
  named entry member := wellFormed.named entry (List.mem_of_mem_filter member)

theorem WellFormed.eraseAll (wellFormed : tree.WellFormed) (path : Path) : (tree.eraseAll path).WellFormed where
  once := List.Nodup.sublist (List.filter_sublist.map Prod.fst) wellFormed.once
  named entry member := wellFormed.named entry (List.mem_of_mem_filter member)

theorem WellFormed.makeDirectories (wellFormed : tree.WellFormed) {path : Path} (spelled : path.Spelled) :
    (tree.makeDirectories path).WellFormed := by
  have above : ∀ other ∈ path.ancestors, other.Spelled := by
    intro other member
    obtain ⟨depth, _, rfl⟩ := List.mem_map.mp member
    exact spelled.above (List.take_prefix depth _)
  rw [Tree.makeDirectories]
  generalize path.ancestors = others at above
  induction others generalizing tree with
  | nil => exact wellFormed
  | cons other others ih =>
    obtain ⟨own, above⟩ := List.forall_mem_cons.mp above
    rw [List.foldl_cons]
    split
    · exact ih wellFormed above
    · exact ih (wellFormed.put own .directory) above

/-- A name that is looked up in a directory and not found there is not too long. -/
theorem length_le_of_noEntry {name : Name} (same : repair name.text = name.text)
    (failed : tree.lookup directory true name.text = .error .noEntry) :
    (Utf8.encode name.text).length ≤ nameLimit := by
  have occupied : name.text.isEmpty = false := List.isEmpty_eq_false_iff.mpr name.text_ne_nil
  have open_ : ¬ name.text.getLast? = some slash := fun last => name.slash_not_mem (List.mem_of_getLast? last)
  have alone : parts name.text = [name.text] := by
    rw [parts, same, split_free name.slash_not_mem, if_neg open_]
    simp [occupied]
  by_contra long
  have stop : tree.stride true directory [name.text] = .failed .nameTooLong := by
    rw [stride_name, if_pos (Nat.not_le.mp long)]
  have inside : startOf directory name.text = directory := by
    have relative : ¬ Path.isAbsolute name.text = true := by
      rw [Path.isAbsolute, beq_iff_eq]
      exact fun first => name.slash_not_mem (List.mem_of_mem_head? first)
    rw [startOf, if_neg relative]
  have far : tree.walk true linkLimit directory [name.text] = .error .nameTooLong := by
    rw [linkLimit, walk, stop]
  rw [lookup, find_eq, alone, occupied, inside, far] at failed
  split at failed <;> cases failed

end Tree

namespace Workspace

variable {space after : Workspace} {directory place : Path} {path : Text}

theorem enter_wellFormed (wellFormed : space.tree.WellFormed) (spelled : directory.Spelled) {names : List Name}
    (repaired : ∀ name ∈ names, repair name.text = name.text)
    (entered : space.enter path directory names = .ok (after, place)) :
    after.tree.WellFormed ∧ place.Spelled ∧ after.directory = space.directory := by
  induction names generalizing space directory with
  | nil =>
    obtain ⟨rfl, rfl⟩ := Prod.mk.inj (Except.ok.inj entered)
    exact ⟨wellFormed, spelled, rfl⟩
  | cons name rest ih =>
    have own := repaired name List.mem_cons_self
    have further : ∀ other ∈ rest, repair other.text = other.text :=
      fun other member => repaired other (List.mem_cons_of_mem _ member)
    rw [enter] at entered
    split at entered
    next goal looked => exact ih wellFormed (Tree.find_spelled spelled (Corpus.find_of_lookup looked)) further entered
    next => cases Corpus.naming_eq_ok entered
    next missing =>
      have entry := spelled.child own (Tree.length_le_of_noEntry own missing)
      have grown : { space with tree := space.tree.put (directory.child name) .directory }.tree.WellFormed :=
        wellFormed.put entry .directory
      obtain ⟨formed, ends, same⟩ := ih grown entry further entered
      exact ⟨formed, ends, same⟩
    next => cases Corpus.naming_eq_ok entered

theorem foldl_step_repaired {start : Path} (names : ∀ name ∈ start.names, repair name.text = name.text)
    {parts : List Text} (repaired : ∀ part ∈ parts, repair part = part) :
    ∀ name ∈ (parts.foldl Path.step start).names, repair name.text = name.text := by
  induction parts generalizing start with
  | nil => exact names
  | cons part rest ih =>
    refine ih (fun name member => ?_) fun other member => repaired other (List.mem_cons_of_mem _ member)
    rw [Path.step] at member
    split at member
    · exact names name (List.mem_of_mem_dropLast member)
    · split at member
      · rcases List.mem_append.mp member with before | last
        · exact names name before
        · obtain rfl := List.mem_singleton.mp last
          exact repaired part List.mem_cons_self
      · exact names name member

theorem resolve_repaired (spelled : directory.Spelled) (t : Text) :
    ∀ name ∈ (directory.resolve (repair t)).names, repair name.text = name.text := by
  refine foldl_step_repaired (fun name member => ?_) fun _ => repair_of_mem_split
  split at member
  · cases member
  · exact congrArg Name.text (spelled name member).1

theorem place_wellFormed (wellFormed : space.tree.WellFormed) (spelled : directory.Spelled) {name : Name} {node : Node}
    (done : space.place path directory name node = .ok after) :
    after.tree.WellFormed ∧ after.directory = space.directory := by
  have put {follow : Bool} {found : Tree.Found} (reach : space.tree.find directory follow name.text = .ok found)
      (same : after = { space with tree := space.tree.put found.place node }) :
      after.tree.WellFormed ∧ after.directory = space.directory := by
    subst same
    exact ⟨wellFormed.put (Tree.find_spelled spelled reach) node, rfl⟩
  unfold place at done
  split at done
  next found => exact put found (Except.ok.inj done).symm
  next found => exact put found (Except.ok.inj done).symm
  next => cases Corpus.naming_eq_ok done
  next => cases Corpus.naming_eq_ok done
  next =>
    split at done
    next found => exact put found (Except.ok.inj done).symm
    next => cases Corpus.naming_eq_ok done
    next => cases Corpus.naming_eq_ok done

theorem install_wellFormed (wellFormed : space.tree.WellFormed) (spelled : space.directory.Spelled) {node : Node}
    (done : space.install path node = .ok after) : after.tree.WellFormed ∧ after.directory = space.directory := by
  have names := resolve_repaired spelled path
  simp only [install] at done
  generalize space.directory.resolve (repair path) = goal at done names
  split at done
  next =>
    obtain rfl := Except.ok.inj done
    exact ⟨wellFormed, rfl⟩
  next =>
    obtain ⟨_, _, done⟩ := Expression.bind_eq_ok.mp done
    obtain ⟨⟨grown, _⟩, entered, done⟩ := Expression.bind_eq_ok.mp done
    obtain rfl := Except.ok.inj done
    obtain ⟨formed, _, same⟩ := enter_wellFormed wellFormed .root names entered
    exact ⟨formed, same⟩
  next =>
    obtain ⟨_, _, done⟩ := Expression.bind_eq_ok.mp done
    obtain ⟨⟨grown, directory⟩, entered, done⟩ := Expression.bind_eq_ok.mp done
    obtain ⟨_, _, done⟩ := Expression.bind_eq_ok.mp done
    obtain ⟨formed, above, same⟩ :=
      enter_wellFormed wellFormed .root (fun name member => names name (List.mem_of_mem_dropLast member)) entered
    obtain ⟨formedToo, sameToo⟩ := place_wellFormed formed above done
    exact ⟨formedToo, sameToo.trans same⟩

/-- The workspaces that come of setting things up around a directory, of calls and of runs. -/
inductive Reached (directory : Path) : Workspace → Prop where
  | bare : Reached directory ⟨Tree.empty.makeDirectories directory, directory⟩
  | install {space after : Workspace} {path : Text} {node : Node} (earlier : Reached directory space)
      (done : space.install path node = .ok after) : Reached directory after
  | removeAll {space : Workspace} (earlier : Reached directory space) (path : Text) :
      Reached directory (space.removeAll path)
  | write {space after : Workspace} {path : Text} {bytes : Bytes} {mode : Nat} (earlier : Reached directory space)
      (written : space.writeFile path bytes mode = .ok after) : Reached directory after
  | rename {space after : Workspace} {source target : Text} (earlier : Reached directory space)
      (moved : space.rename source target = .ok after) : Reached directory after
  | remove {space after : Workspace} {path : Text} (earlier : Reached directory space)
      (removed : space.remove path = .ok after) : Reached directory after

theorem reached_kept (directory : Path) : Kept (Reached directory) := ⟨.write, .rename, .remove⟩

theorem Reached.wellFormed (spelled : directory.Spelled) (reached : Reached directory space) :
    space.tree.WellFormed := by
  suffices both : space.tree.WellFormed ∧ space.directory = directory from both.1
  induction reached with
  | bare => exact ⟨Tree.empty_wellFormed.makeDirectories spelled, rfl⟩
  | install earlier done ih =>
    obtain ⟨formed, rfl⟩ := ih
    exact install_wellFormed formed spelled done
  | @removeAll space earlier path ih =>
    obtain ⟨formed, rfl⟩ := ih
    rw [Workspace.removeAll]
    split
    · exact ⟨formed.eraseAll _, rfl⟩
    · exact ⟨formed, rfl⟩
  | write earlier written ih =>
    obtain ⟨formed, rfl⟩ := ih
    obtain ⟨found, reach, rfl | ⟨kept, rfl⟩⟩ := writeFile_found written
    · exact ⟨formed, rfl⟩
    · exact ⟨formed.put (Tree.find_spelled spelled reach) _, rfl⟩
  | rename earlier moved ih =>
    obtain ⟨formed, rfl⟩ := ih
    obtain ⟨place, node, goal, _, reach, rfl⟩ := rename_found moved
    exact ⟨(formed.erase place).put (Tree.find_spelled spelled reach) node, rfl⟩
  | remove earlier removed ih =>
    obtain ⟨formed, rfl⟩ := ih
    rcases remove_found removed with rfl | ⟨found, _, rfl⟩
    · exact ⟨formed, rfl⟩
    · exact ⟨formed.erase _, rfl⟩

theorem Reached.reviseCorpusUnder (reached : Reached directory space) (refusals : RunRefusals) (plan : Plan)
    (options : RunOptions) {means : RunMeans} (quiet : means.hook.Quiet) :
    Reached directory (space.reviseCorpusUnder refusals plan options means).2.1.space := by
  by_cases taken : ∃ files, space.TakesOnUnder refusals.opening options files
  · obtain ⟨files, taken⟩ := taken
    rw [reviseCorpusUnder_taken taken]
    exact Corpus.runAll_keeps (reached_kept directory) quiet reached _ _ _ _
  · obtain ⟨failure, stopped⟩ := reviseCorpusUnder_stopped fun files own => taken ⟨files, own⟩
    rw [stopped]
    exact reached

section Listing

variable {tree : Tree}

/-- By induction on how deep a listing may go. It may go deeper than the tree is, so it ends at no directory. -/
theorem mem_filesBelow_iff (wellFormed : tree.WellFormed) {fuel : Nat} (firm : tree.Firm directory)
    (room : Corpus.depth tree < fuel + directory.names.length) {shown listed : Text} {bytes : Bytes} {mode : Nat} :
    (listed, bytes, mode) ∈ filesBelow tree fuel directory shown ↔
      ∃ names last, listed = shown ++ Path.trail names ++ Name.text last ∧ tree.Firm (directory.below names) ∧
        tree.get? ((directory.below names).child last) = some (.file bytes mode) := by
  induction fuel generalizing directory shown with
  | zero =>
    have within := Corpus.length_le_depth wellFormed (firm directory List.prefix_rfl)
    omega
  | succ fuel ih =>
    have deeper (name : Name) : Corpus.depth tree < fuel + (directory.child name).names.length := by
      rw [Path.child, List.length_append, List.length_singleton]
      omega
    rw [filesBelow, List.mem_flatMap]
    constructor
    · rintro ⟨⟨name, node⟩, member, inside⟩
      have there := (Tree.mem_list_iff wellFormed).mp member
      cases node with
      | directory =>
        obtain ⟨names, last, rfl, below, file⟩ := (ih (firm.child there) (deeper name)).mp inside
        refine ⟨name :: names, last, ?_, ?_, ?_⟩
        · simp [Path.trail]
        · rwa [Path.below_cons]
        · rwa [Path.below_cons]
      | file own ownMode =>
        obtain ⟨rfl, rfl, rfl⟩ : listed = shown ++ name.text ∧ bytes = own ∧ mode = ownMode := by
          simpa using inside
        exact ⟨[], name, by simp [Path.trail], by rwa [Path.below_nil], by rwa [Path.below_nil]⟩
      | link target | pipe => cases inside
    · rintro ⟨names, last, rfl, below, file⟩
      cases names with
      | nil =>
        rw [Path.below_nil] at file
        exact ⟨(last, .file bytes mode), (Tree.mem_list_iff wellFormed).mpr file, by simp [Path.trail]⟩
      | cons name names =>
        rw [Path.below_cons] at below file
        have entered : tree.Firm (directory.child name) := below.above (List.prefix_append _ _)
        have there := entered _ List.prefix_rfl
        refine ⟨(name, .directory), (Tree.mem_list_iff wellFormed).mpr there, ?_⟩
        exact (ih entered (deeper name)).mpr ⟨names, last, by simp [Path.trail], below, file⟩

/-- The files that are listed are those below the directory of a workspace, links not followed. -/
theorem mem_files_iff (wellFormed : space.tree.WellFormed) (firm : space.tree.Firm space.directory) {listed : Text}
    {bytes : Bytes} {mode : Nat} :
    (listed, bytes, mode) ∈ space.files ↔
      ∃ names last, listed = Path.trail names ++ Name.text last ∧ space.tree.Firm (space.directory.below names) ∧
        space.tree.get? ((space.directory.below names).child last) = some (.file bytes mode) :=
  mem_filesBelow_iff wellFormed firm (Nat.lt_add_right _ (Nat.lt_succ_self _))

end Listing

end Workspace

end Emend
