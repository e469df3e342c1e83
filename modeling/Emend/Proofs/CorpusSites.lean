import Emend.Corpus.Collect
import Emend.Proofs.Lookup
import Emend.Proofs.TreeWalk

/-! Where the files of a corpus stand. Below the scope no link is followed, so each collected path
leads to a place of its own, and it goes on leading there while files are replaced. -/

namespace Emend

open Text FileError

/-- What is assumed of trees: there is one thing at a path, and names are of limited length and can be written in
path texts. A file system has other names too, since bytes need not spell a text. -/
structure Tree.WellFormed (tree : Tree) : Prop where
  once : (tree.entries.map Prod.fst).Nodup
  named : ∀ entry ∈ tree.entries, ∀ name ∈ entry.1.names,
    name.repaired = name ∧ (Utf8.encode name.text).length ≤ Tree.nameLimit

/-- A path leads to a place: its directory leads to the directory of the place, and its last name is the
name there. -/
inductive Site (tree : Tree) : Path → Path → Prop where
  | mk {front directory : Path} (name : Name)
      (reach : tree.walk true Tree.linkLimit .root (front.repaired.names.map Name.text) =
        .ok (.node directory .directory)) :
      Site tree (front.child name) (directory.child name.repaired)

/-- A path that no call accepts, as a whole or for its last name. -/
def Path.isLong (path : Path) : Bool :=
  Tree.pathLimit ≤ (Utf8.encode path.toText).length ||
    path.names.getLast?.any fun name => Tree.nameLimit < (Utf8.encode name.repaired.text).length

namespace Site

variable {before after : Tree} {shown place : Path}

theorem place_ne_root (site : Site before shown place) : place ≠ .root := by
  cases site with
  | mk name reach => exact Path.child_ne_root _ _

/-- While directories and links stay, a look-up ends at the place, unless a link is to be followed from there. -/
theorem find (site : Site before shown place) (keeps : before.Keeps after) (base : Path) (follow : Bool)
    (plain : follow = true → ∀ target, after.get? place ≠ some (.link target)) :
    after.find base follow shown.toText =
      if shown.isLong then .error .nameTooLong else .ok (after.endAt place) := by
  cases site with
  | @mk front directory name reach =>
    obtain ⟨left, same⟩ := Tree.walk_concat after follow name.repaired.text (Tree.walk_keeps keeps reach)
    have last : (front.child name).names.getLast? = some name := by simp [Path.child]
    have way : after.resolve base follow (front.child name).toText =
        after.walk follow left directory [name.repaired.text] := by
      rw [Tree.resolve_toText, Path.child_repaired, ← same]
      simp [Path.child]
    rw [Tree.find, way, Tree.walk_name after follow left directory name.repaired plain, Path.isLong, last,
      Option.any_some]
    by_cases long : Tree.pathLimit ≤ (Utf8.encode (front.child name).toText).length
    · simp [long]
    · simp [long]

theorem sibling (site : Site before shown place) {token : Text} (plain : Corpus.isToken token = true) :
    ∃ temporary sibling, Corpus.temporaryPath token shown.toText = temporary.toText ∧
      Site before temporary sibling ∧
      ∃ name, sibling = place.parent.child (Corpus.sibling token plain name) := by
  cases site with
  | @mk front directory name reach =>
    refine ⟨front.child (Corpus.sibling token plain name), _, Corpus.temporaryPath_child plain front name,
      .mk _ reach, name.repaired, ?_⟩
    rw [Path.child_parent, Corpus.sibling_repaired]

end Site

section Listing

variable {tree : Tree} (wellFormed : tree.WellFormed)

private theorem eq_child_of_childOf {directory : Path} {entry : Path × Node} {name : Name} {node : Node}
    (child : Tree.childOf? directory entry = some (name, node)) : entry = (directory.child name, node) := by
  obtain ⟨⟨names⟩, there⟩ := entry
  rw [Tree.childOf?] at child
  cases last : names.getLast? with
  | none =>
    simp only [last] at child
    cases child
  | some other =>
    simp only [last] at child
    split at child
    next inside =>
      obtain ⟨rfl, rfl⟩ := Prod.mk.inj (Option.some.inj child)
      obtain ⟨front, rfl⟩ := List.getLast?_eq_some_iff.mp last
      rw [← inside]
      simp [Path.parent, Path.child]
    next => cases child

include wellFormed

theorem get?_of_mem_list {directory : Path} {name : Name} {node : Node} (member : (name, node) ∈ tree.list directory) :
    tree.get? (directory.child name) = some node ∧ name.repaired = name ∧
      (Utf8.encode name.text).length ≤ Tree.nameLimit := by
  rw [Tree.list, List.mem_mergeSort, List.mem_filterMap] at member
  obtain ⟨entry, among, child⟩ := member
  obtain rfl := eq_child_of_childOf child
  have own : name ∈ (directory.child name).names := by simp [Path.child]
  refine ⟨?_, wellFormed.named _ among name own⟩
  rw [Tree.get?_of_ne tree (Path.child_ne_root directory name)]
  exact lookup_of_mem wellFormed.once among

theorem list_names_nodup (directory : Path) : (tree.list directory).Pairwise fun a b => a.1 ≠ b.1 := by
  have entries : tree.entries.Pairwise fun a b => a.1 ≠ b.1 := List.pairwise_map.mp wellFormed.once
  have children : (tree.entries.filterMap (Tree.childOf? directory)).Pairwise fun a b => a.1 ≠ b.1 := by
    rw [List.pairwise_filterMap]
    apply entries.imp
    intro a b apart first one second two same
    obtain ⟨name, node⟩ := first
    obtain ⟨other, nodeToo⟩ := second
    obtain rfl : name = other := same
    exact apart (by rw [eq_child_of_childOf one, eq_child_of_childOf two])
  exact ((List.mergeSort_perm _ _).pairwise_iff fun apart => Ne.symm apart).mpr children

theorem walk_child {shown place : Path} {name : Name}
    (reach : tree.walk true Tree.linkLimit .root (shown.repaired.names.map Name.text) = .ok (.node place .directory))
    (member : (name, .directory) ∈ tree.list place) :
    tree.walk true Tree.linkLimit .root ((shown.child name).repaired.names.map Name.text) =
      .ok (.node (place.child name) .directory) := by
  obtain ⟨there, same, fits⟩ := get?_of_mem_list wellFormed member
  obtain ⟨left, more⟩ := Tree.walk_concat tree true name.text reach
  have plain : ∀ target, tree.get? (place.child name) ≠ some (.link target) := by
    intro target other
    rw [there] at other
    cases other
  have split : (shown.child name).repaired.names.map Name.text =
      shown.repaired.names.map Name.text ++ [name.text] := by
    rw [Path.child_repaired, same]
    simp [Path.child]
  rw [split, more, Tree.walk_name tree true left place name fun _ => plain, if_neg (Nat.not_lt.mpr fits), Tree.endAt, there]

end Listing

namespace Corpus

variable (tree : Tree) (selection : Selection)

def entryFiles (depth : Nat) (place shown : Path) (entry : Name × Node) : List Path :=
  match entry.2 with
  | .directory =>
    if selection.skipped.contains entry.1.text then []
    else walk tree selection depth (place.child entry.1) (shown.child entry.1)
  | .file _ _ => if selection.accepts entry.1.text then [shown.child entry.1] else []
  | _ => []

theorem walk_succ (depth : Nat) (place shown : Path) :
    walk tree selection (depth + 1) place shown =
      (tree.list place).flatMap (entryFiles tree selection depth place shown) := by
  rw [walk]
  rfl

variable {tree}

structure Below (tree : Tree) (place shown : Path) (rest : List Name) (file : Path) : Prop where
  names : file.names = shown.names ++ rest
  site : Site tree file ⟨place.names ++ rest⟩
  there : ∃ bytes mode, tree.get? ⟨place.names ++ rest⟩ = some (.file bytes mode)

theorem entryFiles_below (wellFormed : tree.WellFormed) {depth : Nat} {place shown : Path}
    (reach : tree.walk true Tree.linkLimit .root (shown.repaired.names.map Name.text) = .ok (.node place .directory))
    (deeper : ∀ place shown, tree.walk true Tree.linkLimit .root (shown.repaired.names.map Name.text) =
      .ok (.node place .directory) → ∀ file ∈ walk tree selection depth place shown,
      ∃ rest, Below tree place shown rest file)
    {entry : Name × Node} (among : entry ∈ tree.list place) {file : Path}
    (member : file ∈ entryFiles tree selection depth place shown entry) :
    ∃ rest, Below tree place shown (entry.1 :: rest) file := by
  obtain ⟨name, node⟩ := entry
  obtain ⟨there, same, _⟩ := get?_of_mem_list wellFormed among
  cases node with
  | link target | pipe => cases member
  | directory =>
    simp only [entryFiles] at member
    split at member
    · cases member
    · obtain ⟨rest, names, site, found⟩ := deeper _ _ (walk_child wellFormed reach among) file member
      refine ⟨rest, ?_, ?_, ?_⟩
      · rw [names, Path.child, List.append_assoc]
        rfl
      · simpa [Path.child] using site
      · simpa [Path.child] using found
  | file bytes mode =>
    simp only [entryFiles] at member
    split at member
    · obtain rfl := List.mem_singleton.mp member
      have site : Site tree (shown.child name) (place.child name.repaired) := .mk name reach
      rw [same] at site
      exact ⟨[], rfl, site, bytes, mode, there⟩
    · cases member

theorem walk_below (wellFormed : tree.WellFormed) (depth : Nat) {place shown : Path}
    (reach : tree.walk true Tree.linkLimit .root (shown.repaired.names.map Name.text) = .ok (.node place .directory)) :
    (walk tree selection depth place shown).Nodup ∧
      ∀ file ∈ walk tree selection depth place shown, ∃ rest, Below tree place shown rest file := by
  induction depth generalizing place shown with
  | zero =>
    rw [walk]
    exact ⟨List.nodup_nil, fun file member => nomatch member⟩
  | succ depth ih =>
    rw [walk_succ]
    have deeper : ∀ place shown, tree.walk true Tree.linkLimit .root (shown.repaired.names.map Name.text) =
        .ok (.node place .directory) → ∀ file ∈ walk tree selection depth place shown,
        ∃ rest, Below tree place shown rest file := fun place shown reach => (ih reach).2
    refine ⟨List.nodup_flatMap.mpr ⟨fun entry among => ?_, ?_⟩, fun file member => ?_⟩
    · obtain ⟨name, node⟩ := entry
      cases node with
      | link target | pipe => exact List.nodup_nil
      | directory =>
        simp only [entryFiles]
        split
        · exact List.nodup_nil
        · exact (ih (walk_child wellFormed reach among)).1
      | file bytes mode =>
        simp only [entryFiles]
        split
        · exact List.nodup_singleton _
        · exact List.nodup_nil
    · have listed : ∀ entry ∈ tree.list place, ∀ file ∈ entryFiles tree selection depth place shown entry,
          ∃ rest, file.names = shown.names ++ entry.1 :: rest := by
        intro entry among file member
        obtain ⟨rest, below⟩ := entryFiles_below selection wellFormed reach deeper among member
        exact ⟨rest, below.names⟩
      apply (list_names_nodup wellFormed place).imp_of_mem
      intro a b left right apart
      apply List.disjoint_left.mpr
      intro file first second
      obtain ⟨rest, names⟩ := listed a left file first
      obtain ⟨others, namesToo⟩ := listed b right file second
      rw [names] at namesToo
      exact apart (List.cons.inj (List.append_cancel_left namesToo)).1
    · obtain ⟨entry, among, inside⟩ := List.mem_flatMap.mp member
      obtain ⟨rest, below⟩ := entryFiles_below selection wellFormed reach deeper among inside
      exact ⟨_, below⟩

variable {selection}

theorem naming_eq_ok {α : Type} {call : String} {path : Text} {result : Except Code α} {value : α}
    (named : Workspace.naming call path result = .ok value) : result = .ok value := by
  rw [Workspace.naming] at named
  split at named
  · cases named
  · cases result with
    | error code => cases named
    | ok other => exact congrArg _ (Except.ok.inj named)

theorem find_of_lookup {base place : Path} {follow : Bool} {t : Text} {node : Node}
    (found : tree.lookup base follow t = .ok (place, node)) : tree.find base follow t = .ok (.node place node) := by
  rw [Tree.lookup] at found
  cases reach : tree.find base follow t with
  | error code =>
    rw [reach] at found
    cases found
  | ok there =>
    rw [reach] at found
    cases there with
    | missing place => cases found
    | node other at_ =>
      obtain ⟨rfl, rfl⟩ := Prod.mk.inj (Except.ok.inj found)
      rfl

theorem resolve_of_find {base : Path} {follow : Bool} {t : Text} {found : Tree.Found}
    (reach : tree.find base follow t = .ok found) :
    ¬ Tree.pathLimit ≤ (Utf8.encode t).length ∧ tree.resolve base follow t = .ok found := by
  rw [Tree.find] at reach
  split at reach
  · cases reach
  · next fits => exact ⟨fits, reach⟩

/-- A path to a file is a site of its own entry, which may be a link. It leads to the directory of this entry when its
last name is taken off. -/
theorem exists_site {base shown target : Path} {bytes : Bytes} {mode : Nat}
    (found : tree.find base true shown.toText = .ok (.node target (.file bytes mode))) :
    ∃ entry, Site tree shown entry ∧ shown.isLong = false ∧
      tree.resolve base true shown.parent.toText = .ok (.node entry.parent .directory) := by
  obtain ⟨fits, reach⟩ := resolve_of_find found
  rw [Tree.resolve_toText] at reach
  obtain ⟨names⟩ := shown
  rcases List.eq_nil_or_concat names with rfl | ⟨front, name, rfl⟩
  · cases reach
  · rw [List.concat_eq_append] at fits reach ⊢
    have whole : Path.mk (front ++ [name]) = (Path.mk front).child name := rfl
    have split : ((Path.mk front).child name).repaired.names.map Name.text =
        (Path.mk front).repaired.names.map Name.text ++ [name.repaired.text] := by
      rw [Path.child_repaired]
      simp [Path.child]
    rw [whole, split] at reach
    obtain ⟨directory, way⟩ := Tree.walk_directory tree true name.repaired.text reach
    have short : ¬ Tree.nameLimit < (Utf8.encode name.repaired.text).length := by
      intro long
      obtain ⟨left, same⟩ := Tree.walk_concat tree true name.repaired.text way
      rw [same] at reach
      cases left <;> rw [Tree.walk, Tree.stride_name, if_pos long] at reach <;> cases reach
    refine ⟨directory.child name.repaired, whole ▸ .mk name way, ?_, ?_⟩
    · simp [Path.isLong, fits, short]
    · rw [whole, Path.child_parent, Path.child_parent, Tree.resolve_toText, way]

/-- A path to a file is a site of that file, unless a link stands at its end. -/
theorem site_of_find {base shown place : Path} {bytes : Bytes} {mode : Nat}
    (found : tree.find base true shown.toText = .ok (.node place (.file bytes mode)))
    (unlinked : ∀ place target, tree.find base false shown.toText ≠ .ok (.node place (.link target))) :
    Site tree shown place ∧ tree.get? place = some (.file bytes mode) := by
  obtain ⟨entry, site, short, _⟩ := exists_site found
  have plain : ∀ target, tree.get? entry ≠ some (.link target) := by
    intro target there
    apply unlinked entry target
    rw [site.find (.refl tree) base false (fun follow => by cases follow), short, Tree.endAt, there]
    rfl
  rw [site.find (.refl tree) base true fun _ => plain, short, Tree.endAt] at found
  cases there : tree.get? entry with
  | none =>
    rw [there] at found
    cases found
  | some node =>
    rw [there] at found
    obtain ⟨rfl, rfl⟩ := Tree.Found.node.inj (Except.ok.inj found)
    exact ⟨site, there⟩

/-- The files of a corpus stand at places of their own. -/
structure Sited (tree : Tree) (files : List Path) (placeOf : Path → Path) : Prop where
  once : files.Nodup
  site : ∀ file ∈ files, Site tree file (placeOf file)
  there : ∀ file ∈ files, ∃ bytes mode, tree.get? (placeOf file) = some (.file bytes mode)
  apart : ∀ file ∈ files, ∀ other ∈ files, placeOf file = placeOf other → file = other

theorem walk_sited (selection : Selection) (wellFormed : tree.WellFormed) (depth : Nat) {place shown : Path}
    (reach : tree.walk true Tree.linkLimit .root (shown.repaired.names.map Name.text) = .ok (.node place .directory)) :
    ∃ placeOf, Sited tree (walk tree selection depth place shown) placeOf ∧
      ∀ file ∈ walk tree selection depth place shown, place.names <+: (placeOf file).names := by
  obtain ⟨once, below⟩ := walk_below selection wellFormed depth reach
  have cut : ∀ file ∈ walk tree selection depth place shown,
      ∃ rest, Below tree place shown rest file ∧ file.names.drop shown.names.length = rest := by
    intro file member
    obtain ⟨rest, inside⟩ := below file member
    exact ⟨rest, inside, by rw [inside.names, List.drop_left]⟩
  refine ⟨fun file => ⟨place.names ++ file.names.drop shown.names.length⟩, ⟨once, ?_, ?_, ?_⟩,
    fun _ _ => List.prefix_append _ _⟩
  · intro file member
    obtain ⟨rest, inside, same⟩ := cut file member
    rw [same]
    exact inside.site
  · intro file member
    obtain ⟨rest, inside, same⟩ := cut file member
    rw [same]
    exact inside.there
  · intro file member other memberToo same
    obtain ⟨rest, inside, own⟩ := cut file member
    obtain ⟨others, insideToo, ownToo⟩ := cut other memberToo
    rw [own, ownToo, Path.mk.injEq] at same
    have names : file.names = other.names := by rw [inside.names, insideToo.names, List.append_cancel_left same]
    exact congrArg Path.mk names

/-- What a scope leads to, and the corpus that comes of it. -/
inductive Reaches (space : Workspace) (selection : Selection) (scope : Path) : List Path → Prop where
  | file {files : List Path} {target : Path} {bytes : Bytes} {mode : Nat}
      (found : space.tree.find space.directory true scope.toText = .ok (.node target (.file bytes mode)))
      (alone : files = [scope] ∨ files = []) : Reaches space selection scope files
  | directory {place : Path}
      (reach : space.tree.walk true Tree.linkLimit .root (scope.repaired.names.map Name.text) =
        .ok (.node place .directory)) :
      Reaches space selection scope (walk space.tree selection (depth space.tree + 1) place scope)
  | other : Reaches space selection scope []

theorem collect_reaches {refused : Text → Option Code} {space : Workspace} {files : List Path}
    (collected : collectUnder refused space selection = .ok files) :
    Reaches space selection ((space.directory.resolve selection.directory).resolve selection.scope) files := by
  rw [collectUnder] at collected
  generalize (space.directory.resolve selection.directory).resolve selection.scope = scope at collected ⊢
  split at collected
  · cases collected
  next target bytes mode named =>
    obtain rfl := Except.ok.inj collected
    refine .file (find_of_lookup (naming_eq_ok named)) ?_
    split
    · exact .inl rfl
    · exact .inr rfl
  next place named =>
    split at collected
    · cases collected
    · obtain rfl := Except.ok.inj collected
      have reach := (resolve_of_find (find_of_lookup (naming_eq_ok named))).2
      rw [Tree.resolve_toText] at reach
      exact .directory reach
  · obtain rfl := Except.ok.inj collected
    exact .other

theorem sited_nil (tree : Tree) : Sited tree [] id := ⟨List.nodup_nil, by simp, by simp, by simp⟩

theorem collect_sited {refused : Text → Option Code} {space : Workspace} (wellFormed : space.tree.WellFormed)
    {files : List Path} (collected : collectUnder refused space selection = .ok files)
    (unlinked : ∀ place target, space.tree.find space.directory false
      ((space.directory.resolve selection.directory).resolve selection.scope).toText ≠ .ok (.node place (.link target))) :
    ∃ placeOf, Sited space.tree files placeOf := by
  have reaches := collect_reaches collected
  generalize (space.directory.resolve selection.directory).resolve selection.scope = scope at reaches unlinked
  cases reaches with
  | @file _ target bytes mode found alone =>
    obtain ⟨site, there⟩ := site_of_find found unlinked
    have only : ∀ file ∈ files, file = scope := by
      intro file member
      rcases alone with rfl | rfl
      · exact List.mem_singleton.mp member
      · cases member
    refine ⟨fun _ => target, ?_, ?_, ?_, ?_⟩
    · rcases alone with rfl | rfl
      · exact List.nodup_singleton scope
      · exact List.nodup_nil
    · intro file member
      rw [only file member]
      exact site
    · exact fun _ _ => ⟨bytes, mode, there⟩
    · intro file member other memberToo _
      rw [only file member, only other memberToo]
  | directory reach =>
    obtain ⟨placeOf, sited, _⟩ := walk_sited selection wellFormed (depth space.tree + 1) reach
    exact ⟨placeOf, sited⟩
  | other => exact ⟨id, sited_nil _⟩

end Corpus

end Emend
