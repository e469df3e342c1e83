import Emend.Proofs.AlikeLookups
import Mathlib.Data.List.Sort
import Mathlib.Order.Basic

/-! The corpora of alike trees. A directory lists the same names in the same order, with things of the same kinds, and
that is all a walk looks at, so the same files are collected. -/

namespace Emend

open Text FileError

theorem Text.not_before_iff {one other : Text} : (!before other one) = true ↔ one ≤ other := by
  rw [before, Bool.not_eq_true', decide_eq_false_iff_not]
  rfl

namespace Tree

variable {tree : Tree}

theorem mem_list_iff (wellFormed : tree.WellFormed) {directory : Path} {name : Name} {node : Node} :
    (name, node) ∈ tree.list directory ↔ tree.get? (directory.child name) = some node := by
  constructor
  · intro member
    exact (get?_of_mem_list wellFormed member).1
  · intro there
    rw [get?_of_ne tree (Path.child_ne_root directory name)] at there
    rw [list, List.mem_mergeSort, List.mem_filterMap]
    refine ⟨(directory.child name, node), pair_mem_of_lookup there, ?_⟩
    have last : (directory.child name).names.getLast? = some name := by simp [Path.child]
    rw [childOf?, last]
    exact if_pos (Path.child_parent directory name)

theorem list_sorted (tree : Tree) (directory : Path) :
    (tree.list directory).Pairwise fun a b => a.1.text ≤ b.1.text := by
  have sorted : (tree.list directory).Pairwise fun a b => (!Text.before b.1.text a.1.text) = true := by
    apply List.pairwise_mergeSort
    · intro a b c first second
      rw [not_before_iff] at first second ⊢
      exact List.le_trans first second
    · intro a b
      rw [Bool.or_eq_true, not_before_iff, not_before_iff]
      exact List.le_total _ _
  exact sorted.imp fun first => not_before_iff.mp first

/-- A directory as a walk sees it: names, and what kind of thing each one stands for. -/
def kinds (tree : Tree) (directory : Path) : List (Name × Node.Kind) :=
  (tree.list directory).map fun entry => (entry.1, entry.2.kind)

theorem mem_kinds_iff (wellFormed : tree.WellFormed) {directory : Path} {name : Name} {kind : Node.Kind} :
    (name, kind) ∈ tree.kinds directory ↔ (tree.get? (directory.child name)).map Node.kind = some kind := by
  rw [kinds, List.mem_map, Option.map_eq_some_iff]
  constructor
  · rintro ⟨⟨own, node⟩, member, same⟩
    obtain ⟨rfl, rfl⟩ := Prod.mk.inj same
    exact ⟨node, (mem_list_iff wellFormed).mp member, rfl⟩
  · rintro ⟨node, there, rfl⟩
    exact ⟨(name, node), (mem_list_iff wellFormed).mpr there, rfl⟩

variable {before after : Tree}

theorem kinds_alike (alike : before.Alike after) (wellFormed : before.WellFormed) (wellFormedToo : after.WellFormed)
    (directory : Path) : after.kinds directory = before.kinds directory := by
  have names_nodup {tree : Tree} (wellFormed : tree.WellFormed) : (tree.kinds directory).Nodup := by
    apply List.pairwise_map.mpr
    apply (list_names_nodup wellFormed directory).imp
    intro a b apart same
    exact apart (Prod.mk.inj same).1
  have sorted (tree : Tree) : (tree.kinds directory).Pairwise fun a b => a.1.text ≤ b.1.text :=
    List.pairwise_map.mpr (list_sorted tree directory)
  have same (entry : Name × Node.Kind) : entry ∈ after.kinds directory ↔ entry ∈ before.kinds directory := by
    rw [mem_kinds_iff wellFormed, mem_kinds_iff wellFormedToo, alike]
  apply List.Perm.eq_of_pairwise _ (sorted after) (sorted before)
  · exact (List.perm_ext_iff_of_nodup (names_nodup wellFormedToo) (names_nodup wellFormed)).mpr same
  · intro a b member memberToo first second
    obtain ⟨name, kind⟩ := a
    obtain ⟨other, otherKind⟩ := b
    obtain rfl : name = other := Name.ext (List.le_antisymm first second)
    have there := (mem_kinds_iff wellFormed).mp ((same _).mp member)
    have thereToo := (mem_kinds_iff wellFormed).mp memberToo
    rw [Option.some.inj (there.symm.trans thereToo)]

end Tree

namespace Corpus

section Depth

private theorem foldl_max_le_iff (lengths : List Nat) (start bound : Nat) :
    lengths.foldl max start ≤ bound ↔ start ≤ bound ∧ ∀ length ∈ lengths, length ≤ bound := by
  induction lengths generalizing start with
  | nil => simp
  | cons length lengths ih => rw [List.foldl_cons, ih, max_le_iff, List.forall_mem_cons, and_assoc]

theorem depth_le_iff {tree : Tree} (wellFormed : tree.WellFormed) {bound : Nat} :
    depth tree ≤ bound ↔ ∀ path, (tree.get? path).isSome = true → path.names.length ≤ bound := by
  rw [depth, foldl_max_le_iff, and_iff_right (Nat.zero_le bound), List.forall_mem_map]
  constructor
  · intro within path there
    by_cases top : path = .root
    · subst top
      exact Nat.zero_le bound
    · rw [Tree.get?_of_ne tree top] at there
      obtain ⟨node, found⟩ := Option.isSome_iff_exists.mp there
      exact within (path, node) (pair_mem_of_lookup found)
  · intro within entry member
    obtain ⟨path, node⟩ := entry
    by_cases top : path = .root
    · subst top
      exact Nat.zero_le bound
    · apply within path
      rw [Tree.get?_of_ne tree top, lookup_of_mem wellFormed.once member]
      rfl

end Depth

/-! A walk told from the kinds of what it meets. -/

section Kinds

variable (selection : Selection)

def kindFiles (below : Path → Path → List Path) (place shown : Path) (entry : Name × Node.Kind) : List Path :=
  match entry.2 with
  | .directory =>
    if selection.skipped.contains entry.1.text then [] else below (place.child entry.1) (shown.child entry.1)
  | .file => if selection.accepts entry.1.text then [shown.child entry.1] else []
  | .link _ | .pipe => []

theorem walk_kinds (tree : Tree) (depth : Nat) (place shown : Path) :
    walk tree selection (depth + 1) place shown =
      (tree.kinds place).flatMap (kindFiles selection (walk tree selection depth) place shown) := by
  rw [walk_succ, Tree.kinds, List.flatMap_map]
  congr 1
  funext entry
  obtain ⟨name, node⟩ := entry
  cases node <;> rfl

def kindUnopened? (below : Path → Path → Option (Path × Code)) (place shown : Path) (entry : Name × Node.Kind) :
    Option (Path × Code) :=
  match entry.2 with
  | .directory =>
    if selection.skipped.contains entry.1.text then none else below (place.child entry.1) (shown.child entry.1)
  | .file | .link _ | .pipe => none

theorem unopened?_kinds (refused : Text → Option Code) (tree : Tree) (depth : Nat) (place shown : Path) :
    unopened? refused tree selection (depth + 1) place shown =
      match shut? refused shown with
      | some code => some (shown, code)
      | none =>
        (tree.kinds place).findSome? (kindUnopened? selection (unopened? refused tree selection depth) place shown) := by
  rw [unopened?, Tree.kinds, List.findSome?_map]
  cases shut? refused shown with
  | some code => rfl
  | none =>
    simp only
    congr 1
    funext entry
    obtain ⟨name, node⟩ := entry
    cases node <;> rfl

end Kinds

section Alike

variable {before after : Tree} (alike : before.Alike after) (wellFormed : before.WellFormed)
  (wellFormedToo : after.WellFormed)

include alike wellFormed wellFormedToo

theorem depth_alike : depth after = depth before := by
  have same (path : Path) : (after.get? path).isSome = (before.get? path).isSome := by
    rw [← Option.isSome_map, alike, Option.isSome_map]
  apply eq_of_forall_ge_iff
  intro bound
  simp only [depth_le_iff wellFormed, depth_le_iff wellFormedToo, same]

variable (selection : Selection) (depth : Nat)

/-- By induction on how deep the walk may go: it meets the same kinds of things, and is the same from there on. -/
theorem walk_alike : walk after selection depth = walk before selection depth := by
  induction depth with
  | zero => funext place shown; rfl
  | succ depth ih =>
    funext place shown
    rw [walk_kinds, walk_kinds, ih, Tree.kinds_alike alike wellFormed wellFormedToo]

theorem unopened?_alike (refused : Text → Option Code) :
    unopened? refused after selection depth = unopened? refused before selection depth := by
  induction depth with
  | zero => funext place shown; rfl
  | succ depth ih =>
    funext place shown
    rw [unopened?_kinds, unopened?_kinds, ih, Tree.kinds_alike alike wellFormed wellFormedToo]

end Alike

theorem collect_alike {space after : Workspace} (alike : space.tree.Alike after.tree)
    (wellFormed : space.tree.WellFormed) (wellFormedToo : after.tree.WellFormed)
    (directory : after.directory = space.directory) (refused : Text → Option Code) (selection : Selection) :
    collectUnder refused after selection = collectUnder refused space selection := by
  rw [collectUnder, collectUnder, directory, depth_alike alike wellFormed wellFormedToo,
    walk_alike alike wellFormed wellFormedToo, unopened?_alike alike wellFormed wellFormedToo]
  generalize (space.directory.resolve selection.directory).resolve selection.scope = shown
  have looked := Workspace.lookup_alike alike directory shown.toText
  rw [directory] at looked
  generalize after.tree.lookup space.directory true shown.toText = one at looked ⊢
  generalize space.tree.lookup space.directory true shown.toText = other at looked ⊢
  cases one with
  | error code =>
    cases other with
    | error other => rw [Except.error.inj looked]
    | ok found => cases looked
  | ok found =>
    cases other with
    | error code => cases looked
    | ok other =>
      obtain ⟨place, node⟩ := found
      obtain ⟨placeToo, nodeToo⟩ := other
      obtain ⟨rfl, kind⟩ := Prod.mk.inj (Except.ok.inj looked)
      by_cases zero : shown.toText.contains 0 = true
      · rw [Workspace.naming, Workspace.naming, if_pos zero, if_pos zero]
      · rw [Workspace.naming, Workspace.naming, if_neg zero, if_neg zero]
        cases node with
        | directory =>
          cases nodeToo with
          | directory => rfl
          | file | link | pipe => cases kind
        | file =>
          cases nodeToo with
          | file => rfl
          | directory | link | pipe => cases kind
        | link | pipe =>
          cases nodeToo with
          | link | pipe => rfl
          | directory | file => cases kind

end Corpus

namespace Workspace

theorem directoryOf_alike {space after : Workspace} (directory : after.directory = space.directory)
    (given : Option Text) : after.directoryOf given = space.directoryOf given := by
  cases given <;> simp only [directoryOf, directory]

theorem TakesOnUnder.alike {space after : Workspace} {opening : Text → Option Code} {options : RunOptions}
    {files : List Path} (taken : space.TakesOnUnder opening options files) (alike : space.tree.Alike after.tree)
    (wellFormed : space.tree.WellFormed) (wellFormedToo : after.tree.WellFormed) (directory : after.directory = space.directory) :
    after.TakesOnUnder opening options files := by
  have same := directoryOf_alike directory options.directory
  constructor
  · rw [same, checkBoundary_alike alike directory]
    exact taken.inside
  · rw [same]
    exact (Corpus.collect_alike alike wellFormed wellFormedToo directory _ _).trans taken.collected

end Workspace

end Emend
