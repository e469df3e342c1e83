import Emend.Corpus.Script
import Emend.Proofs.CorpusSites

/-! What the calls of one file's script see and change: the file itself and the sibling through which it
is replaced. Their answers depend on nothing else, so they can be given from the contents of the two
alone. -/

namespace Emend

open FileError

/-- The bytes and modes of a file and of its sibling, if there is one. -/
structure Contents where
  file : Bytes × Nat
  sibling : Option (Bytes × Nat)

/-- A file and its sibling, as paths and as places. -/
structure Territory (before : Tree) where
  path : Path
  temporary : Path
  place : Path
  sibling : Path
  file : Bytes × Nat
  site : Site before path place
  beside : Site before temporary sibling
  standing : before.get? place = some (.file file.1 file.2)
  free : before.get? sibling = none

namespace Territory

variable {before : Tree} (territory : Territory before)

theorem apart : territory.sibling ≠ territory.place := by
  intro same
  have there := territory.standing
  rw [← same, territory.free] at there
  cases there

def initial : Contents := ⟨territory.file, none⟩

structure Has (tree : Tree) (contents : Contents) : Prop where
  keeps : before.Keeps tree
  file : tree.get? territory.place = some (.file contents.file.1 contents.file.2)
  sibling : tree.get? territory.sibling = contents.sibling.map fun kept => .file kept.1 kept.2

theorem has_initial : territory.Has before territory.initial :=
  ⟨.refl before, territory.standing, territory.free⟩

def Outside (one other : Tree) : Prop :=
  ∀ path, path ≠ territory.place → path ≠ territory.sibling → other.get? path = one.get? path

section Answers

variable (contents : Contents)

def read : Except FileError Bytes :=
  Workspace.naming "open" territory.path.toText
    (if territory.path.isLong then .error .nameTooLong else .ok contents.file.1)

def stat : Except FileError Nat :=
  (Workspace.naming "stat" territory.path.toText
    (if territory.path.isLong then .error .nameTooLong else .ok (.file contents.file.1 contents.file.2))).map
      Workspace.modeOf

/-- A sibling that is there keeps its mode. -/
def write (bytes : Bytes) (mode : Nat) : Except FileError Contents :=
  Workspace.naming "open" territory.temporary.toText
    (if territory.temporary.isLong then .error .nameTooLong
    else .ok { contents with
      sibling := some (bytes, (contents.sibling.map Prod.snd).getD (Workspace.maskedMode mode)) })

def rename : Except FileError Contents :=
  let failing {α : Type} (result : Except Code α) : Except FileError α := result.mapError fun code =>
    .failed code "rename" (some (territory.temporary.toText ++ units "' -> '" ++ territory.path.toText))
  if territory.temporary.isLong then failing (.error .nameTooLong)
  else match contents.sibling with
    | none => failing (.error .noEntry)
    | some kept => if territory.path.isLong then failing (.error .nameTooLong) else .ok ⟨kept, none⟩

def remove : Except FileError Contents :=
  Workspace.naming "rm" territory.temporary.toText
    (if territory.temporary.isLong then .error .nameTooLong else .ok { contents with sibling := none })

end Answers

/-- A call that changes the workspace fails as expected, or leaves the contents that are expected and
everything else as it was. -/
inductive Effect (space : Workspace) : Except FileError Workspace → Except FileError Contents → Prop where
  | failed (error : FileError) : Effect space (.error error) (.error error)
  | changed {after : Tree} {contents : Contents} (has : territory.Has after contents)
      (outside : territory.Outside space.tree after) :
      Effect space (.ok { space with tree := after }) (.ok contents)

variable {territory}

/-- What is changed in the territory alone still has all directories and links. -/
theorem Has.change {tree after : Tree} {contents changed : Contents} (has : territory.Has tree contents)
    (outside : territory.Outside tree after)
    (file : after.get? territory.place = some (.file changed.file.1 changed.file.2))
    (sibling : after.get? territory.sibling = changed.sibling.map fun kept => .file kept.1 kept.2) :
    territory.Has after changed := by
  refine ⟨?_, file, sibling⟩
  intro path node there other
  rw [outside path, has.keeps path node there other]
  · rintro rfl
    rw [territory.standing] at there
    exact other _ _ (Option.some.inj there).symm
  · rintro rfl
    rw [territory.free] at there
    cases there

section Calls

variable {space : Workspace} {contents : Contents} (has : territory.Has space.tree contents)

include has

theorem find_path (follow : Bool) :
    space.tree.find space.directory follow territory.path.toText =
      if territory.path.isLong then .error .nameTooLong
      else .ok (.node territory.place (.file contents.file.1 contents.file.2)) := by
  rw [territory.site.find has.keeps space.directory follow ?_, Tree.endAt, has.file]
  intro _ target there
  rw [has.file] at there
  cases there

theorem find_temporary (follow : Bool) :
    space.tree.find space.directory follow territory.temporary.toText =
      if territory.temporary.isLong then .error .nameTooLong
      else .ok (match contents.sibling with
        | none => .missing territory.sibling
        | some kept => .node territory.sibling (.file kept.1 kept.2)) := by
  rw [territory.beside.find has.keeps space.directory follow ?_, Tree.endAt, has.sibling]
  · cases contents.sibling <;> rfl
  · intro _ target there
    rw [has.sibling] at there
    cases kept : contents.sibling with
    | none =>
      rw [kept] at there
      cases there
    | some pair =>
      rw [kept] at there
      cases there

theorem readFile_eq : space.readFile territory.path.toText = territory.read contents := by
  rw [Workspace.readFile, Tree.lookup, find_path has true, read]
  cases territory.path.isLong with
  | false =>
    simp only [Bool.false_eq_true, if_false, Except.bind, Tree.Found.standing, Workspace.naming]
    cases territory.path.toText.contains 0 <;> rfl
  | true =>
    simp only [if_true, Except.bind, Workspace.naming]
    cases territory.path.toText.contains 0 <;> rfl

theorem mode_eq : space.mode territory.path.toText = territory.stat contents := by
  rw [Workspace.mode, Workspace.stat, Tree.lookup, find_path has true, stat]
  cases territory.path.isLong with
  | false => rfl
  | true => rfl

theorem put_sibling (bytes : Bytes) (mode : Nat) :
    territory.Has (space.tree.put territory.sibling (.file bytes mode)) { contents with sibling := some (bytes, mode) } ∧
      territory.Outside space.tree (space.tree.put territory.sibling (.file bytes mode)) := by
  have outside : territory.Outside space.tree (space.tree.put territory.sibling (.file bytes mode)) := by
    intro path _ other
    rw [Tree.get?_put _ territory.beside.place_ne_root, if_neg other]
  refine ⟨has.change outside ?_ ?_, outside⟩
  · rw [Tree.get?_put _ territory.beside.place_ne_root, if_neg (Ne.symm territory.apart)]
    exact has.file
  · rw [Tree.get?_put _ territory.beside.place_ne_root, if_pos rfl]
    rfl

theorem erase_sibling :
    territory.Has (space.tree.erase territory.sibling) { contents with sibling := none } ∧
      territory.Outside space.tree (space.tree.erase territory.sibling) := by
  have outside : territory.Outside space.tree (space.tree.erase territory.sibling) := by
    intro path _ other
    rw [Tree.get?_erase _ territory.beside.place_ne_root, if_neg other]
  refine ⟨has.change outside ?_ ?_, outside⟩
  · rw [Tree.get?_erase _ territory.beside.place_ne_root, if_neg (Ne.symm territory.apart)]
    exact has.file
  · rw [Tree.get?_erase _ territory.beside.place_ne_root, if_pos rfl]
    rfl

theorem move_sibling (kept : Bytes × Nat) :
    territory.Has ((space.tree.erase territory.sibling).put territory.place (.file kept.1 kept.2)) ⟨kept, none⟩ ∧
      territory.Outside space.tree
        ((space.tree.erase territory.sibling).put territory.place (.file kept.1 kept.2)) := by
  have outside : territory.Outside space.tree
      ((space.tree.erase territory.sibling).put territory.place (.file kept.1 kept.2)) := by
    intro path elsewhere other
    rw [Tree.get?_put _ territory.site.place_ne_root, if_neg elsewhere,
      Tree.get?_erase _ territory.beside.place_ne_root, if_neg other]
  refine ⟨has.change outside ?_ ?_, outside⟩
  · rw [Tree.get?_put _ territory.site.place_ne_root, if_pos rfl]
  · rw [Tree.get?_put _ territory.site.place_ne_root, if_neg territory.apart,
      Tree.get?_erase _ territory.beside.place_ne_root, if_pos rfl]
    rfl

theorem writeFile_effect (bytes : Bytes) (mode : Nat) :
    territory.Effect space (space.writeFile territory.temporary.toText bytes mode)
      (territory.write contents bytes mode) := by
  rw [Workspace.writeFile, find_temporary has true, write]
  by_cases zero : territory.temporary.toText.contains 0 = true
  · simp only [Workspace.naming, if_pos zero]
    exact .failed _
  · simp only [Workspace.naming, if_neg zero]
    cases territory.temporary.isLong with
    | true => exact .failed _
    | false =>
      cases contents.sibling with
      | none =>
        obtain ⟨after, outside⟩ := put_sibling has bytes (Workspace.maskedMode mode)
        exact .changed after outside
      | some kept =>
        obtain ⟨after, outside⟩ := put_sibling has bytes kept.2
        exact .changed after outside

theorem rename_effect :
    territory.Effect space (space.rename territory.temporary.toText territory.path.toText)
      (territory.rename contents) := by
  rw [Workspace.rename, Tree.lookup, find_temporary has false, find_path has false, rename]
  cases territory.temporary.isLong with
  | true => exact .failed _
  | false =>
    cases contents.sibling with
    | none => exact .failed _
    | some kept =>
      cases territory.path.isLong with
      | true => exact .failed _
      | false =>
        obtain ⟨after, outside⟩ := move_sibling has kept
        exact .changed after outside

theorem remove_effect :
    territory.Effect space (space.remove territory.temporary.toText) (territory.remove contents) := by
  rw [Workspace.remove, find_temporary has false, remove]
  by_cases zero : territory.temporary.toText.contains 0 = true
  · simp only [Workspace.naming, if_pos zero]
    exact .failed _
  · simp only [Workspace.naming, if_neg zero]
    cases territory.temporary.isLong with
    | true => exact .failed _
    | false =>
      cases kept : contents.sibling with
      | none =>
        have same : { contents with sibling := none } = contents := by rw [← kept]
        simp only [same]
        exact .changed has fun _ _ _ => rfl
      | some file =>
        obtain ⟨after, outside⟩ := erase_sibling has
        exact .changed after outside

end Calls

end Territory

end Emend
