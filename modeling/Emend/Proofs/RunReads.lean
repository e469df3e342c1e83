import Emend.Proofs.ReplacedLink
import Emend.Proofs.RunTrees

/-! What the files of a corpus read as after a run: what they read as before, or what the run has written for them. A path
goes on leading to its file, and the path of a link that has been replaced leads to the file in its place. -/

namespace Emend

open Text FileError

section Reads

variable {space after : Workspace}

theorem Site.readFile {shown place : Path} (site : Site space.tree shown place) (keeps : space.tree.Keeps after.tree)
    {bytes : Bytes} {mode : Nat} (there : after.tree.get? place = some (.file bytes mode)) :
    after.readFile shown.toText = Workspace.naming "open" shown.toText
      (if shown.isLong then .error .nameTooLong else .ok bytes) := by
  have unlinked : true = true → ∀ target, after.tree.get? place ≠ some (.link target) := by
    intro _ target link
    cases there.symm.trans link
  rw [Workspace.readFile, Tree.lookup, site.find keeps after.directory true unlinked, Tree.endAt, there]
  cases shown.isLong with
  | true =>
    rw [Workspace.naming, Workspace.naming]
    split <;> rfl
  | false =>
    rw [Workspace.naming, Workspace.naming]
    split <;> rfl

theorem Tree.Alike.keeps {before after : Tree} (alike : before.Alike after) : before.Keeps after := by
  intro path node there other
  have same := alike path
  rw [there, Option.map_some] at same
  obtain ⟨now, stands, kind⟩ := Option.map_eq_some_iff.mp same
  rw [stands]
  cases node with
  | file bytes mode => exact absurd rfl (other bytes mode)
  | directory | link target | pipe =>
    cases now <;> cases kind
    rfl

namespace Tree

section

variable {before after : Tree} (same : ∀ path, after.get? path = before.get? path) (follow : Bool)

include same

theorem stride_same (directory : Path) (parts : List Text) :
    after.stride follow directory parts = before.stride follow directory parts := by
  induction parts generalizing directory with
  | nil => rfl
  | cons part rest ih =>
    rcases part_cases part with rfl | ⟨name, rfl⟩ | ⟨apart, blank⟩
    · rw [stride_back, stride_back, ih]
    · rw [stride_name, stride_name, same]
      cases before.get? (directory.child name) with
      | none => rfl
      | some node =>
        cases node with
        | directory => rw [arrive, arrive, ih]
        | link target | file bytes mode | pipe => rfl
    · rw [stride_blank _ _ _ _ apart blank, stride_blank _ _ _ _ apart blank, ih]

theorem walk_same (links : Nat) (directory : Path) (parts : List Text) :
    after.walk follow links directory parts = before.walk follow links directory parts := by
  induction links generalizing directory parts with
  | zero => rw [walk, walk, stride_same same]
  | succ links ih =>
    rw [walk, walk, stride_same same]
    cases before.stride follow directory parts with
    | found found => rfl
    | failed code => rfl
    | link next left => exact ih next left

/-- Where a text leads is said by what stands at each path. -/
theorem find_same (base : Path) (t : Text) : after.find base follow t = before.find base follow t := by
  simp only [find, resolve, walk_same same]

end

end Tree

theorem Workspace.Same.readFile (same : after.Same space) (path : Text) : after.readFile path = space.readFile path := by
  rw [Workspace.readFile, Workspace.readFile, Tree.lookup, Tree.lookup, same.directory, Tree.find_same same.standing]

end Reads

namespace Corpus

/-- What a path reads as once these bytes have been written there, or none. -/
def Rereads (space after : Workspace) (path : Text) : Option Bytes → Prop
  | none => after.readFile path = space.readFile path
  | some encoded => after.readFile path = .ok encoded

section

variable {refusals : Nat → Refusals} {hook : Hook} {options : FileOptions} {token : Nat → Text} {files : List Path}
  {scope : Path} {entryOf : Path → Path} {space after : Workspace} {outcomes : List FileOutcome}

theorem Foretells.read {refusals : Refusals} {token path : Text} {told outcome : FileOutcome} {encoded : Bytes}
    (foretells : Foretells refusals hook space options token path told (some encoded) outcome) :
    ∃ bytes, space.readFile path = .ok bytes := by
  cases foretells with
  | written read => exact ⟨_, read⟩

theorem Sited.rereads (sited : Sited space.tree files entryOf) (alike : space.tree.Alike after.tree) {file : Path}
    (member : file ∈ files) {written : Option Bytes}
    (leaves : Leaves space file.toText (space.tree.get? (entryOf file)) (after.tree.get? (entryOf file)) written)
    (readable : ∀ encoded, written = some encoded → ∃ bytes, space.readFile file.toText = .ok bytes) :
    Rereads space after file.toText written := by
  obtain ⟨bytes, mode, there⟩ := sited.there file member
  have site := sited.site file member
  have was := site.readFile (.refl space.tree) there
  cases written with
  | none => rw [Rereads, was, site.readFile alike.keeps (leaves.trans there)]
  | some encoded =>
    obtain ⟨modeToo, _, stands⟩ := leaves
    obtain ⟨own, read⟩ := readable encoded rfl
    rw [was] at read
    have plain := Workspace.contains_of_naming read
    have short : file.isLong = false := by
      cases long : file.isLong with
      | false => rfl
      | true =>
        rw [long] at read
        cases naming_eq_ok read
    rw [Rereads, site.readFile alike.keeps stands, short, Workspace.naming, if_neg (Bool.eq_false_iff.mp plain)]
    rfl

theorem Layout.rereads (layout : Layout space scope files entryOf)
    (foretold : Foretold refusals hook options token files entryOf space after outcomes)
    (tidy : ∀ index, (refusals index).Tidy) {file : Path} (member : file ∈ files) {written : Option Bytes}
    (leaves : Leaves space file.toText (space.tree.get? (entryOf file)) (after.tree.get? (entryOf file)) written)
    (readable : ∀ encoded, written = some encoded → ∃ bytes, space.readFile file.toText = .ok bytes) :
    Rereads space after file.toText written := by
  cases layout with
  | sited sited => exact sited.rereads (sited.alike foretold tidy) member leaves readable
  | linked linked =>
    obtain rfl := List.mem_singleton.mp member
    cases written with
    | none => exact (foretold.same_single tidy leaves).readFile _
    | some encoded =>
      obtain ⟨mode, _, stands⟩ := leaves
      obtain ⟨bytes, read⟩ := readable encoded rfl
      exact linked.reads_replaced (foretold.elsewhere_single tidy) stands (Workspace.readFile_found read).1

end

end Corpus

end Emend
