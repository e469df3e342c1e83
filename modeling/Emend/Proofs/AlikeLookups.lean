import Emend.Boundary
import Emend.Proofs.TreeShape

/-! Look-ups in alike trees. What decides where a path leads is the kind of thing that stands at each path, so the same
look-up ends at the same path in both, at things of one kind, or fails in the same way. -/

namespace Emend

open Text FileError

namespace Tree

/-- Two look-ups have got to the same path and to things of one kind there. -/
inductive Found.Alike : Found → Found → Prop where
  | missing (path : Path) : Alike (.missing path) (.missing path)
  | node (path : Path) {one other : Node} (same : one.kind = other.kind) : Alike (.node path one) (.node path other)

inductive Stride.Alike : Stride → Stride → Prop where
  | found {one other : Found} (alike : one.Alike other) : Alike (.found one) (.found other)
  | failed (code : Code) : Alike (.failed code) (.failed code)
  | link (directory : Path) (parts : List Text) : Alike (.link directory parts) (.link directory parts)

/-- Two look-ups fail alike or end alike. -/
inductive Ends.Alike : Except Code Found → Except Code Found → Prop where
  | ok {one other : Found} (alike : one.Alike other) : Alike (.ok one) (.ok other)
  | error (code : Code) : Alike (.error code) (.error code)

section

variable {before after : Tree} (alike : before.Alike after) (follow : Bool)

include alike

theorem stride_alike (directory : Path) (parts : List Text) :
    (after.stride follow directory parts).Alike (before.stride follow directory parts) := by
  induction parts generalizing directory with
  | nil => exact .found (.node directory rfl)
  | cons part rest ih =>
    rcases part_cases part with rfl | ⟨name, rfl⟩ | ⟨apart, blank⟩
    · rw [stride_back, stride_back]
      exact ih _
    · rw [stride_name, stride_name]
      by_cases long : nameLimit < (Utf8.encode name.text).length
      · rw [if_pos long, if_pos long]
        exact .failed _
      · rw [if_neg long, if_neg long]
        have same := alike (directory.child name)
        cases was : before.get? (directory.child name) with
        | none =>
          rw [was, Option.map_none, Option.map_eq_none_iff] at same
          rw [same, arrive, arrive]
          cases rest with
          | nil => exact .found (.missing _)
          | cons next more => exact .failed _
        | some node =>
          rw [was, Option.map_some] at same
          obtain ⟨other, now, kind⟩ := Option.map_eq_some_iff.mp same
          rw [now]
          cases node with
          | directory =>
            cases other with
            | directory => exact ih _
            | file | link | pipe => cases kind
          | link target =>
            cases other with
            | link other =>
              obtain rfl := Node.Kind.link.inj kind
              rw [arrive, arrive]
              split
              · exact .found (.node _ rfl)
              · exact .link _ _
            | file | directory | pipe => cases kind
          | file bytes mode | pipe =>
            cases other with
            | file bytes mode | pipe =>
              cases rest with
              | nil => exact .found (.node _ kind)
              | cons next more => exact .failed _
            | directory | link => cases kind
    · rw [stride_blank _ _ _ _ apart blank, stride_blank _ _ _ _ apart blank]
      exact ih _

theorem walk_alike (links : Nat) (directory : Path) (parts : List Text) :
    Ends.Alike (after.walk follow links directory parts) (before.walk follow links directory parts) := by
  induction links generalizing directory parts with
  | zero =>
    have stop := stride_alike alike follow directory parts
    rw [walk, walk]
    generalize after.stride follow directory parts = one at stop ⊢
    generalize before.stride follow directory parts = other at stop ⊢
    cases stop with
    | found same => exact .ok same
    | failed code => exact .error code
    | link next left => exact .error _
  | succ links ih =>
    have stop := stride_alike alike follow directory parts
    rw [walk, walk]
    generalize after.stride follow directory parts = one at stop ⊢
    generalize before.stride follow directory parts = other at stop ⊢
    cases stop with
    | found same => exact .ok same
    | failed code => exact .error code
    | link next left => exact ih next left

theorem resolve_alike (base : Path) (t : Text) :
    Ends.Alike (after.resolve base follow t) (before.resolve base follow t) := by
  rw [resolve, resolve]
  split
  · exact .error _
  · exact walk_alike alike follow _ _ _

theorem find_alike (base : Path) (t : Text) : Ends.Alike (after.find base follow t) (before.find base follow t) := by
  rw [find, find]
  split
  · exact .error _
  · exact resolve_alike alike follow base t

end

end Tree

namespace Workspace

section

variable {space after : Workspace} (alike : space.tree.Alike after.tree) (directory : after.directory = space.directory)

include alike directory

theorem canonical_alike (path : Text) : after.canonical path = space.canonical path := by
  have ends := Tree.resolve_alike alike true space.directory path
  rw [canonical, canonical, directory]
  generalize after.tree.resolve space.directory true path = one at ends ⊢
  generalize space.tree.resolve space.directory true path = other at ends ⊢
  cases ends with
  | error code => rfl
  | ok same => cases same <;> rfl

/-- What is looked up is of one kind, in one place, or the look-up fails in one way. -/
theorem lookup_alike (path : Text) :
    (after.tree.lookup after.directory true path).map (fun found => (found.1, found.2.kind)) =
      (space.tree.lookup space.directory true path).map fun found => (found.1, found.2.kind) := by
  have ends := Tree.find_alike alike true space.directory path
  rw [Tree.lookup, Tree.lookup, directory]
  generalize after.tree.find space.directory true path = one at ends ⊢
  generalize space.tree.find space.directory true path = other at ends ⊢
  cases ends with
  | error code => rfl
  | ok same =>
    cases same with
    | missing place => rfl
    | node place kind => exact congrArg (fun kind => Except.ok (place, kind)) kind

theorem stat_alike (path : Text) : (after.stat path).map Node.kind = (space.stat path).map Node.kind := by
  have looked := lookup_alike alike directory path
  rw [stat, stat, naming, naming]
  split
  · rfl
  · generalize after.tree.lookup after.directory true path = one at looked ⊢
    generalize space.tree.lookup space.directory true path = other at looked ⊢
    cases one with
    | error code =>
      cases other with
      | error other => rw [Except.error.inj looked]
      | ok found => cases looked
    | ok found =>
      cases other with
      | error code => cases looked
      | ok other => exact congrArg Except.ok (Prod.mk.inj (Except.ok.inj looked)).2

theorem repositoryRoot?_alike (start : Path) : after.repositoryRoot? start = space.repositoryRoot? start := by
  have same (path : Text) : (after.stat path).toOption.isSome = (space.stat path).toOption.isSome := by
    have kinds := stat_alike alike directory path
    cases one : after.stat path with
    | error error =>
      cases other : space.stat path with
      | error other => rfl
      | ok node => rw [one, other] at kinds; cases kinds
    | ok node =>
      cases other : space.stat path with
      | error error => rw [one, other] at kinds; cases kinds
      | ok node => rfl
  simp only [repositoryRoot?, same]

theorem canonicalOrGiven_alike (path : Text) : after.canonicalOrGiven path = space.canonicalOrGiven path := by
  rw [canonicalOrGiven, canonicalOrGiven, canonical_alike alike directory, directory]

theorem checkBoundary_alike (within path label : Text) :
    after.checkBoundary within path label = space.checkBoundary within path label := by
  simp only [checkBoundary, directory, repositoryRoot?_alike alike directory, canonicalOrGiven_alike alike directory]

end

end Workspace

end Emend
