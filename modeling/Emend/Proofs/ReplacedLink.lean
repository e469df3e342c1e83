import Emend.Proofs.CorpusLayout
import Emend.Proofs.DisplayNames

/-! What the path of a link to a file leads to once a file stands in place of the link. No way to a directory goes through
such a link, so the way to the directory of the link is as before, and at its end the file is found. -/

namespace Emend

open Text FileError

namespace Tree

theorem walk_more {tree : Tree} {follow : Bool} {links : Nat} {directory : Path} {parts : List Text} {found : Found}
    (reach : tree.walk follow links directory parts = .ok found) (more : Nat) :
    tree.walk follow (links + more) directory parts = .ok found := by
  induction links generalizing directory parts with
  | zero =>
    rw [walk] at reach
    cases stop : tree.stride follow directory parts with
    | found other =>
      rw [stop] at reach
      cases more <;> rw [walk, stop] <;> exact reach
    | failed code => rw [stop] at reach; cases reach
    | link next left => rw [stop] at reach; cases reach
  | succ links ih =>
    rw [walk] at reach
    rw [Nat.add_right_comm, walk]
    cases stop : tree.stride follow directory parts with
    | found other => rw [stop] at reach; exact reach
    | failed code => rw [stop] at reach; cases reach
    | link next left =>
      rw [stop] at reach
      exact ih reach

theorem walk_unique {tree : Tree} {follow : Bool} {links others : Nat} {directory : Path} {parts : List Text}
    {one other : Found} (reach : tree.walk follow links directory parts = .ok one)
    (reachToo : tree.walk follow others directory parts = .ok other) : one = other := by
  have both := walk_more reachToo links
  rw [Nat.add_comm] at both
  exact Except.ok.inj ((walk_more reach others).symm.trans both)

section

variable {before after : Tree} {entry : Path} {target : Text}
  (elsewhere : ∀ path, path ≠ entry → after.get? path = before.get? path)
  (link : before.get? entry = some (.link target))

include elsewhere link

/-- A look-up meets the same things until it meets the one link that is no longer there. -/
theorem stride_except (directory : Path) (parts : List Text) :
    after.stride true directory parts = before.stride true directory parts ∨
      ∃ rest, before.stride true directory parts = .link (startOf entry.parent target) (Tree.parts target ++ rest) := by
  induction parts generalizing directory with
  | nil => exact .inl rfl
  | cons part rest ih =>
    rcases part_cases part with rfl | ⟨name, rfl⟩ | ⟨apart, blank⟩
    · rw [stride_back, stride_back]
      exact ih _
    · rw [stride_name, stride_name]
      split
      next => exact .inl rfl
      next =>
        by_cases here : directory.child name = entry
        · right
          refine ⟨rest, ?_⟩
          rw [here, link, arrive, Bool.not_true, Bool.and_false, if_neg Bool.false_ne_true, ← here, Path.child_parent]
        · rw [elsewhere _ here]
          cases before.get? (directory.child name) with
          | none => exact .inl rfl
          | some node =>
            cases node with
            | directory => exact ih _
            | link other | file bytes mode | pipe => exact .inl rfl
    · rw [stride_blank _ _ _ _ apart blank, stride_blank _ _ _ _ apart blank]
      exact ih _

variable (dead : ∀ links above, before.walk true links (startOf entry.parent target) (Tree.parts target) ≠
  .ok (.node above .directory))

include dead

/-- A way to a directory does not go through a link that leads to none. -/
theorem walk_except {links : Nat} {directory place : Path} {parts : List Text}
    (reach : before.walk true links directory parts = .ok (.node place .directory)) :
    after.walk true links directory parts = .ok (.node place .directory) := by
  induction links generalizing directory parts with
  | zero =>
    rw [walk] at reach ⊢
    rcases stride_except elsewhere link directory parts with same | ⟨rest, met⟩
    · rwa [same]
    · rw [met] at reach
      cases reach
  | succ links ih =>
    rw [walk] at reach ⊢
    rcases stride_except elsewhere link directory parts with same | ⟨rest, met⟩
    · rw [same]
      cases stop : before.stride true directory parts with
      | found found => rwa [stop] at reach
      | failed code => rw [stop] at reach; cases reach
      | link next left =>
        rw [stop] at reach
        exact ih reach
    · rw [met] at reach
      obtain ⟨above, leads⟩ := walk_above reach
      exact absurd leads (dead links above)

end

end Tree

namespace Workspace.Linked

variable {space : Workspace} {path entry place : Path} (linked : space.Linked path entry place)

include linked

theorem dead : ∃ target, space.tree.get? entry = some (.link target) ∧ ∀ links above,
    space.tree.walk true links (Tree.startOf entry.parent target) (Tree.parts target) ≠ .ok (.node above .directory) := by
  obtain ⟨site, _, target, link⟩ := linked.site
  obtain ⟨bytes, mode, found⟩ := linked.file
  refine ⟨target, link, ?_⟩
  intro links above leads
  have reach := (Corpus.resolve_of_find found).2
  rw [Tree.resolve_toText] at reach
  cases site with
  | @mk front directory name way =>
    obtain ⟨left, same⟩ := Tree.walk_concat space.tree true name.repaired.text way
    have split : (front.child name).repaired.names.map Name.text =
        front.repaired.names.map Name.text ++ [name.repaired.text] := by
      rw [Path.child_repaired]
      simp [Path.child]
    rw [split, same] at reach
    rw [Path.child_parent] at leads
    have met : ¬ Tree.nameLimit < (Utf8.encode name.repaired.text).length →
        space.tree.stride true directory [name.repaired.text] =
          .link (Tree.startOf directory target) (Tree.parts target) := by
      intro fits
      rw [Tree.stride_name, if_neg fits, link, Tree.arrive, List.append_nil]
      rfl
    by_cases long : Tree.nameLimit < (Utf8.encode name.repaired.text).length
    · cases left <;> rw [Tree.walk, Tree.stride_name, if_pos long] at reach <;> cases reach
    · cases left with
      | zero =>
        rw [Tree.walk, met long] at reach
        cases reach
      | succ left =>
        rw [Tree.walk, met long] at reach
        cases Tree.walk_unique reach leads

theorem find_replaced {after : Tree} (elsewhere : ∀ other, other ≠ entry → after.get? other = space.tree.get? other)
    {bytes : Bytes} {mode : Nat} (stands : after.get? entry = some (.file bytes mode)) (base : Path) (follow : Bool) :
    after.find base follow path.toText = .ok (.node entry (.file bytes mode)) := by
  obtain ⟨target, link, dead⟩ := linked.dead
  obtain ⟨site, short, _⟩ := linked.site
  have again : Site after path entry := by
    cases site with
    | mk name way => exact .mk name (Tree.walk_except elsewhere link dead way)
  have plain : follow = true → ∀ other, after.get? entry ≠ some (.link other) := by
    intro _ other there
    cases stands.symm.trans there
  rw [again.find (.refl after) base follow plain, short, Tree.endAt, stands]
  rfl

theorem reads_replaced {after : Workspace}
    (elsewhere : ∀ other, other ≠ entry → after.tree.get? other = space.tree.get? other) {bytes : Bytes} {mode : Nat}
    (stands : after.tree.get? entry = some (.file bytes mode)) (free : path.toText.contains 0 = false) :
    after.readFile path.toText = .ok bytes := by
  rw [readFile, Tree.lookup, linked.find_replaced elsewhere stands, naming, if_neg (Bool.eq_false_iff.mp free)]
  rfl

end Workspace.Linked

end Emend
