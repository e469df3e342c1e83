import Emend.Proofs.PathText
import Emend.Tree.Calls

/-! Look-ups in a tree that changes. Only directories and links decide where a path leads, so as long
as those stay, a path leads to the same place, and what is found there is what stands there now. -/

namespace Emend.Tree

open Text FileError

section Entries

variable (tree : Tree) {path : Path}

theorem get?_root : tree.get? .root = some .directory := if_pos rfl

theorem get?_of_ne (below : path ≠ .root) : tree.get? path = tree.entries.lookup path := if_neg below

private theorem lookup_filter (entries : List (Path × Node)) (path other : Path) :
    (entries.filter fun entry => entry.1 != path).lookup other =
      if other = path then none else entries.lookup other := by
  induction entries with
  | nil => simp
  | cons entry entries ih =>
    obtain ⟨key, node⟩ := entry
    by_cases gone : key = path
    · subst gone
      rw [List.filter_cons_of_neg (by simp), ih, List.lookup_cons]
      by_cases same : other = key
      · rw [if_pos same, if_pos same]
      · rw [if_neg same, if_neg same, beq_eq_false_iff_ne.mpr same]
    · rw [List.filter_cons_of_pos (by simpa using gone), List.lookup_cons, List.lookup_cons, ih]
      by_cases same : other = key
      · subst same
        simp [gone]
      · simp [beq_eq_false_iff_ne.mpr same]

theorem get?_erase_of_ne {other : Path} (apart : other ≠ path) : (tree.erase path).get? other = tree.get? other := by
  by_cases top : other = .root
  · subst top
    rw [get?_root, get?_root]
  · rw [get?_of_ne _ top, get?_of_ne _ top]
    exact (lookup_filter tree.entries path other).trans (if_neg apart)

theorem get?_erase (below : path ≠ .root) (other : Path) :
    (tree.erase path).get? other = if other = path then none else tree.get? other := by
  by_cases same : other = path
  · subst same
    rw [if_pos rfl, get?_of_ne _ below]
    exact (lookup_filter tree.entries other other).trans (if_pos rfl)
  · rw [if_neg same, get?_erase_of_ne tree same]

theorem get?_put_of_ne {other : Path} (apart : other ≠ path) (node : Node) :
    (tree.put path node).get? other = tree.get? other := by
  by_cases top : other = .root
  · subst top
    rw [get?_root, get?_root]
  · rw [get?_of_ne _ top, put, List.lookup_cons, beq_eq_false_iff_ne.mpr apart]
    change (tree.erase path).entries.lookup other = _
    rw [← get?_of_ne _ top, get?_erase_of_ne tree apart]

theorem get?_put (below : path ≠ .root) (node : Node) (other : Path) :
    (tree.put path node).get? other = if other = path then some node else tree.get? other := by
  by_cases same : other = path
  · subst same
    rw [if_pos rfl, get?_of_ne _ below, put, List.lookup_cons, beq_self_eq_true]
  · rw [if_neg same, get?_put_of_ne tree same]

end Entries

/-- Everything but files stays where it is. -/
def Keeps (before after : Tree) : Prop :=
  ∀ path node, before.get? path = some node → (∀ bytes mode, node ≠ .file bytes mode) → after.get? path = some node

theorem Keeps.refl (tree : Tree) : Keeps tree tree := fun _ _ there _ => there

theorem keeps_put {tree : Tree} {path : Path} (free : tree.get? path = none) (node : Node) :
    tree.Keeps (tree.put path node) := by
  intro other standing there _
  rw [get?_put_of_ne, there]
  rintro rfl
  cases free.symm.trans there

section Parts

variable (tree : Tree) (follow : Bool) (directory : Path) (rest : List Text)

theorem part_cases (part : Text) :
    part = [dot, dot] ∨ (∃ name : Name, name.text = part) ∨ part ≠ [dot, dot] ∧ Name.isValid part = false := by
  by_cases back : part = [dot, dot]
  · exact .inl back
  · cases valid : Name.isValid part with
    | true => exact .inr (.inl ⟨⟨part, valid⟩, rfl⟩)
    | false => exact .inr (.inr ⟨back, rfl⟩)

theorem stride_back :
    tree.stride follow directory ([dot, dot] :: rest) = tree.stride follow directory.parent rest := by
  rw [stride, if_pos rfl]

theorem stride_blank {part : Text} (onward : part ≠ [dot, dot]) (blank : Name.isValid part = false) :
    tree.stride follow directory (part :: rest) = tree.stride follow directory rest := by
  rw [stride, if_neg onward, dif_neg (by rw [blank]; exact Bool.false_ne_true)]

def arrive (place : Path) : Option Node → Stride
  | none => if rest.isEmpty then .found (.missing place) else .failed .noEntry
  | some .directory => tree.stride follow place rest
  | some (.link target) =>
    if rest.isEmpty && !follow then .found (.node place (.link target))
    else .link (startOf directory target) (parts target ++ rest)
  | some node => if rest.isEmpty then .found (.node place node) else .failed .notDirectory

theorem stride_name (name : Name) :
    tree.stride follow directory (name.text :: rest) =
      if nameLimit < (Utf8.encode name.text).length then .failed .nameTooLong
      else tree.arrive follow directory rest (directory.child name) (tree.get? (directory.child name)) := by
  rw [stride, if_neg (Name.isValid_iff.mp name.valid).2.2.2, dif_pos name.valid]
  rfl

end Parts

def Stride.goesOn : Stride → Bool
  | .found (.node _ .directory) | .link .. => true
  | _ => false

section Keeping

variable {before after : Tree} (keeps : Keeps before after)

include keeps

theorem stride_keeps {directory : Path} {parts : List Text}
    (onward : (before.stride true directory parts).goesOn = true) :
    after.stride true directory parts = before.stride true directory parts := by
  induction parts generalizing directory with
  | nil => rfl
  | cons part rest ih =>
    rcases part_cases part with rfl | ⟨name, rfl⟩ | ⟨apart, blank⟩
    · rw [stride_back] at onward
      rw [stride_back, stride_back, ih onward]
    · rw [stride_name] at onward
      rw [stride_name, stride_name]
      split at onward
      next => cases onward
      next fits =>
        rw [if_neg fits, if_neg fits]
        cases there : before.get? (directory.child name) with
        | none =>
          rw [there, arrive] at onward
          cases rest <;> cases onward
        | some node =>
          rw [there] at onward
          cases node with
          | directory =>
            rw [keeps _ _ there fun bytes mode same => by cases same]
            exact ih onward
          | link target =>
            rw [keeps _ _ there fun bytes mode same => by cases same]
            rfl
          | file bytes mode | pipe => cases rest <;> cases onward
    · rw [stride_blank _ _ _ _ apart blank] at onward
      rw [stride_blank _ _ _ _ apart blank, stride_blank _ _ _ _ apart blank, ih onward]

/-- A way to a directory is the same way as long as directories and links stay. -/
theorem walk_keeps {links : Nat} {directory place : Path} {parts : List Text}
    (reach : before.walk true links directory parts = .ok (.node place .directory)) :
    after.walk true links directory parts = .ok (.node place .directory) := by
  induction links generalizing directory parts with
  | zero =>
    rw [walk] at reach ⊢
    cases stop : before.stride true directory parts with
    | found found =>
      rw [stop] at reach
      obtain rfl := Except.ok.inj reach
      rw [stride_keeps keeps (stop ▸ rfl), stop]
    | failed code => rw [stop] at reach; cases reach
    | link next left => rw [stop] at reach; cases reach
  | succ links ih =>
    rw [walk] at reach ⊢
    cases stop : before.stride true directory parts with
    | found found =>
      rw [stop] at reach
      obtain rfl := Except.ok.inj reach
      rw [stride_keeps keeps (stop ▸ rfl), stop]
    | failed code => rw [stop] at reach; cases reach
    | link next left =>
      rw [stop] at reach
      rw [stride_keeps keeps (stop ▸ rfl), stop]
      exact ih reach

end Keeping

section Last

variable (tree : Tree) (follow : Bool) (last : Text)

/-- One part more, once the parts before it have been taken. -/
def Stride.onward : Stride → Stride
  | .found (.node directory .directory) => tree.stride follow directory [last]
  | .found (.node _ _) => .failed .notDirectory
  | .found (.missing _) => .failed .noEntry
  | .failed code => .failed code
  | .link directory parts => .link directory (parts ++ [last])

theorem stride_concat (directory : Path) (parts : List Text) :
    tree.stride follow directory (parts ++ [last]) =
      (tree.stride true directory parts).onward tree follow last := by
  induction parts generalizing directory with
  | nil => rfl
  | cons part rest ih =>
    have more : (rest ++ [last]).isEmpty = false := by cases rest <;> rfl
    rw [List.cons_append]
    rcases part_cases part with rfl | ⟨name, rfl⟩ | ⟨apart, blank⟩
    · rw [stride_back, stride_back, ih]
    · rw [stride_name, stride_name]
      split
      next => rfl
      next =>
        cases tree.get? (directory.child name) with
        | none =>
          rw [arrive, more, arrive]
          cases rest <;> rfl
        | some node =>
          cases node with
          | directory => exact ih _
          | link target =>
            rw [arrive, more, arrive, Bool.not_true, Bool.and_false, Bool.false_and]
            simp only [Bool.false_eq_true, if_false, Stride.onward, List.append_assoc]
          | file bytes mode | pipe =>
            simp only [arrive, more]
            cases rest <;> rfl
    · rw [stride_blank _ _ _ _ apart blank, stride_blank _ _ _ _ apart blank, ih]

/-- Some links are left when the last part is taken. -/
theorem walk_concat {links : Nat} {directory place : Path} {parts : List Text}
    (reach : tree.walk true links directory parts = .ok (.node place .directory)) :
    ∃ left, tree.walk follow links directory (parts ++ [last]) = tree.walk follow left place [last] := by
  induction links generalizing directory parts with
  | zero =>
    refine ⟨0, ?_⟩
    rw [walk] at reach
    rw [walk, walk, stride_concat]
    cases stop : tree.stride true directory parts with
    | found found =>
      rw [stop] at reach
      obtain rfl := Except.ok.inj reach
      rfl
    | failed code => rw [stop] at reach; cases reach
    | link next left => rw [stop] at reach; cases reach
  | succ links ih =>
    rw [walk] at reach
    cases stop : tree.stride true directory parts with
    | found found =>
      rw [stop] at reach
      obtain rfl := Except.ok.inj reach
      refine ⟨links + 1, ?_⟩
      rw [walk, walk, stride_concat, stop]
      rfl
    | failed code => rw [stop] at reach; cases reach
    | link next left =>
      rw [stop] at reach
      obtain ⟨rest, same⟩ := ih reach
      refine ⟨rest, ?_⟩
      rw [walk, stride_concat, stop]
      exact same

theorem walk_directory {links : Nat} {directory : Path} {parts : List Text} {found : Found}
    (reach : tree.walk follow links directory (parts ++ [last]) = .ok found) :
    ∃ place, tree.walk true links directory parts = .ok (.node place .directory) := by
  induction links generalizing directory parts with
  | zero =>
    rw [walk, stride_concat] at reach
    rw [walk]
    cases stop : tree.stride true directory parts with
    | found there =>
      rw [stop] at reach
      cases there with
      | missing place => cases reach
      | node place node =>
        cases node with
        | directory => exact ⟨place, rfl⟩
        | file bytes mode | link target | pipe => cases reach
    | failed code => rw [stop] at reach; cases reach
    | link next left => rw [stop] at reach; cases reach
  | succ links ih =>
    rw [walk, stride_concat] at reach
    rw [walk]
    cases stop : tree.stride true directory parts with
    | found there =>
      rw [stop] at reach
      cases there with
      | missing place => cases reach
      | node place node =>
        cases node with
        | directory => exact ⟨place, rfl⟩
        | file bytes mode | link target | pipe => cases reach
    | failed code => rw [stop] at reach; cases reach
    | link next left =>
      rw [stop] at reach
      exact ih reach

end Last

def endAt (tree : Tree) (place : Path) : Found :=
  match tree.get? place with
  | none => .missing place
  | some node => .node place node

/-- The last part of a path names an entry that is no link, or links are not followed. -/
theorem walk_name (tree : Tree) (follow : Bool) (links : Nat) (directory : Path) (name : Name)
    (plain : follow = true → ∀ target, tree.get? (directory.child name) ≠ some (.link target)) :
    tree.walk follow links directory [name.text] =
      if nameLimit < (Utf8.encode name.text).length then .error .nameTooLong
      else .ok (tree.endAt (directory.child name)) := by
  have stop : tree.stride follow directory [name.text] =
      if nameLimit < (Utf8.encode name.text).length then .failed .nameTooLong
      else .found (tree.endAt (directory.child name)) := by
    rw [stride_name, endAt]
    congr 1
    cases there : tree.get? (directory.child name) with
    | none => rfl
    | some node =>
      cases node with
      | directory | file bytes mode | pipe => rfl
      | link target =>
        cases follow with
        | false => rfl
        | true => exact absurd there (plain rfl target)
  by_cases long : nameLimit < (Utf8.encode name.text).length
  · rw [if_pos long] at stop ⊢
    cases links <;> rw [walk, stop]
  · rw [if_neg long] at stop ⊢
    cases links <;> rw [walk, stop]

theorem parts_toText (path : Path) (name : Name) :
    parts (path.child name).toText = (path.repaired.names ++ [name.repaired]).map Name.text := by
  have closed : (path.child name).toText.getLast? ≠ some slash := by
    rw [Path.toText_child, List.getLast?_append, List.getLast?_eq_some_getLast name.text_ne_nil, Option.some_or]
    intro same
    exact name.slash_not_mem (Option.some.inj same ▸ List.getLast_mem name.text_ne_nil)
  have kept : ((path.repaired.names ++ [name.repaired]).map Name.text).filter (!·.isEmpty) =
      (path.repaired.names ++ [name.repaired]).map Name.text := by
    rw [List.filter_eq_self]
    intro piece member
    obtain ⟨other, _, rfl⟩ := List.mem_map.mp member
    simp [other.text_ne_nil]
  rw [parts, if_neg closed, List.append_nil, Path.repair_toText, Path.child_repaired, Path.split_toText_child,
    List.filter_cons_of_neg (by simp), ← kept, List.map_append]
  rfl

theorem resolve_toText (tree : Tree) (base : Path) (follow : Bool) (path : Path) :
    tree.resolve base follow path.toText =
      tree.walk follow linkLimit .root (path.repaired.names.map Name.text) := by
  have absolute : startOf base path.toText = .root := rfl
  have occupied : path.toText.isEmpty = false := rfl
  rw [resolve, occupied, absolute]
  obtain ⟨names⟩ := path
  rcases List.eq_nil_or_concat names with rfl | ⟨front, last, rfl⟩
  · rfl
  · rw [List.concat_eq_append]
    have whole : Path.mk (front ++ [last]) = (Path.mk front).child last := rfl
    rw [whole, parts_toText, Path.child_repaired]
    rfl

end Emend.Tree
