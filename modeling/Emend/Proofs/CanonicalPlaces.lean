import Emend.Proofs.CorpusSites

/-! Where look-ups end. Whatever links it follows on its way, a look-up ends in a directory that is reached
from the root through directories alone. The path of such a directory leads to itself, and so does the path
of what stands in it. -/

namespace Emend

open Text FileError

theorem Path.prefix_child_iff {above path : Path} {name : Name} :
    above.names <+: (path.child name).names ↔ above = path.child name ∨ above.names <+: path.names := by
  obtain ⟨names⟩ := above
  rw [Path.mk.injEq]
  exact List.prefix_concat_iff

namespace Tree

/-- There are directories all the way from the root down to a path. -/
def Firm (tree : Tree) (path : Path) : Prop :=
  ∀ above : Path, above.names <+: path.names → tree.get? above = some .directory

namespace Firm

variable {tree : Tree} {path : Path}

theorem root (tree : Tree) : tree.Firm .root := by
  intro above start
  obtain ⟨names⟩ := above
  obtain rfl := List.prefix_nil.mp start
  exact tree.get?_root

theorem above (firm : tree.Firm path) {other : Path} (start : other.names <+: path.names) : tree.Firm other :=
  fun above further => firm above (further.trans start)

theorem parent (firm : tree.Firm path) : tree.Firm path.parent := firm.above (List.dropLast_prefix _)

theorem child (firm : tree.Firm path) {name : Name} (there : tree.get? (path.child name) = some .directory) :
    tree.Firm (path.child name) := by
  intro above start
  rcases Path.prefix_child_iff.mp start with rfl | shorter
  · exact there
  · exact firm above shorter

theorem startOf (firm : tree.Firm path) (t : Text) : tree.Firm (Tree.startOf path t) := by
  rw [Tree.startOf]
  split
  · exact root tree
  · exact firm

theorem keeps {after : Tree} (firm : tree.Firm path) (keeps : tree.Keeps after) : after.Firm path :=
  fun above start => keeps above .directory (firm above start) fun _ _ same => by cases same

end Firm

variable {tree : Tree}

inductive Found.Settled (tree : Tree) : Found → Prop where
  | directory {path : Path} (firm : tree.Firm path) : Settled tree (.node path .directory)
  | entry {path : Path} (firm : tree.Firm path) (name : Name) {node : Node}
      (there : tree.get? (path.child name) = some node) : Settled tree (.node (path.child name) node)
  | missing {path : Path} (firm : tree.Firm path) (name : Name) (absent : tree.get? (path.child name) = none) :
      Settled tree (.missing (path.child name))

theorem Found.Settled.firm {path : Path} (settled : (Found.node path .directory).Settled tree) : tree.Firm path := by
  cases settled with
  | directory firm => exact firm
  | entry firm name there => exact firm.child there

theorem Found.Settled.standing {place : Path} {node : Node} (settled : (Found.node place node).Settled tree) :
    tree.get? place = some node := by
  cases settled with
  | directory firm => exact firm place List.prefix_rfl
  | entry firm name there => exact there

def Stride.Settled (tree : Tree) : Stride → Prop
  | .found there => there.Settled tree
  | .failed _ => True
  | .link directory _ => tree.Firm directory

section Walking

variable {follow : Bool} {directory : Path}

theorem stride_settled (follow : Bool) (firm : tree.Firm directory) (parts : List Text) :
    (tree.stride follow directory parts).Settled tree := by
  induction parts generalizing directory with
  | nil => exact .directory firm
  | cons part rest ih =>
    rcases part_cases part with rfl | ⟨name, rfl⟩ | ⟨apart, blank⟩
    · rw [stride_back]
      exact ih firm.parent
    · rw [stride_name]
      split
      · trivial
      · cases there : tree.get? (directory.child name) with
        | none =>
          rw [arrive]
          split
          · exact .missing firm name there
          · trivial
        | some node =>
          cases node with
          | directory => exact ih (firm.child there)
          | link target =>
            rw [arrive]
            split
            · exact .entry firm name there
            · exact firm.startOf target
          | file bytes mode | pipe =>
            simp only [arrive]
            split
            · exact .entry firm name there
            · trivial
    · rw [stride_blank _ _ _ _ apart blank]
      exact ih firm

theorem walk_settled {links : Nat} (firm : tree.Firm directory) {parts : List Text} {found : Found}
    (reach : tree.walk follow links directory parts = .ok found) : found.Settled tree := by
  induction links generalizing directory parts with
  | zero =>
    have settled := stride_settled follow firm parts
    rw [walk] at reach
    cases stop : tree.stride follow directory parts with
    | found other =>
      rw [stop] at reach settled
      obtain rfl := Except.ok.inj reach
      exact settled
    | failed code => rw [stop] at reach; cases reach
    | link next left => rw [stop] at reach; cases reach
  | succ links ih =>
    have settled := stride_settled follow firm parts
    rw [walk] at reach
    cases stop : tree.stride follow directory parts with
    | found other =>
      rw [stop] at reach settled
      obtain rfl := Except.ok.inj reach
      exact settled
    | failed code => rw [stop] at reach; cases reach
    | link next left =>
      rw [stop] at reach settled
      exact ih settled reach

theorem resolve_settled {base path : Path} {found : Found} (reach : tree.resolve base follow path.toText = .ok found) :
    found.Settled tree := by
  rw [resolve_toText] at reach
  exact walk_settled (Firm.root tree) reach

end Walking

end Tree

/-- A path that no call finds too long for one of its names, and that is given as the file system has it. -/
def Path.Spelled (path : Path) : Prop :=
  ∀ name ∈ path.names, name.repaired = name ∧ (Utf8.encode name.text).length ≤ Tree.nameLimit

namespace Path.Spelled

variable {path : Path}

theorem repaired (spelled : path.Spelled) : path.repaired = path := by
  obtain ⟨names⟩ := path
  rw [Path.repaired]
  exact congrArg Path.mk ((List.map_congr_left fun name member => (spelled name member).1).trans (List.map_id names))

theorem above (spelled : path.Spelled) {other : Path} (start : other.names <+: path.names) : other.Spelled :=
  fun name member => spelled name (start.subset member)

end Path.Spelled

theorem Tree.WellFormed.spelled {tree : Tree} (wellFormed : tree.WellFormed) {path : Path} {node : Node}
    (there : tree.get? path = some node) : path.Spelled := by
  by_cases top : path = .root
  · subst top
    intro name member
    cases member
  · rw [get?_of_ne tree top] at there
    exact wellFormed.named (path, node) (pair_mem_of_lookup there)

namespace Tree

variable {tree : Tree} (follow : Bool)

theorem stride_firm (directory : Path) {names : List Name}
    (fits : ∀ name ∈ names, (Utf8.encode name.text).length ≤ nameLimit)
    (firm : tree.Firm ⟨directory.names ++ names⟩) :
    tree.stride follow directory (names.map Name.text) = .found (.node ⟨directory.names ++ names⟩ .directory) := by
  induction names generalizing directory with
  | nil =>
    rw [List.append_nil]
    rfl
  | cons name names ih =>
    have onward : directory.names ++ name :: names = (directory.child name).names ++ names := by simp [Path.child]
    have there : tree.get? (directory.child name) = some .directory :=
      firm _ (onward ▸ List.prefix_append _ _)
    rw [onward] at firm ⊢
    rw [List.map_cons, stride_name, if_neg (Nat.not_lt.mpr (fits name List.mem_cons_self)), there]
    exact ih _ (fun other member => fits other (List.mem_cons_of_mem _ member)) firm

theorem walk_firm {path : Path} (spelled : path.Spelled) (firm : tree.Firm path) (links : Nat) :
    tree.walk follow links .root (path.names.map Name.text) = .ok (.node path .directory) := by
  have stop : tree.stride follow .root (path.names.map Name.text) = .found (.node path .directory) :=
    stride_firm follow .root (fun name member => (spelled name member).2) firm
  cases links <;> rw [walk, stop]

/-- The path of a directory that is reached through directories alone leads to it. -/
theorem resolve_firm {path : Path} (spelled : path.Spelled) (firm : tree.Firm path) (base : Path) :
    tree.resolve base follow path.toText = .ok (.node path .directory) := by
  rw [resolve_toText, spelled.repaired]
  exact walk_firm follow spelled firm _

theorem resolve_entry {path : Path} {name : Name} {node : Node} (spelled : (path.child name).Spelled)
    (firm : tree.Firm path) (there : tree.get? (path.child name) = some node)
    (plain : ∀ target, node ≠ .link target) (base : Path) :
    tree.resolve base follow (path.child name).toText = .ok (.node (path.child name) node) := by
  have way := walk_firm true (spelled.above (List.prefix_append _ _)) firm linkLimit
  obtain ⟨left, same⟩ := walk_concat tree follow name.text way
  have fits : ¬ nameLimit < (Utf8.encode name.text).length :=
    Nat.not_lt.mpr (spelled name (by simp [Path.child])).2
  have unlinked : ∀ target, tree.get? (path.child name) ≠ some (.link target) := by
    intro target other
    exact plain target (Option.some.inj (there.symm.trans other))
  have split : (path.child name).names.map Name.text = path.names.map Name.text ++ [name.text] := by
    simp [Path.child]
  rw [resolve_toText, spelled.repaired, split, same, walk_name tree follow left path name fun _ => unlinked, if_neg fits, endAt,
    there]

/-- Where something is found that is no link, each path above leads to itself, and so does the path to it. -/
theorem Found.Settled.resolve_above (wellFormed : tree.WellFormed) {place above : Path} {node : Node}
    (settled : (Found.node place node).Settled tree) (plain : ∀ target, node ≠ .link target)
    (start : above.names <+: place.names) (base : Path) :
    ∃ other, tree.resolve base true above.toText = .ok (.node above other) := by
  have higher : tree.Firm above → ∃ other, tree.resolve base true above.toText = .ok (.node above other) :=
    fun firm => ⟨.directory, resolve_firm true (wellFormed.spelled (firm above List.prefix_rfl)) firm base⟩
  cases settled with
  | directory firm => exact higher (firm.above start)
  | @entry path firm name _ there =>
    rcases Path.prefix_child_iff.mp start with rfl | shorter
    · exact ⟨node, resolve_entry true (wellFormed.spelled there) firm there plain base⟩
    · exact higher (firm.above shorter)

end Tree

end Emend
