import Emend.Proofs.RunCalls

/-! A path at which nothing stands. While directories and links stay it leads to the same place, so what is
written there stands there and nowhere else, and whatever was found before is found as it was. -/

namespace Emend

open Text FileError

namespace Tree

section Ends

variable (tree : Tree) {follow : Bool} {directory place : Path} {parts : List Text} {found : Found}

theorem get?_of_endAt_missing {other : Path} (missing : tree.endAt place = .missing other) : tree.get? place = none := by
  rw [endAt] at missing
  split at missing
  · assumption
  · cases missing

theorem get?_of_endAt_node {other : Path} {node : Node} (standing : tree.endAt place = .node other node) :
    tree.get? place = some node := by
  cases there : tree.get? place with
  | none =>
    rw [endAt, there] at standing
    cases standing
  | some own =>
    rw [endAt, there] at standing
    rw [(Found.node.inj standing).2]

/-- A look-up that comes upon an entry with its last part ends there, unless it follows a link. -/
theorem arrive_last (plain : follow = true → ∀ target, tree.get? place ≠ some (.link target)) :
    tree.arrive follow directory [] place (tree.get? place) = .found (tree.endAt place) := by
  rw [endAt]
  cases there : tree.get? place with
  | none => rfl
  | some node =>
    cases node with
    | directory | file bytes mode | pipe => rfl
    | link target =>
      cases follow with
      | false => rfl
      | true => exact absurd there (plain rfl target)

theorem place_of_arrive (stop : tree.arrive follow directory [] place (tree.get? place) = .found found) :
    found.place = place ∧ (follow = true → ∀ target, tree.get? place ≠ some (.link target)) := by
  cases there : tree.get? place with
  | none =>
    rw [there] at stop
    obtain rfl := Stride.found.inj stop
    exact ⟨rfl, fun _ target link => by cases link⟩
  | some node =>
    rw [there] at stop
    cases node with
    | directory | file bytes mode | pipe =>
      obtain rfl := Stride.found.inj stop
      exact ⟨rfl, fun _ target link => by cases link⟩
    | link target =>
      cases follow with
      | true => cases stop
      | false =>
        obtain rfl := Stride.found.inj stop
        exact ⟨rfl, fun follow => by cases follow⟩

theorem stride_found (stop : tree.stride follow directory parts = .found found)
    (apart : ∀ other, found ≠ .node other .directory) :
    found = tree.endAt found.place ∧ (follow = true → ∀ target, tree.get? found.place ≠ some (.link target)) := by
  induction parts generalizing directory with
  | nil => exact absurd (Stride.found.inj stop).symm (apart directory)
  | cons part rest ih =>
    rcases part_cases part with rfl | ⟨name, rfl⟩ | ⟨other, blank⟩
    · rw [stride_back] at stop
      exact ih stop
    · rw [stride_name] at stop
      split at stop
      next => cases stop
      next =>
        cases rest with
        | nil =>
          obtain ⟨here, plain⟩ := tree.place_of_arrive stop
          rw [tree.arrive_last plain] at stop
          rw [here]
          exact ⟨(Stride.found.inj stop).symm, plain⟩
        | cons next more =>
          cases there : tree.get? (directory.child name) with
          | none =>
            rw [there] at stop
            cases stop
          | some node =>
            rw [there] at stop
            cases node with
            | directory => exact ih stop
            | link target | file bytes mode | pipe => cases stop
    · rw [stride_blank _ _ _ _ other blank] at stop
      exact ih stop

theorem walk_found {links : Nat} (reach : tree.walk follow links directory parts = .ok found)
    (apart : ∀ other, found ≠ .node other .directory) :
    found = tree.endAt found.place ∧ (follow = true → ∀ target, tree.get? found.place ≠ some (.link target)) := by
  induction links generalizing directory parts with
  | zero =>
    rw [walk] at reach
    cases stop : tree.stride follow directory parts with
    | found other =>
      rw [stop] at reach
      obtain rfl := Except.ok.inj reach
      exact tree.stride_found stop apart
    | failed code => rw [stop] at reach; cases reach
    | link next left => rw [stop] at reach; cases reach
  | succ links ih =>
    rw [walk] at reach
    cases stop : tree.stride follow directory parts with
    | found other =>
      rw [stop] at reach
      obtain rfl := Except.ok.inj reach
      exact tree.stride_found stop apart
    | failed code => rw [stop] at reach; cases reach
    | link next left =>
      rw [stop] at reach
      exact ih reach

/-- Either following a link at the end makes no difference, or there is one. -/
theorem stride_follow (directory : Path) (parts : List Text) :
    tree.stride true directory parts = tree.stride false directory parts ∨
      ∃ place target, tree.stride false directory parts = .found (.node place (.link target)) := by
  induction parts generalizing directory with
  | nil => exact .inl rfl
  | cons part rest ih =>
    rcases part_cases part with rfl | ⟨name, rfl⟩ | ⟨other, blank⟩
    · rw [stride_back, stride_back]
      exact ih _
    · rw [stride_name, stride_name]
      split
      next => exact .inl rfl
      next =>
        cases tree.get? (directory.child name) with
        | none => exact .inl rfl
        | some node =>
          cases node with
          | directory => exact ih _
          | file bytes mode | pipe => exact .inl rfl
          | link target =>
            cases rest with
            | nil => exact .inr ⟨_, _, rfl⟩
            | cons next more => exact .inl rfl
    · rw [stride_blank _ _ _ _ other blank, stride_blank _ _ _ _ other blank]
      exact ih _

theorem walk_follow {links : Nat} {directory : Path} {parts : List Text}
    (unlinked : ∀ place target, tree.walk false links directory parts ≠ .ok (.node place (.link target))) :
    tree.walk true links directory parts = tree.walk false links directory parts := by
  induction links generalizing directory parts with
  | zero =>
    rw [walk, walk]
    rcases tree.stride_follow directory parts with same | ⟨place, target, link⟩
    · rw [same]
    · refine absurd ?_ (unlinked place target)
      rw [walk, link]
  | succ links ih =>
    rw [walk] at unlinked
    rw [walk, walk]
    rcases tree.stride_follow directory parts with same | ⟨place, target, link⟩
    · rw [same]
      cases stop : tree.stride false directory parts with
      | found found => rfl
      | failed code => rfl
      | link next left =>
        rw [stop] at unlinked
        exact ih unlinked
    · rw [link] at unlinked
      exact absurd rfl (unlinked place target)

end Ends

section Keeping

variable {before after : Tree} (keeps : Keeps before after) {follow : Bool} {directory : Path} {parts : List Text}

include keeps

theorem stride_link {next : Path} {left : List Text} (stop : before.stride follow directory parts = .link next left) :
    after.stride follow directory parts = .link next left := by
  induction parts generalizing directory with
  | nil => cases stop
  | cons part rest ih =>
    rcases part_cases part with rfl | ⟨name, rfl⟩ | ⟨other, blank⟩
    · rw [stride_back] at stop ⊢
      exact ih stop
    · rw [stride_name] at stop ⊢
      split at stop
      next => cases stop
      next fits =>
        rw [if_neg fits]
        cases there : before.get? (directory.child name) with
        | none =>
          rw [there, arrive] at stop
          cases rest <;> cases stop
        | some node =>
          rw [there] at stop
          cases node with
          | directory =>
            rw [keeps _ _ there fun bytes mode same => by cases same]
            exact ih stop
          | link target =>
            rw [keeps _ _ there fun bytes mode same => by cases same]
            exact stop
          | file bytes mode | pipe => cases rest <;> cases stop
    · rw [stride_blank _ _ _ _ other blank] at stop ⊢
      exact ih stop

variable {found : Found} (apart : ∀ other, found ≠ .node other .directory)
  (plain : follow = true → ∀ target, after.get? found.place ≠ some (.link target))

include apart plain

/-- A look-up that ends at an entry ends there again, whatever has become of that entry. -/
theorem stride_endAt (stop : before.stride follow directory parts = .found found) :
    after.stride follow directory parts = .found (after.endAt found.place) := by
  induction parts generalizing directory with
  | nil => exact absurd (Stride.found.inj stop).symm (apart directory)
  | cons part rest ih =>
    rcases part_cases part with rfl | ⟨name, rfl⟩ | ⟨other, blank⟩
    · rw [stride_back] at stop ⊢
      exact ih stop
    · rw [stride_name] at stop ⊢
      split at stop
      next => cases stop
      next fits =>
        rw [if_neg fits]
        cases rest with
        | nil =>
          obtain ⟨here, _⟩ := before.place_of_arrive stop
          rw [here] at plain ⊢
          exact after.arrive_last plain
        | cons next more =>
          cases there : before.get? (directory.child name) with
          | none =>
            rw [there] at stop
            cases stop
          | some node =>
            rw [there] at stop
            cases node with
            | directory =>
              rw [keeps _ _ there fun bytes mode same => by cases same]
              exact ih stop
            | link target | file bytes mode | pipe => cases stop
    · rw [stride_blank _ _ _ _ other blank] at stop ⊢
      exact ih stop

theorem walk_endAt {links : Nat} (reach : before.walk follow links directory parts = .ok found) :
    after.walk follow links directory parts = .ok (after.endAt found.place) := by
  induction links generalizing directory parts with
  | zero =>
    rw [walk] at reach ⊢
    cases stop : before.stride follow directory parts with
    | found other =>
      rw [stop] at reach
      obtain rfl := Except.ok.inj reach
      rw [stride_endAt keeps apart plain stop]
    | failed code => rw [stop] at reach; cases reach
    | link next left => rw [stop] at reach; cases reach
  | succ links ih =>
    rw [walk] at reach ⊢
    cases stop : before.stride follow directory parts with
    | found other =>
      rw [stop] at reach
      obtain rfl := Except.ok.inj reach
      rw [stride_endAt keeps apart plain stop]
    | failed code => rw [stop] at reach; cases reach
    | link next left =>
      rw [stop] at reach
      rw [stride_link keeps stop]
      exact ih reach

end Keeping

section Texts

variable {tree : Tree} {base : Path} {follow : Bool} {t : Text} {found : Found}

theorem find_eq (tree : Tree) (base : Path) (follow : Bool) (t : Text) :
    tree.find base follow t =
      if pathLimit ≤ (Utf8.encode t).length then .error .nameTooLong
      else if t.isEmpty then .error .noEntry
      else tree.walk follow linkLimit (startOf base t) (parts t) := rfl

theorem walk_of_find (reach : tree.find base follow t = .ok found) :
    ¬ pathLimit ≤ (Utf8.encode t).length ∧ t.isEmpty ≠ true ∧
      tree.walk follow linkLimit (startOf base t) (parts t) = .ok found := by
  rw [find_eq] at reach
  split at reach
  · cases reach
  next fits =>
    split at reach
    · cases reach
    next occupied => exact ⟨fits, occupied, reach⟩

theorem find_found (reach : tree.find base follow t = .ok found) (apart : ∀ other, found ≠ .node other .directory) :
    found = tree.endAt found.place ∧ (follow = true → ∀ target, tree.get? found.place ≠ some (.link target)) :=
  tree.walk_found (walk_of_find reach).2.2 apart

theorem find_follow (unlinked : ∀ place target, tree.find base false t ≠ .ok (.node place (.link target))) :
    tree.find base true t = tree.find base false t := by
  simp only [find_eq] at unlinked ⊢
  split
  next => rfl
  next fits =>
    split
    next => rfl
    next occupied =>
      rw [if_neg fits, if_neg occupied] at unlinked
      exact tree.walk_follow unlinked

theorem find_endAt {after : Tree} (keeps : tree.Keeps after) (reach : tree.find base follow t = .ok found)
    (apart : ∀ other, found ≠ .node other .directory)
    (plain : follow = true → ∀ target, after.get? found.place ≠ some (.link target)) :
    after.find base follow t = .ok (after.endAt found.place) := by
  obtain ⟨fits, occupied, walked⟩ := walk_of_find reach
  rw [find_eq, if_neg fits, if_neg occupied, walk_endAt keeps apart plain walked]

end Texts

end Tree

namespace Workspace

/-- Nothing stands at a path, not even a link that leads nowhere. -/
def Free (space : Workspace) (path : Text) : Prop :=
  ∀ place node, space.tree.find space.directory false path ≠ .ok (.node place node)

theorem free_of_lookup {space : Workspace} {path : Text} (code : Code)
    (absent : space.tree.lookup space.directory false path = .error code) : space.Free path := by
  intro place node reach
  rw [Tree.lookup, reach] at absent
  cases absent

/-- A workspace as it was, but for a file that may stand where a path leads at which nothing stood. -/
inductive Spared (space : Workspace) (path : Text) : Workspace → Prop where
  | same : Spared space path space
  | beside {place : Path} {tree : Tree} (reach : space.tree.find space.directory false path = .ok (.missing place))
      (elsewhere : ∀ other, other ≠ place → tree.get? other = space.tree.get? other)
      (plain : ∀ node, tree.get? place = some node → ∃ bytes mode, node = .file bytes mode) :
      Spared space path { space with tree }

section

variable {space now : Workspace} {path : Text}

theorem get?_of_missing {place : Path} (reach : space.tree.find space.directory false path = .ok (.missing place)) :
    space.tree.get? place = none :=
  Tree.get?_of_endAt_missing _ (Tree.find_found reach fun _ same => by cases same).1.symm

theorem ne_root_of_missing {place : Path}
    (reach : space.tree.find space.directory false path = .ok (.missing place)) : place ≠ .root := by
  rintro rfl
  have nothing := get?_of_missing reach
  rw [Tree.get?_root] at nothing
  cases nothing

/-- A free path leads to the same place whether links are followed at its end or not. -/
theorem Free.missing (free : space.Free path) {follow : Bool} {found : Tree.Found}
    (reach : space.tree.find space.directory follow path = .ok found) :
    ∃ place, found = .missing place ∧ space.tree.find space.directory false path = .ok (.missing place) := by
  have reached : space.tree.find space.directory false path = .ok found := by
    cases follow with
    | false => exact reach
    | true => rwa [Tree.find_follow fun place target => free place (.link target)] at reach
  cases found with
  | node place node => exact absurd reached (free place node)
  | missing place => exact ⟨place, rfl, reached⟩

theorem Spared.standing (spared : space.Spared path now) {place : Path} {node : Node}
    (there : space.tree.get? place = some node) : now.tree.get? place = some node := by
  cases spared with
  | same => exact there
  | beside reach elsewhere plain =>
    rw [elsewhere, there]
    rintro rfl
    rw [get?_of_missing reach] at there
    cases there

theorem Spared.directory (spared : space.Spared path now) : now.directory = space.directory := by
  cases spared with
  | same | beside => rfl

theorem Spared.keeps (spared : space.Spared path now) : space.tree.Keeps now.tree :=
  fun _ _ there _ => spared.standing there

theorem Spared.reaches (free : space.Free path) (spared : space.Spared path now) {follow : Bool} {found : Tree.Found}
    (reach : now.tree.find now.directory follow path = .ok found) :
    space.tree.find space.directory false path = .ok (.missing found.place) := by
  have keeps := spared.keeps
  cases spared with
  | same =>
    obtain ⟨place, rfl, missing⟩ := free.missing reach
    exact missing
  | @beside place tree missing elsewhere plain =>
    have unlinked : ∀ target, tree.get? place ≠ some (.link target) := by
      intro target there
      obtain ⟨bytes, mode, other⟩ := plain _ there
      cases other
    have onward : space.tree.find space.directory follow path = .ok (.missing place) := by
      cases follow with
      | false => exact missing
      | true => rw [Tree.find_follow fun other target => free other (.link target), missing]
    have ends := Tree.find_endAt keeps onward (fun _ same => by cases same) fun _ => unlinked
    obtain rfl := Except.ok.inj (reach.symm.trans ends)
    rw [Tree.endAt_place]
    exact missing

theorem Spared.change (free : space.Free path) (spared : space.Spared path now) {follow : Bool} {found : Tree.Found}
    (reach : now.tree.find now.directory follow path = .ok found) {tree : Tree}
    (elsewhere : ∀ other, other ≠ found.place → tree.get? other = now.tree.get? other)
    (plain : ∀ node, tree.get? found.place = some node → ∃ bytes mode, node = .file bytes mode) :
    space.Spared path { now with tree } := by
  have missing := spared.reaches free reach
  cases spared with
  | same => exact .beside missing elsewhere plain
  | beside other apart _ =>
    obtain same := Tree.Found.missing.inj (Except.ok.inj (other.symm.trans missing))
    exact .beside missing (fun place different => (elsewhere place different).trans (apart place (same ▸ different))) plain

theorem Spared.writeFile (free : space.Free path) (spared : space.Spared path now) {bytes : Bytes} {mode : Nat}
    {after : Workspace} (written : now.writeFile path bytes mode = .ok after) : space.Spared path after := by
  obtain ⟨found, reach, rfl | ⟨kept, rfl⟩⟩ := writeFile_found written
  · exact spared
  · refine spared.change free reach (fun other apart => Tree.get?_put_of_ne _ apart _) fun node there => ?_
    rw [Tree.get?_put _ (ne_root_of_missing (spared.reaches free reach)), if_pos rfl] at there
    exact ⟨bytes, kept, (Option.some.inj there).symm⟩

theorem Spared.remove (free : space.Free path) (spared : space.Spared path now) {after : Workspace}
    (removed : now.remove path = .ok after) : space.Spared path after := by
  rcases remove_found removed with rfl | ⟨found, reach, rfl⟩
  · exact spared
  · refine spared.change free reach (fun other apart => Tree.get?_erase_of_ne _ apart) fun node there => ?_
    rw [Tree.get?_erase _ (ne_root_of_missing (spared.reaches free reach)), if_pos rfl] at there
    cases there

end

end Workspace

end Emend
