import Emend.Boundary
import Emend.Proofs.CanonicalPlaces

/-! What the boundary of a directory is, and that a path which has been checked leads inside of it: the
canonical path of the nearest directory with a repository is a beginning of the canonical path to which it
leads. -/

namespace Emend

open Text FileError

namespace Path

variable {base path : Path}

theorem afterShared_fst_eq_nil_iff {names others : List Name} : (afterShared names others).1 = [] ↔ names <+: others := by
  induction names generalizing others with
  | nil => cases others <;> simp [afterShared]
  | cons name names ih =>
    cases others with
    | nil => simp [afterShared]
    | cons other others =>
      rw [afterShared, List.cons_prefix_cons]
      split
      next same => rw [ih, and_iff_right same]
      next apart => simp [apart]

/-- A text made of pieces leads out of where it starts when the first one leads up. -/
theorem isWithin_join {first : Text} {rest : List Text} (occupied : first ≠ [])
    (free : ∀ piece ∈ first :: rest, slash ∉ piece) :
    Emend.isWithin (join [slash] (first :: rest)) = true ↔ first ≠ [dot, dot] := by
  have pieces := split_join free
  have begins : ∀ {piece more : Text}, slash ∉ piece → join [slash] (first :: rest) = piece ++ slash :: more →
      first = piece := by
    intro piece more plain same
    rw [same, split_append plain] at pieces
    exact (List.cons.inj pieces).1.symm
  have whole : ∀ {piece : Text}, slash ∉ piece → join [slash] (first :: rest) = piece → first = piece := by
    intro piece plain same
    rw [same, split_free plain] at pieces
    exact (List.cons.inj pieces).1.symm
  have some_ : (join [slash] (first :: rest)).isEmpty = false := by
    cases text : join [slash] (first :: rest) with
    | nil => exact absurd (whole (by simp) text) occupied
    | cons unit more => rfl
  have relative : isAbsolute (join [slash] (first :: rest)) = false := by
    rw [isAbsolute, beq_eq_false_iff_ne]
    intro head
    obtain ⟨more, text⟩ := List.head?_eq_some_iff.mp head
    exact occupied (begins (by simp) text)
  rw [Emend.isWithin, some_, relative]
  simp only [Bool.false_eq_true, if_false, Bool.and_eq_true, bne_iff_ne, Bool.not_eq_true', Bool.eq_false_iff]
  constructor
  · rintro ⟨apart, further⟩ rfl
    cases rest with
    | nil => exact apart (by simp [join, List.intercalate, List.intersperse])
    | cons second rest =>
      apply further
      rw [join_cons_cons]
      simp
  · intro onward
    refine ⟨fun same => onward (whole (by decide) same), fun start => onward ?_⟩
    obtain ⟨more, text⟩ := List.isPrefixOf_iff_prefix.mp start
    have shape : join [slash] (first :: rest) = [dot, dot] ++ slash :: more := text.symm
    exact begins (by decide) shape

/-- One path lies within another when its names go on from those of the other. -/
theorem within_iff_prefix : base.isWithin path = true ↔ base.names <+: path.names := by
  rw [← afterShared_fst_eq_nil_iff, isWithin, relative]
  obtain ⟨up, down⟩ := afterShared base.names path.names
  simp only
  have free : ∀ piece ∈ up.map (fun _ => [dot, dot]) ++ down.map Name.text, slash ∉ piece := by
    intro piece member
    rcases List.mem_append.mp member with dots | named
    · obtain ⟨_, _, rfl⟩ := List.mem_map.mp dots
      decide
    · obtain ⟨name, _, rfl⟩ := List.mem_map.mp named
      exact name.slash_not_mem
  cases up with
  | cons name up =>
    rw [List.map_cons, List.cons_append] at free ⊢
    rw [isWithin_join (by decide) free]
    simp
  | nil =>
    cases down with
    | nil => simp [join, List.intercalate, Emend.isWithin]
    | cons name down =>
      rw [List.map_nil, List.nil_append, List.map_cons] at free ⊢
      rw [isWithin_join name.text_ne_nil free]
      simp [(Name.isValid_iff.mp name.valid).2.2.2]

section Ancestors

variable {start : Path}

theorem mem_ancestors_iff {above : Path} : above ∈ start.ancestors ↔ above.names <+: start.names := by
  simp only [ancestors, List.mem_map, List.mem_reverse, List.mem_range]
  constructor
  · rintro ⟨depth, _, rfl⟩
    exact List.take_prefix _ _
  · intro start_
    refine ⟨above.names.length, Nat.lt_succ_of_le start_.length_le, ?_⟩
    obtain ⟨names⟩ := above
    exact congrArg mk (List.prefix_iff_eq_take.mp start_).symm

theorem ancestors_pairwise (start : Path) :
    start.ancestors.Pairwise fun below above => above.names.length < below.names.length := by
  rw [ancestors, List.pairwise_map, List.pairwise_reverse]
  apply List.pairwise_lt_range.imp_of_mem
  intro shallow deep _ inside less
  have within := List.mem_range.mp inside
  simp only [List.length_take]
  omega

theorem find?_ancestors {wanted : Path → Bool} {found : Path} (first : start.ancestors.find? wanted = some found) :
    found.names <+: start.names ∧ wanted found = true ∧
      ∀ between : Path, found.names <+: between.names → between.names <+: start.names → between ≠ found →
        wanted between = false := by
  obtain ⟨own, nearer, further, split, refused⟩ := List.find?_eq_some_iff_append.mp first
  have order := start.ancestors_pairwise
  rw [split] at order
  refine ⟨mem_ancestors_iff.mp (split ▸ by simp), own, fun between below above apart => ?_⟩
  have member := mem_ancestors_iff.mpr above
  rw [split, List.mem_append, List.mem_cons] at member
  rcases member with near | same | far
  · simpa using refused between near
  · exact absurd same apart
  · have less := List.rel_of_pairwise_cons (List.pairwise_append.mp order).2.1 far
    exact absurd below.length_le (Nat.not_le.mpr less)

end Ancestors

end Path

namespace Workspace

variable (space : Workspace)

def repositoryName : Name := ⟨units ".git", by decide⟩

def HasRepository (directory : Path) : Prop :=
  ∃ node, space.stat (directory.child repositoryName).toText = .ok node

/-- Where a directory belongs: to the nearest directory, from itself upwards, with a repository in it, or else to
itself. -/
inductive BelongsTo (directory : Path) : Path → Prop where
  | repository {root : Path} (above : root.names <+: directory.names) (own : space.HasRepository root)
      (nearest : ∀ between : Path, root.names <+: between.names → between.names <+: directory.names →
        between ≠ root → ¬ space.HasRepository between) : BelongsTo directory root
  | alone (none : ∀ above : Path, above.names <+: directory.names → ¬ space.HasRepository above) :
      BelongsTo directory directory

/-- The boundary of a directory is the canonical path of the directory to which it belongs. -/
def Bounds (directory around : Path) : Prop :=
  ∃ root, space.BelongsTo directory root ∧ space.canonical root.toText = .ok around

variable {space} {directory : Path}

theorem hasRepository_iff :
    (space.stat (directory.resolve (units ".git")).toText).toOption.isSome = true ↔ space.HasRepository directory := by
  have place : directory.resolve (units ".git") = directory.child repositoryName := by
    rw [Path.resolve]
    have pieces : split slash (units ".git") = [repositoryName.text] := by decide
    rw [pieces]
    exact Path.step_name directory repositoryName
  rw [place, HasRepository]
  cases space.stat (directory.child repositoryName).toText with
  | error error => simp [Except.toOption]
  | ok node => simp [Except.toOption]

theorem stat_found {path : Text} {node : Node} (there : space.stat path = .ok node) :
    ∃ place, space.tree.find space.directory true path = .ok (.node place node) ∧ space.canonical path = .ok place := by
  have looked := Corpus.naming_eq_ok there
  cases found : space.tree.lookup space.directory true path with
  | error code =>
    rw [found] at looked
    cases looked
  | ok pair =>
    obtain ⟨place, other⟩ := pair
    rw [found] at looked
    obtain rfl := Except.ok.inj looked
    have reach := Corpus.find_of_lookup found
    refine ⟨place, reach, ?_⟩
    rw [stat, naming] at there
    split at there
    · cases there
    next plain =>
      rw [canonical, naming, if_neg plain, (Corpus.resolve_of_find reach).2]
      rfl

theorem stat_of_find {path : Text} {place other : Path} {node : Node}
    (found : space.tree.find space.directory true path = .ok (.node place node))
    (canonical : space.canonical path = .ok other) : space.stat path = .ok node := by
  rw [Workspace.canonical, naming] at canonical
  split at canonical
  · cases canonical
  next plain =>
    rw [stat, naming, if_neg plain, Tree.lookup, found]
    rfl

theorem belongsTo_root (space : Workspace) (directory : Path) :
    space.BelongsTo directory ((space.repositoryRoot? directory).getD directory) := by
  rw [repositoryRoot?]
  cases first : directory.ancestors.find? fun directory =>
      (space.stat (directory.resolve (units ".git")).toText).toOption.isSome with
  | none =>
    refine .alone fun above start own => ?_
    exact List.find?_eq_none.mp first above (Path.mem_ancestors_iff.mpr start) (hasRepository_iff.mpr own)
  | some root =>
    obtain ⟨above, own, nearest⟩ := Path.find?_ancestors first
    refine .repository above (hasRepository_iff.mp own) fun between below higher apart repository => ?_
    exact Bool.eq_false_iff.mp (nearest between below higher apart) (hasRepository_iff.mpr repository)

theorem BelongsTo.unique {root other : Path} (one : space.BelongsTo directory root)
    (another : space.BelongsTo directory other) : root = other := by
  cases one with
  | alone none =>
    cases another with
    | alone none => rfl
    | repository above own nearest => exact absurd own (none _ above)
  | repository above own nearest =>
    cases another with
    | alone none => exact absurd own (none _ above)
    | repository aboveToo ownToo nearestToo =>
      by_contra apart
      rcases List.prefix_or_prefix_of_prefix above aboveToo with below | below
      · exact nearest other below aboveToo (Ne.symm apart) ownToo
      · exact nearestToo root below above apart own

theorem bounds_iff {around : Path} : space.Bounds directory around ↔
    space.canonical ((space.repositoryRoot? directory).getD directory).toText = .ok around := by
  constructor
  · rintro ⟨root, belongs, canonical⟩
    rwa [(belongsTo_root space directory).unique belongs]
  · exact fun canonical => ⟨_, belongsTo_root space directory, canonical⟩

theorem checkBoundary_ok {path label : Text} (inside : space.checkBoundary directory.toText path label = .ok ()) :
    ∃ root around place, space.BelongsTo directory root ∧ space.canonicalOrGiven root.toText = .ok around ∧
      space.canonicalOrGiven path = .ok place ∧ around.names <+: place.names := by
  obtain ⟨failure, same⟩ : ∃ failure, space.checkBoundary directory.toText path label = (do
      let around ← (space.canonicalOrGiven ((space.repositoryRoot? directory).getD directory).toText).mapError .file
      let place ← (space.canonicalOrGiven path).mapError .file
      if around.isWithin place then .ok () else .error failure) := by
    rw [checkBoundary, Path.resolve_toText]
    cases space.repositoryRoot? directory <;> exact ⟨_, rfl⟩
  rw [same] at inside
  have belongs := belongsTo_root space directory
  generalize (space.repositoryRoot? directory).getD directory = root at belongs inside
  cases around : space.canonicalOrGiven root.toText with
  | error error =>
    rw [around] at inside
    cases inside
  | ok boundary =>
    cases place : space.canonicalOrGiven path with
    | error error =>
      rw [around, place] at inside
      cases inside
    | ok goal =>
      rw [around, place] at inside
      simp only [Except.mapError, bind, Except.bind] at inside
      split at inside
      next within => exact ⟨root, boundary, goal, belongs, around, rfl, Path.within_iff_prefix.mp within⟩
      next => cases inside

/-- A checked path at which something stands leads inside of the boundary, and there is that boundary. -/
theorem bounds_of_check (wellFormed : space.tree.WellFormed) {path place : Path} {label : Text} {node : Node}
    (inside : space.checkBoundary directory.toText path.toText label = .ok ())
    (reach : space.tree.resolve space.directory true path.toText = .ok (.node place node))
    (plain : ∀ target, node ≠ .link target) :
    space.canonical path.toText = .ok place ∧ ∃ around, space.Bounds directory around ∧ around.names <+: place.names := by
  obtain ⟨root, around, goal, belongs, boundary, given, within⟩ := checkBoundary_ok inside
  have canonical : space.canonical path.toText = .ok place := by
    rw [Workspace.canonical, reach, naming]
    split
    next zero =>
      rw [canonicalOrGiven, Workspace.canonical, reach, naming, if_pos zero] at given
      cases given
    next => rfl
  rw [canonicalOrGiven, canonical] at given
  obtain rfl := Except.ok.inj given
  refine ⟨canonical, around, ⟨root, belongs, ?_⟩, within⟩
  rw [canonicalOrGiven] at boundary
  cases found : space.canonical root.toText with
  | ok other =>
    rw [found] at boundary
    exact boundary
  | error error =>
    rw [found] at boundary
    simp only at boundary
    split at boundary
    next missing =>
      rw [Path.resolve_toText] at boundary
      obtain rfl := Except.ok.inj boundary
      obtain ⟨other, above⟩ :=
        (Tree.resolve_settled reach).resolve_above wellFormed plain within space.directory
      rw [Workspace.canonical, above, naming] at found
      split at found
      · obtain rfl := Except.error.inj found
        cases missing
      · cases found
    next => cases boundary

end Workspace

end Emend
