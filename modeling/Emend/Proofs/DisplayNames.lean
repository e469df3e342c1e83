import Emend.Proofs.BoundaryPlaces
import Emend.Proofs.CorpusLayout

/-! The names under which files are shown. Inside the directory in which someone works a file is shown by the way to it,
outside by its whole path, and the directory itself by its last name. Only that last name could also stand for another
file, which would have to lie below the directory, so no two files of a corpus are shown alike. -/

namespace Emend

open Text FileError

namespace Path

theorem toText_injective : Function.Injective toText := by
  intro one other same
  have back := congrArg root.resolve same
  rwa [resolve_toText, resolve_toText] at back

theorem afterShared_append (names rest : List Name) : afterShared names (names ++ rest) = ([], rest) := by
  induction names with
  | nil => cases rest <;> rfl
  | cons name names ih =>
    rw [List.cons_append, afterShared, if_pos rfl, ih]

theorem join_names_injective : Function.Injective fun names : List Name => join [slash] (names.map Name.text) := by
  intro one other same
  have whole : toText ⟨one⟩ = toText ⟨other⟩ := congrArg ([slash] ++ ·) same
  exact congrArg names (toText_injective whole)

theorem isAbsolute_of_isWithin {t : Text} (within : Emend.isWithin t = true) : isAbsolute t = false := by
  cases absolute : isAbsolute t with
  | false => rfl
  | true =>
    cases t with
    | nil => cases absolute
    | cons unit rest =>
      rw [Emend.isWithin, absolute] at within
      cases within

section Display

variable {directory file other : Path}

theorem relative_below {rest : List Name} (names : file.names = directory.names ++ rest) :
    directory.relative file = join [slash] (rest.map Name.text) := by
  rw [relative, names, afterShared_append]
  rfl

theorem displayPath_outside (apart : ¬ directory.names <+: file.names) :
    displayPath directory.toText file.toText = file.toText := by
  rw [displayPath, ofText, ofText, resolve_toText, resolve_toText]
  apply if_neg
  intro within
  exact apart <| within_iff_prefix.mp within

theorem displayPath_own : displayPath directory.toText directory.toText = baseName directory.toText := by
  have relative : directory.relative directory = [] := relative_below (List.append_nil _).symm
  rw [displayPath, ofText, resolve_toText, relative]
  rfl

theorem displayPath_below {name : Name} {rest : List Name} (names : file.names = directory.names ++ name :: rest) :
    displayPath directory.toText file.toText = join [slash] ((name :: rest).map Name.text) := by
  have relative := relative_below names
  have within : Emend.isWithin (directory.relative file) = true :=
    within_iff_prefix.mpr (names ▸ List.prefix_append _ _)
  have filled : (directory.relative file).isEmpty = false := by
    rw [relative, Bool.eq_false_iff]
    intro empty
    cases @join_names_injective (name :: rest) [] (List.isEmpty_iff.mp empty)
  rw [displayPath, ofText, ofText, resolve_toText, resolve_toText, if_pos within, filled]
  exact relative

/-- What is shown of a file inside the directory cannot be taken for a whole path. -/
theorem isAbsolute_displayPath (inside : directory.names <+: file.names) :
    isAbsolute (displayPath directory.toText file.toText) = false := by
  obtain ⟨rest, names⟩ := inside
  cases rest with
  | nil =>
    rw [List.append_nil] at names
    obtain rfl : directory = file := congrArg mk names
    rw [displayPath_own, isAbsolute, beq_eq_false_iff_ne]
    intro first
    exact slash_not_mem_baseName _ (List.mem_of_head? first)
  | cons name rest =>
    have within : Emend.isWithin (directory.relative file) = true := within_iff_prefix.mpr ⟨_, names⟩
    rw [displayPath_below names.symm, ← relative_below names.symm]
    exact isAbsolute_of_isWithin within

/-- Files are shown alike only if one of them lies below the other. -/
theorem eq_of_displayPath_eq (same : displayPath directory.toText file.toText = displayPath directory.toText other.toText)
    (apart : file.names <+: other.names → file = other) (apartToo : other.names <+: file.names → file = other) :
    file = other := by
  by_cases inside : directory.names <+: file.names
  · by_cases insideToo : directory.names <+: other.names
    · obtain ⟨rest, names⟩ := inside
      obtain ⟨more, namesToo⟩ := insideToo
      cases rest with
      | nil => exact apart ⟨more, by rw [← namesToo, ← names, List.append_nil]⟩
      | cons first rest =>
        cases more with
        | nil => exact apartToo ⟨first :: rest, by rw [← names, ← namesToo, List.append_nil]⟩
        | cons second more =>
          rw [displayPath_below names.symm, displayPath_below namesToo.symm] at same
          rw [@join_names_injective (first :: rest) (second :: more) same, namesToo] at names
          exact congrArg mk names.symm
    · have relative := isAbsolute_displayPath inside
      rw [same, displayPath_outside insideToo] at relative
      cases relative
  · by_cases insideToo : directory.names <+: other.names
    · have relative := isAbsolute_displayPath insideToo
      rw [← same, displayPath_outside inside] at relative
      cases relative
    · rw [displayPath_outside inside, displayPath_outside insideToo] at same
      exact toText_injective same

end Display

end Path

namespace Tree

theorem walk_above {tree : Tree} {links : Nat} {directory place : Path} {parts rest : List Text}
    (reach : tree.walk true links directory (parts ++ rest) = .ok (.node place .directory)) :
    ∃ above, tree.walk true links directory parts = .ok (.node above .directory) := by
  induction rest using List.reverseRecOn generalizing place with
  | nil => exact ⟨place, by rwa [List.append_nil] at reach⟩
  | append_singleton rest last ih =>
    rw [← List.append_assoc] at reach
    obtain ⟨above, way⟩ := walk_directory tree true last reach
    exact ih way

end Tree

namespace Site

variable {tree : Tree} {shown place : Path} {bytes : Bytes} {mode : Nat}

theorem not_directory (site : Site tree shown place) (there : tree.get? place = some (.file bytes mode)) {other : Path} :
    tree.walk true Tree.linkLimit .root (shown.repaired.names.map Name.text) ≠ .ok (.node other .directory) := by
  intro reach
  cases site with
  | @mk front directory name way =>
    obtain ⟨left, same⟩ := Tree.walk_concat tree true name.repaired.text way
    have plain : ∀ target, tree.get? (directory.child name.repaired) ≠ some (.link target) := by
      intro target link
      cases there.symm.trans link
    have split : (front.child name).repaired.names.map Name.text =
        front.repaired.names.map Name.text ++ [name.repaired.text] := by
      rw [Path.child_repaired]
      simp [Path.child]
    rw [split, same, Tree.walk_name tree true left directory name.repaired fun _ => plain, Tree.endAt, there] at reach
    split at reach <;> cases reach

theorem eq_of_prefix (site : Site tree shown place) (there : tree.get? place = some (.file bytes mode))
    {other above : Path} (siteToo : Site tree other above) (start : shown.names <+: other.names) : shown = other := by
  cases siteToo with
  | @mk front directory name way =>
    rcases Path.prefix_child_iff.mp start with same | ⟨rest, whole⟩
    · exact same
    · have names : front.repaired.names.map Name.text =
          shown.repaired.names.map Name.text ++ (rest.map Name.repaired).map Name.text := by
        rw [Path.repaired, ← whole, List.map_append, List.map_append]
        rfl
      rw [names] at way
      obtain ⟨_, leads⟩ := Tree.walk_above way
      exact absurd leads (site.not_directory there)

end Site

namespace Corpus

variable {space : Workspace} {scope : Path} {files : List Path} {entryOf : Path → Path}

/-- No two files of a corpus are shown alike. -/
theorem Layout.shown_nodup (layout : Layout space scope files entryOf) (directory : Path) :
    (files.map fun file => displayPath directory.toText file.toText).Nodup := by
  cases layout with
  | sited sited =>
    apply sited.once.map_on
    intro file member other memberToo same
    obtain ⟨bytes, mode, there⟩ := sited.there file member
    obtain ⟨_, _, thereToo⟩ := sited.there other memberToo
    have site := sited.site file member
    have siteToo := sited.site other memberToo
    exact Path.eq_of_displayPath_eq same (site.eq_of_prefix there siteToo)
      fun start => (siteToo.eq_of_prefix thereToo site start).symm
  | linked linked => exact List.nodup_singleton _

end Corpus

end Emend
