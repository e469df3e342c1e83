import Emend.Proofs.BoundaryPlaces
import Mathlib.Data.List.Infix

/-! Containment of paths as it shows in their texts. The way from one text to another can be found by reading both unit
by unit up to where they differ, with an eye on the last slash that they share. It leads inside exactly if the
segments of the one text begin those of the other, so a name that only begins like another one, or with two dots, is a
name of its own. -/

namespace Emend

open Text

namespace Path

def segments (t : Text) : List Text := (split slash t).filter (!·.isEmpty)

/-- An absolute text that only leads down: no segment is a dot, or two dots. -/
structure Downward (t : Text) : Prop where
  absolute : isAbsolute t = true
  onward : ∀ segment ∈ segments t, segment ≠ [dot] ∧ segment ≠ [dot, dot]

/-- An absolute text in normal form: single slashes lead downward, each to a segment. -/
structure Normal (t : Text) : Prop extends Downward t where
  spelled : t = slash :: join [slash] (segments t)

section Reading

variable {t : Text}

theorem foldl_step_segments {parts : List Text} (plain : ∀ part ∈ parts, part = [] ∨ Name.isValid part = true)
    (base : Path) :
    (parts.foldl step base).names.map Name.text = base.names.map Name.text ++ parts.filter (!·.isEmpty) := by
  induction parts generalizing base with
  | nil => exact (List.append_nil _).symm
  | cons part parts ih =>
    have rest := ih fun other member => plain other (List.mem_cons_of_mem _ member)
    rw [List.foldl_cons, rest]
    rcases plain part List.mem_cons_self with rfl | valid
    · rfl
    · have filled : part ≠ [] := (Name.isValid_iff.mp valid).1
      have named : base.step part = base.child ⟨part, valid⟩ := step_name base ⟨part, valid⟩
      rw [List.filter_cons_of_pos (by simpa using filled), named, child, List.map_append, List.append_assoc]
      rfl

/-- The segments of a text that leads down are the names of its path. -/
theorem Downward.names (down : Downward t) : (ofText t).names.map Name.text = segments t := by
  have plain : ∀ part ∈ split slash t, part = [] ∨ Name.isValid part = true := by
    intro part member
    by_cases empty : part = []
    · exact .inl empty
    · have segment : part ∈ segments t := List.mem_filter.mpr ⟨member, by simpa using empty⟩
      obtain ⟨notDot, notDots⟩ := down.onward part segment
      exact .inr <| Name.isValid_iff.mpr ⟨empty, not_mem_of_mem_split member, notDot, notDots⟩
  rw [ofText, resolve, ite_self, foldl_step_segments plain root]
  rfl

theorem Normal.toText_ofText (normal : Normal t) : (ofText t).toText = t := by
  rw [toText, normal.names]
  exact normal.spelled.symm

theorem text_injective : Function.Injective Name.text := fun _ _ => Name.ext

end Reading

section Units

/-- What is left of two texts behind the last slash up to which they agree, read unit by unit. The first argument
holds what is left behind the slash that was met last. -/
def leftOver : Text × Text → Text → Text → Text × Text
  | held, u :: rest, v :: others =>
    if u = v then leftOver (if u = slash then (rest, others) else held) rest others else held
  | held, _, _ => held

/-- The way from one path to another, found in their texts with a slash at the end of both: two dots for each slash
that is left of the first text, and then what is left of the second. -/
def way (base path : Path) : Text :=
  let (up, down) := leftOver ([], []) base.front path.front
  ((up.filter (· == slash)).flatMap (fun _ => [dot, dot, slash]) ++ down).dropLast

def trail (names : List Name) : Text := names.flatMap fun name => name.text ++ [slash]

variable {held : Text × Text} {t s rest others : Text}

theorem leftOver_same (flat : slash ∉ t) :
    leftOver held (t ++ slash :: rest) (t ++ slash :: others) = leftOver (rest, others) rest others := by
  induction t with
  | nil => rfl
  | cons u t ih =>
    rw [List.mem_cons, not_or] at flat
    rw [List.cons_append, List.cons_append, leftOver, if_pos rfl, if_neg (Ne.symm flat.1)]
    exact ih flat.2

theorem leftOver_apart (flat : slash ∉ t) (flatToo : slash ∉ s) (apart : t ≠ s) :
    leftOver held (t ++ slash :: rest) (s ++ slash :: others) = held := by
  induction t generalizing s with
  | nil =>
    cases s with
    | nil => exact absurd rfl apart
    | cons v s =>
      have other : slash ≠ v := fun same => flatToo (same ▸ List.mem_cons_self)
      exact if_neg other
  | cons u t ih =>
    rw [List.mem_cons, not_or] at flat
    cases s with
    | nil => exact if_neg (Ne.symm flat.1)
    | cons v s =>
      rw [List.mem_cons, not_or] at flatToo
      rw [List.cons_append, List.cons_append, leftOver]
      by_cases same : u = v
      · subst same
        rw [if_pos rfl, if_neg (Ne.symm flat.1)]
        apply ih flat.2 flatToo.2
        intro equal
        exact apart (congrArg (u :: ·) equal)
      · exact if_neg same

/-- Reading unit by unit leaves what reading name by name leaves, whenever it starts where names start. -/
theorem leftOver_trail (names more : List Name) :
    leftOver (trail names, trail more) (trail names) (trail more) =
      (trail (afterShared names more).1, trail (afterShared names more).2) := by
  induction names generalizing more with
  | nil => cases more <;> rfl
  | cons name names ih =>
    cases more with
    | nil => simp [leftOver, trail, afterShared]
    | cons other more =>
      have shape (first : Name) (later : List Name) : trail (first :: later) = first.text ++ slash :: trail later := by
        simp [trail]
      rw [afterShared]
      by_cases same : name = other
      · subst same
        rw [if_pos rfl, ← ih more, shape, shape]
        exact leftOver_same name.slash_not_mem
      · rw [if_neg same, shape, shape]
        apply leftOver_apart name.slash_not_mem other.slash_not_mem
        intro texts
        exact same (Name.ext texts)

theorem slashes_trail (names : List Name) : (trail names).filter (· == slash) = names.map fun _ => slash := by
  induction names with
  | nil => rfl
  | cons name names ih =>
    have none : name.text.filter (· == slash) = [] := by
      apply List.filter_eq_nil_iff.mpr
      intro u member same
      exact name.slash_not_mem (beq_iff_eq.mp same ▸ member)
    rw [trail, List.flatMap_cons, List.filter_append, ← trail, ih, List.filter_append, none]
    rfl

theorem dropLast_flatMap (pieces : List Text) :
    (pieces.flatMap fun piece => piece ++ [slash]).dropLast = join [slash] pieces := by
  induction pieces with
  | nil => rfl
  | cons first pieces ih =>
    cases pieces with
    | nil => simp [join, List.intercalate, List.intersperse]
    | cons second pieces =>
      have filled : ((second :: pieces).flatMap fun piece => piece ++ [slash]) ≠ [] := by simp
      rw [List.flatMap_cons, List.dropLast_append_of_ne_nil filled, ih, join_cons_cons, List.append_assoc,
        List.singleton_append]

theorem relative_eq_way (base path : Path) : base.relative path = way base path := by
  have start : leftOver ([], []) base.front path.front =
      leftOver (trail base.names, trail path.names) (trail base.names) (trail path.names) := rfl
  have dots (up : List Name) : ((trail up).filter (· == slash)).flatMap (fun _ => [dot, dot, slash]) =
      (up.map fun _ => [dot, dot]).flatMap fun piece => piece ++ [slash] := by
    rw [slashes_trail, List.flatMap_map, List.flatMap_map]
    rfl
  have names (down : List Name) : trail down = (down.map Name.text).flatMap fun piece => piece ++ [slash] := by
    rw [trail, List.flatMap_map]
  rw [way, start, leftOver_trail]
  simp only
  rw [dots, names, ← List.flatMap_append, dropLast_flatMap]
  rfl

end Units

/-- A path lies within another exactly if its segments go on from those of the other. The way from one to the other,
on which this is decided, is the one found unit by unit. -/
theorem isWithin_iff_segments {base candidate : Text} (down : Downward base) (downToo : Downward candidate) :
    (ofText base).relative (ofText candidate) = way (ofText base) (ofText candidate) ∧
      ((ofText base).isWithin (ofText candidate) = true ↔ segments base <+: segments candidate) := by
  refine ⟨relative_eq_way _ _, ?_⟩
  calc (ofText base).isWithin (ofText candidate) = true
    _ ↔ (ofText base).names <+: (ofText candidate).names := within_iff_prefix
    _ ↔ (ofText base).names.map Name.text <+: (ofText candidate).names.map Name.text :=
      (List.prefix_map_iff_of_injective text_injective).symm
    _ ↔ segments base <+: segments candidate := by rw [down.names, downToo.names]

/-- A name that begins with two dots leads no way up. -/
theorem isWithin_iff_segments_dotted :
    Downward (units "/a/b") ∧ Downward (units "/a/b/..c//d/") ∧
      (ofText (units "/a/b")).isWithin (ofText (units "/a/b/..c//d/")) = true := by
  have down : Downward (units "/a/b") := ⟨by decide, by decide⟩
  have downToo : Downward (units "/a/b/..c//d/") := ⟨by decide, by decide⟩
  exact ⟨down, downToo, (isWithin_iff_segments down downToo).2.mpr (by decide)⟩

example : (ofText (units "/a/b")).isWithin (ofText (units "/a/bc")) = false := by decide +kernel

example : (ofText (units "/")).isWithin (ofText (units "/..a")) = true := by decide +kernel

end Path

end Emend
