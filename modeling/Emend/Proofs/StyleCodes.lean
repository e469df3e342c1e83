import Emend.Command.Output
import Emend.Proofs.PhrasePass
import Mathlib.Data.List.Forall2

/-! Color adds codes to what is printed and takes nothing away. A text in a style leaves the text when its codes are
passed over, also where the style is closed and opened around a line end, and what is put together from such texts
leaves what is put together from the plain ones. -/

namespace Emend

open Text

namespace Text

theorem isDigit_of_mem_ofNat {n : Nat} {u : UInt16} (member : u ∈ ofNat n) : isDigit u = true := by
  obtain ⟨c, among, inside⟩ := List.mem_flatMap.mp member
  have digit : c.isDigit = true := Nat.isDigit_of_mem_toDigits (by decide) (by decide) among
  simp only [Char.isDigit, Bool.and_eq_true, decide_eq_true_eq, UInt32.le_iff_toNat_le] at digit
  have low : 0x30 ≤ c.val.toNat := digit.1
  have high : c.val.toNat ≤ 0x39 := digit.2
  rw [ofChar, ofCode, if_pos (by omega), List.mem_singleton] at inside
  have value : u.toNat = c.val.toNat := by
    rw [inside, UInt16.toNat_ofNat', Nat.mod_eq_of_lt (by omega)]
  simp only [isDigit, Bool.and_eq_true, decide_eq_true_eq, UInt16.le_iff_toNat_le, UInt16.reduceToNat, value]
  exact ⟨low, high⟩

end Text

namespace Style

def isParameter (u : UInt16) : Bool := isDigit u || u == 0x3B

/-- How long the code is with which a text begins: an escape, a bracket, numbers with semicolons between them, and
the letter `m`. -/
def codeLength? : Text → Option Nat
  | escape :: openBracket :: rest =>
    let numbers := rest.takeWhile isParameter
    if (rest.drop numbers.length).head? = some 0x6D then some (numbers.length + 3) else none
  | _ => none

theorem codeLength?_opening (rest : Text) : codeLength? (escape :: openBracket :: rest) =
    if (rest.drop (rest.takeWhile isParameter).length).head? = some 0x6D then
      some ((rest.takeWhile isParameter).length + 3) else none := rfl

/-- A text with its codes deleted. The first argument counts the units of a code that are still to be passed over. -/
def withoutCodes : Nat → Text → Text
  | _, [] => []
  | skip + 1, _ :: rest => withoutCodes skip rest
  | 0, u :: rest =>
    match codeLength? (u :: rest) with
    | some length => withoutCodes (length - 1) rest
    | none => u :: withoutCodes 0 rest

/-- Whether output is colored at a level of style: not at level zero, and alike at all others. -/
def coloredAt (level : Nat) : Bool := 0 < level

/-- With its codes deleted a text leaves another one, whatever follows it. -/
def Leaves (t left : Text) : Prop := ∀ rest, withoutCodes 0 (t ++ rest) = left ++ withoutCodes 0 rest

theorem withoutCodes_skip (t rest : Text) : withoutCodes t.length (t ++ rest) = withoutCodes 0 rest := by
  induction t with
  | nil => rfl
  | cons u t ih => exact ih

namespace Leaves

variable {t s left right : Text}

theorem nil : Leaves [] [] := fun _ => rfl

theorem append (one : Leaves t left) (other : Leaves s right) : Leaves (t ++ s) (left ++ right) := by
  intro rest
  rw [List.append_assoc, one, other, List.append_assoc]

theorem plain (free : escape ∉ t) : Leaves t t := by
  intro rest
  induction t with
  | nil => rfl
  | cons u t ih =>
    rw [List.mem_cons, not_or] at free
    have none : codeLength? (u :: (t ++ rest)) = none := by
      rw [codeLength?]
      rintro _ same
      exact absurd (List.cons.inj same).1.symm free.1
    rw [List.cons_append, withoutCodes, none, List.cons_append, ih free.2]

theorem code (n : Nat) : Leaves (code n) [] := by
  intro rest
  have digits : ∀ u ∈ ofNat n, isParameter u = true := by
    intro u member
    rw [isParameter, isDigit_of_mem_ofNat member, Bool.true_or]
  have numbers : (ofNat n ++ 0x6D :: rest).takeWhile isParameter = ofNat n := by
    rw [List.takeWhile_append_of_pos digits, List.takeWhile_cons_of_neg (by decide), List.append_nil]
  have shape : Style.code n ++ rest = escape :: openBracket :: (ofNat n ++ 0x6D :: rest) := by
    simp only [Style.code, List.append_assoc]
    rfl
  have length : codeLength? (escape :: openBracket :: (ofNat n ++ 0x6D :: rest)) = some ((ofNat n).length + 3) := by
    rw [codeLength?_opening, numbers, List.drop_left]
    rfl
  have passed := withoutCodes_skip (openBracket :: (ofNat n ++ [0x6D])) rest
  rw [List.cons_append, List.append_assoc, List.length_cons, List.length_append, List.length_singleton] at passed
  rw [shape, withoutCodes, length]
  exact passed

theorem between {before after : Text} (one : Leaves before []) (leaves : Leaves t left) (other : Leaves after []) :
    Leaves (before ++ t ++ after) left := by
  have whole := (one.append leaves).append other
  rwa [List.append_nil] at whole

theorem result (leaves : Leaves t left) : withoutCodes 0 t = left := by
  have whole := leaves []
  rwa [List.append_nil, show withoutCodes 0 [] = [] from rfl, List.append_nil] at whole

theorem join {separator : Text} (free : escape ∉ separator) {pieces plains : List Text}
    (each : List.Forall₂ Leaves pieces plains) : Leaves (Text.join separator pieces) (Text.join separator plains) := by
  induction each with
  | nil => exact nil
  | @cons piece left pieces plains first rest ih =>
    cases rest with
    | nil => simpa [Text.join] using first
    | cons second others =>
      rw [join_cons _ (List.cons_ne_nil _ _), join_cons _ (List.cons_ne_nil _ _)]
      exact first.append ((plain free).append ih)

end Leaves

structure Coded (style : Style) : Prop where
  opening : ∃ n, style.opening = code n
  closing : ∃ n, style.closing = code n

theorem green_coded : green.Coded := ⟨⟨_, rfl⟩, ⟨_, rfl⟩⟩

theorem bold_coded : bold.Coded := ⟨⟨_, rfl⟩, ⟨_, rfl⟩⟩

theorem gray_coded : gray.Coded := ⟨⟨_, rfl⟩, ⟨_, rfl⟩⟩

theorem red_coded : red.Coded := ⟨⟨_, rfl⟩, ⟨_, rfl⟩⟩

namespace Coded

variable {style : Style} (coded : style.Coded) {t : Text} (free : escape ∉ t)

include coded

theorem opening_leaves : Leaves style.opening [] := by
  obtain ⟨n, same⟩ := coded.opening
  rw [same]
  exact .code n

theorem closing_leaves : Leaves style.closing [] := by
  obtain ⟨n, same⟩ := coded.closing
  rw [same]
  exact .code n

include free

theorem reopen_plain : style.reopen 0 t = t := by
  obtain ⟨n, same⟩ := coded.closing
  induction t with
  | nil => rfl
  | cons u t ih =>
    rw [List.mem_cons, not_or] at free
    have none : style.closing.isPrefixOf (u :: t) = false := by
      have other : (escape == u) = false := beq_eq_false_iff_ne.mpr free.1
      rw [same]
      simp only [code, List.cons_append, List.isPrefixOf, other, Bool.false_and]
    rw [reopen, none, ih free.2]
    rfl

/-- A line end stays where it was, between a code that closes the style and one that opens it. -/
theorem aroundLineEnds_leaves : Leaves (style.aroundLineEnds t) t := by
  have around (ending : Text) (plain : escape ∉ ending) : Leaves (style.closing ++ ending ++ style.opening) ending :=
    coded.closing_leaves.between (.plain plain) coded.opening_leaves
  -- A carriage return and the line feed behind it are one line end, so the cases are those of the reading.
  induction t using aroundLineEnds.induct with
  | case1 => exact .nil
  | case2 => exact around _ free
  | case3 u other =>
    rw [aroundLineEnds, if_neg other]
    exact .plain free
  | case4 v rest ih =>
    rw [aroundLineEnds, if_pos rfl]
    apply (around [lineFeed] (by decide)).append
    apply ih
    intro member
    exact free (List.mem_cons_of_mem _ member)
  | case5 u v rest other pair ih =>
    rw [aroundLineEnds, if_neg other, if_pos pair]
    apply (around [u, v] fun member => free (List.mem_append_left rest member)).append
    apply ih
    intro member
    exact free (List.mem_append_right [u, v] member)
  | case6 u v rest other single ih =>
    rw [aroundLineEnds, if_neg other, if_neg single]
    rw [List.mem_cons, not_or] at free
    apply (Leaves.plain (t := [u]) (by simpa using free.1)).append
    exact ih free.2

theorem paint_leaves : Leaves (style.paint true t) (style.paint false t) := by
  rw [paint, paint]
  split
  · rw [coded.reopen_plain free]
    exact coded.opening_leaves.between (coded.aroundLineEnds_leaves free) coded.closing_leaves
  · exact .plain free

end Coded

end Style

end Emend
