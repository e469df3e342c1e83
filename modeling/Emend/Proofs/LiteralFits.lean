import Emend.Proofs.PatternComposition

/-! What literal text of a pattern stands for, said without regular expressions: the same units, except
that each longest run of blanks stands for any blanks or none. The nodes of literal text have exactly
this language. -/

namespace Emend.Pattern

open Text Template Expression

inductive LiteralFits : Text → Text → Prop where
  | nil : LiteralFits [] []
  | unit {u : UInt16} {value segment : Text} (solid : isBlank u = false)
      (rest : LiteralFits value segment) : LiteralFits (u :: value) (u :: segment)
  | blanks {run value blanks segment : Text} (nonempty : run ≠ [])
      (run_blank : ∀ u ∈ run, isBlank u = true) (longest : ∀ u, value.head? = some u → isBlank u = false)
      (blanks_blank : ∀ u ∈ blanks, isBlank u = true) (rest : LiteralFits value segment) :
      LiteralFits (run ++ value) (blanks ++ segment)

theorem contains_blank (u : UInt16) : UnitSet.blank.contains u = isBlank u := by
  rw [Bool.eq_iff_iff]
  simp only [UnitSet.blank, UnitSet.ofList, UnitSet.single, List.foldr, UnitSet.contains, isBlank,
    Bool.or_eq_true, Bool.and_eq_true, decide_eq_true_eq, beq_iff_eq, Bool.false_eq_true,
    or_false, UInt16.le_iff_toNat_le, ← UInt16.toNat_inj, UInt16.reduceToNat]
  constructor <;> intro inside <;> omega

theorem contains_single (u v : UInt16) : (UnitSet.single u).contains v = true ↔ v = u := by
  simp only [UnitSet.single, UnitSet.contains, Bool.and_eq_true, decide_eq_true_eq]
  constructor
  · rintro ⟨low, high⟩
    exact UInt16.le_antisymm high low
  · rintro rfl
    exact ⟨UInt16.le_refl _, UInt16.le_refl _⟩

theorem accepts_blanks (t : Text) :
    (Node.loop (.unit .blank) 0 none true).accepts t ↔ ∀ u ∈ t, isBlank u = true := by
  constructor
  · rintro ⟨pieces, rfl, each, _, _⟩ u member
    obtain ⟨piece, inside, among⟩ := List.mem_flatten.mp member
    obtain ⟨v, blank, rfl⟩ := each piece inside
    rw [List.mem_singleton.mp among, ← contains_blank, blank]
  · intro blank
    refine ⟨t.map ([·]), ?_, ?_, Nat.zero_le _, fun _ none => nomatch none⟩
    · exact (List.flatMap_singleton' t).symm
    · intro piece member
      obtain ⟨u, inside, rfl⟩ := List.mem_map.mp member
      exact ⟨u, by rw [contains_blank, blank u inside], rfl⟩

theorem literalNodes_blanks (value : Text) :
    literalNodes true value = literalNodes false (value.dropWhile isBlank) := by
  induction value with
  | nil => rfl
  | cons u value ih =>
    by_cases blank : isBlank u = true
    · rw [List.dropWhile_cons_of_pos blank, ← ih]
      simp [literalNodes, blank]
    · rw [List.dropWhile_cons_of_neg blank]
      simp [literalNodes, blank]

private theorem literalNodes_solid {u : UInt16} (solid : isBlank u = false) (value : Text) :
    literalNodes false (u :: value) = .unit (.single u) :: literalNodes false value := by
  simp [literalNodes, solid]

private theorem literalNodes_run {u : UInt16} (blank : isBlank u = true) (value : Text) :
    literalNodes false (u :: value) =
      .loop (.unit .blank) 0 none true :: literalNodes false (value.dropWhile isBlank) := by
  simp [literalNodes, blank, literalNodes_blanks]

theorem fits_of_accepts (size : Nat) {value t : Text} (short : value.length ≤ size)
    (accepts : (Node.sequenceOf (literalNodes false value)).accepts t) : LiteralFits value t := by
  induction size generalizing value t with
  | zero =>
    obtain rfl := List.length_eq_zero_iff.mp (Nat.le_zero.mp short)
    obtain rfl : t = [] := accepts
    exact .nil
  | succ size ih =>
    cases value with
    | nil =>
      obtain rfl : t = [] := accepts
      exact .nil
    | cons u value =>
      rw [List.length_cons] at short
      cases blank : isBlank u with
      | false =>
        rw [literalNodes_solid blank] at accepts
        obtain ⟨_, right, rfl, ⟨v, same, rfl⟩, rest⟩ := accepts
        obtain rfl := (contains_single u v).mp same
        exact .unit blank (ih (by omega) rest)
      | true =>
        rw [literalNodes_run blank] at accepts
        obtain ⟨left, right, rfl, blanks, rest⟩ := accepts
        have cut := List.takeWhile_append_dropWhile (p := isBlank) (l := value)
        have shorter : (value.dropWhile isBlank).length ≤ size := by
          have := congrArg List.length cut
          rw [List.length_append] at this
          omega
        have fits : LiteralFits (u :: value.takeWhile isBlank ++ value.dropWhile isBlank) (left ++ right) := by
          refine .blanks (List.cons_ne_nil _ _) (fun v member => ?_) (fun v first => ?_)
            ((accepts_blanks left).mp blanks) (ih shorter rest)
          · rcases List.mem_cons.mp member with rfl | member
            · exact blank
            · exact List.all_eq_true.mp List.all_takeWhile v member
          · have := List.head?_dropWhile_not isBlank value
            rw [first] at this
            simpa using this
        rwa [List.cons_append, cut] at fits

theorem accepts_of_fits {value t : Text} (fits : LiteralFits value t) :
    (Node.sequenceOf (literalNodes false value)).accepts t := by
  induction fits with
  | nil => rfl
  | @unit u value segment solid _ ih =>
    rw [literalNodes_solid solid]
    exact ⟨[u], segment, rfl, ⟨u, (contains_single u u).mpr rfl, rfl⟩, ih⟩
  | @blanks run value blanks segment nonempty run_blank longest blanks_blank _ ih =>
    cases run with
    | nil => exact absurd rfl nonempty
    | cons u run =>
      have rest : (run ++ value).dropWhile isBlank = value := by
        rw [List.dropWhile_append_of_pos fun v member => run_blank v (List.mem_cons_of_mem _ member)]
        cases value with
        | nil => rfl
        | cons v value => rw [List.dropWhile_cons_of_neg (by simp [longest v rfl])]
      rw [List.cons_append, literalNodes_run (run_blank u List.mem_cons_self), rest]
      exact ⟨blanks, segment, rfl, (accepts_blanks blanks).mpr blanks_blank, ih⟩

/-- Literal text matches what fits it. -/
theorem literal_accepts_iff (value t : Text) :
    (Node.sequenceOf (literalNodes false value)).accepts t ↔ LiteralFits value t :=
  ⟨fits_of_accepts value.length (Nat.le_refl _), accepts_of_fits⟩

theorem literal_plain (inBlanks : Bool) (value : Text) :
    (Node.sequenceOf (literalNodes inBlanks value)).isPlain = true ∧
      (Node.sequenceOf (literalNodes inBlanks value)).isOrdered = true ∧
      (Node.sequenceOf (literalNodes inBlanks value)).groups = [] := by
  induction value generalizing inBlanks with
  | nil => exact ⟨rfl, rfl, rfl⟩
  | cons u value ih =>
    unfold literalNodes
    split
    next =>
      cases inBlanks with
      | true => exact ih true
      | false => exact ih true
    next => exact ih false

end Emend.Pattern
