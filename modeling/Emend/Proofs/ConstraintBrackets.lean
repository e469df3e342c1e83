import Emend.Proofs.ExpressionParse
import Emend.Proofs.LexemeEscapes
import Emend.Template.Token

/-! Where a hole ends. The search for its closing bracket knows nothing of regular expressions but escapes and classes.
That is enough: it passes over each lexeme of a constraint as a whole, so it stops at a bracket that begins a lexeme
and at no other one. -/

namespace Emend.Template

open Text Expression

/-- The place of the bracket that closes a hole, sought inside of a class or outside of all. -/
def closing? (inClass : Bool) (t : Text) : Option Nat :=
  if inClass then (classLength? t).bind fun count => (constraintLength? (t.drop count)).map (· + count)
  else constraintLength? t

section

variable {inClass : Bool} {u : UInt16}

theorem closing?_unit (plain : u ≠ closeBracket) (solid : u ≠ backslash)
    (outside : inClass = false → u ≠ openBracket) (t : Text) :
    closing? inClass (u :: t) = (closing? inClass t).map (· + 1) := by
  cases inClass with
  | false =>
    have other := outside rfl
    simp only [closing?, Bool.false_eq_true, if_false]
    rw [constraintLength?.eq_def]
    simp only [if_neg plain, if_neg solid, if_neg other]
  | true =>
    simp only [closing?, if_true]
    rw [classLength?.eq_def]
    simp only [if_neg plain, if_neg solid]
    cases classLength? t with
    | none => rfl
    | some count => simp [Function.comp_def, Nat.add_assoc]

theorem closing?_escape (v : UInt16) (t : Text) :
    closing? inClass (backslash :: v :: t) = (closing? inClass t).map (· + 2) := by
  have solid : (backslash : UInt16) ≠ closeBracket := by decide
  cases inClass with
  | false =>
    simp only [closing?, Bool.false_eq_true, if_false]
    rw [constraintLength?.eq_def]
    simp only [if_neg solid, if_true]
  | true =>
    simp only [closing?, if_true]
    rw [classLength?.eq_def]
    simp only [if_neg solid, if_true]
    cases classLength? t with
    | none => rfl
    | some count => simp [Function.comp_def, Nat.add_assoc]

theorem closing?_open (t : Text) : closing? false (openBracket :: t) = (closing? true t).map (· + 1) := by
  have plain : (openBracket : UInt16) ≠ closeBracket := by decide
  have solid : (openBracket : UInt16) ≠ backslash := by decide
  simp only [closing?, Bool.false_eq_true, if_false, if_true]
  rw [constraintLength?.eq_def]
  simp only [if_neg plain, if_neg solid, if_true]
  cases classLength? t with
  | none => rfl
  | some count => simp [Function.comp_def, Nat.add_assoc]

theorem closing?_close (t : Text) : closing? true (closeBracket :: t) = (closing? false t).map (· + 1) := by
  simp only [closing?, Bool.false_eq_true, if_false, if_true]
  rw [classLength?.eq_def]
  simp

theorem closing?_bracket (t : Text) : closing? false (closeBracket :: t) = some 0 := by
  simp only [closing?, Bool.false_eq_true, if_false]
  rw [constraintLength?.eq_def]
  simp

end

/-- The search gets from a text to one of its suffixes without an end, whatever comes after both. -/
def Skips (inClass : Bool) (t : Text) (after : Bool) (left : Text) : Prop :=
  ∃ front, t = front ++ left ∧
    ∀ tail, closing? inClass (t ++ tail) = (closing? after (left ++ tail)).map (· + front.length)

namespace Skips

variable {inClass : Bool}

theorem refl (t : Text) : Skips inClass t inClass t := by
  refine ⟨[], rfl, fun tail => ?_⟩
  cases closing? inClass (t ++ tail) <;> rfl

theorem trans {within after : Bool} {t middle left : Text} (front : Skips inClass t within middle)
    (back : Skips within middle after left) : Skips inClass t after left := by
  obtain ⟨first, rfl, early⟩ := front
  obtain ⟨second, rfl, late⟩ := back
  refine ⟨first ++ second, (List.append_assoc _ _ _).symm, fun tail => ?_⟩
  rw [early, late, Option.map_map, List.length_append]
  congr 1
  funext place
  simp only [Function.comp_apply]
  omega

theorem unit {u : UInt16} (plain : u ≠ closeBracket) (solid : u ≠ backslash)
    (outside : inClass = false → u ≠ openBracket) (t : Text) : Skips inClass (u :: t) inClass t :=
  ⟨[u], rfl, fun tail => closing?_unit plain solid outside (t ++ tail)⟩

theorem plain {u : UInt16} (plain : u ∉ edgeUnits) (t : Text) : Skips inClass (u :: t) inClass t := by
  have other {v : UInt16} (edge : v ∈ edgeUnits) : u ≠ v := fun same => plain (same ▸ edge)
  exact unit (other (by decide)) (other (by decide)) (fun _ => other (by decide)) t

theorem drop {t : Text} {count : Nat} (plain : ∀ u ∈ t.take count, u ∉ edgeUnits) :
    Skips inClass t inClass (t.drop count) := by
  induction count generalizing t with
  | zero => exact refl t
  | succ count ih =>
    cases t with
    | nil => exact refl []
    | cons u t =>
      exact (Skips.plain (plain u List.mem_cons_self) t).trans
        (ih fun v member => plain v (List.mem_cons_of_mem _ member))

theorem escape (v : UInt16) (t : Text) : Skips inClass (backslash :: v :: t) inClass t :=
  ⟨[backslash, v], rfl, fun tail => closing?_escape v (t ++ tail)⟩

/-- A backslash that stands for itself is passed over together with the unit after it, which is passed over alone just
as well. -/
theorem backslash {v : UInt16} (plain : v ∉ edgeUnits) (t : Text) :
    Skips inClass (Text.backslash :: v :: t) inClass (v :: t) := by
  have other {edge : UInt16} (member : edge ∈ edgeUnits) : v ≠ edge := fun same => plain (same ▸ member)
  refine ⟨[Text.backslash], rfl, fun tail => ?_⟩
  rw [List.cons_append, List.cons_append, closing?_escape,
    closing?_unit (other (by decide)) (other (by decide)) (fun _ => other (by decide)), Option.map_map]
  rfl

theorem unitEscape {isControl : UInt16 → Bool} (control : edgeUnits.any isControl = false) (v : UInt16) (rest : Text) :
    Skips inClass (Text.backslash :: v :: rest) inClass
      ((v :: rest).drop (match (Expression.unitEscape isControl v rest).2 with
        | some extra => extra + 1
        | none => 0)) := by
  cases taken : (Expression.unitEscape isControl v rest).2 with
  | none =>
    obtain rfl := unitEscape_none (v := (Expression.unitEscape isControl v rest).1) (Prod.ext rfl taken)
    exact backslash (by decide) rest
  | some extra =>
    have units := unitEscape_plain control (v := (Expression.unitEscape isControl v rest).1) (Prod.ext rfl taken)
    exact (escape v rest).trans (drop units)

section Class

variable {survey : Survey}

theorem classMember {rest : Text} {u : UInt16} {first : Member} {extra : Nat} (inside : u ≠ closeBracket)
    (read : Expression.classMember survey u rest = .ok (first, extra)) :
    Skips true (u :: rest) true (rest.drop extra) := by
  unfold Expression.classMember at read
  split at read
  next escaped =>
    subst escaped
    cases rest with
    | nil => cases read
    | cons v more =>
      simp only at read
      split at read
      next =>
        obtain ⟨_, rfl⟩ := Prod.mk.inj (Except.ok.inj read)
        exact escape v more
      next =>
        split at read
        next =>
          obtain ⟨_, rfl⟩ := Prod.mk.inj (Except.ok.inj read)
          exact escape v more
        next =>
          split at read
          next => cases read
          next =>
            obtain ⟨_, rfl⟩ := Prod.mk.inj (Except.ok.inj read)
            exact unitEscape (by decide) v more
  next solid =>
    obtain ⟨_, rfl⟩ := Prod.mk.inj (Except.ok.inj read)
    exact unit inside solid (fun outside => absurd outside (by decide)) rest

theorem classReads {t : Text} {set : UnitSet} {count : Nat} (read : ClassReads survey t set count) :
    Skips true t false (t.drop count) := by
  have hyphen (t : Text) : Skips true (hyphen :: t) true t := plain (by decide) t
  have close (t : Text) : Skips true (closeBracket :: t) false t :=
    ⟨[closeBracket], rfl, fun tail => closing?_close (t ++ tail)⟩
  induction read with
  | closed rest => exact close rest
  | @single u rest left extra count others inside member apart _ ih =>
    rw [show extra + 1 + count = extra + count + 1 by omega, List.drop_succ_cons, ← List.drop_drop]
    exact (classMember inside member).trans ih
  | @last u rest more _ extra inside member mark =>
    have first := classMember inside member
    rw [List.drop_succ_cons, ← List.drop_drop, mark]
    rw [mark] at first
    exact first.trans ((hyphen _).trans (close more))
  | @range u v rest more _ right extra extraRight count set others inside member mark inner second between _ ih =>
    have first := classMember inside member
    rw [mark] at first
    rw [show extra + 3 + extraRight + count = (extra + (2 + (extraRight + count))) + 1 by omega, List.drop_succ_cons,
      ← List.drop_drop, mark, ← List.drop_drop, List.drop_succ_cons, List.drop_succ_cons, List.drop_zero,
      ← List.drop_drop]
    exact first.trans ((hyphen _).trans ((classMember inner second).trans ih))

end Class

section Names

theorem bracedCode {t : Text} {code count : Nat} (read : bracedCode? t = some (code, count)) :
    Skips inClass t inClass (t.drop count) := by
  simp only [bracedCode?] at read
  split at read
  next closed =>
    obtain ⟨_, rfl⟩ := Prod.mk.inj (Option.some.inj read)
    simp only [Bool.and_eq_true, decide_eq_true_eq] at closed
    apply drop
    intro u member
    rw [List.take_add_one, List.mem_append, closed.1.2] at member
    rcases member with digit | last
    · rw [← List.prefix_iff_eq_take.mp (List.takeWhile_prefix _)] at digit
      exact not_mem_edgeUnits (by decide) (List.all_eq_true.mp List.all_takeWhile u digit)
    · obtain rfl := Option.some.inj (Option.mem_toList.mp last)
      decide
  next => cases read

theorem escapedCode {t : Text} {code count : Nat} (read : escapedCode? t = some (code, count)) :
    Skips inClass t inClass (t.drop count) := by
  unfold escapedCode? at read
  split at read
  next braced =>
    obtain ⟨rest, rfl⟩ := List.head?_eq_some_iff.mp braced
    obtain ⟨⟨_, inner⟩, found, same⟩ := Option.map_eq_some_iff.mp read
    obtain ⟨_, rfl⟩ := Prod.mk.inj same
    exact (plain (by decide) rest).trans (bracedCode found)
  next =>
    rw [Option.bind_eq_bind, Option.bind_eq_some_iff] at read
    obtain ⟨high, first, read⟩ := read
    have four : Skips inClass t inClass (t.drop 4) := drop (hexDigits?_plain first)
    split at read
    next low second =>
      split at read
      next =>
        obtain ⟨_, rfl⟩ := Prod.mk.inj (Option.some.inj read)
        simp only [escapeAfter?] at second
        split at second
        next mark =>
          have shape := List.take_append_drop 2 (t.drop 4)
          rw [mark, List.drop_drop] at shape
          rw [List.drop_drop] at second
          have back : Skips inClass (t.drop 6) inClass ((t.drop 6).drop 4) := drop (hexDigits?_plain second)
          rw [← shape] at four
          rw [List.drop_drop] at back
          exact four.trans ((escape _ _).trans back)
        next => cases second
      next =>
        obtain ⟨_, rfl⟩ := Prod.mk.inj (Option.some.inj read)
        exact four
    next =>
      obtain ⟨_, rfl⟩ := Prod.mk.inj (Option.some.inj read)
      exact four

/-- What may stand in a name, the closing angle included, opens and closes no class. -/
theorem codePoint {u : UInt16} {rest : Text} {code extra : Nat} (read : codePoint? u rest = some (code, extra))
    (member : continuesName code = true ∨ code = 0x3E) : Skips inClass (u :: rest) inClass (rest.drop extra) := by
  have alone (member : continuesName u.toNat = true ∨ u.toNat = 0x3E) : u ∉ edgeUnits := by
    intro edge
    simp only [edgeUnits, List.mem_cons, List.not_mem_nil, or_false] at edge
    rcases edge with rfl | rfl | rfl <;> exact absurd member (by decide)
  unfold codePoint? at read
  split at read
  next more =>
    obtain ⟨⟨_, inner⟩, found, same⟩ := Option.map_eq_some_iff.mp read
    obtain ⟨_, rfl⟩ := Prod.mk.inj same
    exact (escape _ more).trans (escapedCode found)
  next => cases read
  next v more _ _ =>
    split at read
    next pair =>
      obtain ⟨_, rfl⟩ := Prod.mk.inj (Option.some.inj read)
      rw [Bool.and_eq_true] at pair
      exact (plain (not_mem_edgeUnits (by decide) pair.1) _).trans (plain (not_mem_edgeUnits (by decide) pair.2) more)
    next =>
      obtain ⟨rfl, rfl⟩ := Prod.mk.inj (Option.some.inj read)
      exact plain (alone member) _
  next =>
    obtain ⟨rfl, rfl⟩ := Prod.mk.inj (Option.some.inj read)
    exact plain (alone member) _

theorem nameTail (size : Nat) {t name : Text} {count : Nat} (short : t.length ≤ size)
    (read : nameTail? t = some (name, count)) : Skips inClass t inClass (t.drop count) := by
  induction size generalizing t name count with
  | zero =>
    obtain rfl := List.length_eq_zero_iff.mp (Nat.le_zero.mp short)
    rw [nameTail?] at read
    cases read
  | succ size ih =>
    cases t with
    | nil =>
      rw [nameTail?] at read
      cases read
    | cons u rest =>
      rw [nameTail?, Option.bind_eq_bind, Option.bind_eq_some_iff] at read
      obtain ⟨⟨code, extra⟩, point, read⟩ := read
      simp only at read
      split at read
      next closed =>
        obtain ⟨_, rfl⟩ := Prod.mk.inj (Option.some.inj read)
        exact codePoint point (.inr closed)
      next =>
        split at read
        next continues =>
          rw [Option.bind_eq_bind, Option.bind_eq_some_iff] at read
          obtain ⟨⟨others, more⟩, found, read⟩ := read
          obtain ⟨_, rfl⟩ := Prod.mk.inj (Option.some.inj read)
          have shorter : (rest.drop extra).length ≤ size := by
            rw [List.length_drop]
            rw [List.length_cons] at short
            omega
          rw [show extra + 1 + more = (extra + more) + 1 by omega, List.drop_succ_cons, ← List.drop_drop]
          exact (codePoint point (.inl continues)).trans (ih shorter found)
        next => cases read

theorem groupName {t name : Text} {count : Nat} (read : groupName? t = some (name, count)) :
    Skips inClass t inClass (t.drop count) := by
  cases t with
  | nil => cases read
  | cons u rest =>
    rw [groupName?, Option.bind_eq_bind, Option.bind_eq_some_iff] at read
    obtain ⟨⟨code, extra⟩, point, read⟩ := read
    simp only at read
    split at read
    next begins =>
      rw [Option.bind_eq_bind, Option.bind_eq_some_iff] at read
      obtain ⟨⟨others, more⟩, found, read⟩ := read
      obtain ⟨_, rfl⟩ := Prod.mk.inj (Option.some.inj read)
      rw [show extra + 1 + more = (extra + more) + 1 by omega, List.drop_succ_cons, ← List.drop_drop]
      exact (codePoint point (.inl (continuesName_of_beginsName begins))).trans (nameTail _ (Nat.le_refl _) found)
    next => cases read

theorem namedReference {survey : Survey} {rest : Text} {first : Lexeme} {extra : Nat}
    (read : Expression.namedReference survey rest = .ok (first, extra)) :
    Skips inClass (Text.backslash :: 0x6B :: rest) inClass ((0x6B :: rest).drop extra) := by
  unfold Expression.namedReference at read
  split at read
  next after =>
    split at read
    next name count found =>
      split at read
      next =>
        obtain ⟨_, rfl⟩ := Prod.mk.inj (Except.ok.inj read)
        exact (escape _ _).trans ((plain (by decide) after).trans (groupName found))
      next => cases read
    next => cases read
  next => cases read

end Names

section Lexemes

variable {survey : Survey}

theorem opening {rest : Text} {first : Lexeme} {extra : Nat} (read : openingLexeme rest = .ok (first, extra)) :
    Skips inClass rest inClass (rest.drop extra) := by
  rcases openingLexeme_cases read with units | ⟨more, name, count, rfl, found, _, rfl⟩
  · exact drop units
  · exact (plain (by decide) _).trans ((plain (by decide) more).trans (groupName found))

theorem escapeLexeme {v : UInt16} {rest : Text} {first : Lexeme} {extra : Nat}
    (read : Expression.escapeLexeme survey v rest = .ok (first, extra)) :
    Skips inClass (Text.backslash :: v :: rest) inClass ((v :: rest).drop extra) := by
  have one {piece : Lexeme} (read : (.ok (piece, 1) : Except Expression.Defect (Lexeme × Nat)) = .ok (first, extra)) :
      Skips inClass (Text.backslash :: v :: rest) inClass ((v :: rest).drop extra) := by
    obtain ⟨_, rfl⟩ := Prod.mk.inj (Except.ok.inj read)
    exact escape v rest
  unfold Expression.escapeLexeme at read
  simp only at read
  split at read
  next => exact one read
  next =>
  split at read
  next => exact one read
  next =>
  split at read
  next =>
    split at read
    next =>
      obtain ⟨_, rfl⟩ := Prod.mk.inj (Except.ok.inj read)
      exact (escape v rest).trans (drop (digits_plain rest))
    next =>
      obtain ⟨_, rfl⟩ := Prod.mk.inj (Except.ok.inj read)
      exact unitEscape (by decide) v rest
  next =>
  split at read
  next letter =>
    simp only [Bool.and_eq_true, decide_eq_true_eq] at letter
    rw [letter.1]
    exact namedReference read
  next =>
  split at read
  next => exact one read
  next =>
    obtain ⟨_, rfl⟩ := Prod.mk.inj (Except.ok.inj read)
    exact unitEscape (by decide) v rest

theorem lexeme {u : UInt16} {rest : Text} {first : Lexeme} {extra : Nat} (begins : u ≠ closeBracket)
    (read : LexemeReads survey u rest first extra) : Skips false (u :: rest) false (rest.drop extra) := by
  have openClass (t : Text) : Skips false (openBracket :: t) true t :=
    ⟨[openBracket], rfl, fun tail => closing?_open (t ++ tail)⟩
  cases read with
  | opening read => exact (plain (by decide) rest).trans (opening read)
  | closing | bar | start | stop | dot | brace => exact plain (by decide) rest
  | @repetition _ least most _ bounds =>
    have solid : u ∉ edgeUnits := by
      intro edge
      simp only [edgeUnits, List.mem_cons, List.not_mem_nil, or_false] at edge
      rcases edge with rfl | rfl | rfl <;> cases bounds
    exact (plain solid rest).trans (drop (quantifierLexeme_plain least most rest 0 fun u member => nomatch member))
  | @interval _ least count most bounds ordered =>
    exact (plain (by decide) rest).trans (drop (quantifierLexeme_plain least most rest count (interval?_plain bounds)))
  | «class» apart members => exact (openClass rest).trans (classReads members)
  | otherClass members => exact (openClass _).trans ((plain (by decide) _).trans (classReads members))
  | escape read => exact escapeLexeme read
  | plain _ outside =>
    exact unit begins (fun same => outside (same ▸ by decide)) (fun _ same => outside (same ▸ by decide)) rest

end Lexemes

end Skips

/-- A reading that comes to a stop at no closing bracket is passed over as a whole. -/
theorem skips_of_reads {survey : Survey} {t left : Text} {pieces : List Lexeme} (read : Reads survey t pieces left)
    (enclosed : ∀ front more, ¬ Reads survey t front (closeBracket :: more)) : Skips false t false left := by
  induction read with
  | done => exact .refl _
  | @next u rest _ first _ extra front _ ih =>
    have begins : u ≠ closeBracket := by
      rintro rfl
      exact enclosed [] rest (.done _)
    refine (Skips.lexeme begins (lexeme_eq_ok_iff.mp front)).trans (ih fun others more later => ?_)
    exact enclosed (first :: others) more (.next front later)

/-- Where a reading comes to a stop at a closing bracket, the search has come to its end. -/
theorem closing?_of_reads {survey : Survey} {t more : Text} {pieces : List Lexeme}
    (read : Reads survey t pieces (closeBracket :: more)) :
    ∃ place < t.length, ∀ tail, closing? false (t ++ tail) = some place := by
  generalize shape : closeBracket :: more = left at read
  induction read with
  | done =>
    subst shape
    exact ⟨0, Nat.succ_pos _, fun tail => closing?_bracket (more ++ tail)⟩
  | @next u rest _ first _ extra front _ ih =>
    by_cases begins : u = closeBracket
    · subst begins
      exact ⟨0, Nat.succ_pos _, fun tail => closing?_bracket (rest ++ tail)⟩
    · obtain ⟨place, inside, found⟩ := ih shape
      obtain ⟨taken, same, skips⟩ := Skips.lexeme begins (lexeme_eq_ok_iff.mp front)
      refine ⟨place + taken.length, ?_, fun tail => ?_⟩
      · rw [same, List.length_append]
        omega
      · rw [skips, found, Option.map_some]

end Emend.Template
