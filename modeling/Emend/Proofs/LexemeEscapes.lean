import Emend.Proofs.LexemeSurvey

/-! The units that backslashes escape decide whether an expression depends on what it is put into. A
lexeme never ends between a backslash and the unit that it escapes, so without numeric escapes and
without `\k` an expression is read alike whatever groups and names there are. -/

namespace Emend.Expression

open Text

/-- The units after the backslashes of a text, from left to right: an escaped backslash escapes
nothing. -/
def escapes : Text → List UInt16
  | [] => []
  | u :: rest =>
    if u = backslash then
      match rest with
      | [] => []
      | v :: more => v :: escapes more
    else escapes rest

theorem escapes_cons {u : UInt16} (plain : u ≠ backslash) (rest : Text) :
    escapes (u :: rest) = escapes rest := by
  rw [escapes.eq_def]
  simp only [if_neg plain]

theorem escapes_backslash (v : UInt16) (rest : Text) :
    escapes (backslash :: v :: rest) = v :: escapes rest := by
  rw [escapes.eq_def]
  rfl

/-- The units that decide where escapes and classes begin and end. -/
def edgeUnits : Text := [openBracket, closeBracket, backslash]

theorem not_mem_edgeUnits {p : UInt16 → Bool} (none : edgeUnits.any p = false) {u : UInt16} (own : p u = true) :
    u ∉ edgeUnits := by
  intro member
  rw [List.any_eq_true.mpr ⟨u, member, own⟩] at none
  cases none

theorem escapes_drop {t : Text} {count : Nat} (plain : ∀ u ∈ t.take count, u ∉ edgeUnits) :
    escapes (t.drop count) = escapes t := by
  induction count generalizing t with
  | zero => rfl
  | succ count ih =>
    cases t with
    | nil => rfl
    | cons u rest =>
      have solid : u ≠ backslash := fun same => plain u List.mem_cons_self (same ▸ by decide)
      rw [List.drop_succ_cons, ih fun v member => plain v (List.mem_cons_of_mem _ member), escapes_cons solid]

def NoReference (v : UInt16) : Prop := v ≠ 0x6B ∧ ¬ (0x31 ≤ v ∧ v ≤ 0x39)

section Units

theorem hexDigits?_plain {count value : Nat} {t : Text} (read : hexDigits? count t = some value) :
    ∀ u ∈ t.take count, u ∉ edgeUnits := by
  induction count generalizing t value with
  | zero => exact fun u member => nomatch member
  | succ count ih =>
    cases t with
    | nil => cases read
    | cons u rest =>
      simp only [hexDigits?, Option.bind_eq_bind, Option.bind_eq_some_iff] at read
      obtain ⟨_, digit, _, back, _⟩ := read
      intro v member
      rcases List.mem_cons.mp member with rfl | later
      · exact not_mem_edgeUnits (p := fun u => (hexValue? u).isSome) (by decide) (by rw [digit]; rfl)
      · exact ih back v later

theorem digits_plain (t : Text) : ∀ u ∈ t.take (t.takeWhile isDigit).length, u ∉ edgeUnits := by
  intro u member
  rw [← List.prefix_iff_eq_take.mp (List.takeWhile_prefix isDigit)] at member
  exact not_mem_edgeUnits (by decide) (List.all_eq_true.mp List.all_takeWhile _ member)

theorem octal_plain (first : UInt16) (rest : Text) :
    ∀ u ∈ rest.take (octal first rest).2, u ∉ edgeUnits :=
  fun u member => digits_plain rest u (List.take_subset_take_left rest (octal_digits first rest) member)

theorem unitEscape_plain {isControl : UInt16 → Bool} (control : edgeUnits.any isControl = false)
    {u v : UInt16} {rest : Text} {extra : Nat} (read : unitEscape isControl u rest = (v, some extra)) :
    ∀ w ∈ rest.take extra, w ∉ edgeUnits := by
  have nothing : ∀ w ∈ rest.take 0, w ∉ edgeUnits := fun w member => nomatch member
  simp only [unitEscape] at read
  split at read
  · cases read
    exact nothing
  · split at read
    · split at read
      · split at read
        next first more letter =>
          cases read
          intro w member
          obtain rfl := List.mem_singleton.mp member
          exact not_mem_edgeUnits control letter
        next => cases read
      · cases read
    · split at read
      · cases read
        exact octal_plain u rest
      · split at read
        · split at read
          next found =>
            cases read
            exact hexDigits?_plain found
          next =>
            cases read
            exact nothing
        · split at read
          · split at read
            next found =>
              cases read
              exact hexDigits?_plain found
            next =>
              cases read
              exact nothing
          · cases read
            exact nothing

theorem unitEscape_none {isControl : UInt16 → Bool} {u v : UInt16} {rest : Text}
    (read : unitEscape isControl u rest = (v, none)) : u = 0x63 := by
  simp only [unitEscape] at read
  split at read
  · cases read
  · split at read
    next letter => exact letter
    next =>
      repeat' split at read
      all_goals cases read

/-- What an escape leaves begins after all that it has escaped. -/
theorem unitEscape_left {isControl : UInt16 → Bool} (control : edgeUnits.any isControl = false)
    (v : UInt16) (rest : Text) :
    ∀ w ∈ escapes ((v :: rest).drop (match (unitEscape isControl v rest).2 with
      | some extra => extra + 1
      | none => 0)), w ∈ escapes rest := by
  cases taken : (unitEscape isControl v rest).2 with
  | none =>
    have letter := unitEscape_none (v := (unitEscape isControl v rest).1) (Prod.ext rfl taken)
    intro w member
    rwa [List.drop_zero, escapes_cons (by rw [letter]; decide)] at member
  | some extra =>
    have plain := unitEscape_plain control (v := (unitEscape isControl v rest).1) (Prod.ext rfl taken)
    intro w member
    rwa [List.drop_succ_cons, escapes_drop plain] at member

theorem classMember_left {survey : Survey} {u : UInt16} {rest : Text} {first : Member} {extra : Nat}
    (read : classMember survey u rest = .ok (first, extra)) :
    ∀ w ∈ escapes (rest.drop extra), w ∈ escapes (u :: rest) := by
  unfold classMember at read
  split at read
  next escaped =>
    subst escaped
    cases rest with
    | nil => cases read
    | cons v more =>
      rw [escapes_backslash]
      simp only at read
      split at read
      next =>
        obtain ⟨_, rfl⟩ := Prod.mk.inj (Except.ok.inj read)
        exact fun w member => List.mem_cons_of_mem _ member
      next =>
        split at read
        next =>
          obtain ⟨_, rfl⟩ := Prod.mk.inj (Except.ok.inj read)
          exact fun w member => List.mem_cons_of_mem _ member
        next =>
          split at read
          next => cases read
          next =>
            obtain ⟨_, rfl⟩ := Prod.mk.inj (Except.ok.inj read)
            exact fun w member => List.mem_cons_of_mem _ (unitEscape_left (by decide) v more w member)
  next plain =>
    obtain ⟨_, rfl⟩ := Prod.mk.inj (Except.ok.inj read)
    rw [escapes_cons plain]
    exact fun w member => member

theorem classMember_surveyed (survey : Survey) {u : UInt16} {rest : Text} {read : Member × Nat}
    (member : classMember .bare u rest = .ok read)
    (plain : ∀ w ∈ escapes (u :: rest), NoReference w) : classMember survey u rest = .ok read := by
  unfold classMember at member ⊢
  split at member
  next escaped =>
    rw [if_pos escaped]
    subst escaped
    cases rest with
    | nil => cases member
    | cons v more =>
      rw [escapes_backslash] at plain
      have other := (plain v List.mem_cons_self).1
      have unnamed : ∀ known : Survey, (decide (v = 0x6B) && known.named) = false := fun known => by
        simp [other]
      simp only [unnamed] at member ⊢
      exact member
  next solid =>
    rw [if_neg solid]
    exact member

/-- A class is read alike with any survey, and what it leaves begins after all that it has escaped. -/
theorem ClassReads.surveyed (survey : Survey) {t : Text} {set : UnitSet} {count : Nat}
    (read : ClassReads .bare t set count) (plain : ∀ w ∈ escapes t, NoReference w) :
    ClassReads survey t set count ∧ ∀ w ∈ escapes (t.drop count), w ∈ escapes t := by
  induction read with
  | closed rest =>
    refine ⟨.closed rest, fun w member => ?_⟩
    rwa [escapes_cons (by decide)]
  | @single u rest left extra count others inside member apart _ ih =>
    have left := classMember_left member
    obtain ⟨again, kept⟩ := ih fun w among => plain w (left w among)
    refine ⟨.single inside (classMember_surveyed survey member plain) apart again, fun w among => ?_⟩
    refine left w (kept w ?_)
    rwa [show extra + 1 + count = extra + count + 1 by omega, List.drop_succ_cons, ← List.drop_drop]
      at among
  | @last u rest more _ extra inside member mark =>
    have left := classMember_left member
    refine ⟨.last inside (classMember_surveyed survey member plain) mark, fun w among => left w ?_⟩
    rw [List.drop_succ_cons, ← List.drop_drop, mark, List.drop_succ_cons, List.drop_succ_cons,
      List.drop_zero] at among
    rwa [mark, escapes_cons (by decide), escapes_cons (by decide)]
  | @range u v rest more _ right extra extraRight count set others inside member mark inner second
      between _ ih =>
    have left := classMember_left member
    rw [mark, escapes_cons (by decide)] at left
    have right := classMember_left second
    obtain ⟨again, kept⟩ := ih fun w among => plain w (left w (right w among))
    refine ⟨.range inside (classMember_surveyed survey member plain) mark inner
      (classMember_surveyed survey second fun w among => plain w (left w among)) between again,
      fun w among => left w (right w (kept w ?_))⟩
    rwa [show extra + 3 + extraRight + count = (extra + (2 + (extraRight + count))) + 1 by omega,
      List.drop_succ_cons, ← List.drop_drop, mark, ← List.drop_drop, List.drop_succ_cons,
      List.drop_succ_cons, List.drop_zero, ← List.drop_drop] at among

theorem escapeLexeme_surveyed (survey : Survey) {v : UInt16} {rest : Text} {read : Lexeme × Nat}
    (plain : NoReference v) (escape : escapeLexeme .bare v rest = .ok read) :
    escapeLexeme survey v rest = .ok read := by
  have digit : ¬ (decide (0x31 ≤ v) && decide (v ≤ 0x39)) = true := by
    simpa using plain.2
  have letter (known : Survey) : (decide (v = 0x6B) && known.named) = false := by
    simp [plain.1]
  unfold escapeLexeme at escape ⊢
  simp only [if_neg digit, letter] at escape ⊢
  exact escape

theorem escapeLexeme_left {v : UInt16} {rest : Text} {first : Lexeme} {extra : Nat}
    (plain : NoReference v) (read : escapeLexeme .bare v rest = .ok (first, extra)) :
    ∀ w ∈ escapes ((v :: rest).drop extra), w ∈ escapes (backslash :: v :: rest) := by
  have digit : ¬ (decide (0x31 ≤ v) && decide (v ≤ 0x39)) = true := by
    simpa using plain.2
  have one (lexeme : Lexeme)
      (read : (.ok (lexeme, 1) : Except Defect (Lexeme × Nat)) = .ok (first, extra)) :
      ∀ w ∈ escapes ((v :: rest).drop extra), w ∈ escapes (backslash :: v :: rest) := by
    obtain ⟨_, rfl⟩ := Prod.mk.inj (Except.ok.inj read)
    rw [escapes_backslash]
    exact fun w member => List.mem_cons_of_mem _ member
  unfold escapeLexeme at read
  simp only [if_neg digit, show (decide (v = 0x6B) && Survey.bare.named) = false from Bool.and_false _,
    Bool.false_eq_true, if_false] at read
  split at read
  next => exact one _ read
  next =>
  split at read
  next => exact one _ read
  next =>
  split at read
  next => exact one _ read
  next =>
    obtain ⟨_, rfl⟩ := Prod.mk.inj (Except.ok.inj read)
    rw [escapes_backslash]
    exact fun w member => List.mem_cons_of_mem _ (unitEscape_left (by decide) v rest w member)

theorem openingLexeme_cases {rest : Text} {first : Lexeme} {extra : Nat}
    (read : openingLexeme rest = .ok (first, extra)) :
    (∀ u ∈ rest.take extra, u ∉ edgeUnits) ∨
      ∃ more name count, rest = question :: less :: more ∧ groupName? more = some (name, count) ∧
        first = .opening (.capture (some name)) ∧ extra = count + 2 := by
  have front {key : String} {kind : Opening} {count : Nat} (marked : (units key).isPrefixOf rest = true)
      (plain : ((units key).all fun u => !edgeUnits.contains u) = true) (size : count ≤ (units key).length)
      (read : (.ok (.opening kind, count) : Except Defect (Lexeme × Nat)) = .ok (first, extra)) :
      ∀ u ∈ rest.take extra, u ∉ edgeUnits := by
    obtain ⟨_, rfl⟩ := Prod.mk.inj (Except.ok.inj read)
    obtain ⟨left, rfl⟩ := List.isPrefixOf_iff_prefix.mp marked
    rw [List.take_append_of_le_length size]
    intro u member
    simpa using List.all_eq_true.mp plain u (List.mem_of_mem_take member)
  unfold openingLexeme at read
  split at read
  next =>
    obtain ⟨_, rfl⟩ := Prod.mk.inj (Except.ok.inj read)
    exact .inl fun u member => nomatch member
  next =>
  split at read
  next marked => exact .inl (front marked (by decide) (by decide) read)
  next =>
  split at read
  next marked => exact .inl (front marked (by decide) (by decide) read)
  next =>
  split at read
  next marked => exact .inl (front marked (by decide) (by decide) read)
  next =>
  split at read
  next marked => exact .inl (front marked (by decide) (by decide) read)
  next =>
  split at read
  next marked => exact .inl (front marked (by decide) (by decide) read)
  next =>
  split at read
  next marked =>
    obtain ⟨more, rfl⟩ := List.isPrefixOf_iff_prefix.mp marked
    split at read
    next name count found =>
      obtain ⟨rfl, rfl⟩ := Prod.mk.inj (Except.ok.inj read)
      exact .inr ⟨more, name, count, rfl, found, rfl, rfl⟩
    next => cases read
  next => cases read

theorem openingLexeme_plain {rest : Text} {first : Lexeme} {extra : Nat}
    (read : openingLexeme rest = .ok (first, extra))
    (unnamed : ∀ name, first ≠ .opening (.capture (some name))) :
    ∀ u ∈ rest.take extra, u ∉ edgeUnits := by
  rcases openingLexeme_cases read with plain | ⟨_, name, _, _, _, same, _⟩
  · exact plain
  · exact absurd same (unnamed name)

theorem quantifierLexeme_plain (least : Nat) (most : Option Nat) (rest : Text) (extra : Nat)
    (plain : ∀ u ∈ rest.take extra, u ∉ edgeUnits) :
    ∀ u ∈ rest.take (quantifierLexeme least most rest extra).2, u ∉ edgeUnits := by
  unfold quantifierLexeme
  split
  next more shape =>
    intro u member
    rw [List.take_add_one, List.mem_append] at member
    rcases member with before | last
    · exact plain u before
    · rw [← List.head?_drop, shape] at last
      obtain rfl := Option.some.inj (Option.mem_toList.mp last)
      decide
  next => exact plain

theorem upperBound?_plain {least count : Nat} {t : Text} {most : Option Nat}
    (read : upperBound? least t = some (most, count)) : ∀ u ∈ t.take count, u ∉ edgeUnits := by
  unfold upperBound? at read
  split at read
  next =>
    obtain ⟨_, rfl⟩ := Prod.mk.inj (Option.some.inj read)
    intro u member
    obtain rfl := List.mem_singleton.mp member
    decide
  next rest =>
    dsimp only at read
    split at read
    next closed =>
      obtain ⟨_, rfl⟩ := Prod.mk.inj (Option.some.inj read)
      intro u member
      rw [List.take_succ_cons, List.take_add_one, List.mem_cons, List.mem_append] at member
      rcases member with rfl | before | last
      · decide
      · exact digits_plain rest u before
      · rw [← List.head?_drop, closed] at last
        obtain rfl := Option.some.inj (Option.mem_toList.mp last)
        decide
    next => cases read
  next => cases read

theorem interval?_plain {rest : Text} {bounds : Nat × Option Nat} {extra : Nat}
    (read : interval? rest = some (bounds, extra)) : ∀ u ∈ rest.take extra, u ∉ edgeUnits := by
  simp only [interval?] at read
  split at read
  next => cases read
  next =>
    obtain ⟨⟨most, inner⟩, found, same⟩ := Option.map_eq_some_iff.mp read
    obtain ⟨_, rfl⟩ := Prod.mk.inj same
    intro u member
    rw [List.take_add, List.mem_append] at member
    exact member.elim (digits_plain rest u) (upperBound?_plain found u)

end Units

/-- A lexeme that is no reference is read alike with any survey. What it leaves begins after all that
it has escaped, unless it is the name of a group. -/
theorem LexemeReads.surveyed (survey : Survey) {u : UInt16} {rest : Text} {first : Lexeme} {extra : Nat}
    (read : LexemeReads .bare u rest first extra)
    (unnamed : ∀ name, first ≠ .opening (.capture (some name)))
    (plain : ∀ w ∈ escapes (u :: rest), NoReference w) :
    LexemeReads survey u rest first extra ∧
      ∀ w ∈ escapes (rest.drop extra), w ∈ escapes (u :: rest) := by
  cases read with
  | opening read =>
    refine ⟨.opening read, fun w member => ?_⟩
    rwa [escapes_cons (by decide), ← escapes_drop (openingLexeme_plain read unnamed)]
  | closing | bar | start | stop | dot =>
    refine ⟨by constructor, fun w member => ?_⟩
    rwa [escapes_cons (by decide)]
  | @repetition _ least most _ bounds =>
    have apart : u ≠ backslash := by
      rintro rfl
      cases bounds
    have passed := quantifierLexeme_plain least most rest 0 fun u member => nomatch member
    refine ⟨.repetition rest bounds, fun w member => ?_⟩
    rwa [escapes_cons apart, ← escapes_drop passed]
  | @interval _ least count most bounds ordered =>
    have passed := quantifierLexeme_plain least most rest count (interval?_plain bounds)
    refine ⟨.interval bounds ordered, fun w member => ?_⟩
    rwa [escapes_cons (by decide), ← escapes_drop passed]
  | brace bounds =>
    refine ⟨.brace bounds, fun w member => ?_⟩
    rwa [escapes_cons (by decide)]
  | «class» apart members =>
    rw [escapes_cons (by decide)] at plain ⊢
    obtain ⟨again, kept⟩ := members.surveyed survey plain
    exact ⟨.class apart again, kept⟩
  | otherClass members =>
    rw [escapes_cons (by decide), escapes_cons (by decide)] at plain ⊢
    obtain ⟨again, kept⟩ := members.surveyed survey plain
    exact ⟨.otherClass again, kept⟩
  | @escape v more _ _ read =>
    have quiet := plain v (escapes_backslash v more ▸ List.mem_cons_self)
    exact ⟨.escape (escapeLexeme_surveyed survey quiet read), escapeLexeme_left quiet read⟩
  | plain _ outside =>
    have apart : u ≠ backslash := fun same => outside (same ▸ by decide)
    refine ⟨.plain rest outside, fun w member => ?_⟩
    rwa [escapes_cons apart]

/-- Without numeric escapes, `\k` and names, an expression is read alike with any survey. -/
theorem Reads.surveyed (survey : Survey) {t left : Text} {pieces : List Lexeme}
    (read : Reads .bare t pieces left)
    (unnamed : ∀ name, Lexeme.opening (.capture (some name)) ∉ pieces)
    (plain : ∀ w ∈ escapes t, NoReference w) : Reads survey t pieces left := by
  induction read with
  | done => exact .done _
  | @next u rest _ first _ extra front _ ih =>
    obtain ⟨again, kept⟩ := (lexeme_eq_ok_iff.mp front).surveyed survey
      (fun name same => unnamed name (same ▸ List.mem_cons_self)) plain
    exact .next again.result (ih (fun name member => unnamed name (List.mem_cons_of_mem _ member))
      fun w member => plain w (kept w member))

end Emend.Expression
