import Emend.Proofs.AssemblyNodes

/-! What it takes to read a regular expression. The first reading, which knows nothing, and the second
one, which knows all groups and names, meet the same parentheses. -/

namespace Emend.Expression

/-- A regular expression is read: the lexemes of its second reading make its node, and the first
reading has surveyed them. -/
structure Parsed (source : Text) (expression : Expression) (survey : Survey)
    (alone pieces : List Lexeme) : Prop where
  text : expression.text = source
  names : expression.names = survey.names
  first : Reads .bare source alone []
  same : parens pieces = parens alone
  surveyed : Expression.survey pieces = .ok survey
  second : Reads survey source pieces []
  made : assemble pieces = .ok expression.node

theorem Parsed.surveyed_alone {source : Text} {expression : Expression} {survey : Survey}
    {alone pieces : List Lexeme} (parsed : Parsed source expression survey alone pieces) :
    Expression.survey alone = .ok survey := by
  rw [← survey_parens, ← parsed.same, survey_parens, parsed.surveyed]

theorem parse_eq_ok_iff {text : Text} {expression : Expression} :
    parse text = .ok expression ↔ ∃ survey alone pieces, Parsed text expression survey alone pieces := by
  constructor
  · intro parsed
    obtain ⟨alone, first, parsed⟩ := bind_eq_ok.mp parsed
    obtain ⟨found, surveyed, parsed⟩ := bind_eq_ok.mp parsed
    obtain ⟨pieces, second, parsed⟩ := bind_eq_ok.mp parsed
    obtain ⟨node, made, parsed⟩ := bind_eq_ok.mp parsed
    obtain rfl := Except.ok.inj parsed
    rw [lexemes_eq_ok_iff] at first second
    obtain ⟨front, back, rfl, _, rest, same⟩ := first.sync _ (Nat.le_refl _) (.inl rfl) second
    obtain rfl : back = [] := by
      cases rest
      rfl
    rw [List.append_nil] at second made
    refine ⟨found, alone, front, rfl, rfl, first, same, ?_, second, made⟩
    rw [← survey_parens, same, survey_parens, surveyed]
  · rintro ⟨survey, alone, pieces, parsed⟩
    unfold parse
    rw [lexemes_eq_ok_iff.mpr parsed.first]
    simp only [bind, Except.bind, parsed.surveyed_alone, lexemes_eq_ok_iff.mpr parsed.second, parsed.made]
    rw [← parsed.text, ← parsed.names]

theorem Parsed.balanced {text : Text} {expression : Expression} {survey : Survey}
    {alone pieces : List Lexeme} (parsed : Parsed text expression survey alone pieces) :
    nesting 0 alone = some 0 := by
  rw [← nesting_parens, ← parsed.same, nesting_parens, nesting_of_assemble parsed.made]

end Emend.Expression
