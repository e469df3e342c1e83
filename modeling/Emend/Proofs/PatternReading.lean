import Emend.Proofs.LexemeSeam
import Emend.Proofs.ExpressionParse
import Emend.Proofs.TemplateTokens

/-! The lexemes of a compiled pattern, token by token. Literal text is read as itself, a hole as a
group around the lexemes of its body, and a repeated hole as one reference: nothing that a literal or
a constraint holds is read together with what stands next to it. -/

namespace Emend.Pattern

open Text Template Expression

def literalPieces : (inBlanks : Bool) → Text → List Lexeme
  | _, [] => []
  | inBlanks, u :: rest =>
    if isBlank u then
      if inBlanks then literalPieces true rest
      else .atom (.unit .blank) :: .quantifier 0 none true :: literalPieces true rest
    else .atom (.unit (.single u)) :: literalPieces false rest

def bodySource (hole : Hole) : Text := hole.constraint.getD unconstrained

section

variable (survey : Survey)

theorem reads_escaped {u : UInt16} (special : isSpecial u = true) (left : Text) :
    Reads survey (backslash :: u :: left) [.atom (.unit (.single u))] left := by
  have read : escapeLexeme survey u left = .ok (.atom (.unit (.single u)), 1) := by
    rw [isSpecial, List.contains_iff_mem] at special
    have listed : units ".*+?^$\x7b\x7d()|[]\\" = [0x2E, 0x2A, 0x2B, 0x3F, 0x5E, 0x24, 0x7B, 0x7D, 0x28,
      0x29, 0x7C, 0x5B, 0x5D, 0x5C] := rfl
    rw [listed] at special
    simp only [List.mem_cons, List.not_mem_nil, or_false] at special
    rcases special with rfl | rfl | rfl | rfl | rfl | rfl | rfl | rfl | rfl | rfl | rfl | rfl | rfl | rfl <;>
      rfl
  exact .next (LexemeReads.escape read).result (.done left)

theorem not_leading_of_not_special {u : UInt16} (plain : isSpecial u = false) : u ∉ leadingUnits := by
  intro leading
  have special : leadingUnits.all isSpecial = true := by decide
  rw [List.all_eq_true.mp special u leading] at plain
  cases plain

theorem reads_escapeUnit (u : UInt16) (left : Text) :
    Reads survey (escapeUnit u ++ left) [.atom (.unit (.single u))] left := by
  unfold escapeUnit
  split
  next special => exact reads_escaped survey special left
  next plain =>
    have outside := not_leading_of_not_special (Bool.eq_false_iff.mpr plain)
    exact .next (lexeme_plain survey left outside) (.done left)

theorem reads_blanks {left : Text} (next : left.head? ≠ some question) :
    Reads survey (units "\\s*" ++ left) [.atom (.unit .blank), .quantifier 0 none true] left := by
  have blank : escapeLexeme survey 0x73 (star :: left) = .ok (.atom (.unit .blank), 1) := rfl
  have greedy := quantifierLexeme_greedy 0 none left 0 next
  have repeated : LexemeReads survey star left _ _ := .repetition left rfl
  rw [greedy] at repeated
  exact .next (LexemeReads.escape blank).result (.next repeated.result (.done left))

/-- Literal text never makes what stands before it reluctant. -/
theorem head_literalSource (inBlanks : Bool) (value : Text) {left : Text}
    (next : left.head? ≠ some question) : (literalSource inBlanks value ++ left).head? ≠ some question := by
  induction value generalizing inBlanks with
  | nil => exact next
  | cons u value ih =>
    unfold literalSource
    split
    next =>
      cases inBlanks with
      | true => exact ih true
      | false => exact fun same => absurd (Option.some.inj same) (by decide)
    next =>
      unfold escapeUnit
      split
      next => exact fun same => absurd (Option.some.inj same) (by decide)
      next plain =>
        intro same
        obtain rfl := Option.some.inj same
        exact plain (by decide)

theorem reads_literal (inBlanks : Bool) (value : Text) {left : Text}
    (next : left.head? ≠ some question) :
    Reads survey (literalSource inBlanks value ++ left) (literalPieces inBlanks value) left := by
  induction value generalizing inBlanks with
  | nil => exact .done left
  | cons u value ih =>
    unfold literalSource literalPieces
    split
    next =>
      cases inBlanks with
      | true => exact ih true
      | false =>
        simp only [Bool.false_eq_true, if_false, List.append_assoc]
        exact (reads_blanks survey (head_literalSource true value next)).append (ih true)
    next =>
      rw [List.append_assoc]
      exact (reads_escapeUnit survey u _).append (ih false)

end

private theorem word_bounds {u : UInt16} (word : isWord u = true) :
    u ≠ backslash ∧ u ≠ greater ∧ u.toNat < 0x80 := by
  simp only [isWord, isLetter, isLower, isUpper, isDigit, Bool.or_eq_true, Bool.and_eq_true,
    decide_eq_true_eq, beq_iff_eq] at word
  have below : u.toNat < 0x80 := by
    rcases word with ((⟨_, top⟩ | ⟨_, top⟩) | ⟨_, top⟩) | rfl
    · exact Nat.lt_of_le_of_lt top (by decide)
    · exact Nat.lt_of_le_of_lt top (by decide)
    · exact Nat.lt_of_le_of_lt top (by decide)
    · decide
  refine ⟨?_, ?_, below⟩
  · rintro rfl
    exact absurd word (by decide)
  · rintro rfl
    exact absurd word (by decide)

private theorem codePoint?_ascii {u : UInt16} (other : u ≠ backslash) (ascii : u.toNat < 0x80)
    (rest : Text) : codePoint? u rest = some (u.toNat, 0) := by
  have low : isHighSurrogate u = false := by
    have : ¬ (0xD800 : UInt16) ≤ u := fun high => by
      have : (0xD800 : Nat) ≤ u.toNat := high
      omega
    simp [isHighSurrogate, this]
  unfold codePoint?
  split
  next => exact absurd rfl other
  next => exact absurd rfl other
  next => rw [low, Bool.false_and, if_neg Bool.false_ne_true]
  next => rfl

private theorem ofCode_ascii {u : UInt16} (ascii : u.toNat < 0x80) : ofCode u.toNat = [u] := by
  rw [ofCode, if_pos (by omega), UInt16.ofNat_toNat]

private theorem continuesName_word {u : UInt16} (word : isWord u = true) :
    continuesName u.toNat = true := by
  rw [continuesName, if_pos (word_bounds word).2.2, UInt16.ofNat_toNat, word, Bool.true_or]

theorem nameTail?_word (name : Text) (word : ∀ u ∈ name, isWord u = true) (rest : Text) :
    nameTail? (name ++ greater :: rest) = some (name, name.length + 1) := by
  induction name with
  | nil =>
    rw [List.nil_append, nameTail?, codePoint?_ascii (by decide) (by decide)]
    rfl
  | cons u name ih =>
    obtain ⟨other, angle, ascii⟩ := word_bounds (word u List.mem_cons_self)
    have apart : ¬ u.toNat = 0x3E := fun same => angle (UInt16.toNat_inj.mp same)
    rw [List.cons_append, nameTail?, codePoint?_ascii other ascii]
    simp only [Option.bind_eq_bind, Option.bind_some, if_neg apart,
      continuesName_word (word u List.mem_cons_self), if_true, List.drop_zero,
      ih fun v member => word v (List.mem_cons_of_mem _ member), ofCode_ascii ascii,
      List.singleton_append, List.length_cons]
    rw [Nat.zero_add, Nat.add_comm 1]

theorem groupName?_hole {hole : Hole} (sound : hole.Sound) (rest : Text) :
    groupName? (hole.name ++ greater :: rest) = some (hole.name, hole.name.length + 1) := by
  obtain ⟨starts, word, _⟩ := sound
  cases shape : hole.name with
  | nil =>
    rw [shape] at starts
    cases starts
  | cons u name =>
    rw [shape] at starts word
    obtain ⟨other, angle, ascii⟩ := word_bounds (word u List.mem_cons_self)
    have begins : beginsName u.toNat = true := by
      simp only [List.head?_cons, Option.any_some, startsName, Bool.or_eq_true, beq_iff_eq] at starts
      rw [beginsName, if_pos ascii, UInt16.ofNat_toNat]
      rcases starts with letter | rfl
      · rw [letter, Bool.true_or, Bool.true_or]
      · rfl
    rw [List.cons_append, groupName?, codePoint?_ascii other ascii]
    simp only [Option.bind_eq_bind, Option.bind_some, begins, if_true, List.drop_zero,
      nameTail?_word name (fun v member => word v (List.mem_cons_of_mem _ member)), ofCode_ascii ascii,
      List.singleton_append, List.length_cons]
    rw [Nat.zero_add, Nat.add_comm 1]

section

variable (survey : Survey)

theorem reads_plainGroup (left : Text) :
    Reads survey (units "(?:" ++ left) [.opening .plain] left := by
  have read : openingLexeme (question :: colon :: left) = .ok (.opening .plain, 2) := rfl
  exact .next (LexemeReads.opening read).result (.done left)

theorem reads_namedGroup {hole : Hole} (sound : hole.Sound) (left : Text) :
    Reads survey (units "(?<" ++ hole.name ++ units ">" ++ left)
      [.opening (.capture (some hole.name))] left := by
  have whole : units "(?<" ++ hole.name ++ units ">" ++ left =
      openParen :: question :: less :: (hole.name ++ greater :: left) := by
    simp [show units "(?<" = [openParen, question, less] by decide, show units ">" = [greater] by decide]
  have read : openingLexeme (question :: less :: (hole.name ++ greater :: left)) =
      .ok (.opening (.capture (some hole.name)), hole.name.length + 1 + 2) := by
    have name := groupName?_hole sound left
    obtain ⟨starts, _, _⟩ := sound
    cases shape : hole.name with
    | nil =>
      rw [shape] at starts
      cases starts
    | cons u rest =>
      rw [shape] at starts name
      have first {v : UInt16} (outside : startsName v = false) : (v == u) = false := by
        rw [beq_eq_false_iff_ne]
        rintro rfl
        simp [outside] at starts
      have behind : (units "?<=").isPrefixOf (question :: less :: u :: (rest ++ greater :: left)) =
          (equal == u && true) := rfl
      have notBehind : (units "?<!").isPrefixOf (question :: less :: u :: (rest ++ greater :: left)) =
          ((0x21 : UInt16) == u && true) := rfl
      have marked : (units "?<").isPrefixOf (question :: less :: u :: (rest ++ greater :: left)) = true := rfl
      rw [List.cons_append] at name ⊢
      unfold openingLexeme
      rw [if_neg (by simp), if_neg (fun same => nomatch same), if_neg (fun same => nomatch same),
        if_neg (fun same => nomatch same), behind, notBehind, first (by decide), first (by decide),
        if_neg (by simp), if_neg (by simp), if_pos marked]
      simp only [List.drop_succ_cons, List.drop_zero, name]
  rw [whole]
  apply Reads.next (LexemeReads.opening read).result
  have count : (question :: less :: (hole.name ++ greater :: left)).drop (hole.name.length + 1 + 2) = left := by
    simp
  rw [count]
  exact .done left

theorem reads_reference {hole : Hole} (sound : hole.Sound) {index : Nat}
    (known : survey.names.lookup hole.name = some index) (left : Text) :
    Reads survey (units "\\k<" ++ hole.name ++ units ">" ++ left) [.atom (.reference index)] left := by
  have whole : units "\\k<" ++ hole.name ++ units ">" ++ left =
      backslash :: 0x6B :: less :: (hole.name ++ greater :: left) := by
    simp [show units "\\k<" = [backslash, 0x6B, less] by decide, show units ">" = [greater] by decide]
  have named : survey.named = true := by
    cases names : survey.names with
    | nil =>
      rw [names] at known
      cases known
    | cons first others => rw [Survey.named, names]; rfl
  have read : escapeLexeme survey 0x6B (less :: (hole.name ++ greater :: left)) =
      .ok (.atom (.reference index), hole.name.length + 1 + 2) := by
    have letter : escapeLexeme survey 0x6B (less :: (hole.name ++ greater :: left)) =
        if (decide ((0x6B : UInt16) = 0x6B) && survey.named) = true then
          namedReference survey (less :: (hole.name ++ greater :: left))
        else _ := rfl
    rw [letter, named, if_pos (by decide), namedReference_less, groupName?_hole sound]
    simp only [known]
  rw [whole]
  apply Reads.next (LexemeReads.escape read).result
  have count : (0x6B :: less :: (hole.name ++ greater :: left)).drop (hole.name.length + 1 + 2) = left := by
    simp
  rw [count]
  exact .done left

end

theorem reads_unconstrained (survey : Survey) :
    Reads survey unconstrained [.atom (.unit (.complement .empty)), .quantifier 1 none false] [] := by
  have other : classMember survey backslash [0x53, closeBracket, plus, question] =
      .ok (.units (.complement .blank), 1) := rfl
  have blank : classMember survey backslash [0x73, backslash, 0x53, closeBracket, plus, question] =
      .ok (.units .blank, 1) := rfl
  have last := ClassReads.single (by decide) other (by decide) (.closed [plus, question])
  have set : ClassReads survey [backslash, 0x73, backslash, 0x53, closeBracket, plus, question]
      (UnitSet.merge .blank (UnitSet.merge (.complement .blank) .empty)) 5 :=
    .single (by decide) blank (by decide) last
  rw [show UnitSet.merge .blank (UnitSet.merge (.complement .blank) .empty) = .complement .empty by
    decide] at set
  have front : LexemeReads survey openBracket [backslash, 0x73, backslash, 0x53, closeBracket, plus, question]
      (.atom (.unit (.complement .empty))) 5 := .class (by decide) set
  have back : LexemeReads survey plus [question] (.quantifier 1 none false) 1 := .repetition [question] rfl
  exact .next front.result (.next back.result (.done []))

section

variable {seen : List Text} {hole : Hole} (tokens : List Token)

theorem tokensSource_anonymous (unnamed : hole.anonymous = true) :
    tokensSource seen (.hole hole :: tokens) =
      units "(?:" ++ (bodySource hole ++ closeParen :: tokensSource seen tokens) := by
  simp [tokensSource, holeSource, seenAfter, Token.captureName?, unnamed, bodySource,
    show units ")" = [closeParen] by decide]

theorem tokensSource_first (named : hole.anonymous = false) (fresh : hole.name ∉ seen) :
    tokensSource seen (.hole hole :: tokens) =
      units "(?<" ++ hole.name ++ units ">" ++
        (bodySource hole ++ closeParen :: tokensSource (seen ++ [hole.name]) tokens) := by
  simp [tokensSource, holeSource, seenAfter, Token.captureName?, named, fresh, bodySource,
    show units ")" = [closeParen] by decide]

theorem tokensSource_again (named : hole.anonymous = false) (old : hole.name ∈ seen) :
    tokensSource seen (.hole hole :: tokens) =
      units "\\k<" ++ hole.name ++ units ">" ++ tokensSource seen tokens := by
  simp [tokensSource, holeSource, seenAfter, Token.captureName?, named, old]

theorem head_tokensSource (seen : List Text) : (tokensSource seen tokens).head? ≠ some question := by
  induction tokens generalizing seen with
  | nil => exact fun same => nomatch same
  | cons token tokens ih =>
    cases token with
    | literal value => exact head_literalSource false value (ih seen)
    | hole hole =>
      by_cases unnamed : hole.anonymous = true
      · rw [tokensSource_anonymous tokens unnamed]
        exact fun same => absurd (Option.some.inj same) (by decide)
      · have named := Bool.eq_false_iff.mpr unnamed
        by_cases old : hole.name ∈ seen
        · rw [tokensSource_again tokens named old]
          exact fun same => absurd (Option.some.inj same) (by decide)
        · rw [tokensSource_first tokens named old]
          exact fun same => absurd (Option.some.inj same) (by decide)

end

end Emend.Pattern
