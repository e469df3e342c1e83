import Emend.Proofs.ConstraintBrackets
import Emend.Proofs.PairedHalves
import Emend.Proofs.TemplateTokens

/-! Templates and surrogate pairs. What a template is cut at, backslashes, colons, brackets and blanks, are no halves of
pairs, so all literal text of a well-formed template is well formed, and stays so when its blanks are trimmed. -/

namespace Emend.Template

open Text

theorem bracket_of_closing? {inClass : Bool} {t : Text} {place : Nat} (found : closing? inClass t = some place) :
    t[place]? = some closeBracket := by
  induction measure : t.length using Nat.strongRecOn generalizing inClass t place with
  | ind size ih =>
    have passed {u : UInt16} {rest : Text} {within : Bool} (same : t = u :: rest)
        (after : (closing? within rest).map (· + 1) = some place) : t[place]? = some closeBracket := by
      subst same
      obtain ⟨left, later, rfl⟩ := Option.map_eq_some_iff.mp after
      rw [List.getElem?_cons_succ]
      exact ih rest.length (measure ▸ Nat.lt_succ_self _) later rfl
    cases t with
    | nil => cases inClass <;> simp [closing?, classLength?, constraintLength?] at found
    | cons u rest =>
      by_cases close : u = closeBracket
      · subst close
        cases inClass with
        | true => exact passed rfl (closing?_close rest ▸ found)
        | false =>
          rw [closing?_bracket] at found
          exact Option.some.inj found ▸ rfl
      by_cases escapes : u = backslash
      · subst escapes
        cases rest with
        | nil => cases inClass <;> simp [closing?, classLength?, constraintLength?, close] at found
        | cons v more =>
          rw [closing?_escape] at found
          obtain ⟨left, later, rfl⟩ := Option.map_eq_some_iff.mp found
          rw [List.getElem?_cons_succ, List.getElem?_cons_succ]
          exact ih more.length (by rw [← measure, List.length_cons, List.length_cons]; omega) later rfl
      by_cases opens : inClass = false ∧ u = openBracket
      · obtain ⟨rfl, rfl⟩ := opens
        exact passed rfl (closing?_open rest ▸ found)
      · exact passed rfl (closing?_unit close escapes (not_and.mp opens) rest ▸ found)

theorem bracket_of_hole? {t : Text} {hole : Hole} {count : Nat} (read : hole? t = some (hole, count)) :
    ∃ inner, t = inner ++ closeBracket :: t.drop count := by
  suffices ended : ∃ place, count = place + 1 ∧ t[place]? = some closeBracket by
    obtain ⟨place, rfl, bracket⟩ := ended
    obtain ⟨inside, unit⟩ := List.getElem?_eq_some_iff.mp bracket
    exact ⟨t.take place, by rw [← unit, List.getElem_cons_drop, List.take_append_drop]⟩
  simp only [hole?] at read
  split at read
  next =>
    split at read
    next => cases read
    next u rest left =>
      have at_ (place : Nat) : t[(t.takeWhile isWord).length + place]? = (u :: rest)[place]? := by
        rw [← left, List.getElem?_drop]
      split at read
      next close =>
        cases read
        exact ⟨_, rfl, close ▸ at_ 0⟩
      next =>
        split at read
        next =>
          split at read
          next => cases read
          next => cases read
          next length found =>
            cases read
            exact ⟨_, rfl, (at_ (length + 2)).trans (@bracket_of_closing? false rest _ found)⟩
        next => cases read
  next => cases read

def lead : List Token → Text × List Token
  | .literal value :: rest => (value, rest)
  | tokens => ([], tokens)

theorem lead_prepend (u : UInt16) (tokens : List Token) :
    lead (prepend u tokens) = (u :: (lead tokens).1, (lead tokens).2) := by
  unfold prepend
  split
  · rfl
  · next other =>
    have none : lead tokens = ([], tokens) := by
      unfold lead
      split
      · next value rest => exact absurd rfl (other value rest)
      · rfl
    rw [none, lead]

theorem mem_lead {tokens : List Token} {value : Text} (member : .literal value ∈ tokens) :
    value = (lead tokens).1 ∨ .literal value ∈ (lead tokens).2 := by
  unfold lead
  split
  · rcases List.mem_cons.mp member with same | later
    · exact .inl (Token.literal.inj same)
    · exact .inr later
  · exact .inr member

theorem wellFormed_of_tokens {source : Text} {tokens : List Token} (read : Template.tokens source = .ok tokens)
    (proper : wellFormed source = true) : ∀ value, .literal value ∈ tokens → wellFormed value = true := by
  let Begun (half : Bool) (tokens : List Token) : Prop := pairing half (lead tokens).1 = some false ∧
    ∀ value, .literal value ∈ (lead tokens).2 → wellFormed value = true
  have whole {tokens : List Token} (begun : Begun false tokens) :
      ∀ value, .literal value ∈ tokens → wellFormed value = true := by
    intro value member
    rcases mem_lead member with rfl | later
    · exact wellFormed_iff.mpr begun.1
    · exact begun.2 value later
  have prepended {u : UInt16} {t : Text} {tokens : List Token}
      (ih : ∀ half, pairing half t = some false → Begun half tokens) {half : Bool}
      (properly : pairing half (u :: t) = some false) : Begun half (prepend u tokens) := by
    obtain ⟨low, after⟩ := pairing_cons.mp properly
    obtain ⟨front, others⟩ := ih _ after
    simp only [Begun, lead_prepend]
    exact ⟨pairing_cons.mpr ⟨low, front⟩, others⟩
  refine whole (tokens_read_induction (motive := fun t tokens => ∀ half, pairing half t = some false → Begun half tokens)
    ?nil ?unit ?escaped ?hole read false (wellFormed_iff.mp proper))
  case nil => exact fun half properly => ⟨properly, fun value member => nomatch member⟩
  case unit => exact fun u t tokens ih half properly => prepended ih properly
  case escaped =>
    intro u t tokens ih half properly
    obtain ⟨plain, after⟩ := pairing_cons.mp properly
    exact prepended ih (plain ▸ after)
  case hole =>
    intro t hole count tokens found checked ih half properly
    obtain ⟨inner, ends⟩ := bracket_of_hole? found
    obtain ⟨plain, after⟩ := pairing_cons.mp properly
    rw [ends, ← List.cons_append, pairing_between (by decide)] at after
    have literals := whole (ih false after.2)
    refine ⟨plain ▸ rfl, fun value member => literals value ?_⟩
    exact (List.mem_cons.mp member).resolve_left fun same => nomatch same

end Emend.Template

namespace Emend.Pattern

open Text Template

theorem wellFormed_trimStart {t : Text} (proper : wellFormed t = true) : wellFormed (trimStart t) = true := by
  have parts : t.takeWhile isBlank ++ trimStart t = t := List.takeWhile_append_dropWhile
  rw [← parts] at proper
  exact (wellFormed_plain_append fun u member =>
    isHalf_of_isBlank (List.all_eq_true.mp List.all_takeWhile u member)).mp proper

theorem wellFormed_trimEnd {t : Text} (proper : wellFormed t = true) : wellFormed (trimEnd t) = true := by
  have parts : trimEnd t ++ (t.reverse.takeWhile isBlank).reverse = t := by
    rw [trimEnd, ← List.reverse_append, List.takeWhile_append_dropWhile, List.reverse_reverse]
  rw [← parts] at proper
  exact (wellFormed_append_plain fun u member =>
    isHalf_of_isBlank (List.all_eq_true.mp List.all_takeWhile u (List.mem_reverse.mp member))).mp proper

theorem wellFormed_trimFirst {trim : Text → Text}
    (kept : ∀ {t : Text}, wellFormed t = true → wellFormed (trim t) = true) {tokens : List Token}
    (proper : ∀ value, .literal value ∈ tokens → wellFormed value = true) :
    ∀ value, .literal value ∈ trimFirst trim tokens → wellFormed value = true := by
  intro value member
  unfold trimFirst at member
  split at member
  · rcases List.mem_cons.mp member with same | later
    · obtain rfl := Token.literal.inj same
      exact kept (proper _ List.mem_cons_self)
    · exact proper value (List.mem_cons_of_mem _ later)
  · exact proper value member

theorem wellFormed_trimOuter {tokens : List Token}
    (proper : ∀ value, .literal value ∈ tokens → wellFormed value = true) :
    ∀ value, .literal value ∈ trimOuter tokens → wellFormed value = true := by
  have front := wellFormed_trimFirst wellFormed_trimStart proper
  have back := wellFormed_trimFirst wellFormed_trimEnd fun value member => front value (List.mem_reverse.mp member)
  exact fun value member => back value (List.mem_reverse.mp (List.mem_filter.mp member).1)

end Emend.Pattern
