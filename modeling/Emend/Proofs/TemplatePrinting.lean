import Emend.Proofs.ConstraintBrackets
import Emend.Proofs.TemplateReading
import Mathlib.Data.List.Chain

/-! Templates as they are written. Literal text is written with a backslash before each unit that could begin an escape
or a hole, and a hole in the one form that it has. What is written is read as the same tokens, and the tokens of
every template can be written. -/

namespace Emend.Template

open Text Expression

/-- A text as a template of nothing but itself: a backslash stands before each backslash and each colon. -/
def escaped (t : Text) : Text := t.flatMap fun u => if u = backslash ∨ u = colon then [backslash, u] else [u]

def Token.source : Token → Text
  | .literal value => escaped value
  | .hole ⟨name, none⟩ => freeText name []
  | .hole ⟨name, some constraint⟩ => holeText name constraint []

def sourceOf (tokens : List Token) : Text := tokens.flatMap Token.source

/-- A text is a regular expression with no closing bracket of its own: none of its lexemes begins with one, so each is
escaped or belongs to a class. -/
def Encloses (constraint : Text) : Prop :=
  ∃ expression survey alone pieces, Parsed constraint expression survey alone pieces ∧
    ∀ front left, ¬ Reads survey constraint front (closeBracket :: left)

structure Hole.Writable (hole : Hole) : Prop where
  starts : hole.name.head?.any startsName = true
  word : ∀ u ∈ hole.name, isWord u = true
  occupied : ∀ constraint, hole.constraint = some constraint → 1 ≤ constraint.length
  short : ∀ constraint, hole.constraint = some constraint → constraint.length ≤ constraintLimit
  encloses : ∀ constraint, hole.constraint = some constraint → Encloses constraint

/-- Tokens that a template can have: no literal text is empty, or has another one beside it. -/
structure Canonical (tokens : List Token) : Prop where
  occupied : .literal [] ∉ tokens
  apart : tokens.IsChain fun one two => ¬ (one.isLiteral = true ∧ two.isLiteral = true)
  holes : ∀ hole, .hole hole ∈ tokens → hole.Writable

theorem constraintLength?_of_encloses {constraint : Text} (encloses : Encloses constraint) (rest : Text) :
    constraintLength? (constraint ++ closeBracket :: rest) = some constraint.length := by
  obtain ⟨expression, survey, alone, pieces, parsed, enclosed⟩ := encloses
  obtain ⟨front, same, skips⟩ := skips_of_reads parsed.second enclosed
  rw [List.append_nil] at same
  have found := skips (closeBracket :: rest)
  rw [List.nil_append, closing?_bracket, Option.map_some, Nat.zero_add, ← same] at found
  exact found

theorem encloses_of_constraintLength? {t : Text} {length : Nat} (found : constraintLength? t = some length)
    {expression : Expression} (parse : Expression.parse (t.take length) = .ok expression) :
    Encloses (t.take length) := by
  obtain ⟨survey, alone, pieces, parsed⟩ := parse_eq_ok_iff.mp parse
  refine ⟨expression, survey, alone, pieces, parsed, fun front left read => ?_⟩
  obtain ⟨place, inside, ends⟩ := closing?_of_reads read
  have same : constraintLength? t = some place := by
    have whole := ends (t.drop length)
    rwa [List.take_append_drop] at whole
  have short := List.length_take_le length t
  obtain rfl := Option.some.inj (found.symm.trans same)
  omega

section Printed

variable {rest : Text} {tokens : List Token} (read : ∀ offset, tokensFrom offset rest = .ok tokens)
include read

theorem tokensFrom_escaped (t : Text) (offset : Nat) :
    tokensFrom offset (escaped t ++ rest) = .ok (t.foldr prepend tokens) := by
  induction t generalizing offset with
  | nil => exact read offset
  | cons u t ih =>
    rw [escaped, List.flatMap_cons, ← escaped, List.append_assoc]
    by_cases marked : u = backslash ∨ u = colon
    · rw [if_pos marked, List.cons_append, List.singleton_append, tokensFrom.eq_def]
      simp only [if_true, ih]
      rfl
    · obtain ⟨plain, other⟩ := not_or.mp marked
      rw [if_neg marked, List.singleton_append, tokensFrom.eq_def]
      simp only [if_neg plain, decide_eq_false other, Bool.false_and, Bool.false_eq_true, if_false, ih]
      rfl

theorem tokensFrom_source {hole : Hole} (writable : hole.Writable) (offset : Nat) :
    tokensFrom offset ((Token.hole hole).source ++ rest) = .ok (.hole hole :: tokens) := by
  obtain ⟨name, _ | constraint⟩ := hole
  · have whole : (Token.hole ⟨name, none⟩).source ++ rest = freeText name rest := by simp [Token.source, freeText]
    rw [whole]
    exact tokensFrom_freeText writable.word writable.starts read offset
  · have occupied := List.length_pos_iff.mp (writable.occupied constraint rfl)
    have length := constraintLength?_of_encloses (writable.encloses constraint rfl) rest
    obtain ⟨expression, survey, alone, pieces, parsed, _⟩ := writable.encloses constraint rfl
    have checked : Hole.check ⟨name, some constraint⟩ = .ok () := by
      simp only [Hole.check, if_neg (Nat.not_lt.mpr (writable.short constraint rfl)),
        parse_eq_ok_iff.mpr ⟨survey, alone, pieces, parsed⟩]
    rw [Token.source, holeText_append]
    exact tokensFrom_holeText writable.word writable.starts read occupied length checked offset

end Printed

theorem tokens_escaped {t : Text} (occupied : t ≠ []) : Template.tokens (escaped t) = .ok [.literal t] := by
  have read := @tokensFrom_escaped [] [] (fun offset => by rw [tokensFrom]) t 0
  rwa [List.append_nil, foldr_prepend occupied rfl] at read

theorem Canonical.startsWithHole {value : Text} {tokens : List Token}
    (canonical : Canonical (.literal value :: tokens)) : startsWithHole tokens = true := by
  have next := (List.isChain_cons.mp canonical.apart).1
  cases tokens with
  | nil => rfl
  | cons token tokens =>
    cases token with
    | literal other => exact absurd ⟨rfl, rfl⟩ (next _ rfl)
    | hole hole => rfl

theorem Canonical.tail {token : Token} {tokens : List Token} (canonical : Canonical (token :: tokens)) :
    Canonical tokens where
  occupied member := canonical.occupied (List.mem_cons_of_mem _ member)
  apart := (List.isChain_cons.mp canonical.apart).2
  holes hole member := canonical.holes hole (List.mem_cons_of_mem _ member)

theorem tokensFrom_sourceOf {tokens : List Token} (canonical : Canonical tokens) (offset : Nat) :
    tokensFrom offset (sourceOf tokens) = .ok tokens := by
  induction tokens generalizing offset with
  | nil =>
    rw [sourceOf, List.flatMap_nil, tokensFrom]
  | cons token tokens ih =>
    have read := ih canonical.tail
    rw [sourceOf, List.flatMap_cons, ← sourceOf]
    cases token with
    | literal value =>
      have occupied : value ≠ [] := fun empty => canonical.occupied (empty ▸ List.mem_cons_self)
      rw [Token.source, tokensFrom_escaped read, foldr_prepend occupied canonical.startsWithHole]
    | hole hole => exact tokensFrom_source read (canonical.holes hole List.mem_cons_self) offset

theorem Canonical.prepend {tokens : List Token} (canonical : Canonical tokens) (u : UInt16) :
    Canonical (prepend u tokens) := by
  unfold Template.prepend
  split
  next value rest =>
    refine ⟨?_, ?_, fun hole member => ?_⟩
    · simpa using canonical.tail.occupied
    · exact List.isChain_cons.mpr (List.isChain_cons.mp canonical.apart)
    · exact canonical.tail.holes hole ((List.mem_cons.mp member).resolve_left nofun)
  next other =>
    refine ⟨?_, ?_, fun hole member => ?_⟩
    · simpa using canonical.occupied
    · refine List.isChain_cons.mpr ⟨?_, canonical.apart⟩
      rintro token first ⟨_, literal⟩
      obtain ⟨rest, rfl⟩ := List.head?_eq_some_iff.mp first
      cases token with
      | literal value => exact other value rest rfl
      | hole hole => cases literal
    · exact canonical.holes hole ((List.mem_cons.mp member).resolve_left nofun)

theorem hole?_constraint {t : Text} {hole : Hole} {count : Nat} (read : hole? t = some (hole, count))
    {constraint : Text} (constrained : hole.constraint = some constraint) :
    ∃ rest length, constraintLength? rest = some (length + 1) ∧ constraint = rest.take (length + 1) := by
  simp only [hole?] at read
  split at read
  next =>
    split at read
    next => cases read
    next u rest _ =>
      split at read
      next =>
        obtain ⟨rfl, _⟩ := Prod.mk.inj (Option.some.inj read)
        cases constrained
      next =>
        split at read
        next =>
          split at read
          next => cases read
          next => cases read
          next length found =>
            obtain ⟨rfl, _⟩ := Prod.mk.inj (Option.some.inj read)
            exact ⟨rest, length, found, (Option.some.inj constrained).symm⟩
        next => cases read
  next => cases read

theorem Hole.check_short {hole : Hole} (checked : hole.check = .ok ()) {constraint : Text}
    (constrained : hole.constraint = some constraint) : constraint.length ≤ constraintLimit := by
  unfold Hole.check at checked
  rw [constrained] at checked
  simp only at checked
  split at checked
  next => cases checked
  next short => exact Nat.le_of_not_lt short

theorem writable_of_hole? {t : Text} {hole : Hole} {count : Nat} (read : hole? t = some (hole, count))
    (checked : hole.check = .ok ()) : hole.Writable where
  starts := (hole?_name read).2
  word u member := by
    rw [(hole?_name read).1] at member
    exact List.all_eq_true.mp List.all_takeWhile u member
  occupied constraint constrained := by
    obtain ⟨rest, length, found, rfl⟩ := hole?_constraint read constrained
    cases rest with
    | nil => simp [constraintLength?] at found
    | cons u rest => simp
  short constraint constrained := Hole.check_short checked constrained
  encloses constraint constrained := by
    obtain ⟨expression, parse⟩ := Hole.check_ok checked constrained
    obtain ⟨rest, length, found, rfl⟩ := hole?_constraint read constrained
    exact encloses_of_constraintLength? found parse

theorem canonical_of_tokens {source : Text} {tokens : List Token} (read : Template.tokens source = .ok tokens) :
    Canonical tokens := by
  refine tokens_induction (motive := Canonical) ?nil (fun u _ canonical => canonical.prepend u) ?hole read
  case nil => exact ⟨List.not_mem_nil, .nil, fun hole member => nomatch member⟩
  case hole =>
    intro t hole count tokens found checked canonical
    refine ⟨by simpa using canonical.occupied, ?_, fun other member => ?_⟩
    · refine List.isChain_cons.mpr ⟨fun token _ both => ?_, canonical.apart⟩
      cases both.1
    · rcases List.mem_cons.mp member with same | later
      · obtain rfl := Token.hole.inj same
        exact writable_of_hole? found checked
      · exact canonical.holes other later

/-- Reading undoes writing, and the tokens of every template are such as can be written. -/
theorem tokens_sourceOf (tokens : List Token) :
    (Canonical tokens → Template.tokens (sourceOf tokens) = .ok tokens) ∧
      ∀ source, Template.tokens source = .ok tokens → Canonical tokens :=
  ⟨fun canonical => tokensFrom_sourceOf canonical 0, fun _ read => canonical_of_tokens read⟩

/-- Brackets in a class, in escapes and in literal text, and a colon right before a hole. -/
theorem tokens_sourceOf_brackets :
    Canonical [.literal (units "\\:["), .hole ⟨units "a", some (units "[\\]\\x5B[]+\\]")⟩, .literal (units "]:"),
      .hole ⟨units "_", none⟩] ∧
    Template.tokens (sourceOf [.literal (units "\\:["), .hole ⟨units "a", some (units "[\\]\\x5B[]+\\]")⟩,
      .literal (units "]:"), .hole ⟨units "_", none⟩]) =
      .ok [.literal (units "\\:["), .hole ⟨units "a", some (units "[\\]\\x5B[]+\\]")⟩, .literal (units "]:"),
        .hole ⟨units "_", none⟩] := by
  have reads : (match Template.tokens (units "\\\\:\\[:[a~[\\]\\x5B[]+\\]]]::[_]") with
      | .ok tokens => decide (tokens = [.literal (units "\\:["), .hole ⟨units "a", some (units "[\\]\\x5B[]+\\]")⟩,
        .literal (units "]:"), .hole ⟨units "_", none⟩])
      | .error _ => false) = true := by decide +kernel
  split at reads
  · next tokens read =>
    have canonical := (tokens_sourceOf tokens).2 _ read
    have written := (tokens_sourceOf tokens).1 canonical
    obtain rfl := of_decide_eq_true reads
    exact ⟨canonical, written⟩
  · cases reads

end Emend.Template
