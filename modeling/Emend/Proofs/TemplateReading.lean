import Emend.Proofs.TemplateTokens

/-! Templates read piece by piece. Literal text without escapes is a token of its own up to the next hole,
and a hole that is written in front of any text is read as it is written. -/

namespace Emend.Template

open Text

/-- Text that is read as it stands: nothing is escaped, and no hole opens in it, not even with the unit after it. -/
def isVerbatim (next : Option UInt16) : Text → Bool
  | [] => true
  | u :: rest =>
    u != backslash && !(u == colon && rest.head?.or next == some openBracket) && isVerbatim next rest

def startsWithHole : List Token → Bool
  | .literal _ :: _ => false
  | _ => true

theorem tokensFrom_verbatim {t rest : Text} {tokens : List Token} {offset : Nat}
    (verbatim : isVerbatim rest.head? t = true) (read : tokensFrom (offset + t.length) rest = .ok tokens) :
    tokensFrom offset (t ++ rest) = .ok (t.foldr prepend tokens) := by
  induction t generalizing offset with
  | nil => exact read
  | cons u t ih =>
    simp only [isVerbatim, Bool.and_eq_true, bne_iff_ne, Bool.not_eq_true'] at verbatim
    obtain ⟨⟨plain, closed⟩, later⟩ := verbatim
    have opens : (decide (u = colon) && decide ((t ++ rest).head? = some openBracket)) = false := by
      rw [List.head?_append]
      simpa using closed
    have next : tokensFrom (offset + 1) (t ++ rest) = .ok (t.foldr prepend tokens) :=
      ih later (by rwa [show offset + 1 + t.length = offset + (u :: t).length by rw [List.length_cons]; omega])
    rw [List.cons_append, tokensFrom.eq_def]
    simp only [if_neg plain, opens, Bool.false_eq_true, if_false, next]
    rfl

theorem foldr_prepend {t : Text} {tokens : List Token} (occupied : t ≠ []) (hole : startsWithHole tokens = true) :
    t.foldr prepend tokens = .literal t :: tokens := by
  induction t with
  | nil => exact absurd rfl occupied
  | cons u t ih =>
    cases t with
    | nil =>
      cases tokens with
      | nil => rfl
      | cons token tokens =>
        cases token with
        | literal => cases hole
        | hole => rfl
    | cons v t => rw [List.foldr_cons, ih (List.cons_ne_nil _ _), prepend]

/-- Literal text in front of a hole, or at the end, is one token. -/
theorem tokensFrom_literal {t rest : Text} {tokens : List Token} {offset : Nat} (occupied : t ≠ [])
    (verbatim : isVerbatim rest.head? t = true) (hole : startsWithHole tokens = true)
    (read : tokensFrom (offset + t.length) rest = .ok tokens) :
    tokensFrom offset (t ++ rest) = .ok (.literal t :: tokens) := by
  rw [tokensFrom_verbatim verbatim read, foldr_prepend occupied hole]

theorem tokensFrom_hole {inner rest : Text} {hole : Hole} {tokens : List Token} {offset : Nat}
    (found : hole? (inner ++ rest) = some (hole, inner.length)) (checked : hole.check = .ok ())
    (read : tokensFrom (offset + 2 + inner.length) rest = .ok tokens) :
    tokensFrom offset (colon :: openBracket :: (inner ++ rest)) = .ok (.hole hole :: tokens) := by
  have left : (openBracket :: (inner ++ rest)).drop (1 + inner.length) = rest := by
    rw [Nat.add_comm, List.drop_succ_cons, List.drop_left]
  rw [tokensFrom.eq_def]
  simp only [show (colon : UInt16) ≠ backslash by decide, if_false, List.head?_cons, decide_true, Bool.true_and,
    if_true, List.drop_succ_cons, List.drop_zero, found, checked, left, read]
  rfl

section

variable {name rest : Text} (word : ∀ u ∈ name, isWord u = true)
include word

private theorem takeWhile_name {u : UInt16} (outside : isWord u = false) :
    (name ++ u :: rest).takeWhile isWord = name := by
  rw [List.takeWhile_append_of_pos word, List.takeWhile_cons, outside]
  simp

variable (starts : name.head?.any startsName = true)
include starts

theorem hole?_free : hole? (name ++ closeBracket :: rest) = some (⟨name, none⟩, name.length + 1) := by
  simp only [hole?, takeWhile_name word (show isWord closeBracket = false by decide), starts, if_true,
    List.drop_left]

theorem hole?_constrained {constraint : Text} (occupied : constraint ≠ [])
    (length : constraintLength? (constraint ++ closeBracket :: rest) = some constraint.length) :
    hole? (name ++ tilde :: (constraint ++ closeBracket :: rest)) =
      some (⟨name, some constraint⟩, name.length + constraint.length + 2) := by
  have apart : (tilde : UInt16) ≠ closeBracket := by decide
  cases constraint with
  | nil => exact absurd rfl occupied
  | cons u constraint =>
    simp only [hole?, takeWhile_name word (show isWord tilde = false by decide), starts, if_true,
      List.drop_left, if_neg apart, length, List.length_cons]
    rw [show constraint.length + 1 = (u :: constraint).length from rfl, List.take_left]
    rfl

end

def holeText (name constraint rest : Text) : Text :=
  colon :: openBracket :: (name ++ tilde :: (constraint ++ closeBracket :: rest))

def freeText (name rest : Text) : Text := colon :: openBracket :: (name ++ closeBracket :: rest)

theorem holeText_append (name constraint rest more : Text) :
    holeText name constraint rest ++ more = holeText name constraint (rest ++ more) := by
  simp [holeText]

section

variable {name rest : Text} {tokens : List Token} (word : ∀ u ∈ name, isWord u = true)
  (starts : name.head?.any startsName = true) (read : ∀ offset, tokensFrom offset rest = .ok tokens)
include word starts read

theorem tokensFrom_holeText {constraint : Text} (occupied : constraint ≠ [])
    (length : constraintLength? (constraint ++ closeBracket :: rest) = some constraint.length)
    (checked : Hole.check ⟨name, some constraint⟩ = .ok ()) (offset : Nat) :
    tokensFrom offset (holeText name constraint rest) = .ok (.hole ⟨name, some constraint⟩ :: tokens) := by
  have whole : holeText name constraint rest =
      colon :: openBracket :: ((name ++ tilde :: (constraint ++ [closeBracket])) ++ rest) := by
    simp [holeText]
  have found := hole?_constrained word starts occupied length
  rw [whole]
  refine tokensFrom_hole ?_ checked (read _)
  simpa [Nat.add_assoc] using found

theorem tokensFrom_freeText (offset : Nat) :
    tokensFrom offset (freeText name rest) = .ok (.hole ⟨name, none⟩ :: tokens) := by
  have whole : freeText name rest = colon :: openBracket :: ((name ++ [closeBracket]) ++ rest) := by
    simp [freeText]
  have found := @hole?_free name rest word starts
  rw [whole]
  refine tokensFrom_hole ?_ rfl (read _)
  simpa using found

end

end Emend.Template
