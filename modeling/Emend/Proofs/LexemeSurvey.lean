import Emend.Proofs.LexemePassing

/-! What a reading knows of the whole expression changes nothing but references. Where one reading
sees a reference, a reading without names and groups passes over the same units and meets no
parenthesis, so both find the same groups. -/

namespace Emend.Expression

open Text

/-- A survey that knows of no name and of no group that another does not know of. -/
structure Survey.Within (less more : Survey) : Prop where
  groups : less.groups ≤ more.groups
  unnamed : less.names = []

theorem Survey.bare_within (survey : Survey) : Survey.bare.Within survey := ⟨Nat.zero_le _, rfl⟩

theorem Survey.Within.named {less more : Survey} (within : less.Within more) : less.named = false := by
  simp [Survey.named, within.unnamed]

section

variable {less more : Survey}

theorem classMember_within (within : less.Within more) {u : UInt16} {rest : Text} {read : Member × Nat}
    (member : classMember more u rest = .ok read) : classMember less u rest = .ok read := by
  unfold classMember at member ⊢
  split at member
  next escaped =>
    rw [if_pos escaped]
    cases rest with
    | nil => cases member
    | cons v others =>
      simp only [within.named, Bool.and_false, Bool.false_eq_true, if_false] at member ⊢
      split at member
      next => exact member
      next =>
        split at member
        next letter => rw [if_pos letter]; exact member
        next letter =>
          rw [if_neg letter]
          split at member
          next => cases member
          next => exact member
  next plain =>
    rw [if_neg plain]
    exact member

theorem ClassReads.within (within : less.Within more) {t : Text} {set : UnitSet} {count : Nat}
    (read : ClassReads more t set count) : ClassReads less t set count := by
  induction read with
  | closed rest => exact .closed rest
  | single inside member apart _ ih => exact .single inside (classMember_within within member) apart ih
  | last inside member mark => exact .last inside (classMember_within within member) mark
  | range inside member mark inner second between _ ih =>
    exact .range inside (classMember_within within member) mark inner (classMember_within within second)
      between ih

theorem passes_namedReference {survey : Survey} {rest : Text} {first : Lexeme} {extra : Nat}
    (read : namedReference survey rest = .ok (first, extra)) :
    (∃ index, first = .atom (.reference index)) ∧
      Passes (backslash :: 0x6B :: rest) ((0x6B :: rest).drop extra) := by
  unfold namedReference at read
  split at read
  next after =>
    split at read
    next name count found =>
      split at read
      next index _ =>
        obtain ⟨rfl, rfl⟩ := Prod.mk.inj (Except.ok.inj read)
        refine ⟨⟨index, rfl⟩, ?_⟩
        have letter : escapeLexeme .bare 0x6B (Text.less :: after) =
            .ok (.atom (.unit (.single 0x6B)), 1) := rfl
        have front := Passes.of_lexeme (.escape letter) rfl
        have angle : Passes (Text.less :: after) after := .of_lexeme (.plain after (by decide)) rfl
        exact front.trans (angle.trans (passes_groupName found))
      next => cases read
    next => cases read
  next => cases read

/-- An escape is a reference that a reading without knowledge passes over, or reads alike. -/
theorem escapeLexeme_within (within : less.Within more) {v : UInt16} {rest : Text} {first : Lexeme}
    {extra : Nat} (read : escapeLexeme more v rest = .ok (first, extra)) :
    escapeLexeme less v rest = .ok (first, extra) ∨
      (∃ index, first = .atom (.reference index)) ∧
        Passes (backslash :: v :: rest) ((v :: rest).drop extra) := by
  unfold escapeLexeme at read ⊢
  simp only [within.named, Bool.and_false, Bool.false_eq_true, if_false] at read ⊢
  split at read
  next letter => rw [if_pos letter]; exact .inl read
  next other =>
  rw [if_neg other]
  split at read
  next letter => rw [if_pos letter]; exact .inl read
  next other =>
  rw [if_neg other]
  split at read
  next digit =>
    rw [if_pos digit]
    split at read
    next =>
      obtain ⟨rfl, rfl⟩ := Prod.mk.inj (Except.ok.inj read)
      exact .inr ⟨⟨_, rfl⟩, passes_digits rest digit⟩
    next beyond =>
      rw [if_neg (fun inside => beyond (Nat.le_trans inside within.groups))]
      exact .inl read
  next other =>
  rw [if_neg other]
  split at read
  next reference =>
    simp only [Bool.and_eq_true, decide_eq_true_eq] at reference
    rw [reference.1]
    exact .inr (passes_namedReference read)
  next => exact .inl read

theorem LexemeReads.within (within : less.Within more) {u : UInt16} {rest : Text} {first : Lexeme}
    {extra : Nat} (read : LexemeReads more u rest first extra) :
    LexemeReads less u rest first extra ∨
      (∃ index, first = .atom (.reference index)) ∧ Passes (u :: rest) (rest.drop extra) := by
  cases read with
  | opening read => exact .inl (.opening read)
  | closing => exact .inl (.closing _)
  | bar => exact .inl (.bar _)
  | start => exact .inl (.start _)
  | stop => exact .inl (.stop _)
  | dot => exact .inl (.dot _)
  | repetition _ bounds => exact .inl (.repetition _ bounds)
  | interval bounds ordered => exact .inl (.interval bounds ordered)
  | brace bounds => exact .inl (.brace bounds)
  | «class» plain members => exact .inl (.class plain (members.within within))
  | otherClass members => exact .inl (.otherClass (members.within within))
  | escape read =>
    rcases escapeLexeme_within within read with same | reference
    · exact .inl (.escape same)
    · exact .inr reference
  | plain _ plain => exact .inl (.plain _ plain)

/-- A reading without references needs no more knowledge than it has used. -/
theorem Reads.within (within : less.Within more) {t left : Text} {pieces : List Lexeme}
    (read : Reads more t pieces left) (plain : ∀ index, Lexeme.atom (.reference index) ∉ pieces) :
    Reads less t pieces left := by
  induction read with
  | done => exact .done _
  | @next u rest _ first _ extra front _ ih =>
    have others := ih fun index member => plain index (List.mem_cons_of_mem _ member)
    rcases (lexeme_eq_ok_iff.mp front).within within with same | ⟨⟨index, rfl⟩, _⟩
    · exact .next same.result others
    · exact absurd (List.mem_cons_self ..) (plain index)

end

/-- Without a parenthesis nothing is read past the end of an expression or past its seam. -/
private theorem Reads.stays {tail left : Text} {pieces : List Lexeme}
    (ended : tail = [] ∨ tail.head? = some closeParen) (flat : parens pieces = [])
    (read : Reads .bare tail pieces left) : left = tail := by
  cases read with
  | done => rfl
  | next front _ =>
    rcases ended with none | paren
    · cases none
    · obtain rfl := Option.some.inj paren
      obtain ⟨rfl, _⟩ := Prod.mk.inj (Except.ok.inj front)
      cases flat

/-- Wherever a reading that knows nothing stops in front of a parenthesis or at the end, a complete
reading that knows more stops as well, and both have met the same parentheses. -/
theorem Reads.sync {survey : Survey} (size : Nat) {t tail : Text} {alone pieces : List Lexeme}
    (short : t.length ≤ size) (plain : Reads .bare t alone tail)
    (ended : tail = [] ∨ tail.head? = some closeParen) (read : Reads survey t pieces []) :
    ∃ front back, pieces = front ++ back ∧ Reads survey t front tail ∧ Reads survey tail back [] ∧
      parens front = parens alone := by
  induction size generalizing t alone pieces with
  | zero =>
    obtain rfl := List.length_eq_zero_iff.mp (Nat.le_zero.mp short)
    cases plain
    exact ⟨[], pieces, rfl, .done _, read, rfl⟩
  | succ size ih =>
    cases plain with
    | done => exact ⟨[], pieces, rfl, .done _, read, rfl⟩
    | @next u rest _ other others skip head further =>
      cases read with
      | @next _ _ _ first later extra front back =>
        have shorter : (rest.drop extra).length ≤ size := by
          rw [List.length_drop]
          rw [List.length_cons] at short
          omega
        rcases (lexeme_eq_ok_iff.mp front).within survey.bare_within with same | ⟨⟨index, rfl⟩, passed, onto, flat⟩
        · obtain ⟨rfl, rfl⟩ := Prod.mk.inj (Except.ok.inj (head.symm.trans same.result))
          obtain ⟨inner, after, rfl, reach, rest, met⟩ := ih shorter further back
          refine ⟨_ :: inner, after, rfl, .next front reach, rest, ?_⟩
          simp only [parens, List.filter_cons] at met ⊢
          rw [met]
        · rcases onto.total (.next head further) with ⟨more, split, onward⟩ | ⟨more, split, onward⟩
          · obtain ⟨inner, after, rfl, reach, rest, met⟩ := ih shorter onward back
            refine ⟨_ :: inner, after, rfl, .next front reach, rest, ?_⟩
            rw [split, parens_append, flat, ← met]
            rfl
          · rw [split, parens_append, List.append_eq_nil_iff] at flat
            obtain rfl := onward.stays ended flat.2
            exact ⟨[_], later, rfl, .next front (.done _), back, flat.1.symm⟩

def Survey.note (seen : Survey) (piece : Lexeme) : Except Defect Survey :=
  match piece with
  | .opening (.capture none) => .ok { seen with groups := seen.groups + 1 }
  | .opening (.capture (some name)) =>
    if (seen.names.lookup name).isSome then .error .duplicateGroupName
    else .ok ⟨seen.groups + 1, seen.names ++ [(name, seen.groups + 1)]⟩
  | _ => .ok seen

theorem survey_eq_foldlM (pieces : List Lexeme) : survey pieces = pieces.foldlM Survey.note .bare := rfl

theorem survey_parens (pieces : List Lexeme) : survey (parens pieces) = survey pieces := by
  simp only [survey_eq_foldlM, parens]
  generalize Survey.bare = seen
  induction pieces generalizing seen with
  | nil => rfl
  | cons piece pieces ih =>
    by_cases paren : piece.isParen = true
    · rw [List.filter_cons_of_pos paren, List.foldlM_cons, List.foldlM_cons]
      exact bind_congr ih
    · rw [List.filter_cons_of_neg paren, List.foldlM_cons, ih]
      cases piece with
      | opening | closing => exact absurd rfl paren
      | bar | atom | assertion | quantifier => rfl

def Lexeme.captures : Lexeme → Bool
  | .opening (.capture _) => true
  | _ => false

def captures (pieces : List Lexeme) : Nat := pieces.countP Lexeme.captures

theorem captures_append (front back : List Lexeme) :
    captures (front ++ back) = captures front + captures back :=
  List.countP_append

theorem captures_parens (pieces : List Lexeme) : captures (parens pieces) = captures pieces := by
  rw [captures, captures, parens, List.countP_filter]
  apply congrArg (List.countP · pieces)
  funext piece
  cases piece with
  | opening kind => cases kind <;> rfl
  | closing | bar | atom | assertion | quantifier => rfl

private theorem Survey.note_lookup {seen noted : Survey} {piece : Lexeme} {name : Text} {index : Nat}
    (known : seen.names.lookup name = some index) (step : seen.note piece = .ok noted) :
    noted.names.lookup name = some index := by
  unfold Survey.note at step
  split at step
  next =>
    obtain rfl := Except.ok.inj step
    exact known
  next other =>
    split at step
    next => cases step
    next =>
      obtain rfl := Except.ok.inj step
      rw [List.lookup_append, known]
      rfl
  next =>
    obtain rfl := Except.ok.inj step
    exact known

theorem survey_keeps {seen found : Survey} {pieces : List Lexeme} {name : Text} {index : Nat}
    (known : seen.names.lookup name = some index)
    (done : pieces.foldlM Survey.note seen = .ok found) : found.names.lookup name = some index := by
  induction pieces generalizing seen with
  | nil =>
    obtain rfl := Except.ok.inj done
    exact known
  | cons piece pieces ih =>
    rw [List.foldlM_cons] at done
    obtain ⟨noted, step, done⟩ := bind_eq_ok.mp done
    exact ih (Survey.note_lookup known step) done

private theorem Survey.note_groups {seen noted : Survey} {piece : Lexeme}
    (step : seen.note piece = .ok noted) :
    noted.groups = seen.groups + if piece.captures then 1 else 0 := by
  cases piece with
  | opening kind =>
    cases kind with
    | capture name =>
      cases name with
      | none =>
        obtain rfl := Except.ok.inj step
        rfl
      | some name =>
        simp only [Survey.note] at step
        split at step
        next => cases step
        next =>
          obtain rfl := Except.ok.inj step
          rfl
    | plain | look =>
      obtain rfl := Except.ok.inj step
      rfl
  | closing | bar | atom | assertion | quantifier =>
    obtain rfl := Except.ok.inj step
    rfl

theorem survey_groups {seen found : Survey} {pieces : List Lexeme}
    (done : pieces.foldlM Survey.note seen = .ok found) :
    found.groups = seen.groups + captures pieces := by
  induction pieces generalizing seen with
  | nil =>
    obtain rfl := Except.ok.inj done
    rfl
  | cons piece pieces ih =>
    rw [List.foldlM_cons] at done
    obtain ⟨noted, step, done⟩ := bind_eq_ok.mp done
    rw [ih done, Survey.note_groups step, captures, captures, List.countP_cons]
    omega

/-- A name belongs to the group that carries it, and groups are numbered as they are opened. -/
theorem survey_lookup {found : Survey} {front back : List Lexeme} {name : Text}
    (done : survey (front ++ .opening (.capture (some name)) :: back) = .ok found) :
    found.names.lookup name = some (captures front + 1) := by
  rw [survey_eq_foldlM, List.foldlM_append] at done
  obtain ⟨seen, before, done⟩ := bind_eq_ok.mp done
  rw [List.foldlM_cons] at done
  obtain ⟨noted, step, done⟩ := bind_eq_ok.mp done
  refine survey_keeps ?_ done
  simp only [Survey.note] at step
  split at step
  next => cases step
  next fresh =>
    obtain rfl := Except.ok.inj step
    rw [List.lookup_append, Option.not_isSome_iff_eq_none.mp fresh, survey_groups before]
    simp

end Emend.Expression
