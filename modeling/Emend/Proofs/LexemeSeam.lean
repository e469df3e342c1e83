import Emend.Proofs.LexemeReading

/-! The seam between an expression and the closing parenthesis put behind it. No lexeme of a complete
expression reaches over the parenthesis, so the expression is read in front of one as it is read
alone. -/

namespace Emend.Expression

open Text

variable (tail : Text)

theorem takeWhile_before_paren (member : UInt16 → Bool) (outside : member closeParen = false)
    (t : Text) : (t ++ closeParen :: tail).takeWhile member = t.takeWhile member := by
  rw [List.takeWhile_append]
  split
  next all =>
    rw [List.takeWhile_cons_of_neg (by simp [outside]), List.append_nil]
    exact ((List.takeWhile_prefix member).eq_of_length all).symm
  next => rfl

theorem hexDigits?_before_paren (count : Nat) (t : Text) :
    hexDigits? count (t ++ closeParen :: tail) = hexDigits? count t := by
  induction count generalizing t with
  | zero => cases t <;> rfl
  | succ count ih =>
    cases t with
    | nil => rfl
    | cons u rest => simp only [List.cons_append, hexDigits?, ih]

theorem hexDigits?_le {count value : Nat} {t : Text} (read : hexDigits? count t = some value) :
    count ≤ t.length := by
  induction count generalizing t value with
  | zero => exact Nat.zero_le _
  | succ count ih =>
    cases t with
    | nil => cases read
    | cons u rest =>
      simp only [hexDigits?, Option.bind_eq_bind, Option.bind_eq_some_iff] at read
      obtain ⟨_, _, others, back, _⟩ := read
      rw [List.length_cons]
      exact Nat.succ_le_succ (ih back)

theorem octal_before_paren (first : UInt16) (rest : Text) :
    octal first (rest ++ closeParen :: tail) = octal first rest := by
  cases rest with
  | nil => rfl
  | cons second more =>
    cases more with
    | nil =>
      simp only [octal, List.cons_append, List.nil_append]
      split
      · split <;> simp_all [show ¬ (48 : UInt16) ≤ closeParen by decide]
      · rfl
    | cons third more => rfl

theorem octal_le (first : UInt16) (rest : Text) : (octal first rest).2 ≤ rest.length := by
  cases rest with
  | nil => exact Nat.le_refl 0
  | cons second more =>
    cases more with
    | nil =>
      simp only [octal]
      split <;> simp
    | cons third more =>
      simp only [octal]
      split
      · split <;> simp
      · simp

theorem unitEscape_before_paren {isControl : UInt16 → Bool} (outside : isControl closeParen = false)
    (u : UInt16) (rest : Text) :
    unitEscape isControl u (rest ++ closeParen :: tail) = unitEscape isControl u rest := by
  simp only [unitEscape, octal_before_paren, hexDigits?_before_paren]
  cases rest <;> simp [outside]

theorem unitEscape_le {isControl : UInt16 → Bool} {u v : UInt16} {rest : Text} {extra : Nat}
    (read : unitEscape isControl u rest = (v, some extra)) : extra ≤ rest.length := by
  simp only [unitEscape] at read
  split at read
  · cases read
    exact Nat.zero_le _
  · split at read
    · split at read
      · split at read
        · cases read
          simp
        · cases read
      · cases read
    · split at read
      · cases read
        exact octal_le u rest
      · split at read
        · split at read
          next found =>
            cases read
            exact hexDigits?_le found
          next =>
            cases read
            exact Nat.zero_le _
        · split at read
          · split at read
            next found =>
              cases read
              exact hexDigits?_le found
            next =>
              cases read
              exact Nat.zero_le _
          · cases read
            exact Nat.zero_le _

theorem bracedCode?_before_paren {t : Text} {code count : Nat}
    (read : bracedCode? t = some (code, count)) :
    bracedCode? (t ++ closeParen :: tail) = some (code, count) ∧ count ≤ t.length := by
  have digits := takeWhile_before_paren tail (fun u => (hexValue? u).isSome) (by decide) t
  simp only [bracedCode?] at read ⊢
  rw [digits]
  generalize t.takeWhile (fun u => (hexValue? u).isSome) = front at read ⊢
  split at read
  next closed =>
    simp only [Bool.and_eq_true, decide_eq_true_eq] at closed
    obtain ⟨inside, _⟩ := List.getElem?_eq_some_iff.mp closed.1.2
    cases read
    refine ⟨?_, inside⟩
    rw [List.getElem?_append_left inside, if_pos (by simpa using closed)]
  next => cases read

theorem escapeAfter?_before_paren (t : Text) :
    escapeAfter? (t ++ closeParen :: tail) = escapeAfter? t := by
  match t with
  | [] => simp [escapeAfter?, show closeParen ≠ backslash by decide]
  | [_] => simp [escapeAfter?, show closeParen ≠ 0x75 by decide]
  | u :: v :: more => simp [escapeAfter?, hexDigits?_before_paren]

theorem escapedCode?_before_paren {t : Text} {code count : Nat}
    (read : escapedCode? t = some (code, count)) :
    escapedCode? (t ++ closeParen :: tail) = some (code, count) ∧ count ≤ t.length := by
  cases t with
  | nil => cases read
  | cons u rest =>
    by_cases braced : u = openBrace
    · have front : ∀ rest, (u :: rest).head? = some openBrace := fun _ => congrArg some braced
      rw [escapedCode?, if_pos (front rest)] at read
      rw [List.cons_append, escapedCode?, if_pos (front _)]
      obtain ⟨⟨_, inner⟩, found, same⟩ := Option.map_eq_some_iff.mp read
      obtain ⟨rfl, rfl⟩ := Prod.mk.inj same
      rw [List.drop_succ_cons, List.drop_zero] at found
      obtain ⟨again, inside⟩ := bracedCode?_before_paren tail found
      refine ⟨?_, Nat.succ_le_succ inside⟩
      rw [List.drop_succ_cons, List.drop_zero, again]
      rfl
    · have front : ∀ rest, (u :: rest).head? ≠ some openBrace := fun _ same =>
        braced (Option.some.inj same)
      rw [escapedCode?, if_neg (front rest), Option.bind_eq_bind, Option.bind_eq_some_iff] at read
      rw [List.cons_append, escapedCode?, if_neg (front _)]
      obtain ⟨high, first, read⟩ := read
      have enough := hexDigits?_le first
      have shorter : 3 ≤ rest.length := Nat.le_of_succ_le_succ enough
      have same := hexDigits?_before_paren tail 4 (u :: rest)
      rw [List.cons_append] at same
      rw [same, first, Option.bind_eq_bind, Option.bind_some, List.drop_succ_cons,
        List.drop_append_of_le_length shorter, escapeAfter?_before_paren]
      refine ⟨read, ?_⟩
      split at read
      next low second =>
        simp only [escapeAfter?] at second
        split at second
        next =>
          have further := hexDigits?_le second
          simp only [List.drop_drop, List.length_drop, List.length_cons] at further
          have bound : count ≤ 10 := by
            split at read <;> obtain ⟨_, rfl⟩ := Prod.mk.inj (Option.some.inj read) <;> omega
          rw [List.length_cons]
          omega
        next => cases second
      next =>
        obtain ⟨_, rfl⟩ := Prod.mk.inj (Option.some.inj read)
        exact enough

theorem codePoint?_before_paren {u : UInt16} {rest : Text} {code extra : Nat}
    (read : codePoint? u rest = some (code, extra)) :
    codePoint? u (rest ++ closeParen :: tail) = some (code, extra) ∧ extra ≤ rest.length := by
  unfold codePoint? at read
  split at read
  next more =>
    obtain ⟨⟨_, inner⟩, found, same⟩ := Option.map_eq_some_iff.mp read
    obtain ⟨rfl, rfl⟩ := Prod.mk.inj same
    obtain ⟨again, inside⟩ := escapedCode?_before_paren tail found
    refine ⟨?_, Nat.succ_le_succ inside⟩
    show (escapedCode? (more ++ closeParen :: tail)).map _ = _
    rw [again]
    rfl
  next => cases read
  next v more _ plain =>
    refine ⟨?_, ?_⟩
    · rw [List.cons_append, codePoint?]
      · exact read
      · exact fun same _ => plain same
      · exact plain
    · split at read <;> obtain ⟨_, rfl⟩ := Prod.mk.inj (Option.some.inj read) <;> simp
  next plain =>
    obtain ⟨rfl, rfl⟩ := Prod.mk.inj (Option.some.inj read)
    refine ⟨?_, Nat.le_refl 0⟩
    rw [List.nil_append, codePoint?]
    · simp [show isLowSurrogate closeParen = false by decide]
    · exact fun same _ => plain same
    · exact plain

/-- A name ends at its angle, so what follows a complete name does not matter. -/
theorem nameTail?_before_paren (size : Nat) {t name : Text} {count : Nat} (short : t.length ≤ size)
    (read : nameTail? t = some (name, count)) :
    nameTail? (t ++ closeParen :: tail) = some (name, count) ∧ count ≤ t.length := by
  induction size generalizing t name count with
  | zero =>
    obtain rfl := List.length_eq_zero_iff.mp (Nat.le_zero.mp short)
    rw [nameTail?] at read
    cases read
  | succ size ih =>
    cases t with
    | nil =>
      rw [nameTail?] at read
      cases read
    | cons u rest =>
      rw [nameTail?, Option.bind_eq_bind, Option.bind_eq_some_iff] at read
      obtain ⟨⟨code, extra⟩, point, read⟩ := read
      obtain ⟨again, inside⟩ := codePoint?_before_paren tail point
      rw [List.cons_append, nameTail?, again, Option.bind_eq_bind, Option.bind_some,
        List.length_cons]
      simp only at read ⊢
      split at read
      next closed =>
        obtain ⟨rfl, rfl⟩ := Prod.mk.inj (Option.some.inj read)
        rw [if_pos closed]
        exact ⟨rfl, Nat.succ_le_succ inside⟩
      next open_ =>
        rw [if_neg open_]
        split at read
        next continues =>
          rw [Option.bind_eq_bind, Option.bind_eq_some_iff] at read
          obtain ⟨⟨others, more⟩, found, read⟩ := read
          obtain ⟨rfl, rfl⟩ := Prod.mk.inj (Option.some.inj read)
          have shorter : (rest.drop extra).length ≤ size := by
            rw [List.length_drop]
            rw [List.length_cons] at short
            omega
          obtain ⟨further, within⟩ := ih shorter found
          rw [if_pos continues, List.drop_append_of_le_length inside, further]
          rw [List.length_drop] at within
          exact ⟨rfl, by omega⟩
        next => cases read

theorem groupName?_before_paren {t name : Text} {count : Nat}
    (read : groupName? t = some (name, count)) :
    groupName? (t ++ closeParen :: tail) = some (name, count) ∧ count ≤ t.length := by
  cases t with
  | nil => cases read
  | cons u rest =>
    rw [groupName?, Option.bind_eq_bind, Option.bind_eq_some_iff] at read
    obtain ⟨⟨code, extra⟩, point, read⟩ := read
    obtain ⟨again, inside⟩ := codePoint?_before_paren tail point
    rw [List.cons_append, groupName?, again, Option.bind_eq_bind, Option.bind_some,
      List.length_cons]
    simp only at read ⊢
    split at read
    next begins =>
      rw [Option.bind_eq_bind, Option.bind_eq_some_iff] at read
      obtain ⟨⟨others, more⟩, found, read⟩ := read
      obtain ⟨rfl, rfl⟩ := Prod.mk.inj (Option.some.inj read)
      obtain ⟨further, within⟩ := nameTail?_before_paren tail _ (Nat.le_refl _) found
      rw [if_pos begins, List.drop_append_of_le_length inside, further]
      rw [List.length_drop] at within
      exact ⟨rfl, by omega⟩
    next => cases read

private theorem upperBound?_comma (least : Nat) (rest : Text) :
    upperBound? least (comma :: rest) =
      if (rest.drop (rest.takeWhile isDigit).length).head? = some closeBrace then
        some (if (rest.takeWhile isDigit).isEmpty then none
          else some (countValue (rest.takeWhile isDigit)), (rest.takeWhile isDigit).length + 2)
      else none := rfl

theorem upperBound?_before_paren (least : Nat) (t : Text) :
    upperBound? least (t ++ closeParen :: tail) = upperBound? least t := by
  cases t with
  | nil => rfl
  | cons u rest =>
    by_cases brace : u = closeBrace
    · subst brace
      rfl
    · by_cases separator : u = comma
      · subst separator
        have upper := takeWhile_before_paren tail isDigit (by decide) rest
        rw [List.cons_append, upperBound?_comma, upperBound?_comma, upper,
          List.drop_append_of_le_length (List.takeWhile_prefix isDigit).length_le]
        cases rest.drop (rest.takeWhile isDigit).length with
        | nil => rfl
        | cons v more => rfl
      · rw [List.cons_append, upperBound?, upperBound?]
        all_goals intro more same
        all_goals injection same
        all_goals contradiction

/-- An interval at the end of an expression is closed by its own brace or is none. -/
theorem interval?_before_paren (t : Text) :
    interval? (t ++ closeParen :: tail) = interval? t := by
  have lower := takeWhile_before_paren tail isDigit (by decide) t
  simp only [interval?]
  rw [lower, List.drop_append_of_le_length (List.takeWhile_prefix isDigit).length_le,
    upperBound?_before_paren]

theorem upperBound?_le {least count : Nat} {t : Text} {most : Option Nat}
    (read : upperBound? least t = some (most, count)) : count ≤ t.length := by
  unfold upperBound? at read
  split at read
  · obtain ⟨_, rfl⟩ := Prod.mk.inj (Option.some.inj read)
    exact Nat.succ_le_succ (Nat.zero_le _)
  next rest =>
    dsimp only at read
    split at read
    next closed =>
      obtain ⟨_, rfl⟩ := Prod.mk.inj (Option.some.inj read)
      rw [List.head?_drop] at closed
      obtain ⟨inside, _⟩ := List.getElem?_eq_some_iff.mp closed
      exact Nat.succ_le_succ inside
    next => cases read
  · cases read

theorem interval?_le {t : Text} {bounds : Nat × Option Nat} {count : Nat}
    (read : interval? t = some (bounds, count)) : count ≤ t.length := by
  simp only [interval?] at read
  split at read
  · cases read
  · obtain ⟨⟨most, inner⟩, found, same⟩ := Option.map_eq_some_iff.mp read
    obtain ⟨_, rfl⟩ := Prod.mk.inj same
    have inside := upperBound?_le found
    have front := (List.takeWhile_prefix isDigit (l := t)).length_le
    rw [List.length_drop] at inside
    omega

theorem quantifierLexeme_before_paren (least : Nat) (most : Option Nat) {rest : Text} {extra : Nat}
    (inside : extra ≤ rest.length) :
    quantifierLexeme least most (rest ++ closeParen :: tail) extra =
        quantifierLexeme least most rest extra ∧
      (quantifierLexeme least most rest extra).2 ≤ rest.length := by
  have size := List.length_drop (i := extra) (l := rest)
  simp only [quantifierLexeme]
  rw [List.drop_append_of_le_length inside]
  cases back : rest.drop extra with
  | nil => exact ⟨rfl, inside⟩
  | cons u more =>
    rw [back, List.length_cons] at size
    by_cases mark : u = question
    · subst mark
      exact ⟨rfl, by show extra + 1 ≤ rest.length; omega⟩
    · simp [mark, inside]

theorem isPrefixOf_before_paren {key : Text} (outside : closeParen ∉ key) (rest : Text) :
    key.isPrefixOf (rest ++ closeParen :: tail) = key.isPrefixOf rest := by
  induction key generalizing rest with
  | nil => simp
  | cons u key ih =>
    obtain ⟨other, inner⟩ := not_or.mp (mt List.mem_cons.mpr outside)
    cases rest with
    | nil => simp [List.isPrefixOf, Ne.symm other]
    | cons v more => simp only [List.cons_append, List.isPrefixOf, ih inner]

theorem openingLexeme_before_paren {rest : Text} {first : Lexeme} {extra : Nat}
    (read : openingLexeme rest = .ok (first, extra)) :
    openingLexeme (rest ++ closeParen :: tail) = .ok (first, extra) ∧ extra ≤ rest.length := by
  have marked : (rest ++ closeParen :: tail).head? = some question ↔ rest.head? = some question := by
    cases rest <;> simp [show closeParen ≠ question by decide]
  have taken {key : String} {kind : Opening} {count : Nat} (front : (units key).isPrefixOf rest = true)
      (read : (.ok (.opening kind, count) : Except Defect (Lexeme × Nat)) = .ok (first, extra))
      (size : count ≤ (units key).length) :
      (.ok (.opening kind, count) : Except Defect (Lexeme × Nat)) = .ok (first, extra) ∧
        extra ≤ rest.length := by
    obtain ⟨_, rfl⟩ := Prod.mk.inj (Except.ok.inj read)
    exact ⟨read, Nat.le_trans size (List.isPrefixOf_iff_prefix.mp front).length_le⟩
  unfold openingLexeme at read ⊢
  simp only [ne_eq, marked]
  rw [isPrefixOf_before_paren tail (by decide), isPrefixOf_before_paren tail (by decide),
    isPrefixOf_before_paren tail (by decide), isPrefixOf_before_paren tail (by decide),
    isPrefixOf_before_paren tail (by decide), isPrefixOf_before_paren tail (by decide)]
  split at read
  next plain =>
    rw [if_pos plain]
    obtain ⟨_, rfl⟩ := Prod.mk.inj (Except.ok.inj read)
    exact ⟨read, Nat.zero_le _⟩
  next plain =>
  rw [if_neg plain]
  split at read
  next front => rw [if_pos front]; exact taken front read (by decide)
  next other =>
  rw [if_neg other]
  split at read
  next front => rw [if_pos front]; exact taken front read (by decide)
  next other =>
  rw [if_neg other]
  split at read
  next front => rw [if_pos front]; exact taken front read (by decide)
  next other =>
  rw [if_neg other]
  split at read
  next front => rw [if_pos front]; exact taken front read (by decide)
  next other =>
  rw [if_neg other]
  split at read
  next front => rw [if_pos front]; exact taken front read (by decide)
  next other =>
  rw [if_neg other]
  split at read
  next front =>
    have enough : 2 ≤ rest.length := (List.isPrefixOf_iff_prefix.mp front).length_le
    rw [if_pos front, List.drop_append_of_le_length enough]
    split at read
    next name count found =>
      obtain ⟨_, rfl⟩ := Prod.mk.inj (Except.ok.inj read)
      obtain ⟨again, inside⟩ := groupName?_before_paren tail found
      rw [List.length_drop] at inside
      rw [again]
      exact ⟨read, by omega⟩
    next => cases read
  next => cases read

theorem namedReference_less (survey : Survey) (rest : Text) :
    namedReference survey (less :: rest) =
      match groupName? rest with
      | some (name, count) =>
        match survey.names.lookup name with
        | some index => .ok (.atom (.reference index), count + 2)
        | none => .error .unknownGroupName
      | none => .error .invalidNamedReference := rfl

theorem namedReference_before_paren (survey : Survey) {rest : Text} {first : Lexeme} {extra : Nat}
    (read : namedReference survey rest = .ok (first, extra)) :
    namedReference survey (rest ++ closeParen :: tail) = .ok (first, extra) ∧
      extra ≤ rest.length + 1 := by
  unfold namedReference at read
  split at read
  next more =>
    split at read
    next name count found =>
      split at read
      next index known =>
        obtain ⟨rfl, rfl⟩ := Prod.mk.inj (Except.ok.inj read)
        obtain ⟨again, inside⟩ := groupName?_before_paren tail found
        refine ⟨?_, by rw [List.length_cons]; omega⟩
        show namedReference survey (less :: (more ++ closeParen :: tail)) = _
        rw [namedReference_less, again]
        simp only [known]
      next => cases read
    next => cases read
  next => cases read

private theorem unitEscape_taken {isControl : UInt16 → Bool} (u : UInt16) (rest : Text) :
    (match (unitEscape isControl u rest).2 with
      | some extra => extra + 1
      | none => 0) ≤ rest.length + 1 := by
  cases taken : (unitEscape isControl u rest).2 with
  | none => exact Nat.zero_le _
  | some extra =>
    exact Nat.succ_le_succ (unitEscape_le (v := (unitEscape isControl u rest).1) (Prod.ext rfl taken))

theorem escapeLexeme_before_paren (survey : Survey) {u : UInt16} {rest : Text} {first : Lexeme}
    {extra : Nat} (read : escapeLexeme survey u rest = .ok (first, extra)) :
    escapeLexeme survey u (rest ++ closeParen :: tail) = .ok (first, extra) ∧
      extra ≤ rest.length + 1 := by
  have digits := takeWhile_before_paren tail isDigit (by decide) rest
  have plain (read : (.ok (.atom (.unit (.single (unitEscape isLetter u rest).1)),
      match (unitEscape isLetter u rest).2 with | some extra => extra + 1 | none => 0) :
        Except Defect (Lexeme × Nat)) = .ok (first, extra)) : extra ≤ rest.length + 1 := by
    obtain ⟨_, rfl⟩ := Prod.mk.inj (Except.ok.inj read)
    exact unitEscape_taken u rest
  have one (lexeme : Lexeme) (read : (.ok (lexeme, 1) : Except Defect (Lexeme × Nat)) =
      .ok (first, extra)) : extra ≤ rest.length + 1 := by
    obtain ⟨_, rfl⟩ := Prod.mk.inj (Except.ok.inj read)
    exact Nat.succ_le_succ (Nat.zero_le _)
  unfold escapeLexeme at read ⊢
  rw [unitEscape_before_paren tail (by decide), digits]
  simp only at read ⊢
  split at read
  next letter => rw [if_pos letter]; exact ⟨read, one _ read⟩
  next other =>
  rw [if_neg other]
  split at read
  next letter => rw [if_pos letter]; exact ⟨read, one _ read⟩
  next other =>
  rw [if_neg other]
  split at read
  next digit =>
    rw [if_pos digit]
    refine ⟨read, ?_⟩
    split at read
    next =>
      obtain ⟨_, rfl⟩ := Prod.mk.inj (Except.ok.inj read)
      exact Nat.succ_le_succ (List.takeWhile_prefix isDigit).length_le
    next => exact plain read
  next other =>
  rw [if_neg other]
  split at read
  next reference =>
    rw [if_pos reference]
    exact namedReference_before_paren tail survey read
  next other =>
  rw [if_neg other]
  refine ⟨read, ?_⟩
  split at read
  next => exact one _ read
  next => exact plain read

theorem classMember_before_paren (survey : Survey) {u : UInt16} {rest : Text} {first : Member}
    {extra : Nat} (read : classMember survey u rest = .ok (first, extra)) :
    classMember survey u (rest ++ closeParen :: tail) = .ok (first, extra) ∧
      extra ≤ rest.length := by
  unfold classMember at read ⊢
  split at read
  next escaped =>
    rw [if_pos escaped]
    cases rest with
    | nil => cases read
    | cons v more =>
      simp only [List.cons_append] at read ⊢
      rw [unitEscape_before_paren tail (by decide)]
      refine ⟨read, ?_⟩
      split at read
      next =>
        obtain ⟨_, rfl⟩ := Prod.mk.inj (Except.ok.inj read)
        exact Nat.succ_le_succ (Nat.zero_le _)
      next =>
        split at read
        next =>
          obtain ⟨_, rfl⟩ := Prod.mk.inj (Except.ok.inj read)
          exact Nat.succ_le_succ (Nat.zero_le _)
        next =>
          split at read
          next => cases read
          next =>
            obtain ⟨_, rfl⟩ := Prod.mk.inj (Except.ok.inj read)
            exact unitEscape_taken v more
  next plain =>
    rw [if_neg plain]
    obtain ⟨_, rfl⟩ := Prod.mk.inj (Except.ok.inj read)
    exact ⟨read, Nat.zero_le _⟩

theorem ClassReads.before_paren {survey : Survey} {t : Text} {set : UnitSet} {count : Nat}
    (read : ClassReads survey t set count) :
    ClassReads survey (t ++ closeParen :: tail) set count ∧ count ≤ t.length := by
  induction read with
  | closed rest => exact ⟨.closed _, Nat.succ_le_succ (Nat.zero_le _)⟩
  | @single u rest left extra count others inside member apart _ ih =>
    obtain ⟨again, within⟩ := classMember_before_paren tail survey member
    obtain ⟨further, size⟩ := ih
    have same : (rest ++ closeParen :: tail).drop extra = rest.drop extra ++ closeParen :: tail :=
      List.drop_append_of_le_length within
    rw [List.length_drop] at size
    rw [← same] at further
    rw [List.cons_append]
    refine ⟨.single inside again ?_ further, ?_⟩
    · rw [same]
      cases shape : rest.drop extra with
      | nil => simp [show closeParen ≠ hyphen by decide]
      | cons w more =>
        rw [shape] at apart
        exact apart
    · rw [List.length_cons]
      omega
  | @last u rest more left extra inside member mark =>
    obtain ⟨again, within⟩ := classMember_before_paren tail survey member
    have size := congrArg List.length mark
    rw [List.length_drop, List.length_cons, List.length_cons] at size
    rw [List.cons_append]
    refine ⟨.last inside again (?_ : _ = hyphen :: closeBracket :: (more ++ closeParen :: tail)), ?_⟩
    · rw [List.drop_append_of_le_length within, mark]
      rfl
    · rw [List.length_cons]
      omega
  | @range u v rest more left right extra extraRight count set others inside member mark inner second
      between _ ih =>
    obtain ⟨again, within⟩ := classMember_before_paren tail survey member
    obtain ⟨againRight, withinRight⟩ := classMember_before_paren tail survey second
    obtain ⟨further, inRest⟩ := ih
    have size := congrArg List.length mark
    rw [List.length_drop, List.length_cons, List.length_cons] at size
    rw [List.length_drop] at inRest
    rw [← List.drop_append_of_le_length withinRight] at further
    rw [List.cons_append]
    refine ⟨.range inside again (?_ : _ = hyphen :: v :: (more ++ closeParen :: tail)) inner againRight
      between further, ?_⟩
    · rw [List.drop_append_of_le_length within, mark]
      rfl
    · rw [List.length_cons]
      omega

/-- A lexeme is read in front of a parenthesis as it is read at the end of a text. -/
theorem LexemeReads.before_paren {survey : Survey} {u : UInt16} {rest : Text} {first : Lexeme}
    {extra : Nat} (read : LexemeReads survey u rest first extra) :
    LexemeReads survey u (rest ++ closeParen :: tail) first extra ∧ extra ≤ rest.length := by
  cases read with
  | opening read =>
    obtain ⟨again, inside⟩ := openingLexeme_before_paren tail read
    exact ⟨.opening again, inside⟩
  | closing => exact ⟨.closing _, Nat.zero_le _⟩
  | bar => exact ⟨.bar _, Nat.zero_le _⟩
  | start => exact ⟨.start _, Nat.zero_le _⟩
  | stop => exact ⟨.stop _, Nat.zero_le _⟩
  | dot => exact ⟨.dot _, Nat.zero_le _⟩
  | @repetition _ least most _ bounds =>
    obtain ⟨same, inside⟩ := quantifierLexeme_before_paren tail least most (Nat.zero_le rest.length)
    rw [← same] at inside ⊢
    exact ⟨.repetition _ bounds, inside⟩
  | @interval _ least count most bounds ordered =>
    obtain ⟨same, inside⟩ := quantifierLexeme_before_paren tail least most (interval?_le bounds)
    rw [← same] at inside ⊢
    exact ⟨.interval (by rw [interval?_before_paren, bounds]) ordered, inside⟩
  | brace bounds => exact ⟨.brace (by rw [interval?_before_paren, bounds]), Nat.zero_le _⟩
  | «class» plain members =>
    obtain ⟨again, inside⟩ := members.before_paren tail
    refine ⟨.class ?_ again, inside⟩
    cases rest with
    | nil => simp [show closeParen ≠ caret by decide]
    | cons v more => exact plain
  | otherClass members =>
    obtain ⟨again, inside⟩ := members.before_paren tail
    exact ⟨.otherClass again, Nat.succ_le_succ inside⟩
  | escape read =>
    obtain ⟨again, inside⟩ := escapeLexeme_before_paren tail survey read
    exact ⟨.escape again, inside⟩
  | plain _ plain => exact ⟨.plain _ plain, Nat.zero_le _⟩

/-- An expression that is read to its end is read up to a parenthesis put behind it. -/
theorem Reads.before_paren {survey : Survey} {t : Text} {pieces : List Lexeme}
    (read : Reads survey t pieces []) :
    Reads survey (t ++ closeParen :: tail) pieces (closeParen :: tail) := by
  generalize ended : ([] : Text) = left at read
  induction read with
  | done =>
    subst ended
    exact .done _
  | next front _ ih =>
    obtain ⟨again, inside⟩ := (lexeme_eq_ok_iff.mp front).before_paren tail
    apply Reads.next (lexeme_eq_ok_iff.mpr again)
    rw [List.drop_append_of_le_length inside]
    exact ih ended

end Emend.Expression
