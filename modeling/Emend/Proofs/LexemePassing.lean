import Emend.Proofs.LexemeReading

/-! A reading that knows of no groups and no names reads a reference as units that mean themselves.
However the reference is written, such a reading passes over it without a parenthesis and comes to a
stop at its end. -/

namespace Emend.Expression

open Text

abbrev Survey.bare : Survey := ⟨0, []⟩

def Lexeme.isParen : Lexeme → Bool
  | .opening _ | .closing => true
  | _ => false

def parens (pieces : List Lexeme) : List Lexeme := pieces.filter Lexeme.isParen

theorem parens_append (front back : List Lexeme) :
    parens (front ++ back) = parens front ++ parens back :=
  List.filter_append ..

/-- A reading that knows nothing gets from a text to one of its suffixes without a parenthesis. -/
def Passes (t left : Text) : Prop :=
  ∃ pieces, Reads .bare t pieces left ∧ parens pieces = []

theorem Passes.trans {t middle left : Text} (front : Passes t middle) (back : Passes middle left) :
    Passes t left := by
  obtain ⟨first, read, flat⟩ := front
  obtain ⟨second, readOn, flatOn⟩ := back
  exact ⟨first ++ second, read.append readOn, by rw [parens_append, flat, flatOn]; rfl⟩

theorem Passes.of_lexeme {u : UInt16} {rest : Text} {first : Lexeme} {extra : Nat}
    (read : LexemeReads .bare u rest first extra) (flat : first.isParen = false) :
    Passes (u :: rest) (rest.drop extra) :=
  ⟨[first], .next read.result (.done _), by simp [parens, flat]⟩

theorem reads_plain (survey : Survey) {front : Text} (plain : ∀ u ∈ front, u ∉ leadingUnits)
    (left : Text) :
    Reads survey (front ++ left) (front.map fun u => .atom (.unit (.single u))) left := by
  induction front with
  | nil => exact .done left
  | cons u front ih =>
    apply Reads.next (lexeme_plain survey _ (plain u (List.mem_cons_self ..)))
    exact ih fun v member => plain v (List.mem_cons_of_mem _ member)

theorem Passes.plain (front : Text) (plain : ∀ u ∈ front, u ∉ leadingUnits) (left : Text) :
    Passes (front ++ left) left := by
  refine ⟨_, reads_plain .bare plain left, ?_⟩
  rw [parens, List.filter_eq_nil_iff]
  intro piece member
  obtain ⟨u, _, rfl⟩ := List.mem_map.mp member
  exact Bool.false_ne_true

theorem isDigit_plain {u : UInt16} (digit : isDigit u = true) : u ∉ leadingUnits := by
  intro leading
  simp only [leadingUnits, List.mem_cons, List.not_mem_nil, or_false] at leading
  rcases leading with rfl | rfl | rfl | rfl | rfl | rfl | rfl | rfl | rfl | rfl | rfl | rfl <;>
    exact absurd digit (by decide)

theorem octal_digits (first : UInt16) (rest : Text) :
    (octal first rest).2 ≤ (rest.takeWhile isDigit).length := by
  have digit {u : UInt16} (octal : (0x30 ≤ u && u ≤ 0x37) = true) : isDigit u = true := by
    simp only [Bool.and_eq_true, decide_eq_true_eq, isDigit] at octal ⊢
    exact ⟨octal.1, UInt16.le_trans octal.2 (by decide)⟩
  cases rest with
  | nil => exact Nat.le_refl 0
  | cons second more =>
    by_cases two : (0x30 ≤ second && second ≤ 0x37) = true
    · cases more with
      | nil => simp [octal, two, digit two]
      | cons third more =>
        simp only [octal, two, if_true, List.takeWhile_cons_of_pos (digit two), List.length_cons]
        split
        next three =>
          have last := digit (Bool.and_eq_true _ _ ▸ three).2
          rw [List.takeWhile_cons_of_pos last, List.length_cons]
          omega
        next => omega
    · simp [octal, two]

private theorem le_foldl_digits (digits : Text) (value : Nat) :
    value ≤ digits.foldl (fun value u => value * 10 + digitValue u) value := by
  induction digits generalizing value with
  | nil => exact Nat.le_refl _
  | cons u digits ih =>
    exact Nat.le_trans (by dsimp only; omega) (ih _)

theorem decimalValue_pos {u : UInt16} (digits : Text) (first : 0x31 ≤ u) :
    0 < decimalValue (u :: digits) := by
  apply Nat.lt_of_lt_of_le _ (le_foldl_digits digits _)
  have size : 0x31 ≤ u.toNat := first
  simp only [digitValue]
  omega

/-- Unless it may be a reference, an escape of a digit is an octal one or the digit itself. -/
theorem escapeLexeme_digit {u : UInt16} (rest : Text) (digit : (0x31 ≤ u && u ≤ 0x39) = true) :
    ∃ v extra, escapeLexeme .bare u rest = .ok (.atom (.unit (.single v)), extra + 1) ∧
      extra ≤ (rest.takeWhile isDigit).length := by
  simp only [Bool.and_eq_true, decide_eq_true_eq] at digit
  obtain ⟨first, last⟩ := digit
  have positive := decimalValue_pos (rest.takeWhile isDigit) first
  have differs (v : UInt16) (beyond : ¬ v ≤ 0x39) : u ≠ v := fun same => beyond (same ▸ last)
  have control : controlLetter? u = none := by
    simp [controlLetter?, differs 0x66 (by decide), differs 0x6E (by decide),
      differs 0x72 (by decide), differs 0x74 (by decide), differs 0x76 (by decide)]
  have shape : ∃ v extra, unitEscape isLetter u rest = (v, some extra) ∧
      extra ≤ (rest.takeWhile isDigit).length := by
    simp only [unitEscape, control, differs 0x63 (by decide), differs 0x78 (by decide),
      differs 0x75 (by decide), if_false]
    split
    next => exact ⟨_, _, rfl, octal_digits u rest⟩
    next => exact ⟨u, 0, rfl, Nat.zero_le _⟩
  obtain ⟨v, extra, escape, inside⟩ := shape
  refine ⟨v, extra, ?_, inside⟩
  simp only [escapeLexeme, escape, differs 0x62 (by decide), differs 0x42 (by decide), first, last,
    if_false, decide_true, Bool.and_self, if_true]
  rw [if_neg (Nat.not_le.mpr positive)]

/-- The digits of a numeric reference hold no parenthesis. -/
theorem passes_digits {u : UInt16} (rest : Text) (digit : (0x31 ≤ u && u ≤ 0x39) = true) :
    Passes (backslash :: u :: rest) (rest.drop (rest.takeWhile isDigit).length) := by
  obtain ⟨v, extra, read, inside⟩ := escapeLexeme_digit rest digit
  have front := Passes.of_lexeme (.escape read) rfl
  have all : ∀ w ∈ rest.takeWhile isDigit, w ∉ leadingUnits := fun w member =>
    isDigit_plain (List.all_eq_true.mp List.all_takeWhile w member)
  have back := Passes.plain ((rest.takeWhile isDigit).drop extra)
    (fun w member => all w (List.mem_of_mem_drop member))
    (rest.drop (rest.takeWhile isDigit).length)
  rw [← List.drop_append_of_le_length inside,
    List.prefix_iff_eq_append.mp (List.takeWhile_prefix isDigit)] at back
  exact front.trans back

theorem escapeLexeme_hex (rest : Text) :
    escapeLexeme .bare 0x75 rest = match hexDigits? 4 rest with
      | some value => .ok (.atom (.unit (.single (UInt16.ofNat value))), 5)
      | none => .ok (.atom (.unit (.single 0x75)), 1) := by
  have escape : unitEscape isLetter 0x75 rest = match hexDigits? 4 rest with
      | some value => (UInt16.ofNat value, some 4)
      | none => (0x75, some 0) := rfl
  have plain : escapeLexeme .bare 0x75 rest = .ok (.atom (.unit (.single (unitEscape isLetter 0x75 rest).1)),
      match (unitEscape isLetter 0x75 rest).2 with
      | some extra => extra + 1
      | none => 0) := rfl
  rw [plain, escape]
  cases hexDigits? 4 rest <;> rfl

theorem passes_hex {value : Nat} {rest : Text} (digits : hexDigits? 4 rest = some value) :
    Passes (backslash :: 0x75 :: rest) (rest.drop 4) := by
  have read : escapeLexeme .bare 0x75 rest = .ok (.atom (.unit (.single (UInt16.ofNat value))), 5) := by
    rw [escapeLexeme_hex, digits]
  exact .of_lexeme (.escape read) rfl

private theorem hexValue_outside {u : UInt16} (hex : (hexValue? u).isSome = true) :
    u ∉ leadingUnits ∧ u ≠ comma ∧ u ≠ closeBrace := by
  refine ⟨fun leading => ?_, ?_, ?_⟩
  · simp only [leadingUnits, List.mem_cons, List.not_mem_nil, or_false] at leading
    rcases leading with rfl | rfl | rfl | rfl | rfl | rfl | rfl | rfl | rfl | rfl | rfl | rfl <;>
      exact absurd hex (by decide)
  · rintro rfl
    exact absurd hex (by decide)
  · rintro rfl
    exact absurd hex (by decide)

theorem quantifierLexeme_greedy (least : Nat) (most : Option Nat) (rest : Text) (extra : Nat)
    (next : (rest.drop extra).head? ≠ some question) :
    quantifierLexeme least most rest extra = (.quantifier least most true, extra) := by
  unfold quantifierLexeme
  split
  next shape => exact absurd (by rw [shape]; rfl) next
  next => rfl

private theorem interval?_none_of_letter {digits : Text}
    (hex : ∀ u ∈ digits, (hexValue? u).isSome = true) (letter : ¬ ∀ u ∈ digits, isDigit u = true)
    (after : Text) : interval? (digits ++ after) = none := by
  have parts := List.takeWhile_append_dropWhile (p := isDigit) (l := digits)
  have front : ∀ u ∈ digits.takeWhile isDigit, isDigit u = true := fun u member =>
    List.all_eq_true.mp List.all_takeWhile u member
  cases back : digits.dropWhile isDigit with
  | nil =>
    rw [back, List.append_nil] at parts
    rw [parts] at front
    exact absurd front letter
  | cons u more =>
    have first : ¬ isDigit u = true := by
      have := List.head?_dropWhile_not isDigit digits
      rw [back] at this
      simpa using this
    rw [back] at parts
    obtain ⟨_, separator, brace⟩ := hexValue_outside (hex u (by rw [← parts]; simp))
    have whole : digits ++ after = digits.takeWhile isDigit ++ u :: (more ++ after) := by
      rw [← List.cons_append, ← List.append_assoc, parts]
    have lower : (digits ++ after).takeWhile isDigit = digits.takeWhile isDigit := by
      rw [whole, List.takeWhile_append_of_pos front, List.takeWhile_cons_of_neg first,
        List.append_nil]
    have left : (digits ++ after).drop (digits.takeWhile isDigit).length = u :: (more ++ after) := by
      rw [whole, List.drop_left]
    have closed (least : Nat) : upperBound? least (u :: (more ++ after)) = none := by
      unfold upperBound?
      split
      next same => exact absurd (List.cons.inj same).1 brace
      next same => exact absurd (List.cons.inj same).1 separator
      next => rfl
    simp only [interval?, lower, left, closed, Option.map_none, ite_self]

/-- Decimal digits never write the code of the closing angle in hexadecimal. -/
private theorem hexadecimal_ne_angle {digits : Text} (nonempty : digits ≠ [])
    (decimal : ∀ u ∈ digits, isDigit u = true) :
    digits.foldl (fun value u => value * 16 + (hexValue? u).getD 0) 0 ≠ 0x3E := by
  obtain rfl | ⟨front, last, rfl⟩ := List.eq_nil_or_concat digits
  · exact absurd rfl nonempty
  · have digit := decimal last (by simp)
    have value : (hexValue? last).getD 0 ≤ 9 := by
      simp only [hexValue?, digit, if_true, Option.getD_some]
      simp only [isDigit, Bool.and_eq_true, decide_eq_true_eq] at digit
      have top : last.toNat ≤ 0x39 := digit.2
      omega
    rw [List.concat_eq_append, List.foldl_append, List.foldl_cons, List.foldl_nil]
    omega

/-- The braces of an escaped code are an interval or mean themselves. -/
theorem passes_braced {t : Text} {code count : Nat} (read : bracedCode? t = some (code, count))
    (next : code = 0x3E ∨ (t.drop count).head? ≠ some question) : Passes (openBrace :: t) (t.drop count) := by
  simp only [bracedCode?] at read
  have hex : ∀ u ∈ t.takeWhile (fun u => (hexValue? u).isSome), (hexValue? u).isSome = true := fun u member =>
    List.all_eq_true.mp List.all_takeWhile u member
  obtain ⟨left, shape⟩ := List.takeWhile_prefix (fun u => (hexValue? u).isSome) (l := t)
  generalize t.takeWhile (fun u => (hexValue? u).isSome) = digits at read hex shape
  split at read
  next closed =>
    simp only [Bool.and_eq_true, decide_eq_true_eq, Bool.not_eq_true', List.isEmpty_eq_false_iff]
      at closed
    obtain ⟨⟨nonempty, brace⟩, _⟩ := closed
    obtain ⟨rfl, rfl⟩ := Prod.mk.inj (Option.some.inj read)
    subst shape
    rw [List.getElem?_append_right (Nat.le_refl _), Nat.sub_self, ← List.head?_eq_getElem?] at brace
    obtain ⟨after, rfl⟩ := List.head?_eq_some_iff.mp brace
    have stop : (digits ++ closeBrace :: after).drop (digits.length + 1) = after := by simp
    rw [stop] at next ⊢
    by_cases decimal : ∀ u ∈ digits, isDigit u = true
    · have apart := next.resolve_left (hexadecimal_ne_angle nonempty decimal)
      have lower : (digits ++ closeBrace :: after).takeWhile isDigit = digits := by
        rw [List.takeWhile_append_of_pos decimal, List.takeWhile_cons_of_neg (by decide),
          List.append_nil]
      have bounds : interval? (digits ++ closeBrace :: after) =
          some ((countValue digits, some (countValue digits)), digits.length + 1) := by
        simp only [interval?, lower, List.isEmpty_eq_false_iff.mpr nonempty, List.drop_left]
        rfl
      have greedy := quantifierLexeme_greedy (countValue digits) (some (countValue digits))
        (digits ++ closeBrace :: after) (digits.length + 1) (by rwa [stop])
      have read : LexemeReads .bare openBrace (digits ++ closeBrace :: after) _ _ :=
        .interval bounds (by simp)
      rw [greedy] at read
      have passed := Passes.of_lexeme read rfl
      rwa [stop] at passed
    · have apart := interval?_none_of_letter hex decimal (closeBrace :: after)
      have front := Passes.of_lexeme (.brace apart) rfl
      rw [List.drop_zero] at front
      have back := Passes.plain (digits ++ [closeBrace]) (fun u member => by
        rcases List.mem_append.mp member with inside | last
        · exact (hexValue_outside (hex u inside)).1
        · rw [List.mem_singleton.mp last]
          decide) after
      rw [List.append_assoc, List.singleton_append] at back
      exact front.trans back
  next => cases read

theorem passes_unit {u : UInt16} (rest : Text)
    (member : continuesName u.toNat = true ∨ u.toNat = 0x3E) : Passes (u :: rest) rest := by
  by_cases dollar : u = dollar
  · subst dollar
    exact .of_lexeme (.stop rest) rfl
  · have plain : u ∉ leadingUnits := by
      intro leading
      simp only [leadingUnits, List.mem_cons, List.not_mem_nil, or_false, dollar, false_or] at leading
      rcases leading with rfl | rfl | rfl | rfl | rfl | rfl | rfl | rfl | rfl | rfl | rfl <;>
        exact absurd member (by decide)
    exact .of_lexeme (.plain rest plain) rfl

private theorem surrogate_plain {u : UInt16} (high : 0xD800 ≤ u) : u ∉ leadingUnits := by
  intro leading
  simp only [leadingUnits, List.mem_cons, List.not_mem_nil, or_false] at leading
  rcases leading with rfl | rfl | rfl | rfl | rfl | rfl | rfl | rfl | rfl | rfl | rfl | rfl <;>
    exact absurd high (by decide)

theorem passes_escapedCode {t : Text} {code count : Nat} (read : escapedCode? t = some (code, count))
    (next : code = 0x3E ∨ (t.drop count).head? ≠ some question) :
    Passes (backslash :: 0x75 :: t) (t.drop count) := by
  unfold escapedCode? at read
  split at read
  next braced =>
    obtain ⟨rest, rfl⟩ := List.head?_eq_some_iff.mp braced
    obtain ⟨⟨_, inner⟩, found, same⟩ := Option.map_eq_some_iff.mp read
    obtain ⟨rfl, rfl⟩ := Prod.mk.inj same
    have letter : escapeLexeme .bare 0x75 (openBrace :: rest) = .ok (.atom (.unit (.single 0x75)), 1) := by
      rw [escapeLexeme_hex]
      rfl
    exact (Passes.of_lexeme (.escape letter) rfl).trans (passes_braced found next)
  next =>
    rw [Option.bind_eq_bind, Option.bind_eq_some_iff] at read
    obtain ⟨high, first, read⟩ := read
    split at read
    next low second =>
      split at read
      next =>
        obtain ⟨_, rfl⟩ := Prod.mk.inj (Option.some.inj read)
        simp only [escapeAfter?] at second
        split at second
        next mark =>
          have shape := List.take_append_drop 2 (t.drop 4)
          rw [mark, List.drop_drop] at shape
          rw [List.drop_drop] at second
          have back := passes_hex second
          rw [List.drop_drop] at back
          have front := passes_hex first
          rw [← shape] at front
          exact front.trans back
        next => cases second
      next =>
        obtain ⟨_, rfl⟩ := Prod.mk.inj (Option.some.inj read)
        exact passes_hex first
    next =>
      obtain ⟨_, rfl⟩ := Prod.mk.inj (Option.some.inj read)
      exact passes_hex first

theorem continuesName_of_beginsName {code : Nat} (begins : beginsName code = true) :
    continuesName code = true := by
  unfold beginsName at begins
  unfold continuesName
  split at begins
  next ascii =>
    simp only [Bool.or_eq_true, beq_iff_eq] at begins
    rw [if_pos ascii]
    rcases begins with (letter | rfl) | rfl
    · simp [isWord, letter]
    · rfl
    · rfl
  next beyond => rw [if_neg beyond, begins, Bool.true_or]

theorem passes_codePoint {u : UInt16} {rest : Text} {code extra : Nat}
    (read : codePoint? u rest = some (code, extra))
    (member : continuesName code = true ∨ code = 0x3E)
    (next : code = 0x3E ∨ (rest.drop extra).head? ≠ some question) :
    Passes (u :: rest) (rest.drop extra) := by
  unfold codePoint? at read
  split at read
  next more =>
    obtain ⟨⟨_, inner⟩, found, same⟩ := Option.map_eq_some_iff.mp read
    obtain ⟨rfl, rfl⟩ := Prod.mk.inj same
    exact passes_escapedCode found next
  next => cases read
  next v more _ _ =>
    split at read
    next pair =>
      obtain ⟨_, rfl⟩ := Prod.mk.inj (Option.some.inj read)
      simp only [isHighSurrogate, isLowSurrogate, Bool.and_eq_true, decide_eq_true_eq] at pair
      have low : (0xD800 : UInt16) ≤ v := UInt16.le_trans (by decide) pair.2.1
      refine Passes.plain [u, v] ?_ more
      intro w among
      rcases List.mem_cons.mp among with rfl | among
      · exact surrogate_plain pair.1.1
      · rw [List.mem_singleton.mp among]
        exact surrogate_plain low
    next =>
      obtain ⟨rfl, rfl⟩ := Prod.mk.inj (Option.some.inj read)
      exact passes_unit _ member
  next =>
    obtain ⟨rfl, rfl⟩ := Prod.mk.inj (Option.some.inj read)
    exact passes_unit _ member

private theorem codePoint?_question (rest : Text) : codePoint? question rest = some (0x3F, 0) := by
  cases rest <;> rfl

theorem passes_nameTail (size : Nat) {t name : Text} {count : Nat} (short : t.length ≤ size)
    (read : nameTail? t = some (name, count)) :
    Passes t (t.drop count) ∧ t.head? ≠ some question := by
  induction size generalizing t name count with
  | zero =>
    obtain rfl := List.length_eq_zero_iff.mp (Nat.le_zero.mp short)
    rw [nameTail?] at read
    cases read
  | succ size ih =>
    cases t with
    | nil =>
      rw [nameTail?] at read
      cases read
    | cons u rest =>
      rw [nameTail?, Option.bind_eq_bind, Option.bind_eq_some_iff] at read
      obtain ⟨⟨code, extra⟩, point, read⟩ := read
      simp only at read
      split at read
      next closed =>
        obtain ⟨rfl, rfl⟩ := Prod.mk.inj (Option.some.inj read)
        refine ⟨passes_codePoint point (.inr closed) (.inl closed), ?_⟩
        intro same
        obtain rfl := Option.some.inj same
        rw [codePoint?_question] at point
        obtain ⟨rfl, _⟩ := Prod.mk.inj (Option.some.inj point)
        exact absurd closed (by decide)
      next =>
        split at read
        next continues =>
          rw [Option.bind_eq_bind, Option.bind_eq_some_iff] at read
          obtain ⟨⟨others, more⟩, found, read⟩ := read
          obtain ⟨rfl, rfl⟩ := Prod.mk.inj (Option.some.inj read)
          have shorter : (rest.drop extra).length ≤ size := by
            rw [List.length_drop]
            rw [List.length_cons] at short
            omega
          obtain ⟨back, next⟩ := ih shorter found
          have front := passes_codePoint point (.inl continues) (.inr next)
          refine ⟨?_, ?_⟩
          · rw [List.drop_drop] at back
            have whole := front.trans back
            rwa [show extra + 1 + more = (extra + more) + 1 by omega, List.drop_succ_cons]
          · intro same
            obtain rfl := Option.some.inj same
            rw [codePoint?_question] at point
            obtain ⟨rfl, _⟩ := Prod.mk.inj (Option.some.inj point)
            exact absurd continues (by decide)
        next => cases read

theorem passes_groupName {t name : Text} {count : Nat} (read : groupName? t = some (name, count)) :
    Passes t (t.drop count) := by
  cases t with
  | nil => cases read
  | cons u rest =>
    rw [groupName?, Option.bind_eq_bind, Option.bind_eq_some_iff] at read
    obtain ⟨⟨code, extra⟩, point, read⟩ := read
    simp only at read
    split at read
    next begins =>
      rw [Option.bind_eq_bind, Option.bind_eq_some_iff] at read
      obtain ⟨⟨others, more⟩, found, read⟩ := read
      obtain ⟨rfl, rfl⟩ := Prod.mk.inj (Option.some.inj read)
      obtain ⟨back, next⟩ := passes_nameTail _ (Nat.le_refl _) found
      have front := passes_codePoint point (.inl (continuesName_of_beginsName begins)) (.inr next)
      rw [List.drop_drop] at back
      rw [show extra + 1 + more = (extra + more) + 1 by omega, List.drop_succ_cons]
      exact front.trans back
    next => cases read

end Emend.Expression
