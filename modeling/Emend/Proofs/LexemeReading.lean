import Emend.Expression.Lexeme

/-! Reading lexemes piece by piece. A text is read up to a suffix when the lexer comes to a stop
exactly there; what is read up to a suffix does not depend on how the reading is grouped. The
members of a class have a reading of their own, one case for each way to go on. -/

namespace Emend.Expression

open Text

inductive Reads (survey : Survey) : Text → List Lexeme → Text → Prop where
  | done (t : Text) : Reads survey t [] t
  | next {u : UInt16} {rest left : Text} {first : Lexeme} {others : List Lexeme} {extra : Nat}
      (front : lexeme survey u rest = .ok (first, extra))
      (back : Reads survey (rest.drop extra) others left) : Reads survey (u :: rest) (first :: others) left

theorem lexemes_nil (survey : Survey) : lexemes survey [] = .ok [] := by
  rw [lexemes]

theorem lexemes_cons (survey : Survey) (u : UInt16) (rest : Text) :
    lexemes survey (u :: rest) = (do
      let (first, extra) ← lexeme survey u rest
      let others ← lexemes survey (rest.drop extra)
      .ok (first :: others)) := by
  rw [lexemes]

namespace Reads

variable {survey : Survey}

theorem append {t middle left : Text} {first second : List Lexeme}
    (front : Reads survey t first middle) (back : Reads survey middle second left) :
    Reads survey t (first ++ second) left := by
  induction front with
  | done => exact back
  | next head _ ih => exact .next head (ih back)

theorem finish {t middle : Text} {first second : List Lexeme} (front : Reads survey t first middle)
    (back : lexemes survey middle = .ok second) : lexemes survey t = .ok (first ++ second) := by
  induction front with
  | done => exact back
  | next head _ ih =>
    rw [lexemes_cons, head]
    simp only [bind, Except.bind, ih back, List.cons_append]

/-- Two readings of one text agree as far as both go. -/
theorem total {t one two : Text} {first second : List Lexeme} (left : Reads survey t first one)
    (right : Reads survey t second two) :
    (∃ more, second = first ++ more ∧ Reads survey one more two) ∨
      ∃ more, first = second ++ more ∧ Reads survey two more one := by
  induction left generalizing second with
  | done => exact .inl ⟨second, rfl, right⟩
  | next head back ih =>
    cases right with
    | done => exact .inr ⟨_, rfl, .next head back⟩
    | next other rest =>
      obtain ⟨rfl, rfl⟩ := Prod.mk.inj (Except.ok.inj (head.symm.trans other))
      rcases ih rest with ⟨more, rfl, further⟩ | ⟨more, rfl, further⟩
      · exact .inl ⟨more, rfl, further⟩
      · exact .inr ⟨more, rfl, further⟩

theorem length {t left : Text} {pieces : List Lexeme} (read : Reads survey t pieces left) :
    pieces.length + left.length ≤ t.length := by
  induction read with
  | done => simp
  | next _ _ ih =>
    rw [List.length_drop] at ih
    simp only [List.length_cons]
    omega

theorem unique {t left : Text} {first second : List Lexeme} (one : Reads survey t first left)
    (two : Reads survey t second left) : first = second := by
  have nothing {more : List Lexeme} (read : Reads survey left more left) : more = [] :=
    List.length_eq_zero_iff.mp (by have := read.length; omega)
  rcases one.total two with ⟨more, rfl, further⟩ | ⟨more, rfl, further⟩
  · rw [nothing further, List.append_nil]
  · rw [nothing further, List.append_nil]

/-- A complete reading goes on where a reading of the front has stopped. -/
theorem rest {t middle : Text} {first pieces : List Lexeme} (front : Reads survey t first middle)
    (whole : Reads survey t pieces []) : ∃ more, pieces = first ++ more ∧ Reads survey middle more [] := by
  rcases front.total whole with ⟨more, same, back⟩ | ⟨more, same, back⟩
  · exact ⟨more, same, back⟩
  · cases back
    exact ⟨[], by rw [same, List.append_nil, List.append_nil], .done []⟩

end Reads

theorem bind_eq_ok {ε α β : Type} {first : Except ε α} {next : α → Except ε β} {result : β} :
    (first >>= next) = .ok result ↔ ∃ value, first = .ok value ∧ next value = .ok result := by
  cases first <;> simp [bind, Except.bind]

theorem reads_of_lexemes {survey : Survey} (size : Nat) {t : Text} {pieces : List Lexeme}
    (short : t.length ≤ size) (read : lexemes survey t = .ok pieces) : Reads survey t pieces [] := by
  induction size generalizing t pieces with
  | zero =>
    obtain rfl := List.length_eq_zero_iff.mp (Nat.le_zero.mp short)
    rw [lexemes_nil] at read
    obtain rfl := Except.ok.inj read
    exact .done []
  | succ size ih =>
    cases t with
    | nil =>
      rw [lexemes_nil] at read
      obtain rfl := Except.ok.inj read
      exact .done []
    | cons u rest =>
      rw [lexemes_cons] at read
      cases front : lexeme survey u rest with
      | error => simp [front, bind, Except.bind] at read
      | ok pair =>
        obtain ⟨first, extra⟩ := pair
        simp only [front, bind, Except.bind] at read
        cases back : lexemes survey (rest.drop extra) with
        | error => simp [back] at read
        | ok others =>
          simp only [back] at read
          obtain rfl := Except.ok.inj read
          refine .next front (ih ?_ back)
          rw [List.length_drop]
          rw [List.length_cons] at short
          omega

theorem lexemes_eq_ok_iff {survey : Survey} {t : Text} {pieces : List Lexeme} :
    lexemes survey t = .ok pieces ↔ Reads survey t pieces [] := by
  constructor
  · exact reads_of_lexemes t.length (Nat.le_refl _)
  · intro read
    simpa using read.finish (lexemes_nil survey)

/-- The members of a class as they are read, one constructor for each way to go on. -/
inductive ClassReads (survey : Survey) : Text → UnitSet → Nat → Prop where
  | closed (rest : Text) : ClassReads survey (closeBracket :: rest) .empty 1
  | single {u : UInt16} {rest : Text} {left : Member} {extra count : Nat} {others : UnitSet}
      (inside : u ≠ closeBracket) (member : classMember survey u rest = .ok (left, extra))
      (apart : (rest.drop extra).head? ≠ some hyphen)
      (back : ClassReads survey (rest.drop extra) others count) :
      ClassReads survey (u :: rest) (.merge left.toSet others) (extra + 1 + count)
  | last {u : UInt16} {rest more : Text} {left : Member} {extra : Nat}
      (inside : u ≠ closeBracket) (member : classMember survey u rest = .ok (left, extra))
      (mark : rest.drop extra = hyphen :: closeBracket :: more) :
      ClassReads survey (u :: rest) (.merge left.toSet (.single hyphen)) (extra + 3)
  | range {u v : UInt16} {rest more : Text} {left right : Member} {extra extraRight count : Nat}
      {set others : UnitSet}
      (inside : u ≠ closeBracket) (member : classMember survey u rest = .ok (left, extra))
      (mark : rest.drop extra = hyphen :: v :: more) (inner : v ≠ closeBracket)
      (second : classMember survey v more = .ok (right, extraRight))
      (between : rangeOf left right = .ok set)
      (back : ClassReads survey (more.drop extraRight) others count) :
      ClassReads survey (u :: rest) (.merge set others) (extra + 3 + extraRight + count)

theorem classMembers_nil (survey : Survey) :
    classMembers survey [] = .error .unterminatedClass := by
  rw [classMembers]

theorem classMembers_cons (survey : Survey) (u : UInt16) (rest : Text) :
    classMembers survey (u :: rest) =
      if u = closeBracket then .ok (.empty, 1)
      else (do
        let (left, extra) ← classMember survey u rest
        match rest.drop extra with
        | w :: v :: more =>
          if w = hyphen then
            if v = closeBracket then .ok (.merge left.toSet (.single hyphen), extra + 3)
            else
              let (right, extraRight) ← classMember survey v more
              let set ← rangeOf left right
              let (others, count) ← classMembers survey (more.drop extraRight)
              .ok (.merge set others, extra + 3 + extraRight + count)
          else
            let (others, count) ← classMembers survey (w :: v :: more)
            .ok (.merge left.toSet others, extra + 1 + count)
        | few =>
          let (others, count) ← classMembers survey few
          .ok (.merge left.toSet others, extra + 1 + count)) := by
  rw [classMembers]
  split
  next => rfl
  next =>
    apply bind_congr
    intro pair
    obtain ⟨left, extra⟩ := pair
    dsimp only
    split <;> rename_i shape <;> simp only [shape]

private theorem classMembers_hyphen (survey : Survey) :
    classMembers survey [hyphen] = .error .unterminatedClass := by
  rw [classMembers_cons]
  show classMembers survey [] >>= _ = _
  rw [classMembers_nil]
  rfl

theorem ClassReads.result {survey : Survey} {t : Text} {set : UnitSet} {count : Nat}
    (read : ClassReads survey t set count) : classMembers survey t = .ok (set, count) := by
  induction read with
  | closed rest => rw [classMembers_cons, if_pos rfl]
  | @single u rest left extra count others inside member apart _ ih =>
    rw [classMembers_cons, if_neg inside, member]
    simp only [bind, Except.bind]
    split
    next w v more shape =>
      rw [shape] at apart ih
      rw [if_neg (fun same => apart (congrArg some same)), ih]
    next => rw [ih]
  | last inside member mark =>
    rw [classMembers_cons, if_neg inside, member]
    simp only [bind, Except.bind, mark, if_true]
  | range inside member mark inner second between _ ih =>
    rw [classMembers_cons, if_neg inside, member]
    simp only [bind, Except.bind, mark, if_true, inner, if_false, second, between, ih]

theorem classReads_of_result {survey : Survey} (size : Nat) {t : Text} {set : UnitSet} {count : Nat}
    (short : t.length ≤ size) (read : classMembers survey t = .ok (set, count)) :
    ClassReads survey t set count := by
  induction size generalizing t set count with
  | zero =>
    obtain rfl := List.length_eq_zero_iff.mp (Nat.le_zero.mp short)
    rw [classMembers_nil] at read
    cases read
  | succ size ih =>
    cases t with
    | nil =>
      rw [classMembers_nil] at read
      cases read
    | cons u rest =>
      rw [List.length_cons] at short
      rw [classMembers_cons] at read
      split at read
      next closed =>
        obtain ⟨rfl, rfl⟩ := Prod.mk.inj (Except.ok.inj read)
        rw [closed]
        exact .closed rest
      next inside =>
        obtain ⟨⟨left, extra⟩, member, read⟩ := bind_eq_ok.mp read
        have remaining := List.length_drop (i := extra) (l := rest)
        simp only at read
        split at read
        next w v more shape =>
          rw [shape, List.length_cons, List.length_cons] at remaining
          split at read
          next mark =>
            subst mark
            split at read
            next closed =>
              subst closed
              obtain ⟨rfl, rfl⟩ := Prod.mk.inj (Except.ok.inj read)
              exact .last inside member shape
            next inner =>
              obtain ⟨⟨right, extraRight⟩, second, read⟩ := bind_eq_ok.mp read
              obtain ⟨range, between, read⟩ := bind_eq_ok.mp read
              obtain ⟨⟨others, further⟩, back, read⟩ := bind_eq_ok.mp read
              obtain ⟨rfl, rfl⟩ := Prod.mk.inj (Except.ok.inj read)
              refine .range inside member shape inner second between (ih ?_ back)
              rw [List.length_drop]
              omega
          next apart =>
            obtain ⟨⟨others, further⟩, back, read⟩ := bind_eq_ok.mp read
            obtain ⟨rfl, rfl⟩ := Prod.mk.inj (Except.ok.inj read)
            rw [← shape] at back
            refine .single inside member ?_ (ih ?_ back)
            · rw [shape]
              exact fun same => apart (Option.some.inj same)
            · rw [shape, List.length_cons, List.length_cons]
              omega
        next few =>
          obtain ⟨⟨others, further⟩, back, read⟩ := bind_eq_ok.mp read
          obtain ⟨rfl, rfl⟩ := Prod.mk.inj (Except.ok.inj read)
          refine .single inside member ?_ (ih ?_ back)
          · intro mark
            obtain ⟨more, shape⟩ := List.head?_eq_some_iff.mp mark
            cases more with
            | nil =>
              rw [shape, classMembers_hyphen] at back
              cases back
            | cons v more => exact few hyphen v more shape
          · omega

theorem classMembers_eq_ok_iff {survey : Survey} {t : Text} {set : UnitSet} {count : Nat} :
    classMembers survey t = .ok (set, count) ↔ ClassReads survey t set count :=
  ⟨classReads_of_result t.length (Nat.le_refl _), ClassReads.result⟩

/-- The units that begin something other than themselves. -/
def leadingUnits : Text :=
  [openParen, closeParen, bar, caret, dollar, dot, star, plus, question, openBrace, openBracket,
    backslash]

def repetition? (u : UInt16) : Option (Nat × Option Nat) :=
  if u = star then some (0, none)
  else if u = plus then some (1, none)
  else if u = question then some (0, some 1)
  else none

/-- A lexeme as it is read, one constructor for each kind of first unit. -/
inductive LexemeReads (survey : Survey) : UInt16 → Text → Lexeme → Nat → Prop where
  | opening {rest : Text} {first : Lexeme} {extra : Nat}
      (read : openingLexeme rest = .ok (first, extra)) : LexemeReads survey openParen rest first extra
  | closing (rest : Text) : LexemeReads survey closeParen rest .closing 0
  | bar (rest : Text) : LexemeReads survey Text.bar rest .bar 0
  | start (rest : Text) : LexemeReads survey caret rest (.assertion .start) 0
  | stop (rest : Text) : LexemeReads survey dollar rest (.assertion .stop) 0
  | dot (rest : Text) :
      LexemeReads survey Text.dot rest (.atom (.unit (.complement .lineTerminator))) 0
  | repetition {u : UInt16} {least : Nat} {most : Option Nat} (rest : Text)
      (bounds : repetition? u = some (least, most)) :
      LexemeReads survey u rest (quantifierLexeme least most rest 0).1
        (quantifierLexeme least most rest 0).2
  | interval {rest : Text} {least extra : Nat} {most : Option Nat}
      (bounds : interval? rest = some ((least, most), extra))
      (ordered : most.any (· < least) = false) :
      LexemeReads survey openBrace rest (quantifierLexeme least most rest extra).1
        (quantifierLexeme least most rest extra).2
  | brace {rest : Text} (bounds : interval? rest = none) :
      LexemeReads survey openBrace rest (.atom (.unit (.single openBrace))) 0
  | class {rest : Text} {set : UnitSet} {count : Nat} (plain : rest.head? ≠ some caret)
      (members : ClassReads survey rest set count) :
      LexemeReads survey openBracket rest (.atom (.unit set)) count
  | otherClass {rest : Text} {set : UnitSet} {count : Nat} (members : ClassReads survey rest set count) :
      LexemeReads survey openBracket (caret :: rest) (.atom (.unit (.complement set))) (count + 1)
  | escape {v : UInt16} {rest : Text} {first : Lexeme} {extra : Nat}
      (read : escapeLexeme survey v rest = .ok (first, extra)) :
      LexemeReads survey backslash (v :: rest) first extra
  | plain {u : UInt16} (rest : Text) (plain : u ∉ leadingUnits) :
      LexemeReads survey u rest (.atom (.unit (.single u))) 0

theorem lexeme_brace (survey : Survey) {rest : Text} (bounds : interval? rest = none) :
    lexeme survey openBrace rest = .ok (.atom (.unit (.single openBrace)), 0) := by
  unfold lexeme
  rw [bounds]
  rfl

theorem lexeme_interval (survey : Survey) {rest : Text} {least extra : Nat} {most : Option Nat}
    (bounds : interval? rest = some ((least, most), extra)) :
    lexeme survey openBrace rest =
      if most.any (· < least) then .error .bracesOutOfOrder else .ok (quantifierLexeme least most rest extra) := by
  unfold lexeme
  rw [bounds]
  rfl

theorem lexeme_class (survey : Survey) {rest : Text} (plain : rest.head? ≠ some caret) :
    lexeme survey openBracket rest = (do
      let (set, count) ← classMembers survey rest
      .ok (.atom (.unit set), count)) := by
  unfold lexeme
  simp (disch := decide) only [if_neg, if_pos]
  split
  next => exact absurd rfl plain
  next => rfl

theorem lexeme_plain (survey : Survey) {u : UInt16} (rest : Text) (plain : u ∉ leadingUnits) :
    lexeme survey u rest = .ok (.atom (.unit (.single u)), 0) := by
  simp only [leadingUnits, List.mem_cons, not_or, List.not_mem_nil, not_false_eq_true] at plain
  obtain ⟨h1, h2, h3, h4, h5, h6, h7, h8, h9, h10, h11, h12, _⟩ := plain
  unfold lexeme
  rw [if_neg h1, if_neg h2, if_neg h3, if_neg h4, if_neg h5, if_neg h6, if_neg h7, if_neg h8,
    if_neg h9, if_neg h10, if_neg h11, if_neg h12]

theorem LexemeReads.result {survey : Survey} {u : UInt16} {rest : Text} {first : Lexeme} {extra : Nat}
    (read : LexemeReads survey u rest first extra) : lexeme survey u rest = .ok (first, extra) := by
  cases read with
  | opening read => exact read
  | closing | bar | start | stop | dot => rfl
  | repetition _ bounds =>
    unfold repetition? at bounds
    split at bounds
    next sign =>
      obtain ⟨rfl, rfl⟩ := Prod.mk.inj (Option.some.inj bounds)
      subst sign
      rfl
    next =>
      split at bounds
      next sign =>
        obtain ⟨rfl, rfl⟩ := Prod.mk.inj (Option.some.inj bounds)
        subst sign
        rfl
      next =>
        split at bounds
        next sign =>
          obtain ⟨rfl, rfl⟩ := Prod.mk.inj (Option.some.inj bounds)
          subst sign
          rfl
        next => cases bounds
  | interval bounds ordered =>
    rw [lexeme_interval survey bounds, ordered]
    rfl
  | brace bounds => exact lexeme_brace survey bounds
  | «class» plain members =>
    rw [lexeme_class survey plain, classMembers_eq_ok_iff.mpr members]
    rfl
  | otherClass members =>
    show classMembers survey _ >>= _ = _
    rw [classMembers_eq_ok_iff.mpr members]
    rfl
  | escape read => exact read
  | plain _ plain => exact lexeme_plain survey rest plain

theorem lexemeReads_of_result {survey : Survey} {u : UInt16} {rest : Text} {first : Lexeme} {extra : Nat}
    (read : lexeme survey u rest = .ok (first, extra)) : LexemeReads survey u rest first extra := by
  by_cases leading : u ∈ leadingUnits
  · simp only [leadingUnits, List.mem_cons, List.not_mem_nil, or_false] at leading
    rcases leading with rfl | rfl | rfl | rfl | rfl | rfl | rfl | rfl | rfl | rfl | rfl | rfl
    · exact .opening read
    · obtain ⟨rfl, rfl⟩ := Prod.mk.inj (Except.ok.inj read)
      exact .closing rest
    · obtain ⟨rfl, rfl⟩ := Prod.mk.inj (Except.ok.inj read)
      exact .bar rest
    · obtain ⟨rfl, rfl⟩ := Prod.mk.inj (Except.ok.inj read)
      exact .start rest
    · obtain ⟨rfl, rfl⟩ := Prod.mk.inj (Except.ok.inj read)
      exact .stop rest
    · obtain ⟨rfl, rfl⟩ := Prod.mk.inj (Except.ok.inj read)
      exact .dot rest
    · obtain ⟨rfl, rfl⟩ := Prod.mk.inj (Except.ok.inj read)
      exact .repetition rest rfl
    · obtain ⟨rfl, rfl⟩ := Prod.mk.inj (Except.ok.inj read)
      exact .repetition rest rfl
    · obtain ⟨rfl, rfl⟩ := Prod.mk.inj (Except.ok.inj read)
      exact .repetition rest rfl
    · cases bounds : interval? rest with
      | none =>
        rw [lexeme_brace survey bounds] at read
        obtain ⟨rfl, rfl⟩ := Prod.mk.inj (Except.ok.inj read)
        exact .brace bounds
      | some found =>
        obtain ⟨⟨least, most⟩, count⟩ := found
        rw [lexeme_interval survey bounds] at read
        split at read
        next => cases read
        next ordered =>
          obtain ⟨rfl, rfl⟩ := Prod.mk.inj (Except.ok.inj read)
          exact .interval bounds (Bool.eq_false_iff.mpr ordered)
    · by_cases other : rest.head? = some caret
      · obtain ⟨more, rfl⟩ := List.head?_eq_some_iff.mp other
        change classMembers survey more >>= _ = _ at read
        obtain ⟨⟨set, count⟩, members, read⟩ := bind_eq_ok.mp read
        obtain ⟨rfl, rfl⟩ := Prod.mk.inj (Except.ok.inj read)
        exact .otherClass (classMembers_eq_ok_iff.mp members)
      · rw [lexeme_class survey other] at read
        obtain ⟨⟨set, count⟩, members, read⟩ := bind_eq_ok.mp read
        obtain ⟨rfl, rfl⟩ := Prod.mk.inj (Except.ok.inj read)
        exact .class other (classMembers_eq_ok_iff.mp members)
    · cases rest with
      | nil => cases read
      | cons v more => exact .escape read
  · rw [lexeme_plain survey rest leading] at read
    obtain ⟨rfl, rfl⟩ := Prod.mk.inj (Except.ok.inj read)
    exact .plain rest leading

theorem lexeme_eq_ok_iff {survey : Survey} {u : UInt16} {rest : Text} {first : Lexeme} {extra : Nat} :
    lexeme survey u rest = .ok (first, extra) ↔ LexemeReads survey u rest first extra :=
  ⟨lexemeReads_of_result, LexemeReads.result⟩

/-- A lexeme as it is read: an atom is a unit or a reference, and the bounds of a quantifier are in
order. -/
def Lexeme.isLexed : Lexeme → Bool
  | .atom (.unit _) | .atom (.reference _) => true
  | .assertion .start | .assertion .stop | .assertion (.wordBoundary _) => true
  | .quantifier least most _ => most.all (least ≤ ·)
  | .opening _ | .closing | .bar => true
  | _ => false

theorem openingLexeme_opening {rest : Text} {first : Lexeme} {extra : Nat}
    (read : openingLexeme rest = .ok (first, extra)) : ∃ kind, first = .opening kind := by
  unfold openingLexeme at read
  repeat' split at read
  all_goals first
    | exact ⟨_, (Prod.mk.inj (Except.ok.inj read)).1.symm⟩
    | cases read

theorem quantifierLexeme_lexed {least : Nat} {most : Option Nat} (rest : Text) (extra : Nat)
    (ordered : most.all (least ≤ ·) = true) :
    (quantifierLexeme least most rest extra).1.isLexed = true := by
  unfold quantifierLexeme
  split
  next => exact ordered
  next => exact ordered

theorem repetition?_ordered {u : UInt16} {least : Nat} {most : Option Nat}
    (bounds : repetition? u = some (least, most)) : most.all (least ≤ ·) = true := by
  unfold repetition? at bounds
  repeat' split at bounds
  all_goals cases bounds
  all_goals rfl

theorem escapeLexeme_lexed {survey : Survey} {u : UInt16} {rest : Text} {first : Lexeme} {extra : Nat}
    (read : escapeLexeme survey u rest = .ok (first, extra)) : first.isLexed = true := by
  have done {piece : Lexeme} {count : Nat} (lexed : piece.isLexed = true)
      (read : (.ok (piece, count) : Except Defect (Lexeme × Nat)) = .ok (first, extra)) :
      first.isLexed = true :=
    (Prod.mk.inj (Except.ok.inj read)).1 ▸ lexed
  unfold escapeLexeme at read
  simp only at read
  split at read
  next => exact done rfl read
  next =>
  split at read
  next => exact done rfl read
  next =>
  split at read
  next =>
    split at read
    next => exact done rfl read
    next => exact done rfl read
  next =>
  split at read
  next =>
    unfold namedReference at read
    repeat' split at read
    all_goals first
      | exact done rfl read
      | cases read
  next =>
  split at read
  next => exact done rfl read
  next => exact done rfl read

theorem LexemeReads.lexed {survey : Survey} {u : UInt16} {rest : Text} {first : Lexeme} {extra : Nat}
    (read : LexemeReads survey u rest first extra) : first.isLexed = true := by
  cases read with
  | opening read =>
    obtain ⟨kind, rfl⟩ := openingLexeme_opening read
    rfl
  | closing | bar | start | stop | dot | brace | «class» | otherClass | plain => rfl
  | repetition _ bounds => exact quantifierLexeme_lexed _ _ (repetition?_ordered bounds)
  | @interval _ least _ most bounds ordered =>
    apply quantifierLexeme_lexed
    cases most with
    | none => rfl
    | some most =>
      simp only [Option.any_some, decide_eq_false_iff_not, Nat.not_lt] at ordered
      simpa using ordered
  | escape read => exact escapeLexeme_lexed read

theorem Reads.lexed {survey : Survey} {t left : Text} {pieces : List Lexeme}
    (read : Reads survey t pieces left) : ∀ piece ∈ pieces, piece.isLexed = true := by
  induction read with
  | done => exact fun _ member => nomatch member
  | next front _ ih =>
    intro piece member
    rcases List.mem_cons.mp member with rfl | later
    · exact (lexeme_eq_ok_iff.mp front).lexed
    · exact ih piece later

end Emend.Expression
