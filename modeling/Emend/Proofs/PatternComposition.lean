import Emend.Proofs.Lookup
import Emend.Proofs.PatternReading

/-! The node of a compiled pattern is put together from one part for each token. The body of a hole is
the node that its constraint makes on its own, with its groups numbered on. -/

namespace Emend.Pattern

open Text Template Expression

/-- What literal text matches, unit by unit and with each run of blanks as one loop. -/
def literalNodes : (inBlanks : Bool) → Text → List Node
  | _, [] => []
  | inBlanks, u :: rest =>
    if isBlank u then
      if inBlanks then literalNodes true rest
      else .loop (.unit .blank) 0 none true :: literalNodes true rest
    else .unit (.single u) :: literalNodes false rest

/-- The lexemes inside the group of a hole, and the node that they make on their own. -/
structure Inside (survey : Survey) (source : Text) (inner : List Lexeme) (body : Node) : Prop where
  lexed : ∀ piece ∈ inner, piece.isLexed = true
  made : assemble inner = .ok body
  counted : captures inner ≤ survey.groups
  read : ∃ more, Reads survey (source ++ closeParen :: more) inner (closeParen :: more)

/-- Tokens are read and put together one by one, given how many groups were met before and which
names have captured. -/
inductive Composed (survey : Survey) :
    Nat → List Text → List Token → List Lexeme → List Node → Prop where
  | nil (met : Nat) (seen : List Text) : Composed survey met seen [] [] []
  | literal {met : Nat} {seen : List Text} {tokens : List Token} {pieces : List Lexeme}
      {nodes : List Node} (value : Text) (rest : Composed survey met seen tokens pieces nodes) :
      Composed survey met seen (.literal value :: tokens) (literalPieces false value ++ pieces)
        (literalNodes false value ++ nodes)
  | anonymous {met : Nat} {seen : List Text} {hole : Hole} {tokens : List Token}
      {inner pieces : List Lexeme} {body : Node} {nodes : List Node} (unnamed : hole.anonymous = true)
      (inside : Inside survey (bodySource hole) inner body)
      (rest : Composed survey (met + captures inner) seen tokens pieces nodes) :
      Composed survey met seen (.hole hole :: tokens) (.opening .plain :: (inner ++ .closing :: pieces))
        (body.shift met :: nodes)
  | first {met : Nat} {seen : List Text} {hole : Hole} {tokens : List Token}
      {inner pieces : List Lexeme} {body : Node} {nodes : List Node} (named : hole.anonymous = false)
      (fresh : hole.name ∉ seen) (inside : Inside survey (bodySource hole) inner body)
      (own : survey.names.lookup hole.name = some (met + 1))
      (rest : Composed survey (met + 1 + captures inner) (seen ++ [hole.name]) tokens pieces nodes) :
      Composed survey met seen (.hole hole :: tokens)
        (.opening (.capture (some hole.name)) :: (inner ++ .closing :: pieces))
        (.group (met + 1) (body.shift (met + 1)) :: nodes)
  | again {met index : Nat} {seen : List Text} {hole : Hole} {tokens : List Token}
      {pieces : List Lexeme} {nodes : List Node} (named : hole.anonymous = false)
      (old : hole.name ∈ seen) (known : survey.names.lookup hole.name = some index)
      (rest : Composed survey met seen tokens pieces nodes) :
      Composed survey met seen (.hole hole :: tokens) (.atom (.reference index) :: pieces)
        (.reference index :: nodes)

theorem run_literal (inBlanks : Bool) (value : Text) (met : Nat) (frame : Frame) (outer : List Frame) :
    ∃ last, (literalPieces inBlanks value).foldlM Assembly.step ⟨met, frame, outer⟩ =
      .ok ⟨met, { frame with
        terms := (literalNodes inBlanks value).reverse ++ frame.terms, lastRepeatable := last }, outer⟩ := by
  induction value generalizing inBlanks frame with
  | nil => exact ⟨frame.lastRepeatable, rfl⟩
  | cons u value ih =>
    unfold literalPieces literalNodes
    split
    next =>
      cases inBlanks with
      | true => exact ih true frame
      | false =>
        obtain ⟨last, run⟩ := ih true
          { frame with terms := .loop (.unit .blank) 0 none true :: frame.terms, lastRepeatable := false }
        refine ⟨last, ?_⟩
        simp only [Bool.false_eq_true, if_false, List.reverse_cons, List.append_assoc,
          List.singleton_append]
        exact run
    next =>
      obtain ⟨last, run⟩ := ih false (frame.add (.unit (.single u)) true)
      refine ⟨last, ?_⟩
      simp only [List.reverse_cons, List.append_assoc, List.singleton_append]
      exact run

theorem run_opening {kind : Opening} {met entered : Nat} {wrap : Node → Node} {repeatable : Bool}
    {frame : Frame} {outer : List Frame}
    (enter : Assembly.enter ⟨met, frame, outer⟩ kind = ⟨entered, .fresh wrap repeatable, frame :: outer⟩)
    {inner : List Lexeme} (balanced : nesting 0 inner = some 0)
    (lexed : ∀ piece ∈ inner, piece.isLexed = true) (pieces : List Lexeme) :
    (Lexeme.opening kind :: (inner ++ .closing :: pieces)).foldlM Assembly.step ⟨met, frame, outer⟩ =
      (assemble inner) >>= fun body => pieces.foldlM Assembly.step
        ⟨entered + captures inner, frame.add (wrap (body.shift entered)) repeatable, outer⟩ := by
  have split : inner ++ .closing :: pieces = (inner ++ [.closing]) ++ pieces := by simp
  rw [List.foldlM_cons, split]
  show (inner ++ [Lexeme.closing] ++ pieces).foldlM Assembly.step (Assembly.enter ⟨met, frame, outer⟩ kind) = _
  rw [enter, List.foldlM_append, run_group balanced lexed]
  cases assemble inner <;> rfl

theorem captures_literal (inBlanks : Bool) (value : Text) :
    captures (literalPieces inBlanks value) = 0 := by
  induction value generalizing inBlanks with
  | nil => rfl
  | cons u value ih =>
    unfold literalPieces
    split
    next =>
      cases inBlanks with
      | true => exact ih true
      | false => exact ih true
    next => exact ih false

theorem captures_opening (kind : Opening) (inner pieces : List Lexeme) :
    captures (.opening kind :: (inner ++ .closing :: pieces)) =
      (if (Lexeme.opening kind).captures then 1 else 0) + (captures inner + captures pieces) := by
  have closing : captures (.closing :: pieces) = captures pieces := rfl
  rw [← closing, ← captures_append, captures, captures, List.countP_cons, Nat.add_comm]

theorem Composed.run {survey : Survey} {met : Nat} {seen : List Text} {tokens : List Token}
    {pieces : List Lexeme} {nodes : List Node} (composed : Composed survey met seen tokens pieces nodes)
    (frame : Frame) (outer : List Frame) :
    ∃ last, pieces.foldlM Assembly.step ⟨met, frame, outer⟩ =
      .ok ⟨met + captures pieces, { frame with
        terms := nodes.reverse ++ frame.terms, lastRepeatable := last }, outer⟩ := by
  induction composed generalizing frame with
  | nil => exact ⟨frame.lastRepeatable, rfl⟩
  | @literal met _ _ pieces nodes value _ ih =>
    obtain ⟨middle, front⟩ := run_literal false value met frame outer
    obtain ⟨last, back⟩ := ih { frame with
      terms := (literalNodes false value).reverse ++ frame.terms, lastRepeatable := middle }
    refine ⟨last, ?_⟩
    rw [List.foldlM_append, front, captures_append, captures_literal, Nat.zero_add, List.reverse_append,
      List.append_assoc]
    exact back
  | @anonymous met _ _ _ inner pieces body nodes _ inside _ ih =>
    obtain ⟨last, back⟩ := ih (frame.add (body.shift met) true)
    refine ⟨last, ?_⟩
    rw [run_opening rfl (nesting_of_assemble inside.made) inside.lexed, inside.made,
      captures_opening, List.reverse_cons, List.append_assoc]
    simp only [Lexeme.captures, Bool.false_eq_true, if_false, Nat.add_zero, ← Nat.add_assoc]
    exact back
  | @first met _ hole _ inner pieces body nodes _ _ inside _ _ ih =>
    obtain ⟨last, back⟩ := ih (frame.add (.group (met + 1) (body.shift (met + 1))) true)
    refine ⟨last, ?_⟩
    rw [run_opening rfl (nesting_of_assemble inside.made) inside.lexed, inside.made,
      captures_opening, List.reverse_cons, List.append_assoc]
    simp only [Lexeme.captures, if_true, ← Nat.add_assoc]
    exact back
  | @again met index _ hole _ pieces nodes _ _ _ _ ih =>
    obtain ⟨last, back⟩ := ih (frame.add (.reference index) true)
    refine ⟨last, ?_⟩
    rw [List.reverse_cons, List.append_assoc]
    exact back

theorem Composed.assemble {survey : Survey} {tokens : List Token} {pieces : List Lexeme}
    {nodes : List Node} (composed : Composed survey 0 [] tokens pieces nodes) :
    Expression.assemble pieces = .ok (.sequenceOf nodes) := by
  obtain ⟨last, run⟩ := composed.run (.fresh id false) []
  unfold Expression.assemble
  rw [show Assembly.start = ⟨0, .fresh id false, []⟩ from rfl, run]
  show Except.ok (Node.choiceOf [Node.sequenceOf (nodes.reverse ++ []).reverse]) = _
  rw [List.append_nil, List.reverse_reverse]
  rfl

theorem body_alone {hole : Hole} (sound : hole.Sound) :
    ∃ alone, Reads .bare (bodySource hole) alone [] ∧ nesting 0 alone = some 0 := by
  unfold bodySource
  cases constrained : hole.constraint with
  | none => exact ⟨_, reads_unconstrained .bare, rfl⟩
  | some constraint =>
    obtain ⟨expression, parsed⟩ := sound.checked constraint constrained
    obtain ⟨survey, alone, pieces, parsed⟩ := parse_eq_ok_iff.mp parsed
    exact ⟨alone, parsed.first, parsed.balanced⟩

/-- However the body of a hole is read inside a pattern, the reading stops at the parenthesis that
closes the hole. -/
theorem reads_body {survey : Survey} {hole : Hole} (sound : hole.Sound) {after : Text}
    {pieces : List Lexeme} (read : Reads survey (bodySource hole ++ closeParen :: after) pieces []) :
    ∃ inner others, pieces = inner ++ .closing :: others ∧ nesting 0 inner = some 0 ∧
      Reads survey (bodySource hole ++ closeParen :: after) inner (closeParen :: after) ∧
      Reads survey after others [] := by
  obtain ⟨alone, first, balanced⟩ := body_alone sound
  obtain ⟨inner, back, rfl, front, rest, same⟩ :=
    (first.before_paren after).sync _ (Nat.le_refl _) (.inr rfl) read
  cases rest with
  | next closing others =>
    obtain ⟨rfl, rfl⟩ := Prod.mk.inj (Except.ok.inj closing)
    exact ⟨inner, _, rfl, by rw [← nesting_parens, same, nesting_parens, balanced], front, others⟩

theorem composed_of_reads {survey : Survey} {tokens : List Token} (sound : HolesSound tokens)
    {seen : List Text} (front : List Lexeme) {pieces : List Lexeme}
    (surveyed : Expression.survey (front ++ pieces) = .ok survey)
    (known : ∀ name ∈ seen, ∃ index, survey.names.lookup name = some index)
    (read : Reads survey (tokensSource seen tokens) pieces []) {frame : Frame} {outer : List Frame}
    {last : Assembly}
    (run : pieces.foldlM Assembly.step ⟨captures front, frame, outer⟩ = .ok last) :
    ∃ nodes, Composed survey (captures front) seen tokens pieces nodes := by
  induction tokens generalizing seen front pieces frame with
  | nil =>
    cases read
    exact ⟨[], .nil _ seen⟩
  | cons token tokens ih =>
    have later : HolesSound tokens := fun hole member => sound hole (List.mem_cons_of_mem _ member)
    cases token with
    | literal value =>
      obtain ⟨others, rfl, rest⟩ :=
        (reads_literal survey false value (head_tokensSource tokens seen)).rest read
      obtain ⟨_, literal⟩ := run_literal false value (captures front) frame outer
      rw [List.foldlM_append, literal] at run
      have count : captures (front ++ literalPieces false value) = captures front := by
        rw [captures_append, captures_literal, Nat.add_zero]
      rw [← List.append_assoc] at surveyed
      rw [← count] at run
      obtain ⟨nodes, composed⟩ := ih later _ surveyed known rest run
      rw [count] at composed
      exact ⟨_, .literal value composed⟩
    | hole hole =>
      have own := sound hole List.mem_cons_self
      by_cases unnamed : hole.anonymous = true
      · rw [tokensSource_anonymous tokens unnamed] at read
        obtain ⟨opened, rfl, inside⟩ := (reads_plainGroup survey _).rest read
        obtain ⟨inner, others, rfl, balanced, body, rest⟩ := reads_body own inside
        rw [List.singleton_append, run_opening rfl balanced body.lexed] at run
        obtain ⟨node, made, run⟩ := bind_eq_ok.mp run
        have count : captures (front ++ .opening .plain :: (inner ++ [.closing])) =
            captures front + captures inner := by
          rw [captures_append, captures_opening]
          exact congrArg (captures front + ·) (Nat.zero_add _)
        have whole : front ++ ([.opening .plain] ++ (inner ++ .closing :: others)) =
            front ++ .opening .plain :: (inner ++ [.closing]) ++ others := by simp
        rw [whole] at surveyed
        have counted : captures inner ≤ survey.groups := by
          rw [survey_groups surveyed, captures_append, count]
          omega
        rw [← count] at run
        obtain ⟨nodes, composed⟩ := ih later _ surveyed known rest run
        rw [count] at composed
        exact ⟨_, .anonymous unnamed ⟨body.lexed, made, counted, _, body⟩ composed⟩
      · have named := Bool.eq_false_iff.mpr unnamed
        by_cases old : hole.name ∈ seen
        · obtain ⟨index, lookup⟩ := known hole.name old
          rw [tokensSource_again tokens named old] at read
          obtain ⟨others, rfl, rest⟩ := (reads_reference survey own lookup _).rest read
          have count : captures (front ++ [.atom (.reference index)]) = captures front := captures_append ..
          rw [← List.append_assoc] at surveyed
          rw [← count] at run
          obtain ⟨nodes, composed⟩ := ih later _ surveyed known rest run
          rw [count] at composed
          exact ⟨_, .again named old lookup composed⟩
        · rw [tokensSource_first tokens named old] at read
          obtain ⟨opened, rfl, inside⟩ := (reads_namedGroup survey own _).rest read
          obtain ⟨inner, others, rfl, balanced, body, rest⟩ := reads_body own inside
          rw [List.singleton_append, run_opening rfl balanced body.lexed] at run
          obtain ⟨node, made, run⟩ := bind_eq_ok.mp run
          have count : captures (front ++ .opening (.capture (some hole.name)) :: (inner ++ [.closing])) =
              captures front + 1 + captures inner := by
            rw [captures_append, captures_opening, Nat.add_assoc]
            rfl
          have whole : front ++ ([.opening (.capture (some hole.name))] ++ (inner ++ .closing :: others)) =
              front ++ .opening (.capture (some hole.name)) :: (inner ++ [.closing]) ++ others := by simp
          have lookup : survey.names.lookup hole.name = some (captures front + 1) := survey_lookup surveyed
          have knownToo : ∀ name ∈ seen ++ [hole.name], ∃ index, survey.names.lookup name = some index := by
            intro name member
            rcases List.mem_append.mp member with before | new
            · exact known name before
            · rw [List.mem_singleton.mp new]
              exact ⟨_, lookup⟩
          rw [whole] at surveyed
          have counted : captures inner ≤ survey.groups := by
            rw [survey_groups surveyed, captures_append, count]
            omega
          rw [← count] at run
          obtain ⟨nodes, composed⟩ := ih later _ surveyed knownToo rest run
          rw [count] at composed
          exact ⟨_, .first named old ⟨body.lexed, made, counted, _, body⟩ lookup composed⟩

/-- A compiled pattern is what its trimmed tokens compose to. -/
structure Compiled (source : Text) (pattern : Pattern) (tokens : List Token) (survey : Survey)
    (pieces : List Lexeme) (nodes : List Node) : Prop where
  read : Template.tokens source = .ok tokens
  anchored : (trimOuter tokens).any Token.isLiteral = true
  holes : pattern.holes = holesOf (trimOuter tokens)
  names : pattern.expression.names = survey.names
  surveyed : ∃ first, lexemes .bare pattern.expression.text = .ok first ∧
    Expression.survey first = .ok survey
  node : pattern.expression.node = .sequenceOf nodes
  composed : Composed survey 0 [] (trimOuter tokens) pieces nodes

theorem compiled_of_compile {source : Text} {pattern : Pattern}
    (compile : Pattern.compile source = .ok pattern) :
    ∃ tokens survey pieces nodes, Compiled source pattern tokens survey pieces nodes := by
  obtain ⟨tokens, read, compile⟩ := bind_eq_ok.mp compile
  unfold templateTokens at read
  split at read
  next => cases read
  next =>
    simp only [ofTokens] at compile
    split at compile
    next anchored =>
      split at compile
      next expression parse =>
        obtain rfl := Except.ok.inj compile
        obtain ⟨survey, alone, pieces, parsed⟩ := parse_eq_ok_iff.mp parse
        have sound : HolesSound (trimOuter tokens) := fun hole member =>
          tokens_sound read hole (mem_trimOuter.mp member)
        obtain ⟨last, run, _⟩ := bind_eq_ok.mp parsed.made
        obtain ⟨nodes, composed⟩ := composed_of_reads sound [] parsed.surveyed
          (fun _ member => absurd member List.not_mem_nil) parsed.second run
        have node := Except.ok.inj (parsed.made.symm.trans composed.assemble)
        have first := lexemes_eq_ok_iff.mpr parsed.first
        rw [← parsed.text] at first
        exact ⟨tokens, survey, pieces, nodes, read, anchored, rfl, parsed.names,
          ⟨alone, first, parsed.surveyed_alone⟩, node, composed⟩
      next => cases compile
    next => cases compile

end Emend.Pattern
