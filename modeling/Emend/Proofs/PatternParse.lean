import Emend.Proofs.LexemeEscapes
import Emend.Proofs.PatternComposition

/-! A template is compiled to exactly its parts. When no constraint depends on what it is put into, a
pattern with literal text always compiles, and its regular expression is read as the sequence of what
its literals and holes are on their own. -/

namespace Emend.Pattern

open Text Template Expression

def groupCount (text : Text) : Except Expression.Defect Nat := do
  return (← survey (← lexemes .bare text)).groups

/-- What a hole matches on its own, and how many groups are inside: its constraint as an expression,
or any units, once or more but as few as possible. -/
inductive Body : Hole → Node → Nat → Prop where
  | constrained {hole : Hole} {constraint : Text} {expression : Expression} {count : Nat}
      (given : hole.constraint = some constraint)
      (parse : Expression.parse constraint = .ok expression) (groups : groupCount constraint = .ok count) :
      Body hole expression.node count
  | free {hole : Hole} (free : hole.constraint = none) :
      Body hole (.sequenceOf [.loop (.unit (.complement .empty)) 1 none false]) 0

/-- The parts of some tokens, given how many groups there are before them and which numbers the names
have, with the names in the end. -/
inductive Parts : Nat → List (Text × Nat) → List Token → List Node → List (Text × Nat) → Prop where
  | nil (met : Nat) (names : List (Text × Nat)) : Parts met names [] [] names
  | literal {met : Nat} {names final : List (Text × Nat)} {tokens : List Token} {nodes : List Node}
      (value : Text) (rest : Parts met names tokens nodes final) :
      Parts met names (.literal value :: tokens) (literalNodes false value ++ nodes) final
  | anonymous {met count : Nat} {names final : List (Text × Nat)} {hole : Hole} {body : Node}
      {tokens : List Token} {nodes : List Node} (unnamed : hole.anonymous = true)
      (inside : Body hole body count) (rest : Parts (met + count) names tokens nodes final) :
      Parts met names (.hole hole :: tokens) (body.shift met :: nodes) final
  | first {met count : Nat} {names final : List (Text × Nat)} {hole : Hole} {body : Node}
      {tokens : List Token} {nodes : List Node} (named : hole.anonymous = false)
      (fresh : names.lookup hole.name = none) (inside : Body hole body count)
      (rest : Parts (met + 1 + count) (names ++ [(hole.name, met + 1)]) tokens nodes final) :
      Parts met names (.hole hole :: tokens) (.group (met + 1) (body.shift (met + 1)) :: nodes) final
  | again {met index : Nat} {names final : List (Text × Nat)} {hole : Hole} {tokens : List Token}
      {nodes : List Node} (named : hole.anonymous = false)
      (known : names.lookup hole.name = some index) (rest : Parts met names tokens nodes final) :
      Parts met names (.hole hole :: tokens) (.reference index :: nodes) final

/-- A constraint that no expression around it can change: it names no group, and it escapes neither a
digit from one on nor the letter of a named reference. -/
structure Quotable (constraint : Text) : Prop where
  unnamed : ∀ expression, Expression.parse constraint = .ok expression → expression.names = []
  quiet : ∀ u ∈ escapes constraint, NoReference u

instance (v : UInt16) : Decidable (NoReference v) := inferInstanceAs (Decidable (_ ∧ _))

def isQuotable (constraint : Text) : Bool :=
  (match Expression.parse constraint with
    | .ok expression => expression.names.isEmpty
    | .error _ => true) &&
  (escapes constraint).all fun u => decide (NoReference u)

theorem isQuotable_iff {constraint : Text} : isQuotable constraint = true ↔ Quotable constraint := by
  rw [isQuotable, Bool.and_eq_true, List.all_eq_true]
  simp only [decide_eq_true_eq]
  refine ⟨fun ⟨unnamed, quiet⟩ => ⟨fun expression parse => ?_, quiet⟩,
    fun quotable => ⟨?_, quotable.quiet⟩⟩
  · rw [parse] at unnamed
    exact List.isEmpty_iff.mp unnamed
  · split
    · next expression parse => exact List.isEmpty_iff.mpr (quotable.unnamed expression parse)
    · rfl

instance (constraint : Text) : Decidable (Quotable constraint) := decidable_of_iff _ isQuotable_iff

/-- The lexemes of the body of a hole, the same wherever it is put. -/
structure Settled (hole : Hole) (inner : List Lexeme) (body : Node) : Prop where
  unnamed : ∀ name, Lexeme.opening (.capture (some name)) ∉ inner
  made : assemble inner = .ok body
  alone : Body hole body (captures inner)
  reads : ∀ survey, Reads survey (bodySource hole) inner []

theorem settled_of_quotable {hole : Hole} (sound : hole.Sound)
    (quotable : ∀ constraint, hole.constraint = some constraint → Quotable constraint) :
    ∃ inner body, Settled hole inner body := by
  cases given : hole.constraint with
  | none =>
    refine ⟨[.atom (.unit (.complement .empty)), .quantifier 1 none false],
      .sequenceOf [.loop (.unit (.complement .empty)) 1 none false], ?_, rfl, .free given, fun survey => ?_⟩
    · exact fun _ member => by simp at member
    · rw [bodySource, given]
      exact reads_unconstrained survey
  | some constraint =>
    obtain ⟨expression, parse⟩ := sound.checked constraint given
    obtain ⟨unnamed, quiet⟩ := quotable constraint given
    obtain ⟨survey, alone, pieces, parsed⟩ := parse_eq_ok_iff.mp parse
    have nameless : ∀ name, Lexeme.opening (.capture (some name)) ∉ alone := by
      intro name member
      obtain ⟨front, back, rfl⟩ := List.append_of_mem member
      have found := survey_lookup parsed.surveyed_alone
      rw [← parsed.names, unnamed expression parse] at found
      cases found
    obtain rfl := (parsed.first.surveyed survey nameless quiet).unique parsed.second
    refine ⟨alone, expression.node, nameless, parsed.made, .constrained given parse ?_, fun other => ?_⟩
    · have count := survey_groups parsed.surveyed
      rw [groupCount, lexemes_eq_ok_iff.mpr parsed.first]
      simp only [bind, Except.bind, parsed.surveyed, count]
      exact congrArg Except.ok (Nat.zero_add _)
    · rw [bodySource, given]
      exact parsed.first.surveyed other nameless quiet

/-- A reading that knows nothing passes over the reference of a repeated hole. -/
theorem passes_reference {hole : Hole} (sound : hole.Sound) (left : Text) :
    Passes (units "\\k<" ++ hole.name ++ units ">" ++ left) left := by
  have whole : units "\\k<" ++ hole.name ++ units ">" ++ left =
      backslash :: 0x6B :: less :: (hole.name ++ greater :: left) := by
    simp [show units "\\k<" = [backslash, 0x6B, less] by decide, show units ">" = [greater] by decide]
  have read : namedReference ⟨0, [(hole.name, 0)]⟩ (less :: (hole.name ++ greater :: left)) =
      .ok (.atom (.reference 0), hole.name.length + 1 + 2) := by
    rw [namedReference_less, groupName?_hole sound]
    simp
  have count : (0x6B :: less :: (hole.name ++ greater :: left)).drop (hole.name.length + 1 + 2) = left := by
    simp
  have passed := (passes_namedReference read).2
  rwa [count, ← whole] at passed

theorem note_unnamed (inner : List Lexeme) (unnamed : ∀ name, Lexeme.opening (.capture (some name)) ∉ inner)
    (met : Nat) (names : List (Text × Nat)) :
    inner.foldlM Survey.note ⟨met, names⟩ = .ok ⟨met + captures inner, names⟩ := by
  induction inner generalizing met with
  | nil => rfl
  | cons piece inner ih =>
    have later := ih fun name member => unnamed name (List.mem_cons_of_mem _ member)
    have step : Survey.note ⟨met, names⟩ piece = .ok ⟨met + if piece.captures then 1 else 0, names⟩ := by
      cases piece with
      | opening kind =>
        cases kind with
        | capture name =>
          cases name with
          | none => rfl
          | some name => exact absurd List.mem_cons_self (unnamed name)
        | plain | look => rfl
      | closing | bar | atom | assertion | quantifier => rfl
    rw [List.foldlM_cons, step]
    show inner.foldlM Survey.note ⟨met + _, names⟩ = _
    rw [later, captures, captures, List.countP_cons]
    exact congrArg (fun groups => Except.ok (Survey.mk groups names)) (by omega)

theorem note_literal (value : Text) (met : Nat) (names : List (Text × Nat)) :
    (literalPieces false value).foldlM Survey.note ⟨met, names⟩ = .ok ⟨met, names⟩ := by
  have none := captures_literal false value
  have plain := note_unnamed (literalPieces false value)
    (fun name member => List.countP_eq_zero.mp none _ member rfl) met names
  rwa [none, Nat.add_zero] at plain

theorem Parts.keeps {met : Nat} {names final : List (Text × Nat)} {tokens : List Token}
    {nodes : List Node} (parts : Parts met names tokens nodes final) {name : Text} {index : Nat}
    (known : names.lookup name = some index) : final.lookup name = some index := by
  induction parts with
  | nil => exact known
  | literal _ _ ih | anonymous _ _ _ ih | again _ _ _ ih => exact ih known
  | first _ _ _ _ ih =>
    apply ih
    rw [List.lookup_append, known]
    rfl

section

variable {hole : Hole} {inner : List Lexeme} {body : Node}

/-- The body of a hole up to the end of the pattern. -/
theorem Settled.reads_closed (settled : Settled hole inner body) {survey : Survey} {after : Text}
    {pieces : List Lexeme} (rest : Reads survey after pieces []) :
    Reads survey (bodySource hole ++ closeParen :: after) (inner ++ .closing :: pieces) [] :=
  ((settled.reads survey).before_paren after).append (.next (LexemeReads.closing after).result rest)

theorem Settled.note_closed (settled : Settled hole inner body) (met : Nat) (names : List (Text × Nat))
    (pieces : List Lexeme) :
    (inner ++ .closing :: pieces).foldlM Survey.note ⟨met, names⟩ =
      pieces.foldlM Survey.note ⟨met + captures inner, names⟩ := by
  rw [List.foldlM_append, note_unnamed inner settled.unnamed]
  rfl

theorem Settled.inside (settled : Settled hole inner body) {survey : Survey}
    (counted : captures inner ≤ survey.groups) : Inside survey (bodySource hole) inner body :=
  ⟨(settled.reads survey).lexed, settled.made, counted, [], (settled.reads survey).before_paren []⟩

end

/-- A survey that knows all groups and names that there are in the end. -/
structure Knows (survey : Survey) (total : Nat) (final : List (Text × Nat)) : Prop where
  groups : total ≤ survey.groups
  names : ∀ name index, final.lookup name = some index → survey.names.lookup name = some index

/-- Tokens whose constraints may stand anywhere have parts. Every survey that knows their groups and
names reads them as those parts, and so does the reading that knows nothing get to their end. -/
theorem exists_parts {tokens : List Token} (sound : HolesSound tokens)
    (quotable : ∀ hole constraint, .hole hole ∈ tokens → hole.constraint = some constraint →
      Quotable constraint) (met : Nat) (names : List (Text × Nat)) :
    ∃ nodes final total, Parts met names tokens nodes final ∧ met ≤ total ∧
      (∃ alone, Reads .bare (tokensSource (names.map Prod.fst) tokens) alone []) ∧
      ∀ survey, Knows survey total final → ∃ pieces,
        Reads survey (tokensSource (names.map Prod.fst) tokens) pieces [] ∧
          Composed survey met (names.map Prod.fst) tokens pieces nodes ∧
          pieces.foldlM Survey.note ⟨met, names⟩ = .ok ⟨total, final⟩ := by
  induction tokens generalizing met names with
  | nil =>
    exact ⟨[], names, met, .nil met names, Nat.le_refl _, ⟨[], .done []⟩, fun _ _ =>
      ⟨[], .done [], .nil met _, rfl⟩⟩
  | cons token tokens ih =>
    have later := ih (fun hole member => sound hole (List.mem_cons_of_mem _ member))
      (fun hole constraint member => quotable hole constraint (List.mem_cons_of_mem _ member))
    cases token with
    | literal value =>
      obtain ⟨nodes, final, total, parts, more, ⟨alone, bare⟩, known⟩ := later met names
      have next := head_tokensSource tokens (names.map Prod.fst)
      refine ⟨_, final, total, .literal value parts, more,
        ⟨_, (reads_literal .bare false value next).append bare⟩, fun survey knows => ?_⟩
      obtain ⟨pieces, read, composed, noted⟩ := known survey knows
      refine ⟨_, (reads_literal survey false value next).append read, .literal value composed, ?_⟩
      rw [List.foldlM_append, note_literal]
      exact noted
    | hole hole =>
      have own := sound hole List.mem_cons_self
      obtain ⟨inner, body, settled⟩ :=
        settled_of_quotable own fun constraint => quotable hole constraint List.mem_cons_self
      by_cases unnamed : hole.anonymous = true
      · obtain ⟨nodes, final, total, parts, more, ⟨alone, bare⟩, known⟩ :=
          later (met + captures inner) names
        rw [tokensSource_anonymous tokens unnamed]
        refine ⟨_, final, total, .anonymous unnamed settled.alone parts, by omega,
          ⟨_, (reads_plainGroup .bare _).append (settled.reads_closed bare)⟩, fun survey knows => ?_⟩
        obtain ⟨pieces, read, composed, noted⟩ := known survey knows
        have counted : captures inner ≤ survey.groups := by have := knows.groups; omega
        have inside := settled.inside counted
        refine ⟨_, (reads_plainGroup survey _).append (settled.reads_closed read),
          .anonymous unnamed inside composed, ?_⟩
        exact (settled.note_closed met names pieces).trans noted
      · have named := Bool.eq_false_iff.mpr unnamed
        cases lookup : names.lookup hole.name with
        | some index =>
          have old := mem_of_lookup lookup
          obtain ⟨nodes, final, total, parts, more, ⟨alone, bare⟩, known⟩ := later met names
          obtain ⟨front, passed, _⟩ := passes_reference own (tokensSource (names.map Prod.fst) tokens)
          rw [tokensSource_again tokens named old]
          refine ⟨_, final, total, .again named lookup parts, more, ⟨_, passed.append bare⟩,
            fun survey knows => ?_⟩
          obtain ⟨pieces, read, composed, noted⟩ := known survey knows
          have found := knows.names hole.name index (parts.keeps lookup)
          exact ⟨_, (reads_reference survey own found _).append read, .again named old found composed, noted⟩
        | none =>
          have fresh := (lookup_eq_none_iff_not_mem names hole.name).mp lookup
          obtain ⟨nodes, final, total, parts, more, ⟨alone, bare⟩, known⟩ :=
            later (met + 1 + captures inner) (names ++ [(hole.name, met + 1)])
          rw [List.map_append, List.map_singleton] at bare known
          rw [tokensSource_first tokens named fresh]
          refine ⟨_, final, total, .first named lookup settled.alone parts, by omega,
            ⟨_, (reads_namedGroup .bare own _).append (settled.reads_closed bare)⟩, fun survey knows => ?_⟩
          obtain ⟨pieces, read, composed, noted⟩ := known survey knows
          have counted : captures inner ≤ survey.groups := by have := knows.groups; omega
          have inside := settled.inside counted
          have found := knows.names hole.name (met + 1) (parts.keeps (by simp [List.lookup_append, lookup]))
          refine ⟨_, (reads_namedGroup survey own _).append (settled.reads_closed read),
            .first named fresh inside found composed, ?_⟩
          have step : Survey.note ⟨met, names⟩ (.opening (.capture (some hole.name))) =
              .ok ⟨met + 1, names ++ [(hole.name, met + 1)]⟩ := by
            simp [Survey.note, lookup]
          rw [List.singleton_append, List.foldlM_cons, step]
          exact (settled.note_closed (met + 1) _ pieces).trans noted

/-- A template whose constraints may stand anywhere compiles as soon as it has literal text. The regular
expression is read as the sequence of its parts, each on its own: the units and runs of blanks of
literal text, the constraint of a hole in a group of its own, and a reference for a repeated name. -/
theorem compile_parts {source : Text} {tokens : List Token} (read : Template.tokens source = .ok tokens)
    (anchored : (trimOuter tokens).any Token.isLiteral = true)
    (quotable : ∀ hole constraint, .hole hole ∈ tokens → hole.constraint = some constraint →
      Quotable constraint) :
    ∃ nodes names, Parts 0 [] (trimOuter tokens) nodes names ∧
      Pattern.compile source = .ok ⟨source, ⟨tokensSource [] (trimOuter tokens), .sequenceOf nodes, names⟩,
        holesOf (trimOuter tokens)⟩ := by
  have sound : HolesSound (trimOuter tokens) := fun hole member =>
    tokens_sound read hole (mem_trimOuter.mp member)
  obtain ⟨nodes, final, total, parts, _, ⟨alone, bare⟩, known⟩ := exists_parts sound
    (fun hole constraint member => quotable hole constraint (mem_trimOuter.mp member)) 0 []
  obtain ⟨pieces, second, composed, noted⟩ := known ⟨total, final⟩ ⟨Nat.le_refl _, fun _ _ => id⟩
  obtain ⟨front, back, rfl, _, ended, same⟩ := bare.sync _ (Nat.le_refl _) (.inl rfl) second
  cases ended
  rw [List.append_nil] at second composed noted
  refine ⟨nodes, final, parts, ?_⟩
  have parse : Expression.parse (tokensSource [] (trimOuter tokens)) =
      .ok ⟨tokensSource [] (trimOuter tokens), .sequenceOf nodes, final⟩ :=
    parse_eq_ok_iff.mpr ⟨⟨total, final⟩, alone, front, rfl, rfl, bare, same, noted, second,
      composed.assemble⟩
  have solid := List.isEmpty_eq_false_iff.mpr (trim_ne_nil_of_literal read anchored)
  simp only [compile, templateTokens, solid, read, ofTokens, anchored, parse, if_true, bind, Except.bind,
    Bool.false_eq_true, if_false]

theorem compile_parts_alternative :
    ∃ tokens, Template.tokens (units "f(:[x], :[_~a|(b)+], :[x])") = .ok tokens ∧
      (trimOuter tokens).any Token.isLiteral = true ∧
      (∀ hole constraint, .hole hole ∈ tokens → hole.constraint = some constraint →
        Quotable constraint) ∧
      ∃ nodes names, Parts 0 [] (trimOuter tokens) nodes names ∧
        Pattern.compile (units "f(:[x], :[_~a|(b)+], :[x])") =
          .ok ⟨units "f(:[x], :[_~a|(b)+], :[x])",
            ⟨tokensSource [] (trimOuter tokens), .sequenceOf nodes, names⟩, holesOf (trimOuter tokens)⟩ := by
  have reads : (match Template.tokens (units "f(:[x], :[_~a|(b)+], :[x])") with
      | .ok tokens => (trimOuter tokens).any Token.isLiteral && tokens.all fun token =>
        match token with
        | .hole hole => hole.constraint.all fun constraint => decide (Quotable constraint)
        | .literal _ => true
      | .error _ => false) = true := by decide +kernel
  split at reads
  · next tokens read =>
    rw [Bool.and_eq_true, List.all_eq_true] at reads
    have quotable : ∀ hole constraint, .hole hole ∈ tokens → hole.constraint = some constraint →
        Quotable constraint := by
      intro hole constraint member given
      have only := reads.2 _ member
      simp only [given, Option.all_some] at only
      exact of_decide_eq_true only
    exact ⟨tokens, read, reads.1, quotable, compile_parts read reads.1 quotable⟩
  · cases reads

theorem exists_compile {source : Text} {tokens : List Token} (read : Template.tokens source = .ok tokens)
    (anchored : (trimOuter tokens).any Token.isLiteral = true)
    (quotable : ∀ hole constraint, .hole hole ∈ tokens → hole.constraint = some constraint → Quotable constraint) :
    ∃ pattern, Pattern.compile source = .ok pattern ∧ pattern.holes = holesOf (trimOuter tokens) := by
  have sound : HolesSound (trimOuter tokens) := fun hole member =>
    tokens_sound read hole (mem_trimOuter.mp member)
  obtain ⟨nodes, final, total, _, _, ⟨alone, bare⟩, known⟩ := exists_parts sound
    (fun hole constraint member => quotable hole constraint (mem_trimOuter.mp member)) 0 []
  obtain ⟨pieces, second, composed, noted⟩ := known ⟨total, final⟩ ⟨Nat.le_refl _, fun _ _ => id⟩
  obtain ⟨front, back, rfl, _, ended, same⟩ := bare.sync _ (Nat.le_refl _) (.inl rfl) second
  cases ended
  rw [List.append_nil] at second composed noted
  have parse : Expression.parse (tokensSource [] (trimOuter tokens)) =
      .ok ⟨tokensSource [] (trimOuter tokens), .sequenceOf nodes, final⟩ := parse_eq_ok_iff.mpr
    ⟨⟨total, final⟩, alone, front, rfl, rfl, bare, same, noted, second, composed.assemble⟩
  have occupied := List.isEmpty_eq_false_iff.mpr (trim_ne_nil_of_literal read anchored)
  refine ⟨⟨source, ⟨tokensSource [] (trimOuter tokens), .sequenceOf nodes, final⟩, holesOf (trimOuter tokens)⟩, ?_, rfl⟩
  simp only [compile, templateTokens, occupied, read, ofTokens, anchored, parse, if_true, bind, Except.bind,
    Bool.false_eq_true, if_false]

end Emend.Pattern
