import Emend.Proofs.PatternMatches

/-! The matches of a pattern whose constraints are regular in the narrow sense. Each match is an
instance of the pattern, and the search misses none: wherever an instance starts, a match has already
begun there or covers the place. -/

namespace Emend.Pattern

open Text Template Expression

/-- The texts that a constraint stands for when it is an expression of its own. -/
def Language (constraint segment : Text) : Prop :=
  ∃ expression, Expression.parse constraint = .ok expression ∧ expression.node.accepts segment

/-- What a hole may consume: a text of its constraint, and any but the empty one without a constraint. -/
def InLanguage (hole : Hole) (segment : Text) : Prop :=
  match hole.constraint with
  | none => segment ≠ []
  | some constraint => Language constraint segment

/-- A text falls into segments for the trimmed tokens. -/
def IsInstance (tokens : List Token) (t : Text) : Prop :=
  ∃ segments final, Segments InLanguage [] (trimOuter tokens) segments final ∧ t = segments.flatten

/-- A constraint without assertions, references and named groups. Whether an escape is a reference
depends on the pattern that the constraint stands in, so it is read with what is known of that. -/
structure Regular (pattern : Pattern) (constraint : Text) : Prop where
  alone : ∃ expression, Expression.parse constraint = .ok expression ∧
    expression.node.isPlain = true ∧ expression.names = []
  inside : ∀ first groups, lexemes .bare pattern.expression.text = .ok first → survey first = .ok groups →
    ∃ pieces, lexemes groups constraint = .ok pieces ∧ ∀ index, .atom (.reference index) ∉ pieces

def isReference : Lexeme → Bool
  | .atom (.reference _) => true
  | _ => false

def isRegular (pattern : Pattern) (constraint : Text) : Bool :=
  (match Expression.parse constraint with
    | .ok expression => expression.node.isPlain && expression.names.isEmpty
    | .error _ => false) &&
  match lexemes .bare pattern.expression.text >>= survey with
  | .ok groups =>
    match lexemes groups constraint with
    | .ok pieces => pieces.all fun piece => !isReference piece
    | .error _ => false
  | .error _ => true

theorem isRegular_iff {pattern : Pattern} {constraint : Text} :
    isRegular pattern constraint = true ↔ Regular pattern constraint := by
  have quiet (pieces : List Lexeme) : (pieces.all fun piece => !isReference piece) = true ↔
      ∀ index, Lexeme.atom (.reference index) ∉ pieces := by
    rw [List.all_eq_true]
    refine ⟨fun all index member => by simpa [isReference] using all _ member, fun none piece member => ?_⟩
    unfold isReference
    split
    · exact absurd member (none _)
    · rfl
  rw [isRegular, Bool.and_eq_true]
  refine ⟨fun ⟨alone, inside⟩ => ⟨?_, fun first groups read surveyed => ?_⟩, fun regular => ⟨?_, ?_⟩⟩
  · split at alone
    · next expression parse =>
      rw [Bool.and_eq_true, List.isEmpty_iff] at alone
      exact ⟨expression, parse, alone⟩
    · cases alone
  · simp only [read, bind, Except.bind, surveyed] at inside
    split at inside
    · next pieces readInside => exact ⟨pieces, readInside, (quiet pieces).mp inside⟩
    · cases inside
  · obtain ⟨expression, parse, plain, unnamed⟩ := regular.alone
    rw [parse]
    dsimp only
    rw [plain, unnamed]
    rfl
  · split
    · next groups surveyed =>
      obtain ⟨first, read, surveyed⟩ := bind_eq_ok.mp surveyed
      obtain ⟨pieces, readInside, none⟩ := regular.inside first groups read surveyed
      rw [readInside]
      exact (quiet pieces).mpr none
    · rfl

instance (pattern : Pattern) (constraint : Text) : Decidable (Regular pattern constraint) :=
  decidable_of_iff _ isRegular_iff

section

variable (met : Nat)

theorem isPlain_shift (node : Node) : (node.shift met).isPlain = node.isPlain := by
  induction node with
  | sequence first second firstIh secondIh | choice first second firstIh secondIh =>
    simp only [Node.shift, Node.isPlain, firstIh, secondIh]
  | group index body ih => exact ih
  | loop body least most greedy ih => exact ih
  | empty | unit | reference | look | start | stop | wordBoundary => rfl

theorem isOrdered_shift (node : Node) : (node.shift met).isOrdered = node.isOrdered := by
  induction node with
  | sequence first second firstIh secondIh | choice first second firstIh secondIh =>
    simp only [Node.shift, Node.isOrdered, firstIh, secondIh]
  | group index body ih => exact ih
  | look behind negated body ih => exact ih
  | loop body least most greedy ih => simp only [Node.shift, Node.isOrdered, ih]
  | empty | unit | reference | start | stop | wordBoundary => rfl

theorem accepts_shift (node : Node) : (node.shift met).accepts = node.accepts := by
  induction node with
  | sequence first second firstIh secondIh =>
    funext t
    simp only [Node.shift, Node.accepts, firstIh, secondIh]
  | choice first second firstIh secondIh =>
    funext t
    simp only [Node.shift, Node.accepts, firstIh, secondIh]
  | group index body ih =>
    funext t
    simp only [Node.shift, Node.accepts, ih]
  | loop body least most greedy ih =>
    funext t
    simp only [Node.shift, Node.accepts, ih]
  | empty | unit | reference | look | start | stop | wordBoundary => rfl

end

/-- The body of a hole with a regular constraint is what the constraint makes on its own. -/
theorem Inside.regular {groups : Survey} {constraint : Text} {inner pieces : List Lexeme}
    {body : Node} (inside : Inside groups constraint inner body)
    (read : lexemes groups constraint = .ok pieces)
    (plain : ∀ index, Lexeme.atom (.reference index) ∉ pieces) {expression : Expression}
    (parse : Expression.parse constraint = .ok expression) (unnamed : expression.names = []) :
    body = expression.node := by
  obtain ⟨own, alone, second, parsed⟩ := parse_eq_ok_iff.mp parse
  obtain ⟨_, made, counted, more, reach⟩ := inside
  rw [lexemes_eq_ok_iff] at read
  obtain rfl := reach.unique (read.before_paren more)
  obtain rfl := (read.within groups.bare_within plain).unique parsed.first
  have count : own.groups = captures inner := by
    rw [survey_groups parsed.surveyed, ← captures_parens, parsed.same, captures_parens]
    exact Nat.zero_add _
  have fewer : own.Within groups := ⟨by omega, parsed.names ▸ unnamed⟩
  obtain rfl := (read.within fewer plain).unique parsed.second
  exact Except.ok.inj (made.symm.trans parsed.made)

/-- What the body of a hole matches, whatever stands around it. -/
structure Matches (text : Array UInt16) (hole : Hole) (body : Node) : Prop where
  sound : ∀ met, Sound text (InLanguage hole) ((body.shift met).ways text .forward)
  complete : ∀ met, Complete text (InLanguage hole) ((body.shift met).ways text .forward)

theorem Inside.matches_constraint {groups : Survey} {hole : Hole} {constraint : Text}
    {inner pieces : List Lexeme} {body : Node} (inside : Inside groups (bodySource hole) inner body)
    (constrained : hole.constraint = some constraint)
    (read : lexemes groups constraint = .ok pieces)
    (quiet : ∀ index, Lexeme.atom (.reference index) ∉ pieces) {expression : Expression}
    (parse : Expression.parse constraint = .ok expression) (plain : expression.node.isPlain = true)
    (unnamed : expression.names = []) (text : Array UInt16) : Matches text hole body := by
  rw [bodySource, constrained, Option.getD_some] at inside
  have ordered := (numbered_of_assemble inside.lexed inside.made).ordered
  obtain rfl := inside.regular read quiet parse unnamed
  refine ⟨fun met point next inText member => ?_, fun met point stop order inText accepts => ?_⟩
  · obtain ⟨onward, accepts⟩ := Node.sound ((isPlain_shift met _).trans plain)
      ((isOrdered_shift met _).trans ordered) point next inText member
    rw [accepts_shift] at accepts
    refine ⟨onward, ?_⟩
    simp only [InLanguage, constrained]
    exact ⟨expression, parse, accepts⟩
  · simp only [InLanguage, constrained] at accepts
    obtain ⟨other, parseToo, accepts⟩ := accepts
    obtain rfl := Except.ok.inj (parse.symm.trans parseToo)
    rw [← accepts_shift met] at accepts
    exact Node.complete ((isPlain_shift met _).trans plain) point stop order inText accepts

theorem Inside.matches_unconstrained {groups : Survey} {hole : Hole} {inner : List Lexeme} {body : Node}
    (inside : Inside groups (bodySource hole) inner body) (free : hole.constraint = none)
    (text : Array UInt16) : Matches text hole body := by
  rw [bodySource, free, Option.getD_none] at inside
  obtain rfl := inside.unconstrained
  refine ⟨fun met point next inText member => ?_, fun met point stop order inText accepts => ?_⟩
  · refine ⟨Node.ways_onward member, ?_⟩
    simp only [InLanguage, free]
    exact unconstrained_ne_nil inText member
  · simp only [InLanguage, free] at accepts
    apply Node.complete rfl point stop order inText
    generalize Span.units text ⟨point.position, stop⟩ = segment at accepts
    refine ⟨segment, [], (List.append_nil _).symm, ⟨segment.map ([·]), ?_, ?_, ?_, ?_⟩, rfl⟩
    · exact (List.flatMap_singleton' segment).symm
    · intro piece member
      obtain ⟨u, _, rfl⟩ := List.mem_map.mp member
      exact ⟨u, rfl, rfl⟩
    · rw [List.length_map]
      exact List.length_pos_iff.mpr accepts
    · intro bound unbounded
      cases unbounded

/-- Every hole of a pattern with regular constraints matches what it stands for. -/
theorem Compiled.matches_holes {source : Text} {pattern : Pattern} {tokens : List Token}
    {groups : Survey} {pieces : List Lexeme} {nodes : List Node}
    (compiled : Compiled source pattern tokens groups pieces nodes)
    (regular : ∀ hole constraint, .hole hole ∈ tokens → hole.constraint = some constraint →
      Regular pattern constraint) (text : Array UInt16) {hole : Hole} {inner : List Lexeme} {body : Node}
    (member : .hole hole ∈ trimOuter tokens) (inside : Inside groups (bodySource hole) inner body) :
    Matches text hole body := by
  cases constrained : hole.constraint with
  | none => exact inside.matches_unconstrained constrained text
  | some constraint =>
    obtain ⟨⟨expression, parse, plain, unnamed⟩, known⟩ :=
      regular hole constraint (mem_trimOuter.mp member) constrained
    obtain ⟨first, read, surveyed⟩ := compiled.surveyed
    obtain ⟨own, readInside, quiet⟩ := known first groups read surveyed
    exact inside.matches_constraint constrained readInside quiet parse plain unnamed text

section

variable {tokens : List Token} {u : UInt16}

theorem solid_mem_trimStart {value : Text} (solid : isBlank u = false) (member : u ∈ value) :
    u ∈ trimStart value := by
  rw [← List.takeWhile_append_dropWhile (p := isBlank) (l := value)] at member
  rcases List.mem_append.mp member with before | after
  · rw [List.all_eq_true.mp List.all_takeWhile u before] at solid
    cases solid
  · exact after

theorem solid_mem_trimEnd {value : Text} (solid : isBlank u = false) (member : u ∈ value) :
    u ∈ trimEnd value :=
  List.mem_reverse.mpr (solid_mem_trimStart solid (List.mem_reverse.mpr member))

theorem solid_mem_trimFirst (trim : Text → Text) (kept : ∀ value, u ∈ value → u ∈ trim value)
    (solid : ∃ value, .literal value ∈ tokens ∧ u ∈ value) :
    ∃ value, .literal value ∈ trimFirst trim tokens ∧ u ∈ value := by
  obtain ⟨value, member, among⟩ := solid
  unfold trimFirst
  split
  next front rest =>
    rcases List.mem_cons.mp member with same | later
    · obtain rfl := Token.literal.inj same
      exact ⟨trim value, List.mem_cons_self, kept value among⟩
    · exact ⟨value, List.mem_cons_of_mem _ later, among⟩
  next => exact ⟨value, member, among⟩

theorem solid_mem_trimOuter (solid : isBlank u = false)
    (member : ∃ value, .literal value ∈ tokens ∧ u ∈ value) :
    ∃ value, .literal value ∈ trimOuter tokens ∧ u ∈ value := by
  have front := solid_mem_trimFirst trimStart (fun value => solid_mem_trimStart solid) member
  have turned : ∃ value, .literal value ∈ (trimFirst trimStart tokens).reverse ∧ u ∈ value := by
    simpa using front
  obtain ⟨value, back, among⟩ :=
    solid_mem_trimFirst trimEnd (fun value => solid_mem_trimEnd solid) turned
  refine ⟨value, List.mem_filter.mpr ⟨List.mem_reverse.mpr back, ?_⟩, among⟩
  apply bne_iff_ne.mpr
  intro same
  obtain rfl := Token.literal.inj same
  cases among

theorem LiteralFits.mem {value segment : Text} (fits : LiteralFits value segment)
    (solid : isBlank u = false) (member : u ∈ value) : u ∈ segment := by
  induction fits with
  | nil => exact member
  | unit _ _ ih =>
    rcases List.mem_cons.mp member with rfl | later
    · exact List.mem_cons_self
    · exact List.mem_cons_of_mem _ (ih later)
  | blanks _ run_blank _ _ _ ih =>
    rcases List.mem_append.mp member with before | after
    · rw [run_blank u before] at solid
      cases solid
    · exact List.mem_append_right _ (ih after)

theorem Segments.mem {allowed : Hole → Text → Prop} {bound final : List (Text × Text)}
    {segments : List Text} (fits : Segments allowed bound tokens segments final)
    (solid : isBlank u = false) (member : ∃ value, .literal value ∈ tokens ∧ u ∈ value) : u ∈ segments.flatten := by
  obtain ⟨value, member, among⟩ := member
  induction fits with
  | nil => cases member
  | literal literal _ ih =>
    rw [List.flatten_cons]
    rcases List.mem_cons.mp member with same | later
    · obtain rfl := Token.literal.inj same
      exact List.mem_append_left _ (literal.mem solid among)
    · exact List.mem_append_right _ (ih later)
  | anonymous _ _ _ ih | first _ _ _ _ ih | again _ _ _ ih =>
    rw [List.flatten_cons]
    rcases List.mem_cons.mp member with same | later
    · cases same
    · exact List.mem_append_right _ (ih later)

theorem Segments.solid {allowed : Hole → Text → Prop} {bound final : List (Text × Text)}
    {segments : List Text} (fits : Segments allowed bound tokens segments final)
    (solid : isBlank u = false) (member : ∃ value, .literal value ∈ tokens ∧ u ∈ value) :
    segments.flatten ≠ [] :=
  List.ne_nil_of_mem (fits.mem solid member)

end

/-- The search misses no place where the node of the pattern matches and moves on. -/
theorem covered_of_moved {pattern : Pattern} {text : Array UInt16} {from_ position : Nat} (reached : from_ ≤ position)
    (inside : position ≤ text.size) {point : Point}
    (hit : pattern.expression.node.matchAt text position = some point) (moved : position < point.position) :
    ∃ found ∈ pattern.matchesFrom text from_, found.start ≤ position ∧ position < found.stop := by
  induction from_ using matchesFrom.induct pattern text with
  | case1 start beyond => omega
  | case2 start within miss ih =>
    have apart : start ≠ position := by
      rintro rfl
      rw [hit] at miss
      cases miss
    rw [matchesFrom_miss within miss]
    exact ih (by omega)
  | case3 start within reach first onward ih =>
    rw [matchesFrom_hit within first onward]
    by_cases covered : position < reach.position
    · exact ⟨_, List.mem_cons_self, reached, covered⟩
    · obtain ⟨found, member, facts⟩ := ih (by omega)
      exact ⟨found, List.mem_cons_of_mem _ member, facts⟩
  | case4 start within reach first still ih =>
    have apart : start ≠ position := by
      rintro rfl
      obtain rfl := Option.some.inj (hit.symm.trans first)
      exact still moved
    rw [matchesFrom_empty within first still]
    exact ih (by omega)

theorem covered_of_matchAt {pattern : Pattern} {text : Array UInt16}
    (moves : ∀ position point, pattern.expression.node.matchAt text position = some point →
      position ≤ text.size → position < point.position)
    {from_ position : Nat} (reached : from_ ≤ position) (inside : position ≤ text.size) {point : Point}
    (hit : pattern.expression.node.matchAt text position = some point) :
    ∃ found ∈ pattern.matchesFrom text from_, found.start ≤ position ∧ position < found.stop :=
  covered_of_moved reached inside hit (moves position point hit inside)

/-- The matches of a pattern with a literal unit that is not blank and with regular constraints are
instances of it, and every place where an instance starts lies in one of them. -/
theorem matchesIn_instances {source : Text} {pattern : Pattern} {tokens : List Token}
    (compile : Pattern.compile source = .ok pattern) (read : Template.tokens source = .ok tokens)
    (solid : ∃ u value, .literal value ∈ tokens ∧ u ∈ value ∧ isBlank u = false)
    (regular : ∀ hole constraint, .hole hole ∈ tokens → hole.constraint = some constraint →
      Regular pattern constraint) (text : Text) :
    (∀ found ∈ pattern.matchesIn text,
      found.text = slice text found.start found.stop ∧ IsInstance tokens found.text) ∧
    ∀ start stop, start ≤ stop → stop ≤ text.length → IsInstance tokens (slice text start stop) →
      ∃ found ∈ pattern.matchesIn text, found.start ≤ start ∧ start < found.stop := by
  obtain ⟨others, groups, pieces, nodes, compiled⟩ := compiled_of_compile compile
  obtain rfl := Except.ok.inj (compiled.read.symm.trans read)
  have holes := fun hole inner body (member : .hole hole ∈ trimOuter others)
    (inside : Inside groups (bodySource hole) inner body) =>
      compiled.matches_holes regular text.toArray member inside
  obtain ⟨u, value, member, among, unblank⟩ := solid
  have kept := solid_mem_trimOuter unblank ⟨value, member, among⟩
  have cut {start : Nat} {point : Point} (inside : start ≤ text.toArray.size)
      (hit : pattern.expression.node.matchAt text.toArray start = some point) :
      ∃ segments final, Segments InLanguage [] (trimOuter others) segments final ∧
        Span.units text.toArray ⟨start, point.position⟩ = segments.flatten := by
    obtain ⟨segments, final, _, fits, units, _⟩ := compiled.segments
      (fun hole inner body member within met point next inText way =>
        ((holes hole inner body member within).sound met point next inText way).2) inside hit
    exact ⟨segments, final, fits, units⟩
  have moves (start : Nat) (point : Point)
      (hit : pattern.expression.node.matchAt text.toArray start = some point)
      (inside : start ≤ text.toArray.size) : start < point.position := by
    obtain ⟨segments, final, fits, units⟩ := cut inside hit
    by_cases moved : start < point.position
    · exact moved
    · rw [Span.units_of_le text.toArray (Nat.le_of_not_lt moved)] at units
      exact absurd units.symm (fits.solid unblank kept)
  refine ⟨fun found among => ?_, fun start stop order inside instance_ => ?_⟩
  · obtain ⟨start, point, hit, _, inside, rfl⟩ := mem_matchesFrom among
    obtain ⟨segments, final, fits, units⟩ := cut inside hit
    exact ⟨Span.units_eq text.toArray start point.position, segments, final, fits, units⟩
  · obtain ⟨segments, final, fits, units⟩ := instance_
    have joined : Span.units text.toArray ⟨start, stop⟩ = segments.flatten := by
      rw [Span.units_eq, ← units]
      rfl
    obtain ⟨last, way⟩ := ways_of_segments compiled.composed
      (fun hole inner body member within met => (holes hole inner body member within).complete met) rfl
      (show Recorded text.toArray groups 0 [] (Point.mk start fun _ => none).groups from
        fun _ _ none => nomatch none) fits order inside joined
    rw [← compiled.node] at way
    cases hit : pattern.expression.node.matchAt text.toArray start with
    | none =>
      rw [Node.matchAt_eq, List.head?_eq_none_iff] at hit
      rw [hit] at way
      cases way
    | some point =>
      exact covered_of_matchAt moves (Nat.zero_le start) (Nat.le_trans order inside) hit

theorem matchesIn_instances_constrained :
    ∃ pattern tokens,
      Pattern.compile (units "f(:[x], :[_~a+])") = .ok pattern ∧
      Template.tokens (units "f(:[x], :[_~a+])") = .ok tokens ∧
      (∃ u value, .literal value ∈ tokens ∧ u ∈ value ∧ isBlank u = false) ∧
      (∀ hole constraint, .hole hole ∈ tokens → hole.constraint = some constraint →
        Regular pattern constraint) ∧
      (∀ found ∈ pattern.matchesIn (units "f(b,aa)"),
        found.text = slice (units "f(b,aa)") found.start found.stop ∧ IsInstance tokens found.text) ∧
      ∀ start stop, start ≤ stop → stop ≤ (units "f(b,aa)").length →
        IsInstance tokens (slice (units "f(b,aa)") start stop) →
        ∃ found ∈ pattern.matchesIn (units "f(b,aa)"), found.start ≤ start ∧ start < found.stop := by
  have compiles : (match Pattern.compile (units "f(:[x], :[_~a+])") with
      | .ok pattern => decide (Regular pattern (units "a+"))
      | .error _ => false) = true := by decide +kernel
  have reads : (match Template.tokens (units "f(:[x], :[_~a+])") with
      | .ok tokens => decide (.literal (units "f(") ∈ tokens) && tokens.all fun token =>
        match token with
        | .hole hole => hole.constraint.all (· == units "a+")
        | .literal _ => true
      | .error _ => false) = true := by decide +kernel
  split at compiles
  · next pattern compile =>
    split at reads
    · next tokens read =>
      rw [Bool.and_eq_true, decide_eq_true_iff, List.all_eq_true] at reads
      have solid : ∃ u value, .literal value ∈ tokens ∧ u ∈ value ∧ isBlank u = false :=
        ⟨0x66, units "f(", reads.1, by decide, by decide⟩
      have regular : ∀ hole constraint, .hole hole ∈ tokens → hole.constraint = some constraint →
          Regular pattern constraint := by
        intro hole constraint member given
        have only := reads.2 _ member
        simp only [given, Option.all_some, beq_iff_eq] at only
        exact only ▸ of_decide_eq_true compiles
      exact ⟨pattern, tokens, compile, read, solid, regular,
        matchesIn_instances compile read solid regular (units "f(b,aa)")⟩
    · cases reads
  · cases compiles

end Emend.Pattern
