import Emend.Proofs.PatternInstances

/-! What a hole has consumed, measured by its constraint alone. A constraint that makes no reference, neither
on its own nor with the groups and names of the pattern around it, means the same in both places. A
reference does not: inside the pattern it counts the groups of all holes before it as well. -/

namespace Emend

open Text Template Expression

theorem exists_of_any_toOption {ε α : Type} {result : Except ε α} {check : α → Bool}
    (passes : result.toOption.any check = true) : ∃ value, result = .ok value ∧ check value = true := by
  cases result with
  | ok value => exact ⟨value, rfl, passes⟩
  | error => cases passes

namespace Expression

def matchesWhole (expression : Expression) (t : Text) : Bool :=
  ((Node.sequence expression.node .stop).matchAt t.toArray 0).isSome

/-- Where the text is in the language of a plain expression, the search comes to the end of it. -/
theorem matchesWhole_of_accepts {expression : Expression} {t : Text} (plain : expression.node.isPlain = true)
    (accepts : expression.node.accepts t) : expression.matchesWhole t = true := by
  have whole : Span.units t.toArray ⟨0, t.length⟩ = t := by
    rw [Span.units_eq]
    simp
  obtain ⟨groups, way⟩ := Node.complete plain ⟨0, fun _ => none⟩ t.length 
    (Nat.zero_le _) (Nat.le_of_eq rfl) (whole.symm ▸ accepts)
  have stop : (⟨t.length, groups⟩ : Point) ∈ Node.stop.ways t.toArray .forward ⟨t.length, groups⟩ := by
    simp [Node.ways]
  have ways : (⟨t.length, groups⟩ : Point) ∈
      (Node.sequence expression.node .stop).ways t.toArray .forward ⟨0, fun _ => none⟩ :=
    List.mem_flatMap.mpr ⟨_, way, stop⟩
  rw [matchesWhole, Node.matchAt_eq, List.isSome_head?]
  exact List.ne_nil_of_mem ways

def known (text : Text) : Except Defect Survey := do survey (← lexemes .bare text)

/-- No escape of a constraint is a reference, given what is known of the text around it. -/
def isQuiet (around constraint : Text) : Bool :=
  match known around >>= fun groups => lexemes groups constraint with
  | .ok pieces => pieces.all fun piece => !Pattern.isReference piece
  | .error _ => false

theorem reads_of_isQuiet {around constraint : Text} {groups : Survey} (quiet : isQuiet around constraint = true)
    (surveyed : known around = .ok groups) :
    ∃ pieces, Reads groups constraint pieces [] ∧ ∀ index, Lexeme.atom (.reference index) ∉ pieces := by
  rw [isQuiet, surveyed] at quiet
  change (match lexemes groups constraint with
    | .ok pieces => pieces.all fun piece => !Pattern.isReference piece
    | .error _ => false) = true at quiet
  split at quiet
  next pieces read =>
    refine ⟨pieces, lexemes_eq_ok_iff.mp read, fun index member => ?_⟩
    have plain := List.all_eq_true.mp quiet _ member
    cases plain
  next => cases quiet

end Expression

namespace Pattern

/-- A constraint without assertions that makes no reference, on its own or inside a pattern. -/
structure SelfContained (pattern : Pattern) (constraint : Text) : Prop where
  plain : ∀ expression, Expression.parse constraint = .ok expression → expression.node.isPlain = true
  alone : isQuiet constraint constraint = true
  inside : isQuiet pattern.expression.text constraint = true

theorem selfContained_iff {pattern : Pattern} {constraint : Text} :
    ((Expression.parse constraint).toOption.all (·.node.isPlain) && isQuiet constraint constraint &&
      isQuiet pattern.expression.text constraint) = true ↔ SelfContained pattern constraint := by
  have plain : (Expression.parse constraint).toOption.all (·.node.isPlain) = true ↔
      ∀ expression, Expression.parse constraint = .ok expression → expression.node.isPlain = true := by
    cases Expression.parse constraint <;> simp [Except.toOption]
  rw [Bool.and_eq_true, Bool.and_eq_true, plain]
  exact ⟨fun ⟨⟨first, second⟩, third⟩ => ⟨first, second, third⟩, fun facts => ⟨⟨facts.1, facts.2⟩, facts.3⟩⟩

instance (pattern : Pattern) (constraint : Text) : Decidable (SelfContained pattern constraint) :=
  decidable_of_iff _ selfContained_iff

theorem Inside.eq_node {pattern : Pattern} {groups : Survey} {constraint : Text} {inner : List Lexeme} {body : Node}
    (inside : Inside groups constraint inner body) (contained : SelfContained pattern constraint)
    (surveyed : known pattern.expression.text = .ok groups) {expression : Expression}
    (parse : Expression.parse constraint = .ok expression) : body = expression.node := by
  obtain ⟨own, first, second, parsed⟩ := parse_eq_ok_iff.mp parse
  obtain ⟨_, made, _, more, reach⟩ := inside
  obtain ⟨pieces, read, plain⟩ := reads_of_isQuiet contained.inside surveyed
  obtain rfl := reach.unique (read.before_paren more)
  obtain rfl := (read.within groups.bare_within plain).unique parsed.first
  have alone : known constraint = .ok own :=
    bind_eq_ok.mpr ⟨_, lexemes_eq_ok_iff.mpr parsed.first, parsed.surveyed_alone⟩
  obtain ⟨others, again, plainToo⟩ := reads_of_isQuiet contained.alone alone
  obtain rfl := again.unique parsed.second
  obtain rfl := (again.within own.bare_within plainToo).unique parsed.first
  exact Except.ok.inj (made.symm.trans parsed.made)

def MeansAlone (pattern : Pattern) (hole : Hole) (segment : Text) : Prop :=
  ∀ constraint, hole.constraint = some constraint → SelfContained pattern constraint →
    ∃ expression, Expression.parse constraint = .ok expression ∧ expression.matchesWhole segment = true

theorem Inside.meansAlone {pattern : Pattern} {groups : Survey} {hole : Hole} {inner : List Lexeme} {body : Node}
    (inside : Inside groups (bodySource hole) inner body) (surveyed : known pattern.expression.text = .ok groups)
    (valid : ∀ constraint, hole.constraint = some constraint → ∃ expression, Expression.parse constraint = .ok expression)
    {text : Array UInt16} {met : Nat} {point next : Point} (inText : point.position ≤ text.size)
    (way : next ∈ (body.shift met).ways text .forward point) :
    MeansAlone pattern hole (Span.units text ⟨point.position, next.position⟩) := by
  intro constraint constrained contained
  obtain ⟨expression, parse⟩ := valid constraint constrained
  rw [bodySource, constrained, Option.getD_some] at inside
  have ordered := (numbered_of_assemble inside.lexed inside.made).ordered
  obtain rfl := inside.eq_node contained surveyed parse
  have plain := contained.plain expression parse
  have accepts := (Node.sound ((isPlain_shift met _).trans plain) ((isOrdered_shift met _).trans ordered)
    point next inText way).2
  rw [accepts_shift] at accepts
  exact ⟨expression, parse, matchesWhole_of_accepts plain accepts⟩

section

variable {allowed : Hole → Text → Prop} {bound final : List (Text × Text)} {tokens : List Token} {segments : List Text}

theorem Segments.kept (fits : Segments allowed bound tokens segments final) {pair : Text × Text}
    (member : pair ∈ bound) : pair ∈ final := by
  induction fits with
  | nil => exact member
  | literal _ _ ih | anonymous _ _ _ ih | again _ _ _ ih => exact ih member
  | first _ _ _ _ ih => exact ih (List.mem_append_left _ member)

/-- The first hole of a name binds it to something that this hole may consume. -/
theorem Segments.first_allowed (fits : Segments allowed bound tokens segments final) {before after : List Token}
    {hole : Hole} (cut : tokens = before ++ .hole hole :: after) (named : hole.anonymous = false)
    (fresh : hole.name ∉ before.foldl seenAfter (bound.map Prod.fst)) :
    ∃ segment, (hole.name, segment) ∈ final ∧ allowed hole segment := by
  induction fits generalizing before with
  | nil bound => simp at cut
  | literal _ _ ih =>
    rcases List.cons_eq_append_iff.mp cut with ⟨rfl, same⟩ | ⟨early, rfl, later⟩
    · cases same
    · exact ih later fresh
  | anonymous unnamed _ _ ih =>
    rcases List.cons_eq_append_iff.mp cut with ⟨rfl, same⟩ | ⟨early, rfl, later⟩
    · cases same
      rw [named] at unnamed
      cases unnamed
    · rw [List.foldl_cons, seenAfter_anonymous unnamed] at fresh
      exact ih later fresh
  | @first bound final _ _ other segment own unbound accept rest ih =>
    rcases List.cons_eq_append_iff.mp cut with ⟨rfl, same⟩ | ⟨early, rfl, later⟩
    · cases same
      exact ⟨segment, rest.kept (List.mem_append_right _ List.mem_cons_self), accept⟩
    · have outside := (lookup_eq_none_iff_not_mem bound other.name).mp unbound
      rw [List.foldl_cons, seenAfter_first own outside] at fresh
      exact ih later (by rwa [List.map_append])
  | @again bound _ _ _ other _ own found _ ih =>
    have old := mem_of_lookup found
    rcases List.cons_eq_append_iff.mp cut with ⟨rfl, same⟩ | ⟨early, rfl, later⟩
    · cases same
      exact absurd old fresh
    · rw [List.foldl_cons, seenAfter_again own old] at fresh
      exact ih later fresh

end

/-- Every hole of a match has consumed a match of its constraint alone, if that is self-contained. This goes
for the capture of each name, which is what the first hole of the name has consumed. A later hole of a name
has consumed the same text once more, whatever its own constraint says. -/
theorem matchesIn_meansAlone {source : Text} {pattern : Pattern} {tokens : List Token}
    (compile : Pattern.compile source = .ok pattern) (read : Template.tokens source = .ok tokens) (text : Text)
    {found : Match} (member : found ∈ pattern.matchesIn text) :
    ∃ segments bound, Segments (MeansAlone pattern) [] (trimOuter tokens) segments bound ∧
      found.text = segments.flatten ∧ found.captures = (bound.filter fun pair => pair.1 != reservedName) ∧
      ∀ before hole after, trimOuter tokens = before ++ .hole hole :: after → hole.anonymous = false →
        hole.name ∉ holesOf before → hole.name ≠ reservedName →
        ∃ segment, (hole.name, segment) ∈ found.captures ∧ MeansAlone pattern hole segment := by
  obtain ⟨others, groups, pieces, nodes, compiled⟩ := compiled_of_compile compile
  obtain rfl := Except.ok.inj (compiled.read.symm.trans read)
  obtain ⟨start, point, hit, _, inside, rfl⟩ := mem_matchesFrom member
  have surveyed : known pattern.expression.text = .ok groups := bind_eq_ok.mpr compiled.surveyed
  obtain ⟨segments, bound, met, fits, units, recorded⟩ := compiled.segments
    (fun hole _ _ among within _ _ _ inText way =>
      within.meansAlone surveyed (tokens_sound compiled.read hole (mem_trimOuter.mp among)).checked inText way)
    inside hit
  have captures := compiled.captures_eq_filter start fits recorded
  refine ⟨segments, bound, fits, units, captures, fun before hole after cut named first unreserved => ?_⟩
  obtain ⟨segment, among, alone⟩ := fits.first_allowed cut named first
  exact ⟨segment, captures ▸ List.mem_filter.mpr ⟨among, bne_iff_ne.mpr unreserved⟩, alone⟩

theorem matchesIn_meansAlone_group :
    ∃ pattern tokens found segments bound,
      Pattern.compile (units "f(:[x~a], :[y~(?<n>b)+])") = .ok pattern ∧
      Template.tokens (units "f(:[x~a], :[y~(?<n>b)+])") = .ok tokens ∧
      SelfContained pattern (units "(?<n>b)+") ∧ found ∈ pattern.matchesIn (units "f(a, bb)") ∧
      Segments (MeansAlone pattern) [] (trimOuter tokens) segments bound ∧
      found.text = segments.flatten ∧ found.captures = (bound.filter fun pair => pair.1 != reservedName) ∧
      ∀ before hole after, trimOuter tokens = before ++ .hole hole :: after → hole.anonymous = false →
        hole.name ∉ holesOf before → hole.name ≠ reservedName →
        ∃ segment, (hole.name, segment) ∈ found.captures ∧ MeansAlone pattern hole segment := by
  have compiles : ((Pattern.compile (units "f(:[x~a], :[y~(?<n>b)+])")).toOption.any fun pattern =>
      decide (SelfContained pattern (units "(?<n>b)+")) && decide (pattern.matchesIn (units "f(a, bb)") ≠ [])) =
      true := by decide +kernel
  have reads : ((Template.tokens (units "f(:[x~a], :[y~(?<n>b)+])")).toOption.any fun _ => true) = true := by
    decide +kernel
  obtain ⟨pattern, compile, checks⟩ := exists_of_any_toOption compiles
  obtain ⟨tokens, read, _⟩ := exists_of_any_toOption reads
  rw [Bool.and_eq_true, decide_eq_true_iff, decide_eq_true_iff] at checks
  obtain ⟨contained, occupied⟩ := checks
  obtain ⟨found, member⟩ := List.exists_mem_of_ne_nil _ occupied
  obtain ⟨segments, bound, facts⟩ := matchesIn_meansAlone compile read (units "f(a, bb)") member
  exact ⟨pattern, tokens, found, segments, bound, compile, read, contained, member, facts⟩

/-- A reference counts the groups of the holes before it: inside the pattern `\1` is the hole `x`, on its own
it is the group before it. So the hole `y` has captured what its constraint alone does not match. -/
theorem captured_reference_not_matchesWhole :
    ∃ pattern found expression set,
      Pattern.compile (units "f(:[x~a], :[y~(b)\\1])") = .ok pattern ∧
      found ∈ pattern.matchesIn (units "f(a, ba)") ∧ (units "y", units "ba") ∈ found.captures ∧
      Expression.parse (units "(b)\\1") = .ok expression ∧
      expression.node = .sequence (.group 1 (.sequence (.unit set) .empty)) (.sequence (.reference 1) .empty) ∧
      expression.matchesWhole (units "bb") = true ∧ expression.matchesWhole (units "ba") = false := by
  have compiles : ((Pattern.compile (units "f(:[x~a], :[y~(b)\\1])")).toOption.any fun pattern =>
      (pattern.matchesIn (units "f(a, ba)")).any fun found => decide ((units "y", units "ba") ∈ found.captures)) =
      true := by decide +kernel
  have alone : ((Expression.parse (units "(b)\\1")).toOption.any fun expression =>
      decide (expression.node = .sequence
          (.group 1 (.sequence (.unit (.single 0x62)) .empty)) (.sequence (.reference 1) .empty)) &&
        expression.matchesWhole (units "bb") && !expression.matchesWhole (units "ba")) = true := by decide +kernel
  obtain ⟨pattern, compile, finds⟩ := exists_of_any_toOption compiles
  obtain ⟨expression, parse, checks⟩ := exists_of_any_toOption alone
  obtain ⟨found, member, captured⟩ := List.any_eq_true.mp finds
  rw [Bool.and_eq_true, Bool.and_eq_true, decide_eq_true_iff, Bool.not_eq_true'] at checks
  exact ⟨pattern, found, expression, .single 0x62, compile, member, of_decide_eq_true captured, parse,
    checks.1.1, checks.1.2, checks.2⟩

end Pattern

end Emend
