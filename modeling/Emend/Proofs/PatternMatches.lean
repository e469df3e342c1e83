import Emend.Proofs.PatternSegments

/-! What a match of a pattern tells. Its text is one segment after the other for the trimmed tokens of
the pattern, and its captures are the segments that the names are bound to, whatever regular
expressions constrain the holes. -/

namespace Emend.Pattern

open Text Template Expression

section

variable {pattern : Pattern} {text : Array UInt16} {position : Nat}

theorem matchesFrom_beyond (beyond : text.size < position) : pattern.matchesFrom text position = [] := by
  rw [matchesFrom, if_pos beyond]

theorem matchesFrom_miss (inside : ¬ text.size < position)
    (miss : pattern.expression.node.matchAt text position = none) :
    pattern.matchesFrom text position = pattern.matchesFrom text (position + 1) := by
  rw [matchesFrom, if_neg inside]
  simp only [miss]

theorem matchesFrom_hit (inside : ¬ text.size < position) {point : Point}
    (hit : pattern.expression.node.matchAt text position = some point)
    (moved : position < point.position) :
    pattern.matchesFrom text position =
      pattern.matchOf text position point :: pattern.matchesFrom text point.position := by
  rw [matchesFrom, if_neg inside]
  simp only [hit, if_pos moved]

theorem matchesFrom_empty (inside : ¬ text.size < position) {point : Point}
    (hit : pattern.expression.node.matchAt text position = some point)
    (still : ¬ position < point.position) :
    pattern.matchesFrom text position = pattern.matchesFrom text (position + 1) := by
  rw [matchesFrom, if_neg inside]
  simp only [hit, if_neg still]

theorem mem_matchesFrom {found : Match} (member : found ∈ pattern.matchesFrom text position) :
    ∃ start point, pattern.expression.node.matchAt text start = some point ∧
      start < point.position ∧ start ≤ text.size ∧ found = pattern.matchOf text start point := by
  induction position using matchesFrom.induct pattern text with
  | case1 position beyond =>
    rw [matchesFrom_beyond beyond] at member
    cases member
  | case2 position inside miss ih =>
    rw [matchesFrom_miss inside miss] at member
    exact ih member
  | case3 position inside point hit moved ih =>
    rw [matchesFrom_hit inside hit moved] at member
    rcases List.mem_cons.mp member with rfl | later
    · exact ⟨position, point, hit, moved, Nat.le_of_not_lt inside, rfl⟩
    · exact ih later
  | case4 position inside point hit still ih =>
    rw [matchesFrom_empty inside hit still] at member
    exact ih member

end

theorem Inside.unconstrained {survey : Survey} {inner : List Lexeme} {body : Node}
    (inside : Inside survey unconstrained inner body) :
    body = .sequence (.loop (.unit (.complement .empty)) 1 none false) .empty := by
  obtain ⟨_, made, _, more, read⟩ := inside
  obtain rfl := read.unique ((reads_unconstrained survey).before_paren more)
  exact (Except.ok.inj made).symm

theorem unconstrained_ne_nil {text : Array UInt16} {point next : Point}
    (inside : point.position ≤ text.size)
    (member : next ∈ (Node.sequence (.loop (.unit (.complement .empty)) 1 none false) .empty).ways text
      .forward point) :
    Span.units text ⟨point.position, next.position⟩ ≠ [] := by
  obtain ⟨_, left, right, joined, ⟨pieces, rfl, each, enough, _⟩, _⟩ :=
    Node.sound rfl rfl point next inside member
  intro empty
  cases pieces with
  | nil => cases enough
  | cons piece pieces =>
    obtain ⟨u, _, rfl⟩ := each piece List.mem_cons_self
    rw [empty] at joined
    cases joined

section

variable {seen : List Text} {hole : Hole}

theorem seenAfter_anonymous (unnamed : hole.anonymous = true) : seenAfter seen (.hole hole) = seen := by
  simp [seenAfter, Token.captureName?, unnamed]

theorem seenAfter_first (named : hole.anonymous = false) (fresh : hole.name ∉ seen) :
    seenAfter seen (.hole hole) = seen ++ [hole.name] := by
  simp [seenAfter, Token.captureName?, named, fresh]

theorem seenAfter_again (named : hole.anonymous = false) (old : hole.name ∈ seen) :
    seenAfter seen (.hole hole) = seen := by
  simp [seenAfter, Token.captureName?, named, old]

end

section

variable {allowed : Hole → Text → Prop}

theorem Segments.names {bound final : List (Text × Text)} {tokens : List Token} {segments : List Text}
    (fits : Segments allowed bound tokens segments final) :
    final.map Prod.fst = tokens.foldl seenAfter (bound.map Prod.fst) := by
  induction fits with
  | nil bound => rfl
  | literal _ _ ih => exact ih
  | anonymous unnamed _ _ ih => rw [ih, List.foldl_cons, seenAfter_anonymous unnamed]
  | @first bound _ _ _ hole _ named fresh _ _ ih =>
    have outside : hole.name ∉ bound.map Prod.fst := (lookup_eq_none_iff_not_mem bound hole.name).mp fresh
    rw [ih, List.foldl_cons, List.map_append, List.map_singleton, seenAfter_first named outside]
  | @again bound _ _ _ hole segment named same _ ih =>
    rw [ih, List.foldl_cons, seenAfter_again named (mem_of_lookup same)]

theorem Segments.nodup {bound final : List (Text × Text)} {tokens : List Token} {segments : List Text}
    (fits : Segments allowed bound tokens segments final) (once : (bound.map Prod.fst).Nodup) :
    (final.map Prod.fst).Nodup := by
  induction fits with
  | nil bound => exact once
  | literal _ _ ih | anonymous _ _ _ ih | again _ _ _ ih => exact ih once
  | first _ fresh _ _ ih => exact ih (nodup_keys_concat once fresh _)

end

/-- Every capture is the segment that its name is bound to. -/
theorem capture?_of_recorded {expression : Expression} {survey : Survey} {text : Array UInt16}
    {point : Point} {met : Nat} {bound : List (Text × Text)} (names : expression.names = survey.names)
    (recorded : Recorded text survey met bound point.groups) {name segment : Text}
    (found : bound.lookup name = some segment) :
    expression.capture? text point name = some segment := by
  obtain ⟨index, span, lookup, _, record, _, _, content⟩ := recorded name segment found
  rw [Expression.capture?, names, lookup, Option.bind_eq_bind, Option.bind_some, record,
    Option.bind_eq_bind, Option.bind_some, content]
  rfl

/-- The captures of a match are what the holes have recorded, but for the reserved name. -/
theorem captures_of_recorded {pattern : Pattern} {survey : Survey} {text : Array UInt16} {point : Point} {met : Nat}
    {final : List (Text × Text)} (names : pattern.expression.names = survey.names)
    (holes : final.map Prod.fst = pattern.holes) (once : (final.map Prod.fst).Nodup) (start : Nat)
    (recorded : Recorded text survey met final point.groups) :
    (pattern.matchOf text start point).captures = final.filter fun pair => pair.1 != reservedName := by
  show (pattern.holes.filter (· != reservedName)).map _ = _
  rw [← holes, List.filter_map, List.map_map]
  conv => rhs; rw [← List.map_id (final.filter _)]
  apply List.map_congr_left
  intro pair member
  obtain ⟨name, segment⟩ := pair
  have found := capture?_of_recorded names recorded (lookup_of_mem once (List.mem_filter.mp member).1)
  simp [found]

section

variable {source : Text} {pattern : Pattern} {tokens : List Token} {survey : Survey}
  {pieces : List Lexeme} {nodes : List Node} {allowed : Hole → Text → Prop}

/-- A match of a compiled pattern cuts its units into segments, provided that each hole consumes what
it is allowed to. -/
theorem Compiled.segments (compiled : Compiled source pattern tokens survey pieces nodes)
    {text : Array UInt16}
    (allow : ∀ hole inner body, .hole hole ∈ trimOuter tokens →
      Inside survey (bodySource hole) inner body →
      ∀ met (point next : Point), point.position ≤ text.size →
        next ∈ (body.shift met).ways text .forward point →
          allowed hole (Span.units text ⟨point.position, next.position⟩))
    {start : Nat} {point : Point} (inside : start ≤ text.size)
    (hit : pattern.expression.node.matchAt text start = some point) :
    ∃ segments final met, Segments allowed [] (trimOuter tokens) segments final ∧
      Span.units text ⟨start, point.position⟩ = segments.flatten ∧
      Recorded text survey met final point.groups := by
  have way : point ∈ (Node.sequenceOf nodes).ways text .forward ⟨start, fun _ => none⟩ := by
    rw [← compiled.node]
    rw [Node.matchAt_eq] at hit
    exact List.mem_of_mem_head? hit
  exact segments_of_ways compiled.composed allow [] rfl (fun _ _ none => nomatch none) inside way

theorem Compiled.names_eq_holes (compiled : Compiled source pattern tokens survey pieces nodes)
    {segments : List Text} {final : List (Text × Text)}
    (fits : Segments allowed [] (trimOuter tokens) segments final) :
    final.map Prod.fst = pattern.holes := by
  rw [compiled.holes]
  exact fits.names

theorem Compiled.captures_eq_filter (compiled : Compiled source pattern tokens survey pieces nodes)
    {text : Array UInt16} (start : Nat) {point : Point} {segments : List Text} {final : List (Text × Text)} {met : Nat}
    (fits : Segments allowed [] (trimOuter tokens) segments final)
    (recorded : Recorded text survey met final point.groups) :
    (pattern.matchOf text start point).captures = final.filter fun pair => pair.1 != reservedName :=
  captures_of_recorded compiled.names (compiled.names_eq_holes fits) (fits.nodup List.Pairwise.nil) start recorded

theorem Compiled.captures_eq (compiled : Compiled source pattern tokens survey pieces nodes)
    (unreserved : reservedName ∉ pattern.holes) {text : Array UInt16} (start : Nat) {point : Point}
    {segments : List Text} {final : List (Text × Text)} {met : Nat}
    (fits : Segments allowed [] (trimOuter tokens) segments final)
    (recorded : Recorded text survey met final point.groups) :
    (pattern.matchOf text start point).captures = final := by
  rw [compiled.captures_eq_filter start fits recorded, List.filter_eq_self]
  intro pair member
  refine bne_iff_ne.mpr fun same => unreserved ?_
  rw [← compiled.names_eq_holes fits, ← same]
  exact List.mem_map_of_mem member

end

def Occupied (hole : Hole) (segment : Text) : Prop := hole.constraint = none → segment ≠ []

/-- A match of a compiled pattern is one segment after the other for its trimmed tokens: literal text up
to its blanks, for each hole what it has consumed, and for a repeated hole what the first hole of its
name has captured. The captures are exactly those of the named holes, and each name has recorded one.
The constraints may be any regular expressions. -/
theorem matchesIn_segments {source : Text} {pattern : Pattern} {tokens : List Token}
    (compile : Pattern.compile source = .ok pattern) (read : Template.tokens source = .ok tokens)
    (unreserved : reservedName ∉ pattern.holes) (text : Text) {found : Match}
    (member : found ∈ pattern.matchesIn text) :
    ∃ segments point,
      Segments Occupied [] (trimOuter tokens) segments found.captures ∧
      found.text = segments.flatten ∧ found.captures.map Prod.fst = pattern.holes ∧
      pattern.expression.node.matchAt text.toArray found.start = some point ∧
      ∀ name ∈ pattern.holes, (pattern.expression.capture? text.toArray point name).isSome = true := by
  obtain ⟨others, survey, pieces, nodes, compiled⟩ := compiled_of_compile compile
  obtain rfl := Except.ok.inj (compiled.read.symm.trans read)
  obtain ⟨start, point, hit, _, inside, rfl⟩ := mem_matchesFrom member
  have allow : ∀ hole inner body, .hole hole ∈ trimOuter others → Inside survey (bodySource hole) inner body →
      ∀ met (point next : Point), point.position ≤ text.toArray.size →
        next ∈ (body.shift met).ways text.toArray .forward point →
          Occupied hole (Span.units text.toArray ⟨point.position, next.position⟩) := by
    intro hole inner body _ within met point next inside member free
    rw [bodySource, free, Option.getD_none] at within
    rw [within.unconstrained] at member
    exact unconstrained_ne_nil inside member
  obtain ⟨segments, final, met, fits, units, recorded⟩ := compiled.segments allow inside hit
  have captures := compiled.captures_eq unreserved start fits recorded
  refine ⟨segments, point, captures ▸ fits, units, ?_, hit, ?_⟩
  · rw [captures, compiled.names_eq_holes fits]
  · intro name among
    rw [← compiled.names_eq_holes fits] at among
    obtain ⟨⟨name, segment⟩, pair, rfl⟩ := List.mem_map.mp among
    rw [capture?_of_recorded compiled.names recorded (lookup_of_mem (fits.nodup List.Pairwise.nil) pair)]
    rfl

theorem matchesIn_segments_repeated :
    ∃ pattern tokens found segments point,
      Pattern.compile (units "f(:[x], :[x~a+])") = .ok pattern ∧
      Template.tokens (units "f(:[x], :[x~a+])") = .ok tokens ∧
      reservedName ∉ pattern.holes ∧ found ∈ pattern.matchesIn (units "b f(aa,aa)") ∧
      Segments Occupied [] (trimOuter tokens) segments found.captures ∧
      found.text = segments.flatten ∧ found.captures.map Prod.fst = pattern.holes ∧
      pattern.expression.node.matchAt (units "b f(aa,aa)").toArray found.start = some point ∧
      ∀ name ∈ pattern.holes,
        (pattern.expression.capture? (units "b f(aa,aa)").toArray point name).isSome = true := by
  have compiles : (match Pattern.compile (units "f(:[x], :[x~a+])") with
      | .ok pattern => decide (reservedName ∉ pattern.holes) &&
        decide (pattern.matchesIn (units "b f(aa,aa)") ≠ [])
      | .error _ => false) = true := by decide +kernel
  have reads : (match Template.tokens (units "f(:[x], :[x~a+])") with
      | .ok _ => true
      | .error _ => false) = true := by decide +kernel
  split at compiles
  · next pattern compile =>
    split at reads
    · next tokens read =>
      rw [Bool.and_eq_true, decide_eq_true_iff, decide_eq_true_iff] at compiles
      obtain ⟨unreserved, occupied⟩ := compiles
      obtain ⟨found, member⟩ := List.exists_mem_of_ne_nil _ occupied
      obtain ⟨segments, point, facts⟩ :=
        matchesIn_segments compile read unreserved (units "b f(aa,aa)") member
      exact ⟨pattern, tokens, found, segments, point, compile, read, unreserved, member, facts⟩
    · cases reads
  · cases compiles

end Emend.Pattern
