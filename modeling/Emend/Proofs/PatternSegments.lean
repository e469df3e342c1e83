import Emend.Proofs.LiteralFits

/-! What a compiled pattern matches, said as segments of the text, one for each token. Every way to
match cuts the text into such segments, and the group of each name keeps the segment of its first hole
to the end: no later constraint records under its number. -/

namespace Emend.Pattern

open Text Template Expression

/-- A text falls into one segment for each token. The first hole of a name binds it to its segment,
and every later one has the same segment. What a hole may consume is left open. -/
inductive Segments (allowed : Hole → Text → Prop) :
    List (Text × Text) → List Token → List Text → List (Text × Text) → Prop where
  | nil (bound : List (Text × Text)) : Segments allowed bound [] [] bound
  | literal {bound final : List (Text × Text)} {tokens : List Token} {segments : List Text}
      {value segment : Text} (fits : LiteralFits value segment)
      (rest : Segments allowed bound tokens segments final) :
      Segments allowed bound (.literal value :: tokens) (segment :: segments) final
  | anonymous {bound final : List (Text × Text)} {tokens : List Token} {segments : List Text}
      {hole : Hole} {segment : Text} (unnamed : hole.anonymous = true) (fits : allowed hole segment)
      (rest : Segments allowed bound tokens segments final) :
      Segments allowed bound (.hole hole :: tokens) (segment :: segments) final
  | first {bound final : List (Text × Text)} {tokens : List Token} {segments : List Text}
      {hole : Hole} {segment : Text} (named : hole.anonymous = false)
      (fresh : bound.lookup hole.name = none) (fits : allowed hole segment)
      (rest : Segments allowed (bound ++ [(hole.name, segment)]) tokens segments final) :
      Segments allowed bound (.hole hole :: tokens) (segment :: segments) final
  | again {bound final : List (Text × Text)} {tokens : List Token} {segments : List Text}
      {hole : Hole} {segment : Text} (named : hole.anonymous = false)
      (same : bound.lookup hole.name = some segment)
      (rest : Segments allowed bound tokens segments final) :
      Segments allowed bound (.hole hole :: tokens) (segment :: segments) final

/-- The group of each bound name has recorded where the segment of the name stands. -/
def Recorded (text : Array UInt16) (survey : Survey) (met : Nat) (bound : List (Text × Text))
    (groups : Groups) : Prop :=
  ∀ name segment, bound.lookup name = some segment → ∃ index span,
    survey.names.lookup name = some index ∧ index ≤ met ∧ groups index = some span ∧
      span.start ≤ span.stop ∧ span.stop ≤ text.size ∧ Span.units text span = segment

section

variable {text : Array UInt16} {survey : Survey} {met : Nat} {bound : List (Text × Text)}
  {groups : Groups}

theorem Recorded.mono (recorded : Recorded text survey met bound groups) {more : Nat} {others : Groups}
    (le : met ≤ more) (kept : ∀ index ≤ met, others index = groups index) :
    Recorded text survey more bound others := by
  intro name segment found
  obtain ⟨index, span, lookup, below, record, facts⟩ := recorded name segment found
  exact ⟨index, span, lookup, Nat.le_trans below le, (kept index below).trans record, facts⟩

theorem Recorded.bind (recorded : Recorded text survey met bound groups) {name : Text}
    (fresh : bound.lookup name = none) {index start stop : Nat} (inside : stop ≤ text.size)
    (order : start ≤ stop) (own : survey.names.lookup name = some index) (below : index ≤ met)
    (record : groups index = some ⟨start, stop⟩) :
    Recorded text survey met (bound ++ [(name, Span.units text ⟨start, stop⟩)]) groups := by
  intro other segment found
  rw [List.lookup_append] at found
  by_cases same : other = name
  · subst same
    rw [fresh] at found
    simp at found
    exact ⟨index, ⟨start, stop⟩, own, below, record, order, inside, found⟩
  · have apart : (other == name) = false := beq_eq_false_iff_ne.mpr same
    simp [List.lookup_cons, apart] at found
    exact recorded other segment found

/-- Nothing inside a hole records under a number met before the hole. -/
theorem Inside.outside {source : Text} {inner : List Lexeme} {body : Node}
    (inside : Inside survey source inner body) (met : Nat) {index : Nat} (below : index ≤ met) :
    index ∉ (body.shift met).groups := by
  intro member
  rw [Node.groups_shift] at member
  obtain ⟨own, among, rfl⟩ := List.mem_map.mp member
  have positive := ((numbered_of_assemble inside.lexed inside.made).groups own among).1
  omega

end

theorem ways_sequenceOf_append (text : Array UInt16) (first second : List Node) (point : Point) :
    (Node.sequenceOf (first ++ second)).ways text .forward point =
      ((Node.sequenceOf first).ways text .forward point).flatMap ((Node.sequenceOf second).ways text .forward) := by
  induction first generalizing point with
  | nil => exact (List.flatMap_singleton _ _).symm
  | cons node first ih =>
    simp only [Node.sequenceOf, List.cons_append, List.foldr_cons, Node.ways] at ih ⊢
    rw [List.flatMap_assoc]
    exact congrArg (List.flatMap · _) (funext ih)

theorem mem_ways_sequenceOf_append {text : Array UInt16} {first second : List Node} {point next : Point} :
    next ∈ (Node.sequenceOf (first ++ second)).ways text .forward point ↔
      ∃ middle ∈ (Node.sequenceOf first).ways text .forward point,
        next ∈ (Node.sequenceOf second).ways text .forward middle := by
  rw [ways_sequenceOf_append, List.mem_flatMap]

theorem units_again {text : Array UInt16} {span : Span} {position next : Nat}
    (order : span.start ≤ span.stop) (stop : span.stop ≤ text.size) (inside : position ≤ text.size)
    (again : Direction.forward.again? text span position = some next) :
    Span.units text ⟨position, next⟩ = Span.units text span := by
  obtain ⟨within, rfl, same⟩ := Direction.again?_forward again
  have whole : span.start + (span.stop - span.start) = span.stop := by omega
  have units := (sameUnits_iff text (by omega) (within inside)).mp same
  rw [whole] at units
  exact units.symm

theorem again_of_units {text : Array UInt16} {span : Span} {position next : Nat}
    (order : span.start ≤ span.stop) (stop : span.stop ≤ text.size) (forward : position ≤ next)
    (inside : next ≤ text.size) (same : Span.units text ⟨position, next⟩ = Span.units text span) :
    Direction.forward.again? text span position = some next := by
  have size := congrArg List.length same
  rw [Span.length_units text position inside, Span.length_units text span.start stop] at size
  have room : Direction.forward.room text position = text.size - position := rfl
  have whole : span.start + (span.stop - span.start) = span.stop := by omega
  have reach : position + (span.stop - span.start) = next := by omega
  have units : sameUnits text span.start position (span.stop - span.start) = true :=
    (sameUnits_iff text (by omega) (by omega)).mpr (by rw [whole, reach, same])
  simp only [Direction.again?]
  rw [if_neg (by omega), if_pos units, reach]

/-- Whatever way the parts of a pattern match, the units up to there are segments for its tokens, and
what the groups have recorded is what the names are bound to. -/
theorem segments_of_ways {text : Array UInt16} {survey : Survey} {allowed : Hole → Text → Prop}
    {met : Nat} {seen : List Text} {tokens : List Token} {pieces : List Lexeme} {nodes : List Node}
    (composed : Composed survey met seen tokens pieces nodes)
    (allow : ∀ hole inner body, .hole hole ∈ tokens → Inside survey (bodySource hole) inner body →
      ∀ met (point next : Point), point.position ≤ text.size →
        next ∈ (body.shift met).ways text .forward point →
          allowed hole (Span.units text ⟨point.position, next.position⟩))
    (bound : List (Text × Text)) (names : seen = bound.map Prod.fst) {point next : Point}
    (recorded : Recorded text survey met bound point.groups) (inside : point.position ≤ text.size)
    (member : next ∈ (Node.sequenceOf nodes).ways text .forward point) :
    ∃ segments final more, Segments allowed bound tokens segments final ∧
      Span.units text ⟨point.position, next.position⟩ = segments.flatten ∧
      Recorded text survey more final next.groups := by
  induction composed generalizing bound point with
  | nil met seen =>
    obtain rfl := List.mem_singleton.mp member
    exact ⟨[], bound, met, .nil bound, Span.units_of_le text (Nat.le_refl _), recorded⟩
  | @literal met seen tokens pieces nodes value rest ih =>
    obtain ⟨middle, before, after⟩ := mem_ways_sequenceOf_append.mp member
    obtain ⟨plain, ordered, groups⟩ := literal_plain false value
    obtain ⟨onward, accepts⟩ := Node.sound plain ordered point middle inside before
    have kept : ∀ index ≤ met, middle.groups index = point.groups index := fun index _ =>
      Node.ways_groups before (by rw [groups]; exact List.not_mem_nil)
    obtain ⟨segments, final, more, fits, units, records⟩ :=
      ih (fun hole inner body among => allow hole inner body (List.mem_cons_of_mem _ among)) bound names
        (recorded.mono (Nat.le_refl _) kept) (onward.inside inside) after
    refine ⟨_ :: segments, final, more, .literal ((literal_accepts_iff value _).mp accepts) fits, ?_, records⟩
    rw [List.flatten_cons, ← units, Span.units_append text onward.le (Node.ways_onward after).le]
  | @anonymous met seen hole tokens inner pieces body nodes unnamed within rest ih =>
    obtain ⟨middle, before, after⟩ := List.mem_flatMap.mp member
    have onward := Node.ways_onward before
    have kept : ∀ index ≤ met, middle.groups index = point.groups index := fun index below =>
      Node.ways_groups before (within.outside met below)
    obtain ⟨segments, final, more, fits, units, records⟩ :=
      ih (fun hole inner body among => allow hole inner body (List.mem_cons_of_mem _ among)) bound names
        (recorded.mono (Nat.le_add_right _ _) kept) (onward.inside inside) after
    have accept := allow hole inner body List.mem_cons_self within met point middle inside before
    refine ⟨_ :: segments, final, more, .anonymous unnamed accept fits, ?_, records⟩
    rw [List.flatten_cons, ← units, Span.units_append text onward.le (Node.ways_onward after).le]
  | @first met seen hole tokens inner pieces body nodes named fresh within own rest ih =>
    obtain ⟨middle, before, after⟩ := List.mem_flatMap.mp member
    have onward := Node.ways_onward before
    obtain ⟨reached, consumed, rfl⟩ := List.mem_map.mp before
    have unbound : bound.lookup hole.name = none :=
      (lookup_eq_none_iff_not_mem bound hole.name).mpr (names ▸ fresh)
    have between : Span.between point.position reached.position = ⟨point.position, reached.position⟩ := by
      rw [Span.between, Nat.min_eq_left onward.le, Nat.max_eq_right onward.le]
    rw [between] at after
    let landed : Point :=
      ⟨reached.position, reached.groups.record (met + 1) ⟨point.position, reached.position⟩⟩
    have inText : landed.position ≤ text.size := onward.inside inside
    have kept : ∀ index ≤ met, landed.groups index = point.groups index := fun index below =>
      (Groups.record_of_ne _ _ (by omega)).trans
        (Node.ways_groups consumed (within.outside (met + 1) (by omega)))
    have bind : Recorded text survey (met + 1 + captures inner)
        (bound ++ [(hole.name, Span.units text ⟨point.position, reached.position⟩)]) landed.groups :=
      (recorded.mono (by omega) kept).bind unbound inText onward.le own (by omega) (Groups.record_self ..)
    obtain ⟨segments, final, more, fits, units, records⟩ :=
      ih (fun hole inner body among => allow hole inner body (List.mem_cons_of_mem _ among))
        _ (by rw [names, List.map_append]; rfl) bind inText after
    have accept := allow hole inner body List.mem_cons_self within (met + 1) point reached inside consumed
    refine ⟨_ :: segments, final, more, .first named unbound accept fits, ?_, records⟩
    rw [List.flatten_cons, ← units, Span.units_append text onward.le (Node.ways_onward after).le]
  | @again met index seen hole tokens pieces nodes named old known rest ih =>
    obtain ⟨middle, before, after⟩ := List.mem_flatMap.mp member
    have onward := Node.ways_onward before
    obtain ⟨segment, same⟩ := exists_lookup_of_mem (names ▸ old)
    obtain ⟨other, span, lookup, _, record, order, stop, content⟩ := recorded hole.name segment same
    obtain rfl := Option.some.inj (lookup.symm.trans known)
    simp only [Node.ways, record] at before
    split at before
    next position again =>
      obtain rfl := List.mem_singleton.mp before
      obtain ⟨segments, final, more, fits, units, records⟩ :=
        ih (fun hole inner body among => allow hole inner body (List.mem_cons_of_mem _ among)) bound names
          (show Recorded text survey met bound (Point.mk position point.groups).groups from recorded)
          (onward.inside inside) after
      refine ⟨segment :: segments, final, more, .again named same fits, ?_, records⟩
      rw [List.flatten_cons, ← units, ← content, ← units_again order stop inside again,
        Span.units_append text onward.le (Node.ways_onward after).le]
    next => cases before

/-- Where the units fall into segments for the tokens, one of the ways to match gets to their end. -/
theorem ways_of_segments {text : Array UInt16} {survey : Survey} {allowed : Hole → Text → Prop}
    {met : Nat} {seen : List Text} {tokens : List Token} {pieces : List Lexeme} {nodes : List Node}
    (composed : Composed survey met seen tokens pieces nodes)
    (find : ∀ hole inner body, .hole hole ∈ tokens → Inside survey (bodySource hole) inner body →
      ∀ met, Complete text (allowed hole) ((body.shift met).ways text .forward))
    {bound : List (Text × Text)} (names : seen = bound.map Prod.fst) {point : Point}
    (recorded : Recorded text survey met bound point.groups) {segments : List Text}
    {final : List (Text × Text)} (fits : Segments allowed bound tokens segments final) {stop : Nat}
    (order : point.position ≤ stop) (inside : stop ≤ text.size)
    (units : Span.units text ⟨point.position, stop⟩ = segments.flatten) :
    ∃ groups, ⟨stop, groups⟩ ∈ (Node.sequenceOf nodes).ways text .forward point := by
  induction composed generalizing bound point segments with
  | nil met seen =>
    cases fits
    have size := Span.length_units text point.position inside
    rw [units, List.flatten_nil, List.length_nil] at size
    obtain rfl : stop = point.position := by omega
    exact ⟨point.groups, List.mem_singleton.mpr rfl⟩
  | @literal met seen tokens pieces nodes value rest ih =>
    obtain ⟨plain, _, groups⟩ := literal_plain false value
    cases fits with
    | literal literal others =>
      obtain ⟨middle, early, late, first, second⟩ := Span.units_split text order inside units
      obtain ⟨reached, before⟩ := Node.complete plain point middle early (Nat.le_trans late inside)
        ((literal_accepts_iff value _).mpr (first ▸ literal))
      have kept : ∀ index ≤ met, reached index = point.groups index := fun index _ =>
        Node.ways_groups before (by rw [groups]; exact List.not_mem_nil)
      obtain ⟨last, after⟩ :=
        ih (fun hole inner body among => find hole inner body (List.mem_cons_of_mem _ among)) names
          (show Recorded text survey met bound (Point.mk middle reached).groups from
            recorded.mono (Nat.le_refl _) kept) others late second
      exact ⟨last, mem_ways_sequenceOf_append.mpr ⟨_, before, after⟩⟩
  | @anonymous met seen hole tokens inner pieces body nodes unnamed within rest ih =>
    cases fits with
    | anonymous _ accept others =>
      obtain ⟨middle, early, late, first, second⟩ := Span.units_split text order inside units
      obtain ⟨reached, before⟩ := find hole inner body List.mem_cons_self within met point middle early
        (Nat.le_trans late inside) (first ▸ accept)
      have kept : ∀ index ≤ met, reached index = point.groups index := fun index below =>
        Node.ways_groups before (within.outside met below)
      obtain ⟨last, after⟩ :=
        ih (fun hole inner body among => find hole inner body (List.mem_cons_of_mem _ among)) names
          (show Recorded text survey _ bound (Point.mk middle reached).groups from
            recorded.mono (Nat.le_add_right _ _) kept) others late second
      exact ⟨last, List.mem_flatMap.mpr ⟨_, before, after⟩⟩
    | first named | again named =>
      rw [unnamed] at named
      cases named
  | @first met seen hole tokens inner pieces body nodes named fresh within own rest ih =>
    cases fits with
    | anonymous unnamed =>
      rw [named] at unnamed
      cases unnamed
    | first _ unbound accept others =>
      obtain ⟨middle, early, late, first, second⟩ := Span.units_split text order inside units
      obtain ⟨reached, consumed⟩ := find hole inner body List.mem_cons_self within (met + 1) point middle
        early (Nat.le_trans late inside) (first ▸ accept)
      let landed : Point := ⟨middle, reached.record (met + 1) ⟨point.position, middle⟩⟩
      have before : landed ∈
          (Node.group (met + 1) (body.shift (met + 1))).ways text .forward point := by
        refine List.mem_map.mpr ⟨_, consumed, ?_⟩
        rw [Span.between, Nat.min_eq_left early, Nat.max_eq_right early]
      have kept : ∀ index ≤ met, landed.groups index = point.groups index := fun index below =>
        (Groups.record_of_ne _ _ (by omega)).trans
          (Node.ways_groups consumed (within.outside (met + 1) (by omega)))
      have bind := (recorded.mono (show met ≤ met + 1 + captures inner by omega) kept).bind unbound
        (Nat.le_trans late inside) early own (by omega) (Groups.record_self ..)
      rw [first] at bind
      obtain ⟨last, after⟩ :=
        ih (fun hole inner body among => find hole inner body (List.mem_cons_of_mem _ among))
          (by rw [names, List.map_append]; rfl) bind others late second
      exact ⟨last, List.mem_flatMap.mpr ⟨_, before, after⟩⟩
    | again _ same =>
      have unbound := (lookup_eq_none_iff_not_mem bound hole.name).mpr (names ▸ fresh)
      rw [unbound] at same
      cases same
  | @again met index seen hole tokens pieces nodes named old known rest ih =>
    cases fits with
    | anonymous unnamed =>
      rw [named] at unnamed
      cases unnamed
    | first _ unbound =>
      exact absurd (names ▸ old) ((lookup_eq_none_iff_not_mem bound hole.name).mp unbound)
    | again _ same others =>
      obtain ⟨middle, early, late, first, second⟩ := Span.units_split text order inside units
      obtain ⟨other, span, lookup, _, record, forward, end_, content⟩ := recorded hole.name _ same
      obtain rfl := Option.some.inj (lookup.symm.trans known)
      have again := again_of_units forward end_ early (Nat.le_trans late inside) (first.trans content.symm)
      have before : (⟨middle, point.groups⟩ : Point) ∈ (Node.reference other).ways text .forward point := by
        simp only [Node.ways, record, again]
        exact List.mem_singleton.mpr rfl
      obtain ⟨last, after⟩ :=
        ih (fun hole inner body among => find hole inner body (List.mem_cons_of_mem _ among)) names
          (show Recorded text survey met bound (Point.mk middle point.groups).groups from recorded)
          others late second
      exact ⟨last, List.mem_flatMap.mpr ⟨_, before, after⟩⟩

end Emend.Pattern
