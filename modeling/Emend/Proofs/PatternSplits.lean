import Emend.Proofs.PatternInstances

/-! Which split of its text a match takes. A pattern without constraints is a row of elements: runs of literal units,
runs of blanks and holes. Of all splits that fit the row somewhere at one place, a match there takes the first, if they
are compared from left to right and each element decides by size: more blanks come first and a shorter hole does. -/

namespace Emend.Pattern

open Text Template Expression

inductive Element where
  | solid (run : Text)
  | blanks
  | hole (hole : Hole)
  deriving DecidableEq, Repr

namespace Element

/-- Put an element in front of others. Two runs of one kind make one run. -/
def onto : Element → List Element → List Element
  | solid run, solid more :: others => solid (run ++ more) :: others
  | blanks, blanks :: others => blanks :: others
  | element, others => element :: others

/-- Literal text falls into runs of blanks and of other units. -/
def ofLiteral (value : Text) : List Element :=
  value.foldr (fun u others => (if isBlank u then blanks else solid [u]).onto others) []

theorem ofLiteral_cons (u : UInt16) (value : Text) :
    ofLiteral (u :: value) = (if isBlank u then blanks else solid [u]).onto (ofLiteral value) := by
  rw [ofLiteral, List.foldr_cons, ← ofLiteral]

def ofToken : Token → List Element
  | .literal value => ofLiteral value
  | .hole own => [Element.hole own]

def bound? (bound : List (Text × Text)) (hole : Hole) : Option Text :=
  if hole.anonymous then none else bound.lookup hole.name

def Admits (bound : List (Text × Text)) : Element → Text → Prop
  | solid run, piece => piece = run
  | blanks, piece => ∀ u ∈ piece, isBlank u = true
  | hole own, piece =>
    match bound? bound own with
    | none => piece ≠ []
    | some first => piece = first

def binds (bound : List (Text × Text)) : Element → Text → List (Text × Text)
  | hole own, piece =>
    if own.anonymous = false ∧ bound.lookup own.name = none then bound ++ [(own.name, piece)] else bound
  | solid _, _ | blanks, _ => bound

section

variable {bound : List (Text × Text)} {own : Hole} {piece segment : Text}

theorem binds_anonymous (unnamed : own.anonymous = true) : (hole own).binds bound piece = bound := by
  simp [binds, unnamed]

theorem binds_first (named : own.anonymous = false) (fresh : bound.lookup own.name = none) :
    (hole own).binds bound piece = bound ++ [(own.name, piece)] := by
  simp [binds, named, fresh]

theorem binds_again (same : bound.lookup own.name = some segment) : (hole own).binds bound piece = bound := by
  simp [binds, same]

end

def Prefers : Element → Nat → Nat → Prop
  | solid _, _, _ => False
  | blanks, size, other => other < size
  | hole _, size, other => size < other

theorem Prefers.sub {element : Element} {start own other : Nat} (prefers : element.Prefers own other)
    (first : start ≤ own) (second : start ≤ other) : element.Prefers (own - start) (other - start) := by
  cases element with
  | solid run => exact prefers
  | blanks => exact Nat.sub_lt_sub_right second prefers
  | hole hole => exact Nat.sub_lt_sub_right first prefers

end Element

inductive Fits : List (Text × Text) → List Element → List Text → List (Text × Text) → Prop where
  | nil (bound : List (Text × Text)) : Fits bound [] [] bound
  | cons {bound final : List (Text × Text)} {element : Element} {elements : List Element} {piece : Text}
      {pieces : List Text} (admits : element.Admits bound piece)
      (rest : Fits (element.binds bound piece) elements pieces final) :
      Fits bound (element :: elements) (piece :: pieces) final

/-- One split comes before another: the first element where they differ prefers it. -/
inductive Precedes : List Element → List Text → List Text → Prop where
  | here {element : Element} {elements : List Element} {piece other : Text} {pieces others : List Text}
      (prefers : element.Prefers piece.length other.length) :
      Precedes (element :: elements) (piece :: pieces) (other :: others)
  | later {element : Element} {elements : List Element} {piece : Text} {pieces others : List Text}
      (rest : Precedes elements pieces others) :
      Precedes (element :: elements) (piece :: pieces) (piece :: others)

theorem Element.Prefers.trans {element : Element} {one two three : Nat} (first : element.Prefers one two)
    (second : element.Prefers two three) : element.Prefers one three := by
  cases element with
  | solid run => exact first
  | blanks => exact Nat.lt_trans second first
  | hole own => exact Nat.lt_trans first second

/-- The order is strict: it is transitive, and no split comes before itself. So only one split can come before all
others. -/
theorem Precedes.trans {elements : List Element} {one two three : List Text} (first : Precedes elements one two)
    (second : Precedes elements two three) : Precedes elements one three := by
  induction first generalizing three with
  | here prefers =>
    cases second with
    | here further => exact .here (prefers.trans further)
    | later _ => exact .here prefers
  | later _ ih =>
    cases second with
    | here prefers => exact .here prefers
    | later rest => exact .later (ih rest)

theorem Precedes.irrefl {elements : List Element} {pieces : List Text} : ¬ Precedes elements pieces pieces := by
  intro precedes
  induction pieces generalizing elements with
  | nil => cases precedes
  | cons piece pieces ih =>
    cases precedes with
    | @here element _ _ _ _ _ prefers =>
      cases element with
      | solid run => exact prefers
      | blanks | hole => exact Nat.lt_irrefl _ prefers
    | later rest => exact ih rest

/-- The parts of a pattern that an element stands for. A hole has its own. -/
def Element.nodes : Element → List Node
  | .solid run => run.map fun u => .unit (.single u)
  | .blanks => [.loop (.unit .blank) 0 none true]
  | .hole _ => []

/-- Elements after a run of blanks, of which these may be the rest. -/
def Element.pastBlanks : List Element → List Element
  | .blanks :: others => others
  | elements => elements

theorem literalNodes_eq (value : Text) :
    literalNodes false value = (Element.ofLiteral value).flatMap Element.nodes ∧
      literalNodes true value = (Element.pastBlanks (Element.ofLiteral value)).flatMap Element.nodes := by
  induction value with
  | nil => exact ⟨rfl, rfl⟩
  | cons u value ih =>
    obtain ⟨fresh, within⟩ := ih
    rw [Element.ofLiteral_cons, literalNodes, literalNodes]
    generalize Element.ofLiteral value = elements at fresh within
    by_cases blank : isBlank u = true
    · simp only [if_pos blank, Bool.false_eq_true, if_false, if_true, within]
      rcases elements with _ | ⟨_ | _ | _, elements⟩ <;> exact ⟨rfl, rfl⟩
    · simp only [if_neg blank, fresh]
      rcases elements with _ | ⟨_ | _ | _, elements⟩ <;> exact ⟨rfl, rfl⟩

section

variable {text : Array UInt16} {survey : Survey}

/-- The places where an element may end that starts at one place. Up to each of them stands a text that the element
admits, every such text ends at one of them, and they come in the order that the element prefers. -/
structure Places (text : Array UInt16) (bound : List (Text × Text)) (element : Element) (start : Nat)
    (stops : List Nat) : Prop where
  onward : ∀ stop ∈ stops, start ≤ stop ∧ stop ≤ text.size
  admits : ∀ stop ∈ stops, element.Admits bound (Span.units text ⟨start, stop⟩)
  complete : ∀ piece, element.Admits bound piece → piece <+: text.toList.drop start → start + piece.length ∈ stops
  ordered : stops.Pairwise element.Prefers

/-- The ways past an element end at its places and record what it binds. -/
structure Offers (text : Array UInt16) (survey : Survey) (met : Nat) (bound : List (Text × Text)) (element : Element)
    (point : Point) (ways : List Point) : Prop where
  places : Places text bound element point.position (ways.map Point.position)
  records : ∀ next ∈ ways,
    Recorded text survey met (element.binds bound (Span.units text ⟨point.position, next.position⟩)) next.groups

/-- What the first of all ways tells about the splits: if there is none, no split fits at the place, and if there is
one, it goes by the first of them. -/
inductive Leads (text : Array UInt16) (survey : Survey) (bound : List (Text × Text)) (elements : List Element)
    (point : Point) : Option Point → Prop where
  | nowhere (absent : ∀ pieces final, Fits bound elements pieces final →
      ¬ pieces.flatten <+: text.toList.drop point.position) : Leads text survey bound elements point none
  | first {next : Point} {pieces : List Text} {final : List (Text × Text)} {met : Nat}
      (order : point.position ≤ next.position) (fits : Fits bound elements pieces final)
      (units : Span.units text ⟨point.position, next.position⟩ = pieces.flatten)
      (recorded : Recorded text survey met final next.groups)
      (first : ∀ others last, Fits bound elements others last → others.flatten <+: text.toList.drop point.position →
        others = pieces ∨ Precedes elements pieces others) :
      Leads text survey bound elements point (some next)

theorem units_of_prefix_drop {piece : Text} {start : Nat} (stands : piece <+: text.toList.drop start) :
    Span.units text ⟨start, start + piece.length⟩ = piece := by
  rw [Span.units_eq, Nat.add_sub_cancel_left]
  exact (List.prefix_iff_eq_take.mp stands).symm

theorem le_size_of_prefix_drop {piece : Text} {start : Nat} (inside : start ≤ text.size)
    (stands : piece <+: text.toList.drop start) : start + piece.length ≤ text.size := by
  have short := stands.length_le
  have size : text.toList.length = text.size := Array.length_toList
  rw [List.length_drop, size] at short
  omega

theorem prefix_append {piece more : Text} {start : Nat} (stands : piece ++ more <+: text.toList.drop start) :
    piece <+: text.toList.drop start ∧ more <+: text.toList.drop (start + piece.length) := by
  refine ⟨(List.prefix_append piece more).trans stands, ?_⟩
  obtain ⟨rest, same⟩ := stands
  rw [← List.drop_drop, ← same, List.append_assoc, List.drop_left]
  exact List.prefix_append more rest

theorem Leads.nil {bound : List (Text × Text)} {point : Point} {met : Nat}
    (recorded : Recorded text survey met bound point.groups) : Leads text survey bound [] point (some point) := by
  refine .first (Nat.le_refl _) (.nil bound) (Span.units_of_le text (Nat.le_refl _)) recorded ?_
  intro others last fits _
  cases fits
  exact .inl rfl

/-- The first way past an element and what follows it goes to the first place from which there is a way on, and there
it goes on by the first one. -/
theorem Leads.cons {met : Nat} {bound : List (Text × Text)} {element : Element} {elements : List Element}
    {point : Point} {ways : List Point} (offers : Offers text survey met bound element point ways)
    {rest : Point → List Point}
    (later : ∀ next ∈ ways, Leads text survey
      (element.binds bound (Span.units text ⟨point.position, next.position⟩)) elements next (rest next).head?) :
    Leads text survey bound (element :: elements) point (ways.flatMap rest).head? := by
  -- A split that fits ends its first piece at one of the places, and the others stand from there on.
  have reach {piece : Text} {others : List Text} (admits : element.Admits bound piece)
      (stands : (piece :: others).flatten <+: text.toList.drop point.position) :
      ∃ next ∈ ways, Span.units text ⟨point.position, next.position⟩ = piece ∧
        others.flatten <+: text.toList.drop next.position := by
    obtain ⟨here, after⟩ := prefix_append stands
    obtain ⟨next, member, place⟩ := List.mem_map.mp (offers.places.complete piece admits here)
    exact ⟨next, member, by rw [place, units_of_prefix_drop here], by rwa [place]⟩
  have onward {next : Point} (member : next ∈ ways) := offers.places.onward _ (List.mem_map_of_mem member)
  rw [List.head?_flatMap]
  cases best : ways.findSome? fun next => (rest next).head? with
  | none =>
    rw [List.findSome?_eq_none_iff] at best
    refine .nowhere fun pieces final fits stands => ?_
    cases fits with
    | cons admits others =>
      obtain ⟨next, member, units, after⟩ := reach admits stands
      have leads := later next member
      rw [best next member, units] at leads
      cases leads with
      | nowhere absent => exact absent _ _ others after
  | some last =>
    obtain ⟨front, middle, back, rfl, hit, miss⟩ := List.findSome?_eq_some_iff.mp best
    have inside : middle ∈ front ++ middle :: back := List.mem_append_right _ List.mem_cons_self
    have leads := later middle inside
    rw [hit] at leads
    cases leads with
    | @first _ pieces final more order fits units recorded first =>
      have reached := onward inside
      have admits := offers.places.admits _ (List.mem_map_of_mem inside)
      refine .first (Nat.le_trans reached.1 order) (.cons admits fits) ?_ recorded ?_
      · rw [List.flatten_cons, ← units, Span.units_append text reached.1 order]
      rintro _ last (_ | ⟨admits, others⟩) stands
      obtain ⟨next, member, rfl, after⟩ := reach admits stands
      rcases List.mem_append.mp member with before | among
      · have leads := later next member
        rw [miss next before] at leads
        cases leads with
        | nowhere absent => exact absurd after (absent _ _ others)
      rcases List.mem_cons.mp among with rfl | behind
      · rcases first _ _ others after with rfl | precedes
        · exact .inl rfl
        · exact .inr (.later precedes)
      · have other := onward member
        have prefers : element.Prefers middle.position next.position := by
          have ordered := List.pairwise_map.mp offers.places.ordered
          exact (List.pairwise_cons.mp (List.pairwise_append.mp ordered).2.1).1 next behind
        refine .inr (.here ?_)
        rw [Span.length_units text _ reached.2, Span.length_units text _ other.2]
        exact prefers.sub reached.1 other.1

end

section

variable {text : Array UInt16} {survey : Survey}

theorem ways_unit (set : UnitSet) (point : Point) : (Node.unit set).ways text .forward point = [] ∨
    ∃ next, (Node.unit set).ways text .forward point = [next] ∧ point.position < next.position := by
  rw [Node.ways]
  split
  next u next read =>
    split
    · obtain ⟨_, rfl⟩ := Direction.read?_forward read
      exact .inr ⟨_, rfl, Nat.lt_succ_self _⟩
    · exact .inl rfl
  next => exact .inl rfl

/-- A loop over single units goes through the places where it may end from one end to the other. -/
theorem pairwise_optionalWays {body : Point → List Point} (indices : List Nat) (greedy : Bool)
    (single : ∀ point, body point = [] ∨ ∃ next, body point = [next] ∧ point.position < next.position) (count : Nat)
    (point : Point) :
    (optionalWays body indices greedy count point).Pairwise fun one two =>
      if greedy then two.position < one.position else one.position < two.position := by
  have forward : ∀ point : Point, ∀ next ∈ body { point with groups := point.groups.forget indices },
      point.position ≤ next.position := by
    intro point next member
    rcases single { point with groups := point.groups.forget indices } with none | ⟨only, same, moved⟩
    · rw [none] at member
      cases member
    · rw [same] at member
      obtain rfl := List.mem_singleton.mp member
      exact Nat.le_of_lt moved
  induction count generalizing point with
  | zero => exact List.pairwise_singleton _ _
  | succ count ih =>
    rw [optionalWays]
    rcases single { point with groups := point.groups.forget indices } with none | ⟨next, same, moved⟩
    · rw [none]
      cases greedy <;> exact List.pairwise_singleton _ _
    · have beyond : ∀ last ∈ optionalWays body indices greedy count next, point.position < last.position := by
        intro last member
        have reached := related_of_mem_optionalWays (fun one two => one.position ≤ two.position) greedy
          (fun _ => Nat.le_refl _) Nat.le_trans forward count next last member
        exact Nat.lt_of_lt_of_le moved reached
      rw [same, List.flatMap_cons, List.flatMap_nil, List.append_nil, if_neg (Nat.ne_of_gt moved)]
      cases greedy with
      | false => exact List.pairwise_cons.mpr ⟨beyond, ih next⟩
      | true => exact List.pairwise_append.mpr ⟨ih next, List.pairwise_singleton _ _, by simpa using beyond⟩

theorem prefix_cons_iff {u : UInt16} {run : Text} {position : Nat} :
    u :: run <+: text.toList.drop position ↔ text[position]? = some u ∧ run <+: text.toList.drop (position + 1) := by
  rw [← Array.getElem?_toList, ← List.head?_drop, ← List.tail_drop]
  cases text.toList.drop position with
  | nil => simp
  | cons v rest => simp [List.cons_prefix_cons, eq_comm]

theorem ways_solid (run : Text) (point : Point) :
    (Node.sequenceOf (Element.solid run).nodes).ways text .forward point =
      if run <+: text.toList.drop point.position then [⟨point.position + run.length, point.groups⟩] else [] := by
  induction run generalizing point with
  | nil => simp [Element.nodes, Node.sequenceOf, Node.ways]
  | cons u run ih =>
    have step : (Node.sequenceOf (Element.solid (u :: run)).nodes).ways text .forward point =
        ((Node.unit (.single u)).ways text .forward point).flatMap
          ((Node.sequenceOf (Element.solid run).nodes).ways text .forward) := rfl
    rw [step, Node.ways, Direction.read?]
    cases here : text[point.position]? with
    | none => simp [prefix_cons_iff, here]
    | some v =>
      by_cases same : v = u
      · subst same
        simp [prefix_cons_iff, here, contains_single, ih, Nat.add_assoc, Nat.add_comm 1]
      · simp [prefix_cons_iff, here, contains_single, same]

/-- A node whose language is what an element admits goes to the places of the element, if it goes to them in order. -/
theorem Places.of_language {accepted : Text → Prop} {ways : Point → List Point} (sound : Sound text accepted ways)
    (complete : Complete text accepted ways) {bound : List (Text × Text)} {element : Element}
    (same : ∀ piece, accepted piece ↔ element.Admits bound piece) {point : Point} (inside : point.position ≤ text.size)
    (ordered : (ways point).Pairwise fun one two => element.Prefers one.position two.position) :
    Places text bound element point.position ((ways point).map Point.position) where
  onward := by
    intro stop member
    obtain ⟨next, among, rfl⟩ := List.mem_map.mp member
    obtain ⟨onward, _⟩ := sound point next inside among
    exact ⟨onward.le, onward.inside inside⟩
  admits := by
    intro stop member
    obtain ⟨next, among, rfl⟩ := List.mem_map.mp member
    exact (same _).mp (sound point next inside among).2
  complete := by
    intro piece admits stands
    have units := units_of_prefix_drop stands
    obtain ⟨groups, among⟩ := complete point (point.position + piece.length) (Nat.le_add_right _ _)
      (le_size_of_prefix_drop inside stands) (units.symm ▸ (same piece).mpr admits)
    exact List.mem_map.mpr ⟨_, among, rfl⟩
  ordered := List.pairwise_map.mpr ordered

variable {met : Nat} {bound : List (Text × Text)} {point : Point} (inside : point.position ≤ text.size)
  (recorded : Recorded text survey met bound point.groups)
include inside recorded

theorem Offers.solid (run : Text) : Offers text survey met bound (.solid run) point
    ((Node.sequenceOf (Element.solid run).nodes).ways text .forward point) := by
  rw [ways_solid]
  split
  next stands =>
    refine ⟨⟨?_, ?_, ?_, List.pairwise_singleton _ _⟩, ?_⟩
    · rintro stop member
      obtain rfl := List.mem_singleton.mp member
      exact ⟨Nat.le_add_right _ _, le_size_of_prefix_drop inside stands⟩
    · rintro stop member
      obtain rfl := List.mem_singleton.mp member
      exact units_of_prefix_drop stands
    · rintro piece rfl _
      exact List.mem_singleton.mpr rfl
    · rintro next member
      obtain rfl := List.mem_singleton.mp member
      exact recorded
  next absent =>
    refine ⟨⟨?_, ?_, ?_, List.Pairwise.nil⟩, ?_⟩
    · rintro stop member
      cases member
    · rintro stop member
      cases member
    · rintro piece rfl stands
      exact absurd stands absent
    · rintro next member
      cases member

theorem Offers.blanks : Offers text survey met bound .blanks point
    ((Node.sequenceOf Element.blanks.nodes).ways text .forward point) := by
  have alone : (Node.sequenceOf Element.blanks.nodes).ways text .forward point =
      (Node.loop (.unit .blank) 0 none true).ways text .forward point := by
    simp [Element.nodes, Node.sequenceOf, Node.ways]
  rw [alone]
  have ordered := pairwise_optionalWays [] true (@ways_unit text .blank) (text.size - point.position) point
  refine ⟨.of_language (Node.sound rfl rfl) (Node.complete rfl) accepts_blanks inside ?_, ?_⟩
  · simpa [Node.ways, Node.groups, requiredRuns, requiredWays, optionalRuns, Direction.room, Element.Prefers]
      using ordered
  · intro next member
    exact recorded.mono (Nat.le_refl _) fun index _ => Node.ways_groups member List.not_mem_nil

omit recorded in
theorem Inside.places {hole : Hole} {inner : List Lexeme} {body : Node}
    (within : Inside survey (bodySource hole) inner body) (free : hole.constraint = none)
    (fresh : Element.bound? bound hole = none) (entered : Nat) :
    Places text bound (.hole hole) point.position
      (((body.shift entered).ways text .forward point).map Point.position) := by
  have both := within.matches_unconstrained free text
  have same (piece : Text) : InLanguage hole piece ↔ (Element.hole hole).Admits bound piece := by
    simp only [InLanguage, free, Element.Admits, fresh]
  refine .of_language (both.sound entered) (both.complete entered) same inside ?_
  rw [bodySource, free, Option.getD_none] at within
  obtain rfl := within.unconstrained
  have ways : (Node.shift entered (.sequence (.loop (.unit (.complement .empty)) 1 none false) .empty)).ways text
      .forward point = ((Node.unit (.complement .empty)).ways text .forward point).flatMap fun next =>
        optionalWays ((Node.unit (.complement .empty)).ways text .forward) [] false (text.size - next.position)
          next := by
    simp [Node.shift, Node.ways, Node.groups, Groups.forget, requiredRuns, requiredWays, optionalRuns, Direction.room]
  rw [ways]
  rcases ways_unit (.complement .empty) point with none | ⟨next, only, _⟩
  · rw [none]
    exact List.Pairwise.nil
  · rw [only, List.flatMap_singleton]
    exact pairwise_optionalWays [] false (ways_unit (.complement .empty)) _ next

section

variable {hole : Hole} {inner : List Lexeme} {body : Node} (within : Inside survey (bodySource hole) inner body)
  (free : hole.constraint = none)
include within free

theorem Offers.anonymous (unnamed : hole.anonymous = true) :
    Offers text survey (met + captures inner) bound (.hole hole) point ((body.shift met).ways text .forward point) := by
  refine ⟨within.places inside free (by simp [Element.bound?, unnamed]) met, fun next member => ?_⟩
  rw [Element.binds_anonymous unnamed]
  exact recorded.mono (Nat.le_add_right _ _) fun index below => Node.ways_groups member (within.outside met below)

theorem Offers.first (named : hole.anonymous = false) (unbound : bound.lookup hole.name = none)
    (own : survey.names.lookup hole.name = some (met + 1)) :
    Offers text survey (met + 1 + captures inner) bound (.hole hole) point
      ((Node.group (met + 1) (body.shift (met + 1))).ways text .forward point) := by
  have places : Places text bound (.hole hole) point.position
      (((Node.group (met + 1) (body.shift (met + 1))).ways text .forward point).map Point.position) := by
    rw [Node.ways, List.map_map]
    exact within.places inside free (by simp [Element.bound?, unbound]) (met + 1)
  refine ⟨places, fun next member => ?_⟩
  obtain ⟨order, inText⟩ := places.onward _ (List.mem_map_of_mem member)
  obtain ⟨reached, consumed, rfl⟩ := List.mem_map.mp member
  rw [Element.binds_first named unbound]
  refine (recorded.mono (by omega) fun index below => ?_).bind unbound inText order own (by omega) ?_
  · exact (Groups.record_of_ne _ _ (by omega)).trans
      (Node.ways_groups consumed (within.outside (met + 1) (by omega)))
  · have between : Span.between point.position reached.position = ⟨point.position, reached.position⟩ := by
      rw [Span.between, Nat.min_eq_left order, Nat.max_eq_right order]
    exact (Groups.record_self _ _ _).trans (congrArg some between)

end

theorem Offers.again {hole : Hole} {segment : Text} (named : hole.anonymous = false)
    (same : bound.lookup hole.name = some segment) {index : Nat} (known : survey.names.lookup hole.name = some index) :
    Offers text survey met bound (.hole hole) point ((Node.reference index).ways text .forward point) := by
  have repeated : Element.bound? bound hole = some segment := by simp [Element.bound?, named, same]
  obtain ⟨other, span, lookup, _, record, order, stop, content⟩ := recorded hole.name segment same
  obtain rfl := Option.some.inj (lookup.symm.trans known)
  have only {next : Point} (member : next ∈ (Node.reference other).ways text .forward point) :
      Direction.forward.again? text span point.position = some next.position ∧ next.groups = point.groups := by
    simp only [Node.ways, record] at member
    split at member
    next again =>
      obtain rfl := List.mem_singleton.mp member
      exact ⟨again, rfl⟩
    next => cases member
  refine ⟨⟨?_, ?_, ?_, ?_⟩, ?_⟩
  · intro stop member
    obtain ⟨next, among, rfl⟩ := List.mem_map.mp member
    have onward := Node.ways_onward among
    exact ⟨onward.le, onward.inside inside⟩
  · intro place member
    obtain ⟨next, among, rfl⟩ := List.mem_map.mp member
    simp only [Element.Admits, repeated]
    rw [units_again order stop inside (only among).1, content]
  · intro piece admits stands
    simp only [Element.Admits, repeated] at admits
    subst admits
    have again := again_of_units order stop (Nat.le_add_right _ _) (le_size_of_prefix_drop inside stands)
      ((units_of_prefix_drop stands).trans content.symm)
    simp only [Node.ways, record, again, List.map_singleton]
    exact List.mem_singleton.mpr rfl
  · simp only [Node.ways, record]
    split
    · exact List.pairwise_singleton _ _
    · exact List.Pairwise.nil
  · intro next member
    rw [Element.binds_again same, (only member).2]
    exact recorded

theorem Leads.literal {elements : List Element} {rest : Point → List Point}
    (later : ∀ next : Point, next.position ≤ text.size → Recorded text survey met bound next.groups →
      Leads text survey bound elements next (rest next).head?) {runs : List Element}
    (runs_literal : ∀ hole, Element.hole hole ∉ runs) :
    Leads text survey bound (runs ++ elements) point
      (((Node.sequenceOf (runs.flatMap Element.nodes)).ways text .forward point).flatMap rest).head? := by
  induction runs generalizing point with
  | nil =>
    rw [List.flatMap_nil, List.nil_append]
    have stay : (Node.sequenceOf []).ways text .forward point = [point] := rfl
    rw [stay, List.flatMap_singleton]
    exact later point inside recorded
  | cons run runs ih =>
    have others : ∀ hole, Element.hole hole ∉ runs :=
      fun hole member => runs_literal hole (List.mem_cons_of_mem _ member)
    rw [List.flatMap_cons, ways_sequenceOf_append, List.flatMap_assoc, List.cons_append]
    have offers : Offers text survey met bound run point
        ((Node.sequenceOf run.nodes).ways text .forward point) := by
      cases run with
      | solid units => exact .solid inside recorded units
      | blanks => exact .blanks inside recorded
      | hole own => exact absurd List.mem_cons_self (runs_literal own)
    have keeps (piece : Text) : run.binds bound piece = bound := by
      cases run with
      | solid _ | blanks => rfl
      | hole own => exact absurd List.mem_cons_self (runs_literal own)
    refine .cons offers fun next member => ?_
    have kept := offers.records next member
    rw [keeps] at kept ⊢
    exact ih (offers.places.onward _ (List.mem_map_of_mem member)).2 kept others

end

theorem ofLiteral_literal (value : Text) (hole : Hole) : Element.hole hole ∉ Element.ofLiteral value := by
  induction value with
  | nil => exact List.not_mem_nil
  | cons u value ih =>
    rw [Element.ofLiteral_cons]
    generalize Element.ofLiteral value = elements at ih
    rcases elements with _ | ⟨_ | _ | _, elements⟩ <;> split <;> simp_all [Element.onto]

/-- The parts of a pattern without constraints go by the first of its splits. -/
theorem Composed.leads {text : Array UInt16} {survey : Survey} {met : Nat} {seen : List Text} {tokens : List Token}
    {pieces : List Lexeme} {nodes : List Node} (composed : Composed survey met seen tokens pieces nodes)
    (free : ∀ hole, .hole hole ∈ tokens → hole.constraint = none) {bound : List (Text × Text)}
    (names : seen = bound.map Prod.fst) {point : Point} (inside : point.position ≤ text.size)
    (recorded : Recorded text survey met bound point.groups) :
    Leads text survey bound (tokens.flatMap Element.ofToken) point
      ((Node.sequenceOf nodes).ways text .forward point).head? := by
  induction composed generalizing bound point with
  | nil => exact .nil recorded
  | literal value rest ih =>
    rw [(literalNodes_eq value).1, ways_sequenceOf_append]
    refine .literal inside recorded (fun next inText kept => ?_) (ofLiteral_literal value)
    exact ih (fun hole member => free hole (List.mem_cons_of_mem _ member)) names inText kept
  | anonymous unnamed within rest ih =>
    have offers := Offers.anonymous inside recorded within (free _ List.mem_cons_self) unnamed
    refine .cons offers fun next member => ?_
    have kept := offers.records next member
    rw [Element.binds_anonymous unnamed] at kept ⊢
    exact ih (fun hole member => free hole (List.mem_cons_of_mem _ member)) names
      (offers.places.onward _ (List.mem_map_of_mem member)).2 kept
  | @first _ _ hole _ _ _ _ _ named fresh within own rest ih =>
    have unbound : bound.lookup hole.name = none :=
      (lookup_eq_none_iff_not_mem bound hole.name).mpr (names ▸ fresh)
    have offers := Offers.first inside recorded within (free _ List.mem_cons_self) named unbound own
    refine .cons offers fun next member => ?_
    have kept := offers.records next member
    rw [Element.binds_first named unbound] at kept ⊢
    exact ih (fun hole member => free hole (List.mem_cons_of_mem _ member)) (by rw [names, List.map_append]; rfl)
      (offers.places.onward _ (List.mem_map_of_mem member)).2 kept
  | again named old known rest ih =>
    obtain ⟨segment, same⟩ := exists_lookup_of_mem (names ▸ old)
    have offers := Offers.again inside recorded named same known
    refine .cons offers fun next member => ?_
    have kept := offers.records next member
    rw [Element.binds_again same] at kept ⊢
    exact ih (fun hole member => free hole (List.mem_cons_of_mem _ member)) names
      (offers.places.onward _ (List.mem_map_of_mem member)).2 kept

theorem Fits.past_literal {bound final : List (Text × Text)} {runs elements : List Element} {pieces : List Text}
    (runs_literal : ∀ hole, Element.hole hole ∉ runs) (fits : Fits bound (runs ++ elements) pieces final) :
    ∃ others, Fits bound elements others final := by
  induction runs generalizing pieces with
  | nil => exact ⟨pieces, fits⟩
  | cons run runs ih =>
    cases fits with
    | cons _ rest =>
      cases run with
      | solid _ | blanks => exact ih (fun hole member => runs_literal hole (List.mem_cons_of_mem _ member)) rest
      | hole own => exact absurd List.mem_cons_self (runs_literal own)

theorem Fits.names {bound final : List (Text × Text)} {tokens : List Token} {pieces : List Text}
    (fits : Fits bound (tokens.flatMap Element.ofToken) pieces final) :
    final.map Prod.fst = tokens.foldl seenAfter (bound.map Prod.fst) := by
  induction tokens generalizing bound pieces with
  | nil =>
    cases fits
    rfl
  | cons token tokens ih =>
    cases token with
    | literal value =>
      obtain ⟨others, rest⟩ := fits.past_literal (ofLiteral_literal value)
      exact ih rest
    | hole hole =>
      cases fits with
      | cons _ rest =>
        rw [ih rest, List.foldl_cons]
        congr 1
        cases unnamed : hole.anonymous with
        | true => rw [Element.binds_anonymous unnamed, seenAfter_anonymous unnamed]
        | false =>
          cases same : bound.lookup hole.name with
          | none =>
            have outside := (lookup_eq_none_iff_not_mem bound hole.name).mp same
            rw [Element.binds_first unnamed same, seenAfter_first unnamed outside, List.map_append]
            rfl
          | some segment => rw [Element.binds_again same, seenAfter_again unnamed (mem_of_lookup same)]

theorem Fits.nodup {bound final : List (Text × Text)} {elements : List Element} {pieces : List Text}
    (fits : Fits bound elements pieces final) (once : (bound.map Prod.fst).Nodup) : (final.map Prod.fst).Nodup := by
  induction fits with
  | nil => exact once
  | @cons _ _ element _ _ _ _ _ ih =>
    apply ih
    cases element with
    | solid _ | blanks => exact once
    | hole own =>
      rw [Element.binds]
      split
      next fresh => exact nodup_keys_concat once fresh.2 _
      next => exact once

/-- Of all splits that fit a pattern where a match starts, the match takes the first: its text falls into the pieces of
that split, and its captures are what the split binds. -/
theorem matchesIn_first_split {source : Text} {pattern : Pattern} {tokens : List Token}
    (compile : Pattern.compile source = .ok pattern) (read : Template.tokens source = .ok tokens)
    (free : ∀ hole, .hole hole ∈ tokens → hole.constraint = none) (text : Text) {found : Match}
    (member : found ∈ pattern.matchesIn text) :
    ∃ pieces final,
      Fits [] ((trimOuter tokens).flatMap Element.ofToken) pieces final ∧ found.text = pieces.flatten ∧
      (found.captures = final.filter fun pair => pair.1 != reservedName) ∧
      ∀ others last, Fits [] ((trimOuter tokens).flatMap Element.ofToken) others last →
        others.flatten <+: text.drop found.start →
          others = pieces ∨ Precedes ((trimOuter tokens).flatMap Element.ofToken) pieces others := by
  obtain ⟨others, survey, parts, nodes, compiled⟩ := compiled_of_compile compile
  obtain rfl := Except.ok.inj (compiled.read.symm.trans read)
  obtain ⟨start, point, hit, _, inside, rfl⟩ := mem_matchesFrom member
  have recorded : Recorded text.toArray survey 0 [] (Point.mk start fun _ => none).groups :=
    fun _ _ none => nomatch none
  have leads := compiled.composed.leads (fun hole among => free hole (mem_trimOuter.mp among)) rfl inside recorded
  rw [← compiled.node, ← Node.matchAt_eq, hit] at leads
  cases leads with
  | @first _ pieces final met order fits units recorded first =>
    have holes : final.map Prod.fst = pattern.holes := compiled.holes ▸ fits.names
    have captures := captures_of_recorded compiled.names holes (fits.nodup List.Pairwise.nil) start recorded
    exact ⟨pieces, final, fits, units, captures, first⟩

theorem matchesIn_first_split_repeated :
    ∃ pattern tokens found pieces final,
      Pattern.compile (units "f( :[x] , :[x] :[y])") = .ok pattern ∧
      Template.tokens (units "f( :[x] , :[x] :[y])") = .ok tokens ∧
      (∀ hole, .hole hole ∈ tokens → hole.constraint = none) ∧
      found ∈ pattern.matchesIn (units "f(a,b ,  a,b  c),)") ∧
      Fits [] ((trimOuter tokens).flatMap Element.ofToken) pieces final ∧ found.text = pieces.flatten ∧
      (found.captures = final.filter fun pair => pair.1 != reservedName) ∧
      ∀ others last, Fits [] ((trimOuter tokens).flatMap Element.ofToken) others last →
        others.flatten <+: (units "f(a,b ,  a,b  c),)").drop found.start →
          others = pieces ∨ Precedes ((trimOuter tokens).flatMap Element.ofToken) pieces others := by
  have compiles : (match Pattern.compile (units "f( :[x] , :[x] :[y])") with
      | .ok pattern => decide (pattern.matchesIn (units "f(a,b ,  a,b  c),)") ≠ [])
      | .error _ => false) = true := by decide +kernel
  have reads : (match Template.tokens (units "f( :[x] , :[x] :[y])") with
      | .ok tokens => tokens.all fun token =>
        match token with
        | .hole hole => hole.constraint.isNone
        | .literal _ => true
      | .error _ => false) = true := by decide +kernel
  split at compiles
  · next pattern compile =>
    split at reads
    · next tokens read =>
      have free : ∀ hole, .hole hole ∈ tokens → hole.constraint = none := by
        intro hole member
        exact Option.isNone_iff_eq_none.mp (List.all_eq_true.mp reads _ member)
      obtain ⟨found, member⟩ := List.exists_mem_of_ne_nil _ (of_decide_eq_true compiles)
      obtain ⟨pieces, final, facts⟩ := matchesIn_first_split compile read free (units "f(a,b ,  a,b  c),)") member
      exact ⟨pattern, tokens, found, pieces, final, compile, read, free, member, facts⟩
    · cases reads
  · cases compiles

end Emend.Pattern
