import Emend.Proofs.NodeWays
import Emend.Proofs.Stretches

/-! The language of a node without assertions and references, said without positions, groups or
backtracking. Such a node ends at a position in one of its ways exactly when the units up to there
are in its language, so the matcher's shortcuts for loops lose nothing and add nothing. -/

namespace Emend.Expression

/-- A node of which only units decide: it holds no assertion and no reference. -/
def Node.isPlain : Node → Bool
  | empty | unit _ => true
  | sequence first second | choice first second => first.isPlain && second.isPlain
  | group _ body | loop body _ _ _ => body.isPlain
  | reference _ | look .. | start | stop | wordBoundary _ => false

/-- The bounds of every loop are in order. -/
def Node.isOrdered : Node → Bool
  | sequence first second | choice first second => first.isOrdered && second.isOrdered
  | group _ body | look _ _ body => body.isOrdered
  | loop body least most _ => most.all (least ≤ ·) && body.isOrdered
  | empty | unit _ | reference _ | start | stop | wordBoundary _ => true

/-- A text belongs to the language of a plain node. Assertions and references have none. -/
def Node.accepts : Node → Text → Prop
  | empty, t => t = []
  | unit set, t => ∃ u, set.contains u = true ∧ t = [u]
  | sequence first second, t => ∃ left right, t = left ++ right ∧ first.accepts left ∧ second.accepts right
  | choice first second, t => first.accepts t ∨ second.accepts t
  | group _ body, t => body.accepts t
  | loop body least most _, t =>
    ∃ pieces : List Text, t = pieces.flatten ∧ (∀ piece ∈ pieces, body.accepts piece) ∧
      least ≤ pieces.length ∧ ∀ bound, most = some bound → pieces.length ≤ bound
  | reference _, _ | look .., _ | start, _ | stop, _ | wordBoundary _, _ => False

private theorem length_le_length_flatten (pieces : List Text) (occupied : ∀ piece ∈ pieces, piece ≠ []) :
    pieces.length ≤ pieces.flatten.length := by
  induction pieces with
  | nil => simp
  | cons piece pieces ih =>
    have size := ih fun piece member => occupied piece (List.mem_cons_of_mem _ member)
    have positive := List.length_pos_iff.mpr (occupied piece List.mem_cons_self)
    simp only [List.length_cons, List.flatten_cons, List.length_append]
    omega

private theorem nil_mem_of_length_flatten_lt (pieces : List Text)
    (many : pieces.flatten.length < pieces.length) : [] ∈ pieces := by
  by_cases member : [] ∈ pieces
  · exact member
  · have long := length_le_length_flatten pieces fun piece inside empty => member (empty ▸ inside)
    omega

/-- Pieces of a text of at most `room` units, rearranged for a loop: as many as it requires come
first, and none after them is empty. -/
private theorem exists_required_optional {accepted : Text → Prop} (pieces : List Text)
    (each : ∀ piece ∈ pieces, accepted piece) {least : Nat} (enough : least ≤ pieces.length)
    (room : Nat) (short : pieces.flatten.length ≤ room) :
    ∃ first later : List Text, first.flatten ++ later.flatten = pieces.flatten ∧
      (∀ piece ∈ first, accepted piece) ∧ (∀ piece ∈ later, accepted piece ∧ piece ≠ []) ∧
      first.length = requiredRuns least room ∧ later.length ≤ pieces.length - least := by
  have keep : ∀ items : List Text, (items.filter (· ≠ [])).flatten = items.flatten := by
    intro items
    induction items with
    | nil => rfl
    | cons item items ih => cases item <;> simp_all
  by_cases few : least ≤ room + 1
  · refine ⟨pieces.take least, (pieces.drop least).filter (· ≠ []), ?_, ?_, ?_, ?_, ?_⟩
    · rw [keep, ← List.flatten_append, List.take_append_drop]
    · intro piece member
      exact each piece (List.mem_of_mem_take member)
    · intro piece member
      obtain ⟨member, occupied⟩ := List.mem_filter.mp member
      exact ⟨each piece (List.mem_of_mem_drop member), by simpa using occupied⟩
    · rw [List.length_take, requiredRuns, Nat.min_eq_left few, Nat.min_eq_left enough]
    · exact Nat.le_trans (List.length_filter_le _ _) (Nat.le_of_eq List.length_drop)
  · have occupied : ∀ piece ∈ pieces.filter (· ≠ []), piece ≠ [] := by
      intro piece member
      simpa using (List.mem_filter.mp member).2
    have long := length_le_length_flatten _ occupied
    rw [keep] at long
    have nothing := nil_mem_of_length_flatten_lt pieces (by omega)
    refine ⟨pieces.filter (· ≠ []) ++
      List.replicate (room + 1 - (pieces.filter (· ≠ [])).length) [], [], ?_, ?_, ?_, ?_, ?_⟩
    · rw [List.flatten_append, List.flatten_replicate_nil, keep, List.append_nil, List.flatten_nil,
        List.append_nil]
    · intro piece member
      rcases List.mem_append.mp member with member | member
      · exact each piece (List.mem_filter.mp member).1
      · obtain rfl := List.eq_of_mem_replicate member
        exact each [] nothing
    · simp
    · rw [List.length_append, List.length_replicate, requiredRuns, Nat.min_eq_right (by omega)]
      omega
    · simp

/-- The units between two positions fall into a number of accepted pieces. -/
def Pieces (text : Array UInt16) (accepted : Text → Prop) (count start stop : Nat) : Prop :=
  ∃ pieces : List Text, Span.units text ⟨start, stop⟩ = pieces.flatten ∧
    (∀ piece ∈ pieces, accepted piece) ∧ pieces.length = count

section

variable {text : Array UInt16} {accepted : Text → Prop} {body : Point → List Point}
  {indices : List Nat}

theorem Pieces.zero (position : Nat) : Pieces text accepted 0 position position :=
  ⟨[], by simp [Span.units_of_le], by simp, rfl⟩

theorem Pieces.cons {count a b c : Nat} (first : a ≤ b) (second : b ≤ c)
    (accept : accepted (Span.units text ⟨a, b⟩)) (rest : Pieces text accepted count b c) :
    Pieces text accepted (count + 1) a c := by
  obtain ⟨pieces, joined, each, length⟩ := rest
  refine ⟨Span.units text ⟨a, b⟩ :: pieces, ?_, ?_, by rw [List.length_cons, length]⟩
  · rw [List.flatten_cons, ← joined, Span.units_append text first second]
  · intro piece member
    rcases List.mem_cons.mp member with rfl | member
    · exact accept
    · exact each piece member

theorem Pieces.append {one two a b c : Nat} (first : a ≤ b) (second : b ≤ c)
    (left : Pieces text accepted one a b) (right : Pieces text accepted two b c) :
    Pieces text accepted (one + two) a c := by
  obtain ⟨before, joinedBefore, eachBefore, rfl⟩ := left
  obtain ⟨after, joinedAfter, eachAfter, rfl⟩ := right
  refine ⟨before ++ after, ?_, ?_, List.length_append⟩
  · rw [List.flatten_append, ← joinedBefore, ← joinedAfter, Span.units_append text first second]
  · intro piece member
    exact (List.mem_append.mp member).elim (eachBefore piece) (eachAfter piece)

/-- An empty piece may be added any number of times, and of more pieces than units one is empty. -/
theorem Pieces.pump {count start stop : Nat} (pieces : Pieces text accepted count start stop)
    (many : stop - start < count) (inside : stop ≤ text.size) (more : Nat) :
    Pieces text accepted (count + more) start stop := by
  obtain ⟨pieces, joined, each, rfl⟩ := pieces
  have nothing : accepted [] := by
    have size := Span.length_units text start inside
    rw [joined] at size
    exact each [] (nil_mem_of_length_flatten_lt pieces (by omega))
  refine ⟨pieces ++ List.replicate more [], ?_, ?_, by simp⟩
  · rw [joined, List.flatten_append, List.flatten_replicate_nil, List.append_nil]
  · intro piece member
    rcases List.mem_append.mp member with member | member
    · exact each piece member
    · obtain rfl := List.eq_of_mem_replicate member
      exact nothing

/-- Inside the text, a body goes on to the right and consumes accepted texts only. -/
def Sound (text : Array UInt16) (accepted : Text → Prop) (body : Point → List Point) : Prop :=
  ∀ point next, point.position ≤ text.size → next ∈ body point →
    Onward text point next ∧ accepted (Span.units text ⟨point.position, next.position⟩)

theorem Sound.requiredWays (sound : Sound text accepted body) (count : Nat) {point next : Point}
    (inside : point.position ≤ text.size) (member : next ∈ requiredWays body indices count point) :
    Onward text point next ∧ Pieces text accepted count point.position next.position := by
  induction count generalizing point with
  | zero =>
    obtain rfl := List.mem_singleton.mp member
    exact ⟨.refl text next, .zero next.position⟩
  | succ count ih =>
    obtain ⟨middle, first, later⟩ := List.mem_flatMap.mp member
    obtain ⟨onward, accept⟩ := sound { point with groups := point.groups.forget indices } _ inside first
    have step : Onward text point middle := ⟨onward.le, onward.inside⟩
    obtain ⟨further, pieces⟩ := ih (step.inside inside) later
    exact ⟨step.trans further, .cons step.le further.le accept pieces⟩

theorem Sound.optionalWays (sound : Sound text accepted body) (greedy : Bool) (count : Nat)
    {point next : Point} (inside : point.position ≤ text.size)
    (member : next ∈ optionalWays body indices greedy count point) :
    Onward text point next ∧
      ∃ made ≤ count, Pieces text accepted made point.position next.position := by
  induction count generalizing point with
  | zero =>
    obtain rfl := List.mem_singleton.mp member
    exact ⟨.refl text next, 0, Nat.le_refl 0, .zero next.position⟩
  | succ count ih =>
    rcases mem_optionalWays_succ.mp member with rfl | ⟨middle, first, _, later⟩
    · exact ⟨.refl text next, 0, Nat.zero_le _, .zero next.position⟩
    · obtain ⟨onward, accept⟩ := sound { point with groups := point.groups.forget indices } _ inside first
      have step : Onward text point middle := ⟨onward.le, onward.inside⟩
      obtain ⟨further, made, fewer, pieces⟩ := ih (step.inside inside) later
      exact ⟨step.trans further, made + 1, Nat.succ_le_succ fewer,
        .cons step.le further.le accept pieces⟩

/-- Leaving out required runs beyond the units that are left changes no language: what is left out
would have been empty. -/
theorem Sound.loopWays (sound : Sound text accepted body) {least : Nat} {most : Option Nat}
    (ordered : most.all (least ≤ ·) = true) (greedy : Bool) {point middle next : Point}
    (inside : point.position ≤ text.size)
    (before : middle ∈ Expression.requiredWays body indices
      (requiredRuns least (Direction.forward.room text point.position)) point)
    (after : next ∈ Expression.optionalWays body indices greedy
      (optionalRuns least most (Direction.forward.room text middle.position)) middle) :
    ∃ count, least ≤ count ∧ (∀ bound, most = some bound → count ≤ bound) ∧
      Pieces text accepted count point.position next.position := by
  obtain ⟨early, required⟩ := sound.requiredWays _ inside before
  obtain ⟨late, made, fewer, optional⟩ := sound.optionalWays greedy _ (early.inside inside) after
  have bounded : ∀ bound, most = some bound → least + made ≤ bound := by
    rintro bound rfl
    have order : least ≤ bound := by simpa using ordered
    simp only [optionalRuns] at fewer
    omega
  have joined := required.append early.le late.le optional
  refine ⟨least + made, Nat.le_add_right _ _, bounded, ?_⟩
  by_cases few : least ≤ Direction.forward.room text point.position + 1
  · rwa [requiredRuns, Nat.min_eq_left few] at joined
  · have room : Direction.forward.room text point.position = text.size - point.position := rfl
    have stop := (early.trans late).inside inside
    rw [requiredRuns, Nat.min_eq_right (by omega)] at joined
    have pumped := joined.pump (by omega) stop (least - (Direction.forward.room text point.position + 1))
    rwa [show Direction.forward.room text point.position + 1 + made +
      (least - (Direction.forward.room text point.position + 1)) = least + made by omega] at pumped

/-- Inside the text, a body ends wherever the units up to there are accepted. -/
def Complete (text : Array UInt16) (accepted : Text → Prop) (body : Point → List Point) : Prop :=
  ∀ (point : Point) (stop : Nat), point.position ≤ stop → stop ≤ text.size →
    accepted (Span.units text ⟨point.position, stop⟩) → ∃ groups, ⟨stop, groups⟩ ∈ body point

theorem Complete.requiredWays (complete : Complete text accepted body) (indices : List Nat)
    (pieces : List Text) (each : ∀ piece ∈ pieces, accepted piece) (point : Point) {stop : Nat}
    (order : point.position ≤ stop) (inside : stop ≤ text.size)
    (joined : Span.units text ⟨point.position, stop⟩ = pieces.flatten) :
    ∃ groups, ⟨stop, groups⟩ ∈ requiredWays body indices pieces.length point := by
  induction pieces generalizing point with
  | nil =>
    have size := Span.length_units text point.position inside
    rw [joined, List.flatten_nil, List.length_nil] at size
    obtain rfl : stop = point.position := by omega
    exact ⟨point.groups, List.mem_singleton.mpr rfl⟩
  | cons piece pieces ih =>
    obtain ⟨middle, first, second, left, right⟩ := Span.units_split text order inside joined
    obtain ⟨groups, member⟩ := complete { point with groups := point.groups.forget indices } middle
      first (Nat.le_trans second inside) (left ▸ each piece List.mem_cons_self)
    obtain ⟨last, reached⟩ := ih (fun piece member => each piece (List.mem_cons_of_mem _ member))
      ⟨middle, groups⟩ second right
    exact ⟨last, List.mem_flatMap.mpr ⟨_, member, reached⟩⟩

theorem Complete.optionalWays (complete : Complete text accepted body) (indices : List Nat)
    (greedy : Bool) (pieces : List Text) (each : ∀ piece ∈ pieces, accepted piece ∧ piece ≠ [])
    (count : Nat) (fewer : pieces.length ≤ count) (point : Point) {stop : Nat}
    (order : point.position ≤ stop) (inside : stop ≤ text.size)
    (joined : Span.units text ⟨point.position, stop⟩ = pieces.flatten) :
    ∃ groups, ⟨stop, groups⟩ ∈ optionalWays body indices greedy count point := by
  induction pieces generalizing point count with
  | nil =>
    have size := Span.length_units text point.position inside
    rw [joined, List.flatten_nil, List.length_nil] at size
    obtain rfl : stop = point.position := by omega
    refine ⟨point.groups, ?_⟩
    cases count with
    | zero => exact List.mem_singleton.mpr rfl
    | succ count => exact mem_optionalWays_succ.mpr (.inl rfl)
  | cons piece pieces ih =>
    obtain ⟨count, rfl⟩ : ∃ fewer, count = fewer + 1 :=
      Nat.exists_eq_succ_of_ne_zero (by rw [List.length_cons] at fewer; omega)
    obtain ⟨middle, first, second, left, right⟩ := Span.units_split text order inside joined
    obtain ⟨accept, occupied⟩ := each piece List.mem_cons_self
    obtain ⟨groups, member⟩ := complete { point with groups := point.groups.forget indices } middle
      first (Nat.le_trans second inside) (left ▸ accept)
    have moved : middle ≠ point.position := by
      rintro rfl
      exact occupied (left ▸ Span.units_of_le text (Nat.le_refl _))
    obtain ⟨last, reached⟩ := ih (fun piece member => each piece (List.mem_cons_of_mem _ member))
      count (Nat.le_of_succ_le_succ fewer) ⟨middle, groups⟩ second right
    exact ⟨last, mem_optionalWays_succ.mpr (.inr ⟨_, member, moved, reached⟩)⟩

/-- Some empty pieces may be dropped, and those that are needed may all come first, so the runs that
a loop allows itself are enough. -/
theorem Complete.loopWays (complete : Complete text accepted body) {least : Nat} {most : Option Nat}
    (greedy : Bool) (pieces : List Text) (each : ∀ piece ∈ pieces, accepted piece)
    (enough : least ≤ pieces.length) (bounded : ∀ bound, most = some bound → pieces.length ≤ bound)
    {point : Point} {stop : Nat} (order : point.position ≤ stop) (inside : stop ≤ text.size)
    (joined : Span.units text ⟨point.position, stop⟩ = pieces.flatten) :
    ∃ groups, ⟨stop, groups⟩ ∈ (Expression.requiredWays body indices
      (requiredRuns least (Direction.forward.room text point.position)) point).flatMap fun next =>
        Expression.optionalWays body indices greedy
          (optionalRuns least most (Direction.forward.room text next.position)) next := by
  obtain ⟨first, later, cut, eachFirst, eachLater, runs, fewer⟩ :=
    exists_required_optional pieces each enough (Direction.forward.room text point.position)
      (by
        have size := Span.length_units text point.position inside
        rw [joined] at size
        exact Nat.le_trans (Nat.le_of_eq size) (Nat.sub_le_sub_right inside _))
  rw [← cut] at joined
  obtain ⟨middle, early, late, left, right⟩ := Span.units_split text order inside joined
  obtain ⟨groups, before⟩ := complete.requiredWays indices first eachFirst point early
    (Nat.le_trans late inside) left
  have short := length_le_length_flatten later fun piece member => (eachLater piece member).2
  have size := Span.length_units text middle inside
  rw [right] at size
  obtain ⟨last, after⟩ := complete.optionalWays indices greedy later eachLater
    (optionalRuns least most (Direction.forward.room text middle))
    (by
      have room : Direction.forward.room text middle = text.size - middle := rfl
      cases most with
      | none => simp only [optionalRuns]; omega
      | some bound =>
        have limit := bounded bound rfl
        simp only [optionalRuns]
        omega)
    ⟨middle, groups⟩ late inside right
  exact ⟨last, List.mem_flatMap.mpr ⟨_, runs ▸ before, after⟩⟩

end

/-- Whatever way a plain node takes, it has consumed a text of its language. -/
theorem Node.sound {text : Array UInt16} {node : Node} (plain : node.isPlain = true)
    (ordered : node.isOrdered = true) : Sound text node.accepts (node.ways text .forward) := by
  induction node with
  | empty =>
    intro point next inside member
    refine ⟨ways_onward member, ?_⟩
    obtain rfl := List.mem_singleton.mp member
    exact Span.units_of_le text (Nat.le_refl _)
  | unit set =>
    intro point next inside member
    refine ⟨ways_onward member, ?_⟩
    simp only [ways] at member
    split at member
    next u after read =>
      split at member
      next accept =>
        obtain rfl := List.mem_singleton.mp member
        simp only [Direction.read?, Option.map_eq_some_iff, Prod.mk.injEq] at read
        obtain ⟨_, found, rfl, rfl⟩ := read
        exact ⟨_, accept, Span.units_succ text found⟩
      next => cases member
    next => cases member
  | sequence first second firstIh secondIh =>
    simp only [isPlain, isOrdered, Bool.and_eq_true] at plain ordered
    intro point next inside member
    refine ⟨ways_onward member, ?_⟩
    obtain ⟨middle, before, after⟩ := List.mem_flatMap.mp member
    obtain ⟨early, left⟩ := firstIh plain.1 ordered.1 point middle inside before
    obtain ⟨late, right⟩ := secondIh plain.2 ordered.2 middle next (early.inside inside) after
    exact ⟨_, _, (Span.units_append text early.le late.le).symm, left, right⟩
  | choice first second firstIh secondIh =>
    simp only [isPlain, isOrdered, Bool.and_eq_true] at plain ordered
    intro point next inside member
    rcases List.mem_append.mp member with left | right
    · obtain ⟨onward, accept⟩ := firstIh plain.1 ordered.1 point next inside left
      exact ⟨onward, .inl accept⟩
    · obtain ⟨onward, accept⟩ := secondIh plain.2 ordered.2 point next inside right
      exact ⟨onward, .inr accept⟩
  | group index body ih =>
    intro point next inside member
    refine ⟨ways_onward member, ?_⟩
    obtain ⟨middle, within, rfl⟩ := List.mem_map.mp member
    exact (ih plain ordered point middle inside within).2
  | loop body least most greedy ih =>
    simp only [isOrdered, Bool.and_eq_true] at ordered
    intro point next inside member
    refine ⟨ways_onward member, ?_⟩
    obtain ⟨middle, before, after⟩ := List.mem_flatMap.mp member
    obtain ⟨count, enough, bounded, pieces, joined, each, rfl⟩ :=
      (ih plain ordered.2).loopWays ordered.1 greedy inside before after
    exact ⟨pieces, joined, each, enough, bounded⟩
  | reference | look | start | stop | wordBoundary => cases plain

/-- A plain node finds every text of its language: backtracking comes to each of them. -/
theorem Node.complete {text : Array UInt16} {node : Node} (plain : node.isPlain = true) :
    Complete text node.accepts (node.ways text .forward) := by
  induction node with
  | empty =>
    intro point stop order inside accept
    have size := Span.length_units text point.position inside
    rw [show Span.units text ⟨point.position, stop⟩ = [] from accept, List.length_nil] at size
    obtain rfl : stop = point.position := by omega
    exact ⟨point.groups, List.mem_singleton.mpr rfl⟩
  | unit set =>
    intro point stop order inside accept
    obtain ⟨u, member, single⟩ := accept
    have size := Span.length_units text point.position inside
    rw [single, List.length_singleton] at size
    obtain rfl : stop = point.position + 1 := by omega
    have found := Span.getElem?_of_units text single
    refine ⟨point.groups, ?_⟩
    simp [ways, Direction.read?, found, member]
  | sequence first second firstIh secondIh =>
    simp only [isPlain, Bool.and_eq_true] at plain
    intro point stop order inside accept
    obtain ⟨left, right, cut, acceptLeft, acceptRight⟩ := accept
    obtain ⟨middle, early, late, rfl, rfl⟩ := Span.units_split text order inside cut
    obtain ⟨groups, before⟩ := firstIh plain.1 point middle early (Nat.le_trans late inside) acceptLeft
    obtain ⟨last, after⟩ := secondIh plain.2 ⟨middle, groups⟩ stop late inside acceptRight
    exact ⟨last, List.mem_flatMap.mpr ⟨_, before, after⟩⟩
  | choice first second firstIh secondIh =>
    simp only [isPlain, Bool.and_eq_true] at plain
    intro point stop order inside accept
    rcases accept with left | right
    · obtain ⟨groups, member⟩ := firstIh plain.1 point stop order inside left
      exact ⟨groups, List.mem_append_left _ member⟩
    · obtain ⟨groups, member⟩ := secondIh plain.2 point stop order inside right
      exact ⟨groups, List.mem_append_right _ member⟩
  | group index body ih =>
    intro point stop order inside accept
    obtain ⟨groups, member⟩ := ih plain point stop order inside accept
    exact ⟨_, List.mem_map.mpr ⟨_, member, rfl⟩⟩
  | loop body least most greedy ih =>
    intro point stop order inside accept
    obtain ⟨pieces, joined, each, enough, bounded⟩ := accept
    exact (ih plain).loopWays greedy pieces each enough bounded order inside joined
  | reference | look | start | stop | wordBoundary => cases plain

end Emend.Expression
